import Videre.Sdk.Journal
import Videre.Sdk.MemStore

/-! # Held orders and their markers

The venue holds a body once a POST of it was placed. One contract is relied on: an
acceptance is of a held body, and a held body is neither handed back for signing nor
refused for good. The reconcile pass then never forgets a held order. The submit arm
releases on every fault, so it forgets one whose reply was lost.
-/

namespace Videre.Sdk

open Interaction

def Event.places (venue : VenueId) (body : Bytes) : Event → Bool
  | .posted _ v _ b placed => placed && v == venue && b == body
  | _ => false

/-- Whether the venue holds the body: some POST placed it. -/
def Held {S : Type} (venue : VenueId) (body : Bytes) (w : World S) : Prop :=
  ∃ e ∈ w.log, e.places venue body = true

instance {S : Type} (venue : VenueId) (body : Bytes) (w : World S) :
    Decidable (Held venue body w) :=
  inferInstanceAs (Decidable (∃ e ∈ w.log, e.places venue body = true))

theorem Held.of_append {S : Type} {venue : VenueId} {body : Bytes} {es : List Event}
    {v v' : World S} (log : v'.log = v.log ++ es) (silent : ∀ e ∈ es, e.places venue body = false)
    (held : Held venue body v') : Held venue body v := by
  obtain ⟨e, he, places⟩ := held
  rw [log] at he
  rcases List.mem_append.mp he with old | new
  · exact ⟨e, old, places⟩
  · rw [silent e new] at places
    simp at places

theorem held_iff_pos {S : Type} {venue : VenueId} {body : Bytes} {w : World S} :
    Held venue body w ↔ 0 < w.log.countP (Event.places venue body) :=
  List.countP_pos_iff.symm

theorem Held.mono {S : Type} {venue : VenueId} {body : Bytes} {es : List Event} {w w' : World S}
    (held : Held venue body w) (log : w'.log = w.log ++ es) : Held venue body w' := by
  obtain ⟨e, he, places⟩ := held
  exact ⟨e, log ▸ List.mem_append_left es he, places⟩

section Held

variable {S : Type} [KeeperStores S] [NexumSdk]
  {R : Rely Op (World S) (Input (KeeperStores.Edit S))} {k : Keeper} {tick : Tick}
  {w₀ w w' : World S}

/-- What a venue owes a keeper that reconciles. -/
structure VenueContract (R : Rely Op (World S) (Input (KeeperStores.Edit S))) (venue : VenueId)
    (policy : FaultPolicy) : Prop where
  accepts : ∀ pass key body receipt w,
    R (.reply pass venue key body) (.answered (.ok (.accepted receipt))) w → Held venue body w
  signs : ∀ pass key body tx w,
    R (.reply pass venue key body) (.answered (.ok (.requiresSigning tx))) w →
      ¬ Held venue body w
  refuses : ∀ pass key body fault w,
    R (.reply pass venue key body) (.answered (.error fault)) w →
      policy.isTerminal fault = true → ¬ Held venue body w

/-- The submit arm is never answered with a fault on a body the venue holds. -/
def NoLostReply (R : Rely Op (World S) (Input (KeeperStores.Edit S))) (venue : VenueId) : Prop :=
  ∀ key body fault w,
    R (.reply .commitments venue key body) (.answered (.error fault)) w → ¬ Held venue body w

/-- Every reservation is filed under the keeper's key of its body. -/
def WellKeyed (venue : VenueId) (s : S) : Prop :=
  ∀ key n body, KeeperStores.marker s key = some (.reserved n body) →
    key = submissionKey venue body

/-- Every body the venue holds has a RESERVED or COMMITTED marker under its submission key. -/
def Remembered (venue : VenueId) (w : World S) : Prop :=
  ∀ body, Held venue body w →
    ∃ marker, KeeperStores.marker w.store (submissionKey venue body) = some marker

/-- The sweeps of one keeper. -/
def SweepsOf (k : Keeper) (c : Call) (_ : World S) : Prop :=
  ∃ tick, c = .run k tick

/-- The invariant: a held body is committed, or reserved as itself. -/
structure Accounted (venue : VenueId) (w : World S) : Prop where
  keyed : WellKeyed venue w.store
  marked : ∀ body, Held venue body w →
    KeeperStores.marker w.store (submissionKey venue body) = some .committed ∨
      ∃ n, KeeperStores.marker w.store (submissionKey venue body) = some (.reserved n body)

theorem WellKeyed.write {venue : VenueId} {s : S} {jw : JournalWrite} (keyed : WellKeyed venue s)
    (own : ∀ n body, jw.leaves (KeeperStores.fresh S) = some (.reserved n body) →
      jw.key = submissionKey venue body) : WellKeyed venue (KeeperStores.write jw s) := by
  intro key n body held
  by_cases same : key = jw.key
  · rw [same] at held ⊢
    rw [marker_write_self] at held
    exact own n body held
  · rw [marker_write_other same] at held
    exact keyed key n body held

theorem Accounted.post {pass : Pass} {key : String} {body : Bytes} {placed : Bool} {n : UInt64}
    (account : Accounted k.venue w)
    (reserved : KeeperStores.marker w.store key = some (.reserved n body)) :
    Accounted k.venue (w.record (.posted pass k.venue key body placed)) := by
  refine ⟨account.keyed, ?_⟩
  intro b held
  by_cases same : b = body
  · right
    rw [same, ← account.keyed key n body reserved]
    exact ⟨n, reserved⟩
  · refine account.marked b (Held.of_append rfl ?_ held)
    intro e posted
    rw [List.mem_singleton.mp posted]
    simp [Event.places, Ne.symm same]

/-- A write to a key keeps the account, given what becomes of the bodies held under it. -/
theorem Accounted.write {jw : JournalWrite} (account : Accounted k.venue w)
    (keyed : ∀ n body, jw.leaves (KeeperStores.fresh S) = some (.reserved n body) →
      jw.key = submissionKey k.venue body)
    (marked : ∀ body, Held k.venue body w → submissionKey k.venue body = jw.key →
      jw.leaves (KeeperStores.fresh S) = some .committed ∨
        ∃ n, jw.leaves (KeeperStores.fresh S) = some (.reserved n body)) :
    Accounted k.venue (w.write k.venue jw) := by
  refine ⟨account.keyed.write keyed, ?_⟩
  intro body held
  have before : Held k.venue body w := Held.of_append rfl (by simp [Event.places]) held
  rw [World.write_store]
  by_cases same : submissionKey k.venue body = jw.key
  · rw [same, marker_write_self]
    exact marked body before same
  · rw [marker_write_other same]
    exact account.marked body before

theorem Step.accounted (step : Step R k tick w₀ w w') (path : Path R k tick w₀ w)
    (contract : VenueContract R k.venue k.faultPolicy) (replied : NoLostReply R k.venue)
    (account : Accounted k.venue w) : Accounted k.venue w' := by
  -- Under a RESERVED key only the reserved body can be held.
  have alone : ∀ {key : String} {n : UInt64} {body b : Bytes},
      KeeperStores.marker w.store key = some (.reserved n body) → Held k.venue b w →
        submissionKey k.venue b = key → b = body := by
    intro key n body b reserved held same
    rw [← same] at reserved
    rcases account.marked b held with committed | ⟨m, marked⟩
    · simp [committed] at reserved
    · rw [marked] at reserved
      cases reserved
      rfl
  cases step with
  | store s same =>
      constructor
      · intro key n body held
        exact account.keyed key n body ((same key).symm.trans held)
      · intro body held
        rw [same]
        exact account.marked body held
  | poll rests swept rely =>
      constructor
      · intro key n body held
        exact account.keyed key n body ((World.edited_marker _ _ _).symm.trans held)
      · intro body held
        rw [World.record_store, World.edited_marker]
        exact account.marked body (Held.of_append rfl (by simp [Event.places]) held)
  | reserve asked unmarked =>
      apply account.write
      · intro n body leaves
        cases leaves
        rfl
      · intro b held same
        rcases account.marked b held with committed | ⟨n, marked⟩
        · simp [same, JournalWrite.key, unmarked] at committed
        · simp [same, JournalWrite.key, unmarked] at marked
  | post reserved own rely =>
      obtain ⟨n, marked⟩ := path.reserved reserved rfl
      exact account.post marked
  | repost listed untouched rests rely =>
      exact account.post ((path.frame untouched).trans (marker_of_share listed))
  | answer posted rely =>
      refine ⟨account.keyed, ?_⟩
      intro body held
      exact account.marked body (Held.of_append rfl (by simp [Event.places]) held)
  | @settle pass key body result jw answered owes =>
      obtain ⟨n, reserved⟩ := path.reserved answered rfl
      rcases owed_cases owes with ⟨rfl, released⟩ | ⟨rfl, _⟩ | ⟨m, rfl⟩
      · obtain ⟨-, v, rely, log⟩ := path.relied answered
        have unheld : ¬ Held k.venue body v := by
          cases result with
          | ok outcome =>
              cases outcome with
              | accepted receipt => simp [releases] at released
              | requiresSigning tx => exact contract.signs _ _ _ _ _ rely
          | error fault =>
              cases pass with
              | reconcile => exact contract.refuses _ _ _ _ _ rely released
              | commitments => exact replied _ _ _ _ rely
        apply account.write (by simp [JournalWrite.leaves])
        intro b held same
        rw [alone reserved held same] at held
        exact absurd (Held.of_append log (by simp [Event.places]) held) unheld
      · exact account.write (by simp [JournalWrite.leaves]) (fun _ _ _ => .inl rfl)
      · apply account.write
        · intro n' b leaves
          cases leaves
          exact account.keyed _ n _ reserved
        · intro b held same
          rw [alone reserved held same]
          exact .inr ⟨_, rfl⟩

theorem held_orders_remembered {s : S} {h : Host S}
    (contract : VenueContract R k.venue k.faultPolicy) (replied : NoLostReply R k.venue)
    (keyed : WellKeyed k.venue s)
    (reach : Reaches R (SweepsOf k) (Host.idle ⟨s, []⟩) h) : Remembered k.venue h.world := by
  have account : Accounted k.venue h.world := by
    apply reach.invariant (Host.idle_sound _)
    · refine ⟨keyed, ?_⟩
      intro body held
      simp [Held, Host.idle] at held
    · intro v edits account
      constructor
      · intro key n body held
        exact account.keyed key n body ((World.edited_marker _ _ _).symm.trans held)
      · intro body held
        rw [World.edited_marker]
        exact account.marked body held
    · intro c w₀ v v' sweep path step account
      obtain ⟨tick, rfl⟩ := sweep
      exact step.accounted path contract replied account
  intro body held
  rcases account.marked body held with committed | ⟨n, reserved⟩
  · exact ⟨_, committed⟩
  · exact ⟨_, reserved⟩

end Held

open scoped MemStore

/-- A venue over a store that does not fault: it accepts a body it holds, and a reply may
be lost. -/
def lossy (o : Op) (i : Input MemStore.Edit) (w : World MemStore) : Bool :=
  match o, i with
  | .reply _ venue _ body, .answered (.ok (.accepted _)) => decide (Held venue body w)
  | .reply _ _ _ _, .answered (.error .timeout) => true
  | .reply _ _ _ _, .answered _ => false
  | _, .fault _ | _, .torn _ _ => false
  | _, _ => true

def lossyVenue : Rely Op (World MemStore) (Input MemStore.Edit) := fun o i w => lossy o i w = true

instance : ∀ o i w, Decidable (lossyVenue o i w) := fun o i w =>
  inferInstanceAs (Decidable (lossy o i w = true))

theorem lossyVenue_contract (venue : VenueId) :
    VenueContract lossyVenue venue defaultFaultPolicy where
  accepts _ _ _ _ _ rely := of_decide_eq_true rely
  signs _ _ _ _ _ rely := by simp [lossyVenue, lossy] at rely
  refuses _ _ _ fault _ rely terminal := by
    cases fault with
    | timeout => simp [defaultFaultPolicy, retryAction] at terminal
    | _ => simp [lossyVenue, lossy] at rely

/-- The same venue, its replies lost only by the reconcile pass. -/
def prompt (o : Op) (i : Input MemStore.Edit) (w : World MemStore) : Bool :=
  match o, i with
  | .reply .commitments venue _ body, .answered (.error fault) =>
      lossy o (.answered (.error fault)) w && ! decide (Held venue body w)
  | _, _ => lossy o i w

def promptVenue : Rely Op (World MemStore) (Input MemStore.Edit) := fun o i w =>
  prompt o i w = true

instance : ∀ o i w, Decidable (promptVenue o i w) := fun o i w =>
  inferInstanceAs (Decidable (prompt o i w = true))

theorem promptVenue_lossy {o : Op} {i : Input MemStore.Edit} {w : World MemStore}
    (rely : promptVenue o i w) : lossyVenue o i w := by
  unfold promptVenue prompt at rely
  split at rely
  · exact (Bool.and_eq_true _ _ ▸ rely).1
  · exact rely

theorem promptVenue_contract (venue : VenueId) :
    VenueContract promptVenue venue defaultFaultPolicy where
  accepts _ _ _ _ _ rely := (lossyVenue_contract venue).accepts _ _ _ _ _ (promptVenue_lossy rely)
  signs _ _ _ _ _ rely := (lossyVenue_contract venue).signs _ _ _ _ _ (promptVenue_lossy rely)
  refuses _ _ _ _ _ rely := (lossyVenue_contract venue).refuses _ _ _ _ _ (promptVenue_lossy rely)

theorem promptVenue_replied (venue : VenueId) : NoLostReply promptVenue venue := by
  intro key body fault w rely
  simp only [promptVenue, prompt, Bool.and_eq_true, Bool.not_eq_true', decide_eq_false_iff_not]
    at rely
  exact rely.2

theorem stubWorld_keyed (venue : VenueId) : WellKeyed venue stubWorld.store := by
  intro key n body reserved
  simp [stubWorld, MemStore.single, MemStore.edit, MemStore.empty, KeeperStores.marker] at reserved

theorem single_sweeps {calls : List (Call × List (Input MemStore.Edit))}
    (stub : ∀ p ∈ calls, p.1 = .run stubKeeper stubTick) :
    ∀ p ∈ calls, ∀ v, anyCall p.1 v → SweepsOf stubKeeper p.1 v :=
  fun p hp _ _ => ⟨_, stub p hp⟩

/-- A sweep torn with its POST placed, and a reconcile pass whose reply is lost. -/
theorem held_orders_remembered_stub :
    Remembered stubKeeper.venue (lived promptVenue anyCall
      [(.run stubKeeper stubTick, [.ok, .ok, .ok, .ok, .polled (.submit stubBody) [], .ok, .ok,
        .sent true]),
      (.run stubKeeper stubTick, [.ok, .sent true, .answered (.error .timeout)])] stubWorld) :=
  held_orders_remembered (promptVenue_contract _) (promptVenue_replied _) (stubWorld_keyed _)
    (Reaches.lived (single_sweeps (by simp)) (by decide))

def lostReplySweep : List (Input MemStore.Edit) :=
  [.ok, .ok, .ok, .ok, .polled (.submit stubBody) [], .ok, .ok, .sent true,
    .answered (.error .timeout), .ok, .ok, .ok]

def forgetfulWorld : World MemStore :=
  lived lossyVenue anyCall [(.run stubKeeper stubTick, lostReplySweep)] stubWorld

/-- The submit arm releases the reservation of an order the venue holds. -/
theorem held_order_forgotten :
    VenueContract lossyVenue stubKeeper.venue stubKeeper.faultPolicy ∧
      Reaches lossyVenue (SweepsOf stubKeeper) (Host.idle stubWorld)
        (Host.idle forgetfulWorld) ∧
      Held stubKeeper.venue stubBody forgetfulWorld ∧
      KeeperStores.marker forgetfulWorld.store (submissionKey stubKeeper.venue stubBody) = none ∧
      ¬ Remembered stubKeeper.venue forgetfulWorld := by
  have reach : Reaches lossyVenue (SweepsOf stubKeeper) (Host.idle stubWorld)
      (Host.idle forgetfulWorld) := Reaches.lived (single_sweeps (by simp)) (by decide)
  have held : Held stubKeeper.venue stubBody forgetfulWorld := by decide
  have unmarked : KeeperStores.marker forgetfulWorld.store
      (submissionKey stubKeeper.venue stubBody) = none := by decide
  refine ⟨lossyVenue_contract _, reach, held, unmarked, ?_⟩
  intro remembered
  obtain ⟨marker, marked⟩ := remembered stubBody held
  rw [unmarked] at marked
  simp at marked

end Videre.Sdk
