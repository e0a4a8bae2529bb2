import Videre.Interaction.Transcript
import Videre.Sdk.Faultless
import Videre.Sdk.Journal
import Videre.Sdk.Once

/-! # Transactions to sign

A transaction the venue hands back is in the report, and the report is the return
value of a sweep that no store fault ends. The release of its order is written before
that, so a fault that ends the sweep later leaves neither the report nor the
reservation. The calls whose faults a sweep goes on after are three: the commit of a
fresh acceptance, the clearing of a refusal marker, and the read that buckets a
commitment after a retry action.
-/

namespace Videre.Sdk

open Interaction Relation

def Op.failure? : (o : Op) → o.Ans → Option Fault
  | .read _, .error f | .write _ _, .error f | .retrier _, .error f => some f
  | _, _ => none

/-- Whether a sweep goes on when an operation faults, by the operation before it. -/
def bestEffort : Option Op → Op → Bool
  | some (.reply .commitments _ _ _), .write _ (.commit _) => true
  | _, .retrier (.clearRefusal _) => true
  | some (.retrier (.apply _ _ _)), .read (.get _) => true
  | _, _ => false

theorem bestEffort_read {prev : Option Op} {q : Query} (other : ∀ c, q ≠ .get c) :
    bestEffort prev (.read q) = false := by
  unfold bestEffort
  split <;> simp_all

theorem bestEffort_reserve (prev : Option Op) (venue : VenueId) (key : String) (body : Bytes) :
    bestEffort prev (.write venue (.reserve key body)) = false := by
  unfold bestEffort
  split <;> simp_all

section Faults

variable {S : Type} [KeeperStores S]

theorem failure?_of_step {o : Op} {i : Input (KeeperStores.Edit S)} {w w' : World S} {a : o.Ans}
    (moves : (machine S).step o i w = some (a, w')) : (o.failure? a).isSome = i.faults := by
  cases o <;> cases i <;> cases moves <;> rfl

/-- A store call that faults leaves the log and every marker. -/
theorem faulted_world {o : Op} {i : Input (KeeperStores.Edit S)} {w w' : World S} {a : o.Ans}
    (moves : (machine S).step o i w = some (a, w')) (faulted : i.faults = true) :
    w'.log = w.log ∧ ∀ key, KeeperStores.marker w'.store key = KeeperStores.marker w.store key := by
  cases i with
  | fault f => cases o <;> cases moves <;> exact ⟨rfl, fun _ => rfl⟩
  | torn f landed =>
      cases o <;> cases moves
      exact ⟨rfl, fun _ => World.edited_marker _ _ _⟩
  | _ => cases faulted

end Faults

/-- A call of the keeper ends at the first fault it does not go on after. -/
abbrev Stops {α : Type} (prev : Option Op) (x : KeeperM α) (Q : Option Op → α → Prop) : Prop :=
  Strict Op.failure? bestEffort Q prev x.run

namespace Stops

variable {α β : Type} {prev : Option Op} {Q : Option Op → α → Prop}

theorem read {q : Query} {Q : Option Op → q.Ans → Prop} (ends : bestEffort prev (.read q) = false)
    (holds : ∀ v, Q (some (.read q)) v) :
    Stops prev (ExceptT.mk (Program.perform (Op.read q)) : KeeperM q.Ans) Q := by
  intro a
  cases a with
  | ok v => exact holds v
  | error f => simp [Op.failure?, ends]

theorem write {venue : VenueId} {jw : JournalWrite} {Q : Option Op → Unit → Prop}
    (ends : bestEffort prev (.write venue jw) = false)
    (holds : ∀ v, Q (some (.write venue jw)) v) : Stops prev (KeeperM.write venue jw) Q := by
  intro a
  cases a with
  | ok v => exact holds v
  | error f => simp [Op.failure?, ends]

theorem apply {c : CommitmentRef} {action : RetryAction} {tick : Tick}
    {Q : Option Op → Unit → Prop} (holds : ∀ v, Q (some (.retrier (.apply c action tick))) v) :
    Stops prev (KeeperM.apply c action tick) Q := by
  intro a
  cases a with
  | ok v => exact holds v
  | error f => simp [Op.failure?, bestEffort]

theorem poll {c : CommitmentRef} {params : Bytes} {tick : Tick} {Q : Option Op → Outcome → Prop}
    (holds : ∀ outcome, Q (some (.poll c params tick)) outcome) :
    Stops prev (KeeperM.poll c params tick) Q :=
  holds

theorem submit {pass : Pass} {venue : VenueId} {key : String} {body : Bytes}
    {Q : Option Op → SubmitResult → Prop}
    (holds : ∀ result, Q (some (.reply pass venue key body)) result) :
    Stops prev (KeeperM.submit pass venue key body) Q :=
  fun _ => holds

theorem attempt_write {venue : VenueId} {jw : JournalWrite}
    {Q : Option Op → Except Fault Unit → Prop} (goesOn : bestEffort prev (.write venue jw) = true)
    (holds : ∀ v, Q (some (.write venue jw)) v) :
    Stops prev (KeeperM.attempt (KeeperM.write venue jw)) Q :=
  Strict.tolerated goesOn holds

theorem attempt_clearRefusal {c : CommitmentRef} {Q : Option Op → Except Fault Unit → Prop}
    (holds : ∀ v, Q (some (.retrier (.clearRefusal c))) v) :
    Stops prev (KeeperM.attempt (KeeperM.clearRefusal c)) Q :=
  Strict.tolerated (by simp [bestEffort]) holds

theorem attempt_get {c : CommitmentRef} {Q : Option Op → Except Fault (Option Bytes) → Prop}
    (goesOn : bestEffort prev (.read (.get c)) = true)
    (holds : ∀ v, Q (some (.read (.get c))) v) :
    Stops prev (KeeperM.attempt (KeeperM.get c)) Q :=
  Strict.tolerated goesOn holds

/-- A call that stops whatever it began after, with nothing said of what it returns. -/
abbrev Always {α : Type} (x : KeeperM α) : Prop :=
  ∀ prev, Stops prev x fun _ _ => True

theorem dispose (venue : VenueId) (tick : Tick) (policy : FaultPolicy) (r : Reservation)
    (report : ReconcileReport) (result : SubmitResult) :
    Stops (some (.reply .reconcile venue r.key r.body))
      (Sdk.dispose venue tick policy r report result) fun _ _ => True := by
  have wrote : ∀ (jw : JournalWrite) (report : ReconcileReport),
      Stops (some (.reply .reconcile venue r.key r.body))
        (KeeperM.write venue jw >>= fun _ => Pure.pure report) fun _ _ => True := by
    intro jw report
    have ends : bestEffort (some (.reply .reconcile venue r.key r.body)) (.write venue jw) =
        false := by cases jw <;> rfl
    exact Strict.bind (write ends fun _ => trivial)
  unfold Sdk.dispose
  split
  · exact wrote _ _
  · exact wrote _ _
  · split
    · exact wrote _ _
    · split
      · exact wrote _ _
      · trivial

theorem reconcileLoop (venue : VenueId) (tick : Tick) (maxPerTick : Nat) (policy : FaultPolicy)
    (rest : List Reservation) : ∀ spent report,
    Always (Sdk.reconcileLoop venue tick maxPerTick policy rest spent report) := by
  induction rest with
  | nil => exact fun _ _ _ => trivial
  | cons r rest ih =>
      intro spent report prev
      unfold Sdk.reconcileLoop
      split
      · exact ih _ _ prev
      · split
        · trivial
        · refine Strict.bind (submit fun result => Strict.bind ?_)
          refine (dispose venue tick policy r report result).mono ?_
          intro last report' _
          exact ih _ report' last

theorem reconcile (venue : VenueId) (tick : Tick) (maxPerTick : Nat) (policy : FaultPolicy) :
    Always (Sdk.reconcile venue tick maxPerTick policy) := by
  intro prev
  exact Strict.bind (read (bestEffort_read nofun) fun reservations =>
    reconcileLoop venue tick maxPerTick policy reservations 0 {} _)

theorem settle (c : CommitmentRef) (tick : Tick) (action : RetryAction) (report : RunReport) :
    Always (Keeper.settle c tick action report) := by
  intro prev
  refine Strict.bind (apply fun _ => Strict.bind (attempt_get rfl fun row => ?_))
  cases row with
  | ok params => cases params <;> trivial
  | error f => cases action <;> trivial

variable [NexumSdk] (keeper : Keeper)

theorem submitArm (c : CommitmentRef) (report : RunReport) (body : Bytes) :
    Always (keeper.submitArm c report body) := by
  intro prev
  unfold Keeper.submitArm
  refine Strict.bind (read (bestEffort_read nofun) fun mark => ?_)
  split
  · trivial
  · trivial
  · refine Strict.bind (write (bestEffort_reserve _ _ _ _) fun _ =>
      Strict.bind (submit fun result => ?_))
    split
    · exact Strict.bind (attempt_write rfl fun _ =>
        Strict.bind (attempt_clearRefusal fun _ => trivial))
    · exact Strict.bind (write rfl fun _ => trivial)
    · exact Strict.bind (write rfl fun _ => trivial)

theorem visit (tick : Tick) (report : RunReport) (key : String) :
    Always (keeper.visit tick report key) := by
  intro prev
  unfold Keeper.visit
  split
  · trivial
  · refine Strict.bind (read (bestEffort_read nofun) fun ready => ?_)
    split
    · trivial
    · refine Strict.bind (read rfl fun params => ?_)
      split
      · trivial
      · refine Strict.bind (poll fun outcome => ?_)
        split
        · refine Strict.bind ((submitArm keeper _ _ _ _).mono fun last fate _ => ?_)
          cases fate with
          | inl report' => trivial
          | inr action => exact settle _ tick action _ last
        · exact settle _ tick .tryNextBlock _ _
        · exact settle _ tick (.backoff _) _ _
        · exact settle _ tick .drop _ _

theorem run (tick : Tick) : Always (keeper.run tick) := by
  intro prev
  refine Strict.bind ((reconcile _ _ _ _ prev).mono fun last rec_ _ => ?_)
  refine Strict.bind (read (bestEffort_read nofun) fun keys => ?_)
  exact Strict.foldlM (fun last report key => visit keeper tick report key last) keys _ _

end Stops

section Signing

variable {S : Type} [KeeperStores S] {R : Rely Op (World S) (Input (KeeperStores.Edit S))}
  {k : Keeper} {w₀ w : World S}

/-- Every order the venue has answered requires-signing is still RESERVED. -/
def SigningsReserved (k : Keeper) (w₀ w : World S) : Prop :=
  ∀ pass key body tx, .answered pass k.venue key body (.ok (.requiresSigning tx)) ∈ since w₀ w →
    ∃ n, KeeperStores.marker w.store key = some (.reserved n body)

/-- Every transaction the venue has handed back is in the report of the sweep, or its order is
still RESERVED. -/
def SigningsKept (k : Keeper) (w₀ w : World S) (out : Except Fault RunReport) : Prop :=
  ∀ pass key body tx, .answered pass k.venue key body (.ok (.requiresSigning tx)) ∈ since w₀ w →
    (∃ report, out = .ok report ∧ tx ∈ report.unsigned) ∨
      ∃ n, KeeperStores.marker w.store key = some (.reserved n body)

theorem signingsKept_error {f : Fault} :
    SigningsKept k w₀ w (.error f) ↔ SigningsReserved k w₀ w := by
  unfold SigningsKept SigningsReserved
  simp only [reduceCtorEq, false_and, exists_false, false_or]

theorem signingsReserved_faulted {v : World S} {o : Op} {i : Input (KeeperStores.Edit S)}
    {a : o.Ans} (moves : (machine S).step o i v = some (a, w)) (faulted : i.faults = true) :
    SigningsReserved k w₀ w ↔ SigningsReserved k w₀ v := by
  obtain ⟨log, same⟩ := faulted_world moves faulted
  unfold SigningsReserved
  rw [since, log]
  simp only [same]
  exact Iff.rfl

variable [NexumSdk] {tick : Tick}

theorem SigningsKept.of_report {report : RunReport}
    (run : Exec (machine S) R (k.run tick).run w₀ (.done (.ok report)) w) :
    SigningsKept k w₀ w (.ok report) := by
  intro pass key body tx answered
  have unsigned := (run_keeps.returns run report rfl).2.2
  refine .inl ⟨report, rfl, ?_⟩
  rw [unsigned]
  exact List.mem_filterMap.mpr ⟨_, answered, rfl⟩

/-- A sweep keeps every transaction it is handed exactly when each store fault that ends it comes
while the orders answered requires-signing so far are RESERVED. -/
theorem signings_kept_iff {out : Except Fault RunReport}
    {transcript : List (Moment Op (World S) (Input (KeeperStores.Edit S)))}
    (traced : Traced (machine S) R (k.run tick).run w₀ transcript (.done out) w) :
    SigningsKept k w₀ w out ↔
      EachBreak bestEffort Input.faults (fun m => SigningsReserved k w₀ m.before) none
        transcript := by
  have ends := traced.breaks failure?_of_step (Stops.run k tick none)
  cases out with
  | ok report => exact iff_of_true (SigningsKept.of_report traced.run) (ends _)
  | error f =>
      obtain ⟨m, a, moves, faulted, only⟩ := ends
      rw [only, signingsKept_error]
      exact signingsReserved_faulted moves faulted

end Signing

open scoped MemStore

/-- The reconcile pass is handed a transaction for the stranded order, and a store call faults:
the release after the answer, or the listing after the release. -/
def signedThen (inputs : List (Input MemStore.Edit)) :
    Option (Except Fault RunReport × World MemStore) :=
  returned (machine MemStore) anyRely (stubKeeper.run stubTick).run
    ([.ok, .sent false, .answered (.ok (.requiresSigning stubTx))] ++ inputs) strandedWorld

theorem signings_kept_iff_stub :
    ∃ (transcript : List (Moment Op (World MemStore) (Input MemStore.Edit))) (w : World MemStore),
    KeeperStores.marker w.store (submissionKey stubKeeper.venue stubBody) =
      some (.reserved 0 stubBody) ∧
    (SigningsKept stubKeeper strandedWorld w (.error .timeout) ↔
      EachBreak bestEffort Input.faults
        (fun m => SigningsReserved stubKeeper strandedWorld m.before) none transcript) := by
  have ran : (signedThen [.fault .timeout]).map (fun p => (p.1, KeeperStores.marker p.2.store
      (submissionKey stubKeeper.venue stubBody))) =
      some (.error .timeout, some (.reserved 0 stubBody)) := by decide
  obtain ⟨⟨out, w⟩, run, same⟩ := Option.map_eq_some_iff.mp ran
  obtain ⟨rfl, reserved⟩ := Prod.mk.inj same
  obtain ⟨transcript, traced⟩ := (Exec.of_returned run).traced
  exact ⟨transcript, w, reserved, signings_kept_iff traced⟩

/-- The release lands and the listing of the commitments faults: the sweep returns the fault, and
no marker is left to ask again by. -/
theorem signing_lost : ∃ w : World MemStore,
    Exec (machine MemStore) anyRely (stubKeeper.run stubTick).run strandedWorld
      (.done (.error .timeout)) w ∧
    .answered .reconcile stubKeeper.venue (submissionKey stubKeeper.venue stubBody) stubBody
      (.ok (.requiresSigning stubTx)) ∈ since strandedWorld w ∧
    KeeperStores.marker w.store (submissionKey stubKeeper.venue stubBody) = none ∧
    ¬ SigningsKept stubKeeper strandedWorld w (.error .timeout) := by
  have ran : (signedThen [.ok, .fault .timeout]).map (fun p => (p.1,
      (since strandedWorld p.2).contains (.answered .reconcile stubKeeper.venue
        (submissionKey stubKeeper.venue stubBody) stubBody (.ok (.requiresSigning stubTx))),
      KeeperStores.marker p.2.store (submissionKey stubKeeper.venue stubBody))) =
      some (.error .timeout, true, none) := by decide
  obtain ⟨⟨out, w⟩, run, same⟩ := Option.map_eq_some_iff.mp ran
  obtain ⟨rfl, rest⟩ := Prod.mk.inj same
  obtain ⟨answered, released⟩ := Prod.mk.inj rest
  have answered := List.contains_iff_mem.mp answered
  refine ⟨w, Exec.of_returned run, answered, released, ?_⟩
  intro kept
  rcases kept _ _ _ _ answered with ⟨report, reported, _⟩ | ⟨n, reserved⟩
  · cases reported
  · rw [released] at reserved
    cases reserved

end Videre.Sdk
