import Videre.Sdk.Journal
import Videre.Sdk.MemStore

/-! # Reservations and their venue

A submission key names its venue, and the commitment loop looks up keys of its own
venue only. The reconcile pass takes whatever the journal has pending, so a
reservation stays with its venue as long as no pass starts with another keeper's
reservation in its share.
-/

namespace Videre.Sdk

open Interaction

/-- Two bodies without a common digest have a key each under every venue id. -/
theorem submission_key_unambiguous [NexumSdk] {v w : VenueId} {a b : Bytes}
    (no_collision : NexumSdk.keccak256 a = NexumSdk.keccak256 b → a = b)
    (same : submissionKey v a = submissionKey w b) : v = w ∧ a = b := by
  obtain ⟨venues, digests⟩ := submissionKey_parts same
  exact ⟨venues, no_collision digests⟩

open scoped MemStore in
/-- A venue id that holds the separator and ends like a digest begins. -/
theorem submission_key_unambiguous_colon :
    (⟨"cow:0x5122"⟩ : VenueId) = ⟨"cow:" ++ "0x5122"⟩ ∧ stubBody = stubBody :=
  submission_key_unambiguous (fun _ => rfl) (congrArg (submissionKey · stubBody) (by decide))

section Home

variable [NexumSdk]

/-- Every POST, answer and write under a venue's submission key is that venue's keeper's. -/
def StayHome (events : List Event) : Prop :=
  ∀ e ∈ events, ∀ venue body, e.key? = some (submissionKey venue body) → e.venue? = some venue

variable {S : Type} [KeeperStores S]

def OwnsItsShare (c : Call) (w : World S) : Prop :=
  ∀ r ∈ share w.store c.tick c.keeper.maxPerTick, ∀ venue body,
    r.key = submissionKey venue body → venue = c.keeper.venue

variable {R : Rely Op (World S) (Input (KeeperStores.Edit S))} {k : Keeper} {tick : Tick}
  {w₀ w w' : World S}

theorem StayHome.append_one {events : List Event} {e : Event} (home : StayHome events)
    (one : ∀ venue body, e.key? = some (submissionKey venue body) → e.venue? = some venue) :
    StayHome (events ++ [e]) := by
  intro e' he'
  rcases List.mem_append.mp he' with old | new
  · exact home e' old
  · rw [List.mem_singleton.mp new]
    exact one

theorem Step.stays_home (step : Step R k tick w₀ w w')
    (owns : ∀ r ∈ share w₀.store tick k.maxPerTick, ∀ venue body,
      r.key = submissionKey venue body → venue = k.venue)
    (home : StayHome w.log) : StayHome w'.log := by
  have follows : ∀ {e e' : Event}, (since w₀ w).getLast? = some e → e'.key? = e.key? →
      e'.venue? = e.venue? → StayHome (w.log ++ [e']) := by
    intro e e' last key venue
    apply home.append_one
    intro v body concerns
    rw [venue]
    rw [key] at concerns
    exact home e (List.mem_of_mem_drop (List.mem_of_getLast? last)) v body concerns
  cases step with
  | store s same => exact home
  | poll rests swept rely => exact home.append_one (by simp [Event.key?])
  | reserve asked unmarked =>
      apply home.append_one
      intro v body concerns
      exact congrArg some (submissionKey_venue (Option.some.inj concerns))
  | post reserved own rely => exact follows reserved rfl rfl
  | repost listed untouched rests rely =>
      apply home.append_one
      intro v body concerns
      exact congrArg some (owns _ listed v body (Option.some.inj concerns)).symm
  | answer posted rely => exact follows posted rfl rfl
  | settle answered owes => exact follows answered (congrArg some (owed_key owes)) rfl

theorem reservations_stay_home {s : S} {h : Host S}
    (reach : Reaches R OwnsItsShare (Host.idle ⟨s, []⟩) h) : StayHome h.world.log := by
  apply reach.invariant (I := fun w => StayHome w.log) (Host.idle_sound _)
  · intro e he
    simp [Host.idle] at he
  · intro v edits home
    exact home
  · intro c w₀ v v' owns _ step home
    exact step.stays_home owns home

/-- Every reservation a call is to resolve is filed under its keeper's key of the body. -/
def OwnKeys (c : Call) (w : World S) : Prop :=
  ∀ r ∈ share w.store c.tick c.keeper.maxPerTick, r.key = submissionKey c.keeper.venue r.body

theorem OwnKeys.owns {c : Call} {w : World S} (own : OwnKeys c w) : OwnsItsShare c w := by
  intro r listed venue body same
  exact submissionKey_venue (same.symm.trans (own r listed))

instance (c : Call) (w : World S) : Decidable (OwnKeys c w) :=
  inferInstanceAs (Decidable (∀ r ∈ share w.store c.tick c.keeper.maxPerTick,
    r.key = submissionKey c.keeper.venue r.body))

end Home

open scoped MemStore

def reconciledPass : List (Input MemStore.Edit) :=
  [.ok, .sent true, .answered (.ok (.accepted [165, 90])), .ok]

/-- A keeper's own later sweep resolves the reservation its torn sweep left. -/
theorem reservations_stay_home_stub :
    StayHome (lived anyRely OwnKeys [(.run stubKeeper stubTick, strandedSweep),
      (.run stubKeeper stubTick, reconciledPass)] stubWorld).log :=
  reservations_stay_home (Reaches.lived (fun _ _ _ own => OwnKeys.owns own) (by decide))

/-- The store's keeper, bound to another venue. -/
def reboundKeeper : Keeper := { venue := ⟨"other"⟩ }

def reboundWorld : World MemStore :=
  lived anyRely anyCall [(.run stubKeeper stubTick, strandedSweep),
    (.run reboundKeeper stubTick, reconciledPass)] stubWorld

/-- The reservation the rebound keeper finds is POSTed to the rebound keeper's venue. -/
theorem reservation_crosses :
    Reaches anyRely anyCall (Host.idle stubWorld) (Host.idle reboundWorld) ∧
      .posted .reconcile reboundKeeper.venue (submissionKey stubKeeper.venue stubBody) stubBody
        true ∈ reboundWorld.log ∧
      ¬ StayHome reboundWorld.log := by
  have reach : Reaches anyRely anyCall (Host.idle stubWorld) (Host.idle reboundWorld) :=
    Reaches.lived (fun _ _ _ any => any) (by decide)
  have posted : .posted .reconcile reboundKeeper.venue
      (submissionKey stubKeeper.venue stubBody) stubBody true ∈ reboundWorld.log := by decide
  refine ⟨reach, posted, ?_⟩
  intro home
  have same := home _ posted stubKeeper.venue stubBody rfl
  revert same
  decide

end Videre.Sdk
