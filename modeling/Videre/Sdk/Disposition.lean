import Videre.Sdk.Pass

/-! # The policy on the reconcile path

The commitment loop hands a fault's action to the retrier. The reconcile pass asks
the policy only whether the fault is terminal, and takes the waiting time from the
fault itself: from a rate limit's hint, and none from any other fault. The two paths
agree on a fault exactly when that time and the action's lead to the same epoch.
-/

namespace Videre.Sdk

open Interaction

/-- The epoch an action keeps a submission waiting for, from a tick on. -/
def RetryAction.waitsFor (tick : Tick) : RetryAction → UInt64
  | .backoff seconds => saturatingAdd tick.epochS seconds
  | .tryNextBlock | .drop => tick.epochS

/-- The epoch a fault's own hint names, from a tick on. -/
def VenueFault.hintsAt (tick : Tick) : VenueFault → UInt64
  | .rateLimited (some ms) => saturatingAdd tick.epochS (divCeil ms 1000)
  | _ => tick.epochS

/-- The marker of a reservation does what an action says: a drop releases it, a backoff keeps it
ineligible until its seconds have passed, and anything else has it eligible at the next tick. -/
def Reservation.Obeys (tick : Tick) (r : Reservation) (marker : Option Marker) :
    RetryAction → Prop
  | .drop => marker = none
  | .backoff seconds => ∃ n, marker = some (.reserved n r.body) ∧
      ∀ later : Tick, tick.epochS ≤ later.epochS →
        (Reservation.eligible later { r with nextEligible := n } = true ↔
          saturatingAdd tick.epochS seconds ≤ later.epochS)
  | .tryNextBlock => ∃ n, marker = some (.reserved n r.body) ∧
      ∀ later : Tick, tick.epochS ≤ later.epochS →
        Reservation.eligible later { r with nextEligible := n } = true

theorem VenueFault.le_hintsAt (tick : Tick) (f : VenueFault) : tick.epochS ≤ f.hintsAt tick := by
  unfold VenueFault.hintsAt
  split
  · exact le_saturatingAdd _ _
  · exact UInt64.le_refl _

theorem eligible_iff {later : Tick} {r : Reservation} {n : UInt64} :
    Reservation.eligible later { r with nextEligible := n } = true ↔ n ≤ later.epochS := by
  simp [Reservation.eligible]

/-- From an epoch on, two bounds admit the same ticks exactly when they are one bound. -/
theorem same_wait {now a b : UInt64} (aheadA : now ≤ a) (aheadB : now ≤ b) :
    (∀ later : Tick, now ≤ later.epochS → (a ≤ later.epochS ↔ b ≤ later.epochS)) ↔ a = b := by
  constructor
  · intro same
    have atA : b ≤ a := (same ⟨0, 0, a⟩ aheadA).mp (UInt64.le_refl a)
    have atB : a ≤ b := (same ⟨0, 0, b⟩ aheadB).mpr (UInt64.le_refl b)
    exact UInt64.le_antisymm atB atA
  · intro one later _
    rw [one]

theorem always_eligible_iff {now a : UInt64} (ahead : now ≤ a) :
    (∀ later : Tick, now ≤ later.epochS → a ≤ later.epochS) ↔ a = now := by
  constructor
  · intro always
    exact UInt64.le_antisymm (always ⟨0, 0, now⟩ (UInt64.le_refl now)) ahead
  · intro same later reached
    rw [same]
    exact reached

/-- A fault the policy does not call terminal leaves its reservation waiting for the epoch its
own hint names. -/
theorem Reservation.resolution_waits {policy : FaultPolicy} {tick : Tick} {r : Reservation}
    {f : VenueFault} (eligible : r.eligible tick = true) (kept : ¬ policy.isTerminal f = true) :
    ∃ n, r.resolution policy tick (.error f) = some (.reserved n r.body) ∧
      ∀ later : Tick, tick.epochS ≤ later.epochS →
        (Reservation.eligible later { r with nextEligible := n } = true ↔
          f.hintsAt tick ≤ later.epochS) := by
  have unmoved : ∀ later : Tick, tick.epochS ≤ later.epochS →
      (Reservation.eligible later { r with nextEligible := r.nextEligible } = true ↔
        tick.epochS ≤ later.epochS) := by
    intro later reached
    rw [eligible_iff]
    have past : r.nextEligible ≤ tick.epochS := eligible_iff.mp eligible
    exact ⟨fun _ => reached, fun _ => UInt64.le_trans past reached⟩
  cases f with
  | rateLimited hint =>
      cases hint with
      | none => exact ⟨_, if_neg kept, unmoved⟩
      | some ms =>
          refine ⟨saturatingAdd tick.epochS (divCeil ms 1000), ?_, fun _ _ => eligible_iff⟩
          simp [Reservation.resolution, kept, ← toNat_park]
  | _ => exact ⟨_, if_neg kept, unmoved⟩

theorem Reservation.obeys_iff {action : VenueFault → RetryAction} {tick : Tick} {r : Reservation}
    {f : VenueFault} (eligible : r.eligible tick = true) :
    r.Obeys tick (r.resolution { action := action } tick (.error f)) (action f) ↔
      action f = .drop ∨ f.hintsAt tick = (action f).waitsFor tick := by
  cases asked : action f with
  | drop => simp [Reservation.Obeys, Reservation.resolution, asked]
  | backoff seconds =>
      have kept : ¬ FaultPolicy.isTerminal { action := action } f = true := by simp [asked]
      obtain ⟨n, resolution, waits⟩ := resolution_waits eligible kept
      have ahead := f.le_hintsAt tick
      rw [resolution]
      simp only [Reservation.Obeys, reduceCtorEq, false_or, Option.some.injEq,
        Marker.reserved.injEq, and_true, exists_eq_left']
      rw [RetryAction.waitsFor, ← same_wait ahead (le_saturatingAdd tick.epochS seconds)]
      exact forall₂_congr fun later reached => by rw [waits later reached]
  | tryNextBlock =>
      have kept : ¬ FaultPolicy.isTerminal { action := action } f = true := by simp [asked]
      obtain ⟨n, resolution, waits⟩ := resolution_waits eligible kept
      have ahead := f.le_hintsAt tick
      rw [resolution]
      simp only [Reservation.Obeys, reduceCtorEq, false_or, Option.some.injEq,
        Marker.reserved.injEq, and_true, exists_eq_left']
      rw [RetryAction.waitsFor, ← always_eligible_iff ahead]
      exact forall₂_congr waits

/-- Under the default policy the paths agree on every fault. -/
theorem default_waits (tick : Tick) (f : VenueFault) :
    defaultFaultPolicy.action f = .drop ∨
      f.hintsAt tick = (defaultFaultPolicy.action f).waitsFor tick := by
  cases f with
  | rateLimited hint => cases hint <;> exact .inr rfl
  | timeout => exact .inr rfl
  | unavailable detail => exact .inr rfl
  | _ => exact .inl rfl

section Pass

variable {S : Type} [KeeperStores S] {R : Rely Op (World S) (Input (KeeperStores.Edit S))}
  {venue : VenueId} {tick : Tick} {budget : Nat}

/-- A pass leaves a reservation whose resubmit raised a fault with the marker of that fault. -/
theorem marker_of_answer {policy : FaultPolicy} {w t : World S} {report : ReconcileReport}
    (run : Exec (machine S) R (reconcile venue tick budget policy).run w (.done (.ok report)) t)
    {r : Reservation} (listed : r ∈ share w.store tick budget) {result : SubmitResult}
    (answered : .answered .reconcile venue r.key r.body result ∈ since w t) :
    KeeperStores.marker t.store r.key = r.resolution policy tick result := by
  obtain ⟨called, _, calls, settles, reports⟩ := reconcile_effect run
  have all := (reports report rfl).1
  have call : Event.answered .reconcile venue r.key r.body result ∈
      called.flatMap (Resubmit.calls venue) := by
    rw [← calls]
    exact List.mem_filter.mpr ⟨answered, rfl⟩
  obtain ⟨v, resubmitted, own⟩ := List.mem_flatMap.mp call
  simp only [Resubmit.calls, List.mem_cons, reduceCtorEq, Event.answered.injEq, true_and,
    List.not_mem_nil, or_false, false_or] at own
  obtain ⟨key, -, result_⟩ := own
  have listed' : v.reservation ∈ share w.store tick budget := all ▸ List.mem_map_of_mem resubmitted
  have one : r = v.reservation :=
    List.inj_on_of_nodup_map (share_keys w.store tick budget) listed listed' key
  rw [result_, one]
  exact settles.resolved v resubmitted

/-- The reconcile pass gives a refused reservation the waiting time of the policy's action
exactly when the action drops it or the fault's own hint comes to the same epoch. -/
theorem reconcile_obeys_iff {action : VenueFault → RetryAction} {w t : World S}
    {report : ReconcileReport}
    (run : Exec (machine S) R (reconcile venue tick budget { action := action }).run w
      (.done (.ok report)) t)
    {r : Reservation} (listed : r ∈ share w.store tick budget) {f : VenueFault}
    (refused : .answered .reconcile venue r.key r.body (.error f) ∈ since w t) :
    r.Obeys tick (KeeperStores.marker t.store r.key) (action f) ↔
      action f = .drop ∨ f.hintsAt tick = (action f).waitsFor tick := by
  have eligible : r.eligible tick = true := (List.mem_filter.mp (List.mem_of_mem_take listed)).2
  rw [marker_of_answer run listed refused]
  exact Reservation.obeys_iff eligible

end Pass

/-- A venue whose submissions are idempotent retries an ambiguous receipt in five minutes. -/
def idempotentAction : VenueFault → RetryAction
  | .receiptMismatch => .backoff 300
  | other => retryAction other

open scoped MemStore

def stubReservation : Reservation :=
  ⟨submissionKey stubKeeper.venue stubBody, 0, stubBody⟩

def stubStranded : World MemStore :=
  stubWorld.write stubKeeper.venue (.reserve stubReservation.key stubBody)

/-- A pass under the idempotent venue's policy, its one resubmit refused with a fault: the event
of the refusal and the marker it leaves. -/
def refusedPass (f : VenueFault) (inputs : List (Input MemStore.Edit)) : Bool :=
  match passed (Faultless anyRely)
      { venue := stubKeeper.venue, faultPolicy := { action := idempotentAction } } stubTick
      ([.ok, .sent true, .answered (.error f)] ++ inputs) stubStranded with
  | some (.ok _, t) => (since stubStranded t).contains
      (.answered .reconcile stubKeeper.venue stubReservation.key stubBody (.error f))
  | _ => false

theorem refusedPass_runs {f : VenueFault} {inputs : List (Input MemStore.Edit)}
    (refused : refusedPass f inputs = true) : ∃ report t,
    Exec (machine MemStore) (Faultless anyRely) (reconcile stubKeeper.venue stubTick
      defaultReconcileBudget { action := idempotentAction }).run stubStranded
      (.done (.ok report)) t ∧
    .answered .reconcile stubKeeper.venue stubReservation.key stubReservation.body (.error f) ∈
      since stubStranded t := by
  unfold refusedPass at refused
  split at refused
  next report t ran =>
    exact ⟨report, t, Exec.of_returned ran, List.contains_iff_mem.mp refused⟩
  next => cases refused

theorem stubReservation_shared :
    stubReservation ∈ share stubStranded.store stubTick defaultReconcileBudget := by decide

/-- A throttle of a second and a half waits two seconds on either path. -/
theorem reconcile_obeys_iff_stub : ∃ t : World MemStore,
    stubReservation.Obeys stubTick (KeeperStores.marker t.store stubReservation.key)
      (idempotentAction (.rateLimited (some 1500))) := by
  have runs : refusedPass (.rateLimited (some 1500)) [.ok] = true := by decide
  obtain ⟨report, t, run, refused⟩ := refusedPass_runs runs
  exact ⟨t, (reconcile_obeys_iff run stubReservation_shared refused).mpr (.inr rfl)⟩

/-- The five minutes of an ambiguous receipt are not waited on the reconcile path. -/
theorem backoff_not_waited : ∃ (report : ReconcileReport) (t : World MemStore),
    Exec (machine MemStore) (Faultless anyRely) (reconcile stubKeeper.venue stubTick
      defaultReconcileBudget { action := idempotentAction }).run stubStranded
      (.done (.ok report)) t ∧
    .answered .reconcile stubKeeper.venue stubReservation.key stubReservation.body
      (.error .receiptMismatch) ∈ since stubStranded t ∧
    KeeperStores.marker t.store stubReservation.key = some (.reserved 0 stubBody) ∧
    ¬ stubReservation.Obeys stubTick (KeeperStores.marker t.store stubReservation.key)
      (idempotentAction .receiptMismatch) := by
  have runs : refusedPass .receiptMismatch [] = true := by decide
  obtain ⟨report, t, run, refused⟩ := refusedPass_runs runs
  have marker := marker_of_answer run stubReservation_shared refused
  refine ⟨report, t, run, refused, marker, ?_⟩
  rw [marker]
  rintro ⟨n, same, waits⟩
  cases same
  have early : (⟨1, 101, 1001⟩ : Tick).epochS < saturatingAdd stubTick.epochS 300 := by decide
  have retried := (waits ⟨1, 101, 1001⟩ (by decide)).mp (by decide)
  exact absurd early (UInt64.not_lt.mpr retried)

end Videre.Sdk
