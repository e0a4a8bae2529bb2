import Videre.Host.Calls

/-! # What one operation does

One inversion lemma an operation. Every later invariant is read off these, so no
other module unfolds `act`, `abandon` or `host`.
-/

namespace Videre.Host

open Interaction

variable {P : Policy} {id : Nat} {i : Input} {r r' : Registry} {events : List Event}

section Act

theorem act_resolve {venue : VenueId} {a : Except VenueError Slot}
    (acts : act P id (.resolve venue) i r = some (a, events, r')) :
    a = r.resolve venue ∧ events = [.resolved venue a] ∧ r' = r := by
  simp only [act, Option.some.injEq, Prod.mk.injEq] at acts
  obtain ⟨rfl, rfl, rfl⟩ := acts
  exact ⟨rfl, rfl, rfl⟩

theorem act_quotaAdmits {caller : String} {a : Bool}
    (acts : act P id (.quotaAdmits caller) i r = some (a, events, r')) :
    a = (r.quotaAdmits P caller).1 ∧ events = [.gated caller a] ∧
      r' = (r.quotaAdmits P caller).2 := by
  simp only [act, Option.some.injEq, Prod.mk.injEq] at acts
  obtain ⟨rfl, rfl, rfl⟩ := acts
  exact ⟨rfl, rfl, rfl⟩

theorem act_charge {caller : String} {a : Unit}
    (acts : act P id (.charge caller) i r = some (a, events, r')) :
    ∃ nanos, i = .elapsed nanos ∧ events = [.charged caller (r.now + nanos)] ∧
      r' = r.charge P caller nanos := by
  cases i with
  | elapsed nanos =>
      simp only [act, Option.some.injEq, Prod.mk.injEq] at acts
      obtain ⟨-, rfl, rfl⟩ := acts
      exact ⟨nanos, rfl, rfl, rfl⟩
  | verdict verdict => simp [act] at acts
  | reply reply => simp [act] at acts

theorem act_lock {slot : Slot} {a : Unit}
    (acts : act P id (.lock slot) i r = some (a, events, r')) :
    r.holder slot = none ∧ events = [.locked slot] ∧
      r' = { r with holder := Function.update r.holder slot (some id) } := by
  simp only [act] at acts
  split at acts
  next free =>
    simp only [Option.some.injEq, Prod.mk.injEq] at acts
    exact ⟨free, acts.2.1.symm, acts.2.2.symm⟩
  next => cases acts

theorem act_unlock {slot : Slot} {a : Unit}
    (acts : act P id (.unlock slot) i r = some (a, events, r')) :
    events = [.unlocked slot] ∧
      r' = { r with holder := Function.update r.holder slot none } := by
  simp only [act, Option.some.injEq, Prod.mk.injEq] at acts
  exact ⟨acts.2.1.symm, acts.2.2.symm⟩

theorem act_invoke {slot : Slot} {inv : Invocation} {a : Unit}
    (acts : act P id (.invoke slot inv) i r = some (a, events, r')) :
    events = [.invoked slot inv] ∧ r' = r := by
  simp only [act, Option.some.injEq, Prod.mk.injEq] at acts
  exact ⟨acts.2.1.symm, acts.2.2.symm⟩

theorem act_answer {slot : Slot} {inv : Invocation} {a : Except VenueError inv.Payload}
    (acts : act P id (.answer slot inv) i r = some (a, events, r')) :
    ∃ reply : Reply, reply.answers inv = some a ∧ events = [.answered slot inv reply] ∧ r' = r := by
  cases i with
  | elapsed nanos => simp [act] at acts
  | verdict verdict => simp [act] at acts
  | reply reply =>
      simp only [act] at acts
      split at acts
      next result answers =>
        simp only [Option.some.injEq, Prod.mk.injEq] at acts
        obtain ⟨rfl, rfl, rfl⟩ := acts
        exact ⟨reply, answers, rfl, rfl⟩
      next => cases acts

theorem act_check {ctx : GuardContext} {a : GuardVerdict}
    (acts : act P id (.check ctx) i r = some (a, events, r')) :
    events = [.guarded ctx a] ∧ r' = r := by
  cases i with
  | verdict verdict =>
      simp only [act, Option.some.injEq, Prod.mk.injEq] at acts
      obtain ⟨rfl, rfl, rfl⟩ := acts
      exact ⟨rfl, rfl⟩
  | elapsed nanos => simp [act] at acts
  | reply reply => simp [act] at acts

theorem act_watch {venue : VenueId} {receipt : Bytes} {a : Bool}
    (acts : act P id (.watch venue receipt) i r = some (a, events, r')) :
    ∃ nanos, i = .elapsed nanos ∧ a = (r.watch P venue receipt nanos).1 ∧
      r' = (r.watch P venue receipt nanos).2 ∧
      events = evictions r.now r.watched ++
        if a && !isWatched venue receipt (pruneExpired r.now r.watched) then
          [.inserted venue receipt]
        else [] := by
  cases i with
  | elapsed nanos =>
      simp only [act, Option.some.injEq, Prod.mk.injEq] at acts
      obtain ⟨rfl, rfl, rfl⟩ := acts
      exact ⟨nanos, rfl, rfl, rfl, rfl⟩
  | verdict verdict => simp [act] at acts
  | reply reply => simp [act] at acts

theorem act_snapshot {a : List (VenueId × Bytes)}
    (acts : act P id .snapshot i r = some (a, events, r')) :
    a = r.snapshot.1 ∧ events = evictions r.now r.watched ∧ r' = r.snapshot.2 := by
  simp only [act, Option.some.injEq, Prod.mk.injEq] at acts
  obtain ⟨rfl, rfl, rfl⟩ := acts
  exact ⟨rfl, rfl, rfl⟩

theorem act_recordPolledStatus {venue : VenueId} {receipt : Bytes} {status : IntentStatus}
    {a : Option Wire.IntentStatusUpdate}
    (acts : act P id (.recordPolledStatus venue receipt status) i r = some (a, events, r')) :
    a = (r.recordPolledStatus P venue receipt status).1 ∧
      r' = (r.recordPolledStatus P venue receipt status).2 ∧
      events =
        if isWatched venue receipt r.watched then
          .folded venue receipt status a ::
            if isWatched venue receipt r'.watched then [] else [.removed venue receipt]
        else [] := by
  simp only [act, Option.some.injEq, Prod.mk.injEq] at acts
  obtain ⟨rfl, rfl, rfl⟩ := acts
  exact ⟨rfl, rfl, rfl⟩

theorem abandon_cases (id : Nat) {o : Op} (gone : abandon id o r = some (events, r')) :
    (∃ slot, o = .lock slot ∧ events = [] ∧ r' = r) ∨
    (∃ slot inv, o = .answer slot inv ∧ events = [.unlocked slot] ∧
      r' = { r with holder := Function.update r.holder slot none }) := by
  cases o <;> simp only [abandon, Option.some.injEq, Prod.mk.injEq, reduceCtorEq] at gone
  · exact .inl ⟨_, rfl, gone.1.symm, gone.2.symm⟩
  · exact .inr ⟨_, _, rfl, gone.1.symm, gone.2.symm⟩

end Act

/-! ## The watch operations -/

def Event.onWatch : Event → Bool
  | .inserted _ _ | .evicted _ _ | .folded _ _ _ _ | .removed _ _ => true
  | _ => false

theorem onWatch_evictions (now : Nat) (watched : List WatchedIntent) :
    ∀ e ∈ evictions now watched, e.onWatch = true := by
  intro e member
  simp only [evictions, List.mem_map] at member
  obtain ⟨w, _, eq⟩ := member
  rw [← eq]
  rfl

theorem act_watch_onWatch {venue : VenueId} {receipt : Bytes} {a : Bool}
    (acts : act P id (.watch venue receipt) i r = some (a, events, r')) :
    ∀ e ∈ events, e.onWatch = true := by
  obtain ⟨_, _, _, _, hevents⟩ := act_watch acts
  intro e member
  rw [hevents, List.mem_append] at member
  rcases member with gone | new
  · exact onWatch_evictions _ _ e gone
  · split at new
    · rw [List.mem_singleton.mp new]
      rfl
    · cases new

theorem act_snapshot_onWatch {a : List (VenueId × Bytes)}
    (acts : act P id .snapshot i r = some (a, events, r')) : ∀ e ∈ events, e.onWatch = true := by
  obtain ⟨_, hevents, _⟩ := act_snapshot acts
  rw [hevents]
  exact onWatch_evictions _ _

theorem act_recordPolledStatus_onWatch {venue : VenueId} {receipt : Bytes} {status : IntentStatus}
    {a : Option Wire.IntentStatusUpdate}
    (acts : act P id (.recordPolledStatus venue receipt status) i r = some (a, events, r')) :
    ∀ e ∈ events, e.onWatch = true := by
  obtain ⟨_, _, hevents⟩ := act_recordPolledStatus acts
  intro e member
  rw [hevents] at member
  split at member
  · rcases List.mem_cons.mp member with rfl | later
    · rfl
    · split at later
      · cases later
      · rw [List.mem_singleton.mp later]
        rfl
  · cases member

theorem watch_frame (P : Policy) (r : Registry) (venue : VenueId) (receipt : Bytes) (nanos : Nat) :
    (r.watch P venue receipt nanos).2 =
      { r with
        now := r.now + nanos
        watched := (r.watch P venue receipt nanos).2.watched } := by
  unfold Registry.watch Registry.elapse
  dsimp only
  split_ifs
  · rfl
  · rfl
  · rfl

theorem recordPolledStatus_frame (P : Policy) (r : Registry) (venue : VenueId) (receipt : Bytes)
    (status : IntentStatus) :
    (r.recordPolledStatus P venue receipt status).2 =
      { r with watched := (r.recordPolledStatus P venue receipt status).2.watched } := by
  unfold Registry.recordPolledStatus
  dsimp only
  split
  next => rfl
  next =>
    split
    next => rfl
    next =>
      split
      next => rfl
      next => rfl

theorem act_watch_frame {venue : VenueId} {receipt : Bytes} {a : Bool}
    (acts : act P id (.watch venue receipt) i r = some (a, events, r')) :
    ∃ nanos, r' = { r with now := r.now + nanos, watched := r'.watched } := by
  obtain ⟨nanos, _, _, hr, _⟩ := act_watch acts
  have frame := watch_frame P r venue receipt nanos
  rw [← hr] at frame
  exact ⟨nanos, frame⟩

theorem act_snapshot_frame {a : List (VenueId × Bytes)}
    (acts : act P id .snapshot i r = some (a, events, r')) :
    r' = { r with watched := r'.watched } := by
  obtain ⟨_, _, hr⟩ := act_snapshot acts
  rw [hr]
  rfl

theorem act_recordPolledStatus_frame {venue : VenueId} {receipt : Bytes} {status : IntentStatus}
    {a : Option Wire.IntentStatusUpdate}
    (acts : act P id (.recordPolledStatus venue receipt status) i r = some (a, events, r')) :
    r' = { r with watched := r'.watched } := by
  obtain ⟨_, hr, _⟩ := act_recordPolledStatus acts
  have frame := recordPolledStatus_frame P r venue receipt status
  rw [← hr] at frame
  exact frame

/-! ## The host -/

def Event.onRoute : Event → Bool
  | .registered _ _ _ | .duplicate _ | .died _ | .revived _ => true
  | _ => false

theorem register_frame {venue : VenueId} {liveness : Liveness} {bodyVersions : Finset UInt32}
    (registered : r.register venue liveness bodyVersions = .ok r') :
    r' = { r with
      adapters := r.adapters.insert venue ⟨r.slots, liveness, bodyVersions⟩
      slots := r.slots + 1 } := by
  unfold Registry.register at registered
  split at registered
  next => cases registered
  next =>
    cases registered
    rfl

theorem host_onRoute (event : HostEvent) (r : Registry) :
    ∀ e ∈ (host event r).1, e.onRoute = true := by
  cases event with
  | elapse nanos =>
      intro e listed
      cases listed
  | register venue liveness bodyVersions =>
      cases registered : r.register venue liveness bodyVersions with
      | error e => simp [host, registered, Event.onRoute]
      | ok r' => simp [host, registered, Event.onRoute]
  | markDead liveness => simp [host, Event.onRoute]
  | markAlive liveness => simp [host, Event.onRoute]

theorem host_frame (event : HostEvent) (r : Registry) :
    r.now ≤ (host event r).2.now ∧ (host event r).2.holder = r.holder ∧
      (host event r).2.perCaller = r.perCaller ∧ (host event r).2.watched = r.watched := by
  cases event with
  | elapse nanos => exact ⟨Nat.le_add_right _ _, rfl, rfl, rfl⟩
  | register venue liveness bodyVersions =>
      cases registered : r.register venue liveness bodyVersions with
      | error e =>
          rw [host, registered]
          exact ⟨Nat.le_refl _, rfl, rfl, rfl⟩
      | ok r' =>
          rw [host, registered, register_frame registered]
          exact ⟨Nat.le_refl _, rfl, rfl, rfl⟩
  | markDead liveness => exact ⟨Nat.le_refl _, rfl, rfl, rfl⟩
  | markAlive liveness => exact ⟨Nat.le_refl _, rfl, rfl, rfl⟩

end Videre.Host
