import Videre.Host.Routing
import Videre.Host.Story
import Videre.Sdk.Types

/-! # What a keeper makes of the registry's refusals

A refused submit or quote reports the adapter's own error or one the registry made,
and the keeper's default policy folds it into a retry action. What the registry
makes it makes for a cause the log shows, and the action fits the cause: only a venue
nobody ever registered costs an order.
-/

namespace Videre

namespace Sdk

def VenueFault.ofVenueError : VenueError → VenueFault
  | .unknownVenue => .unknownVenue
  | .invalidBody detail => .invalidBody detail
  | .unsupported => .unsupported
  | .denied detail => .denied detail
  | .rateLimited limit => .rateLimited limit.retryAfterMs
  | .unavailable detail => .unavailable detail
  | .timeout => .timeout
  | .invalidReceipt => .invalidReceipt
  | .receiptMismatch => .receiptMismatch

end Sdk

namespace Host

open Interaction Sdk

variable {P : Policy}

/-! ## Routes read off the log -/

/-- What the log makes of a resolve: the latest registration, if its flag was left alive. -/
def routeAt (log : List (Entry Event)) (venue : VenueId) : Except VenueError Slot :=
  match installedAt log venue with
  | none => .error .unknownVenue
  | some (slot, liveness) =>
      if aliveAfter liveness true log then .ok slot
      else .error (.unavailable ("venue " ++ venue.asStr ++ " is dead pending restart"))

theorem RoutesMatch.resolve {r : Registry} {log : List (Entry Event)} (routes : RoutesMatch r log)
    (venue : VenueId) : r.resolve venue = routeAt log venue := by
  have installed := routes.installed venue
  unfold Registry.resolve routeAt
  cases found : r.adapters.lookup venue with
  | none =>
      rw [found] at installed
      rw [← installed]
      rfl
  | some entry =>
      rw [found] at installed
      rw [← installed]
      simp only [Option.map_some, routes.alive]

def ResolvesByLog (past : List (Entry Event)) (e : Entry Event) : Prop :=
  ∀ venue a, e.what = .resolved venue a → a = routeAt past venue

theorem resolvesByLog_beside {past : List (Entry Event)} {who : Option Nat} {events : List Event}
    (beside : ∀ e ∈ events, ∀ venue a, e ≠ .resolved venue a) :
    Extends ResolvesByLog past (tagged who events) := by
  induction events generalizing past with
  | nil => trivial
  | cons e events ih =>
      constructor
      · intro venue a same
        exact absurd same (beside e List.mem_cons_self venue a)
      · exact ih fun x member => beside x (List.mem_cons_of_mem _ member)

theorem resolves_by_log {p : RegistryPool} {start : Nat}
    (reach : (venueRegistry P).Reach (Registry.new start) p) : Lawful ResolvesByLog p.log := by
  induction reach with
  | start => exact lawful_nil
  | @step p q label before moves ih =>
      have routes := routes_match before
      obtain ⟨call, rfl, rfl⟩ | ⟨id, i, o, rest, a, events, r, rfl, thread, acts, rfl⟩ |
        ⟨id, o, rest, events, r, rfl, thread, gone, rfl⟩ | ⟨event, rfl, rfl⟩ :=
          (venueRegistry P).step_cases moves
      · exact ih
      · apply ih.append
        obtain ⟨-, ⟨venue, hevents⟩ | beside⟩ := act_routes acts
        · rw [hevents]
          refine ⟨?_, trivial⟩
          intro venue' a' same
          cases same
          exact routes.resolve venue
        · apply resolvesByLog_beside
          intro e member venue a' same
          have quiet := beside e member
          rw [same] at quiet
          cases quiet
      · apply ih.append
        rcases abandon_cases id gone with ⟨_, _, hevents, _⟩ | ⟨_, _, _, hevents, _⟩
        · rw [hevents]
          trivial
        · rw [hevents]
          exact resolvesByLog_beside (by simp)
      · apply ih.append
        apply resolvesByLog_beside
        intro e member venue a' same
        have routing := host_onRoute event p.shared e member
        rw [same] at routing
        cases routing

theorem unregistered_of_none {log : List (Entry Event)} {venue : VenueId}
    (none_ : installedAt log venue = none) :
    ∀ e ∈ log, ∀ slot liveness, e.what ≠ .registered venue slot liveness := by
  induction log using List.reverseRecOn with
  | nil => exact List.forall_mem_nil _
  | append_singleton log last ih =>
      rw [installedAt_append] at none_
      have step : installStep venue (installedAt log venue) last = none := none_
      intro e member slot liveness same
      rcases List.mem_append.mp member with old | new
      · have before : installedAt log venue = none := by
          unfold installStep at step
          split at step
          · split at step
            · cases step
            · exact step
          · exact step
        exact ih before e old slot liveness same
      · rw [List.mem_singleton.mp new] at same
        simp [installStep, same] at step

/-! ## Causes -/

def Reply.error? : Reply → Option VenueError
  | .header (.error e) | .quotation (.error e) | .outcome (.error e) | .status (.error e)
  | .cancelled (.error e) => some e
  | _ => none

/-- Why a call of `caller` to `venue` was refused with `e`, and the retry action it leads to. -/
inductive Cause (P : Policy) (log : List (Entry Event)) (id : Nat) (caller : String)
    (venue : VenueId) (e : VenueError) : Prop
  | adapter {slot : Slot} {inv : Invocation} {reply : Reply}
      (answered : ⟨some id, .answered slot inv reply⟩ ∈ log) (errs : reply.error? = some e)
  | unregistered {past later : List (Entry Event)}
      (split : log = past ++ ⟨some id, .resolved venue (.error e)⟩ :: later)
      (never : ∀ x ∈ past, ∀ slot liveness, x.what ≠ .registered venue slot liveness)
      (action : retryAction (.ofVenueError e) = .drop)
  | dead {past later : List (Entry Event)} {slot : Slot} {liveness : Liveness}
      (split : log = past ++ ⟨some id, .resolved venue (.error e)⟩ :: later)
      (installed : installedAt past venue = some (slot, liveness))
      (died : aliveAfter liveness true past = false)
      (action : retryAction (.ofVenueError e) = .tryNextBlock)
  | throttled (gated : ⟨some id, .gated caller false⟩ ∈ log)
      (action : retryAction (.ofVenueError e) = .backoff (divCeil (windowMs P.quota.window) 1000))

theorem Cause.of_unrouted {log : List (Entry Event)} (lawful : Lawful ResolvesByLog log) {id : Nat}
    {caller : String} {venue : VenueId} {e : VenueError}
    (trace : own id log = [.resolved venue (.error e)]) : Cause P log id caller venue e := by
  have split : own id log = [] ++ .resolved venue (.error e) :: [] := trace
  obtain ⟨past, later, split, -, -⟩ := split_of_own id split
  have answer := lawful.at_split split venue _ rfl
  unfold routeAt at answer
  cases found : installedAt past venue with
  | none =>
      rw [found] at answer
      cases answer
      exact .unregistered split (unregistered_of_none found) rfl
  | some entry =>
      obtain ⟨slot, liveness⟩ := entry
      rw [found] at answer
      simp only at answer
      by_cases alive : aliveAfter liveness true past = true
      · rw [if_pos alive] at answer
        cases answer
      · rw [if_neg alive] at answer
        cases answer
        exact .dead split found (Bool.eq_false_iff.mpr alive) rfl

theorem Cause.of_throttled {log : List (Entry Event)} {id : Nat} {caller : String} {venue : VenueId}
    {trace : List Event} (told : trace = own id log) (member : .gated caller false ∈ trace) :
    Cause P log id caller venue (rateLimited P) :=
  .throttled ((mem_own id).mp (told ▸ member)) rfl

/-- Every refused submit or quote was refused for a cause the log shows, and the default policy
makes of each registry-made refusal what its cause asks: an order is dropped on one only when
the venue had never been registered, it waits for the next block while the venue is dead, and
it waits the quota window out when the budget is spent. -/
theorem refusal_retried {P : Policy} {p : RegistryPool} (reach : Reachable P p) {id : Nat}
    {call : Call} {caller : String} {venue : VenueId} {e : VenueError}
    (made : p.calls[id]? = some call) (spends : call.caller? = some caller)
    (routes : call.venue? = some venue)
    (refused : p.threads id = some (.done (call.refuse e))) :
    Cause P p.log id caller venue e := by
  obtain ⟨start, reach⟩ := reach
  have lawful := resolves_by_log reach
  obtain ⟨call', made', point⟩ := tells_thread reach refused
  rw [made] at made'
  cases made'
  have story := point.returned _ rfl
  obtain ⟨trace, told⟩ : ∃ trace, trace = own id p.log := ⟨_, rfl⟩
  obtain ⟨outcome, same⟩ : ∃ outcome, outcome = call.refuse e := ⟨_, rfl⟩
  rw [← told, ← same] at story
  cases call with
  | submit c v body =>
      cases spends
      cases routes
      cases story with
      | unrouted e' there =>
          cases there
          cases same
          exact .of_unrouted lawful told.symm
      | throttled slot there mine =>
          cases mine
          cases same
          exact .of_throttled told (by simp)
      | underived _ _ _ slot e' charge =>
          cases same
          have answered : Event.answered slot (.deriveHeader body) (.header (.error e)) ∈
              own id p.log := told ▸ by simp
          exact .adapter ((mem_own id).mp answered) rfl
      | submitted _ _ _ slot header instant verdict result watches =>
          cases same
          have answered : Event.answered slot (.submit body) (.outcome (.error e)) ∈ own id p.log :=
            told ▸ by simp
          exact .adapter ((mem_own id).mp answered) rfl
  | quote c v body =>
      cases spends
      cases routes
      cases story with
      | unrouted e' there =>
          cases there
          cases same
          exact .of_unrouted lawful told.symm
      | throttled slot there mine =>
          cases mine
          cases same
          exact .of_throttled told (by simp)
      | quoted _ _ _ slot instant result =>
          cases same
          have answered : Event.answered slot (.quote body) (.quotation (.error e)) ∈ own id p.log :=
            told ▸ by simp
          exact .adapter ((mem_own id).mp answered) rfl
  | observe v r => cases spends
  | pollStatusTransitions => cases spends
  | status v r => cases spends
  | cancel v r => cases spends

def quotedDead : Schedule :=
  [.host (.register stubVenue 0 ∅), .host (.markDead 0), .spawn (.quote "keeper" stubVenue [1]),
    .advance 0 (.elapsed 0)]

theorem refusal_retried_dead : ∃ p, Reachable oneCharge p ∧
    Cause oneCharge p.log 0 "keeper" stubVenue
      (.unavailable "venue cow is dead pending restart") := by
  have ran : ((venueRegistry oneCharge).run quotedDead (System.empty (Registry.new 0))).bind
      (fun p => (p.calls[0]?).bind fun made => (outcomeOf p 0).map fun outcome => (made, outcome)) =
      some (.quote "keeper" stubVenue [1],
        .quoted (.error (.unavailable "venue cow is dead pending restart"))) := by
    rfl
  obtain ⟨p, reached, ran⟩ := Option.bind_eq_some_iff.mp ran
  obtain ⟨made, called, told⟩ := Option.bind_eq_some_iff.mp ran
  obtain ⟨outcome, returned, same⟩ := Option.map_eq_some_iff.mp told
  simp only [Prod.mk.injEq] at same
  obtain ⟨rfl, rfl⟩ := same
  have reach : Reachable oneCharge p := ⟨0, .of_run .start reached⟩
  exact ⟨p, reach, refusal_retried reach called rfl rfl (thread_of_outcomeOf returned)⟩

end Host

end Videre
