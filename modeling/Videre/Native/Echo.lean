import Videre.Host.Transitions
import Videre.Native.Recovery

/-! # The echo venue on a registry

The echo venue never dies, so its id stays its own, every call to it is served or
throttled, and a receipt put under watch is reported fulfilled and then let go.
-/

namespace Videre.Native

open Interaction Host

inductive EchoServes (P : Policy) : Call → Outcome → Prop
  | throttled {call : Call} {caller : String} (spends : call.caller? = some caller) :
      EchoServes P call (call.refuse (rateLimited P))
  | submitted (caller : String) (venue : VenueId) (body : Bytes) :
      EchoServes P (.submit caller venue body) (.submitted (.ok (.accepted body)))
  | quoted (caller : String) (venue : VenueId) (body : Echo.Slice) :
      EchoServes P (.quote caller venue body.val) (.quoted (Echo.quote body))
  | observed (venue : VenueId) (receipt : Bytes) :
      EchoServes P (.observe venue receipt) (.observed (.ok ()))
  | unobserved (venue : VenueId) (receipt : Bytes) :
      EchoServes P (.observe venue receipt)
        (.observed (.error (.unavailable "status watch set full")))
  | settled (venue : VenueId) (receipt : Bytes) :
      EchoServes P (.status venue receipt) (.status (.ok .fulfilled))
  | cancelled (venue : VenueId) (receipt : Bytes) :
      EchoServes P (.cancel venue receipt) (.cancelled (.ok ()))

section Echoes

variable {P : Policy} {heads : ChainHead → String} {w : Platform} {i : Installed}

/-! ## Routing -/

theorem never_down (reach : Platform.Reach P heads w) (member : i ∈ w.installed)
    (echo : i.adapter = .echo) {past later : List Happening} (split : w.log = past ++ later) :
    ¬ Down i past := by
  rintro ⟨before, who, after, inside, -⟩
  have whole : w.log = before ++ .logged ⟨who, .died i.liveness⟩ :: (after ++ later) := by
    rw [split, inside, List.append_assoc]
    rfl
  have installed := installed_before reach member whole (.inr (.inl rfl))
  obtain ⟨-, head, flaky, -⟩ := (native_lawful reach).1.at_split whole i installed rfl
  rw [echo] at flaky
  cases flaky

/-- Nobody else registered the venue's id. -/
def Alone (w : Platform) (i : Installed) : Prop :=
  ∀ e ∈ w.pool.log, ∀ slot liveness, e.what = .registered i.venue slot liveness → slot = i.slot

theorem installedAt_alone (founded : Founded P heads w) (member : i ∈ w.installed)
    (alone : Alone w i) {past later : List (Entry Event)} (split : w.pool.log = past ++ later)
    {slot : Slot} {liveness : Liveness}
    (found : installedAt past i.venue = some (slot, liveness)) :
    slot = i.slot ∧ liveness = i.liveness := by
  obtain ⟨start, pool⟩ := founded.reach
  obtain ⟨e, here, registers⟩ := installedAt_mem found
  have logged : e ∈ w.pool.log := by
    rw [split]
    exact List.mem_append_left _ here
  have same := alone e logged slot liveness registers
  subst same
  exact ⟨rfl, (registered_unique (routes_match pool).lawful logged (founded.registered i member)
    registers rfl).2⟩

theorem routed_alone (founded : Founded P heads w) (member : i ∈ w.installed) (alone : Alone w i)
    (who : Option Nat) {slot : Slot}
    (resolves : ⟨who, .resolved i.venue (.ok slot)⟩ ∈ w.pool.log) : slot = i.slot := by
  obtain ⟨start, pool⟩ := founded.reach
  obtain ⟨before, after, split⟩ := List.append_of_mem resolves
  obtain ⟨liveness, found, -⟩ := resolved_live (routes_match pool).lawful split
  exact (installedAt_alone founded member alone split found).1

/-- A call is refused a route only before the venue is registered. -/
theorem unrouted_alone (reach : Platform.Reach P heads w) (member : i ∈ w.installed)
    (echo : i.adapter = .echo) (alone : Alone w i) (who : Option Nat) {e : VenueError}
    (resolves : ⟨who, .resolved i.venue (.error e)⟩ ∈ w.pool.log) : e = .unknownVenue := by
  have founded := (reach_founded reach).1
  obtain ⟨start, pool⟩ := founded.reach
  obtain ⟨before, after, split⟩ := List.append_of_mem resolves
  have answer := (resolves_by_log pool).at_split split i.venue _ rfl
  cases found : installedAt before i.venue with
  | none =>
      unfold routeAt at answer
      rw [found] at answer
      cases answer
      rfl
  | some entry =>
      obtain ⟨slot, liveness⟩ := entry
      obtain ⟨rfl, rfl⟩ := installedAt_alone founded member alone split found
      rw [← founded.entries] at split
      obtain ⟨front, back, whole, hfront, -⟩ := split_of_entries split
      rw [← hfront] at found
      have routes := routed_around reach whole found
      have up := never_down reach member echo whole
      rcases routes with ⟨down, -⟩ | ⟨-, same⟩
      · exact absurd down up
      · cases same

/-- The id resolves to the venue for good and cannot be registered again. -/
theorem echo_stays (reach : Platform.Reach P heads w) (member : i ∈ w.installed)
    (echo : i.adapter = .echo) (alone : Alone w i) :
    w.pool.shared.resolve i.venue = .ok i.slot ∧ ∀ liveness bodyVersions,
      w.pool.shared.register i.venue liveness bodyVersions = .error ⟨i.venue⟩ := by
  have founded := (reach_founded reach).1
  obtain ⟨start, pool⟩ := founded.reach
  have routes := routes_match pool
  have found : installedAt w.pool.log i.venue = some (i.slot, i.liveness) := by
    cases found : installedAt w.pool.log i.venue with
    | none =>
        exact absurd rfl (unregistered_of_none found _ (founded.registered i member) i.slot
          i.liveness)
    | some entry =>
        obtain ⟨slot, liveness⟩ := entry
        obtain ⟨rfl, rfl⟩ := installedAt_alone founded member alone (List.append_nil _).symm found
        rfl
  have alive : aliveAfter i.liveness true w.pool.log = true := by
    rw [← Bool.not_eq_false, ← founded.entries, aliveAfter_down]
    exact never_down reach member echo (List.append_nil _).symm
  constructor
  · rw [routes.resolve, routeAt, found]
    exact if_pos alive
  · intro liveness bodyVersions
    have installed := routes.installed i.venue
    rw [found] at installed
    obtain ⟨entry, looked, same⟩ := Option.map_eq_some_iff.mp installed
    have flag : entry.liveness = i.liveness := congrArg Prod.snd same
    unfold Registry.register
    rw [looked, Option.any_some, flag, routes.alive, alive]
    rfl

/-! ## Calls -/

/-- The echo venue answers from the call alone. -/
theorem echo_answers (reach : Platform.Reach P heads w) (member : i ∈ w.installed)
    (echo : i.adapter = .echo) {id : Nat} {past later : List Event} {venue : VenueId}
    {inv : Invocation} {reply : Reply}
    (split : own id w.pool.log = past ++ .answered i.slot inv reply :: later)
    (routed : .resolved venue (.ok i.slot) ∈ past) :
    Platform.reply none .echo inv = some reply := by
  obtain ⟨-, -, stage, -, -, replies⟩ := native_answers reach member split routed
  rw [echo] at replies
  cases inv <;> exact replies

theorem slice_of {body : Bytes} {slice : Echo.Slice} (fits : Echo.Slice.of? body = some slice) :
    slice.val = body := by
  unfold Echo.Slice.of? at fits
  split at fits
  next =>
    cases fits
    rfl
  next => cases fits

/-- The venue answered every method of a call its id was resolved for. -/
theorem echo_replied (reach : Platform.Reach P heads w) (member : i ∈ w.installed)
    (echo : i.adapter = .echo) (alone : Alone w i) {id : Nat} {slot : Slot} {rest : List Event}
    {inv : Invocation} {reply : Reply}
    (trace : own id w.pool.log = .resolved i.venue (.ok slot) :: rest)
    (answers : .answered slot inv reply ∈ rest) :
    Platform.reply none .echo inv = some reply := by
  have resolves : ⟨some id, .resolved i.venue (.ok slot)⟩ ∈ w.pool.log := by
    rw [← mem_own, trace]
    exact List.mem_cons_self
  obtain rfl := routed_alone (reach_founded reach).1 member alone (some id) resolves
  obtain ⟨past, later, split⟩ := List.append_of_mem answers
  have hears : own id w.pool.log = .resolved i.venue (.ok i.slot) :: past ++
      .answered i.slot inv reply :: later := by
    rw [trace, split]
    rfl
  exact echo_answers reach member echo hears List.mem_cons_self

section Replies

variable {caller : String} {venue : VenueId} {body receipt : Bytes}

theorem header_derived {e : VenueError} :
    Platform.reply none .echo (.deriveHeader body) ≠ some (.header (.error e)) := by
  intro replies
  obtain ⟨slice, -, same⟩ := Option.map_eq_some_iff.mp replies
  cases same

theorem submit_served {result : Except VenueError SubmitOutcome}
    (replies : Platform.reply none .echo (.submit body) = some (.outcome result)) :
    EchoServes P (.submit caller venue body) (.submitted result) := by
  cases replies
  exact .submitted caller venue body

theorem quote_served {result : Except VenueError Quotation}
    (replies : Platform.reply none .echo (.quote body) = some (.quotation result)) :
    EchoServes P (.quote caller venue body) (.quoted result) := by
  obtain ⟨slice, fits, same⟩ := Option.map_eq_some_iff.mp replies
  cases same
  rw [← slice_of fits]
  exact .quoted caller venue slice

theorem observe_served (admitted : Bool) : EchoServes P (.observe venue receipt)
    (.observed (if admitted then .ok () else .error (.unavailable "status watch set full"))) := by
  cases admitted with
  | true => exact .observed venue receipt
  | false => exact .unobserved venue receipt

theorem status_served {result : Except VenueError IntentStatus}
    (replies : Platform.reply none .echo (.status receipt) = some (.status result)) :
    EchoServes P (.status venue receipt) (.status result) := by
  cases replies
  exact .settled venue receipt

theorem cancel_served {result : Except VenueError Unit}
    (replies : Platform.reply none .echo (.cancel receipt) = some (.cancelled result)) :
    EchoServes P (.cancel venue receipt) (.cancelled result) := by
  cases replies
  exact .cancelled venue receipt

end Replies

/-- A returned call on the venue's id was served, or came before the venue. -/
theorem echo_call (reach : Platform.Reach P heads w) (member : i ∈ w.installed)
    (echo : i.adapter = .echo) (alone : Alone w i) {id : Nat} {call : Call} {outcome : Outcome}
    (made : w.pool.calls[id]? = some call) (routes : call.venue? = some i.venue)
    (returned : w.pool.threads id = some (.done outcome)) :
    (outcome = call.refuse .unknownVenue ∧
      ⟨some id, .resolved i.venue (.error .unknownVenue)⟩ ∈ w.pool.log) ∨
        EchoServes P call outcome := by
  obtain ⟨start, pool⟩ := (reach_founded reach).1.reach
  obtain ⟨call', made', point⟩ := tells_thread pool returned
  rw [made] at made'
  cases made'
  have story := point.returned outcome rfl
  generalize trace : own id w.pool.log = events at story
  cases story with
  | @unrouted call venue e routes' =>
      rw [routes] at routes'
      cases routes'
      left
      have resolves : ⟨some id, .resolved i.venue (.error e)⟩ ∈ w.pool.log := by
        rw [← mem_own, trace]
        exact List.mem_cons_self
      have unknown := unrouted_alone reach member echo alone _ resolves
      rw [unknown] at resolves ⊢
      exact ⟨rfl, resolves⟩
  | throttled slot routes' spends => exact .inr (.throttled spends)
  | @underived caller venue body slot e charged charge =>
      cases routes
      have replies : Platform.reply none .echo (.deriveHeader body) = some (.header (.error e)) :=
        echo_replied reach member echo alone trace (by simp)
      exact absurd replies header_derived
  | @submitted caller venue body slot header instant verdict result watching watches =>
      cases routes
      exact .inr (submit_served (echo_replied reach member echo alone trace (by simp)))
  | quoted caller venue body slot instant result =>
      cases routes
      exact .inr (quote_served (echo_replied reach member echo alone trace (by simp)))
  | observed venue receipt slot admitted listing =>
      cases routes
      exact .inr (observe_served admitted)
  | polled pairs pruned tour => cases routes
  | status venue receipt slot result =>
      cases routes
      exact .inr (status_served (echo_replied reach member echo alone trace (by simp)))
  | cancelled venue receipt slot result =>
      cases routes
      exact .inr (cancel_served (echo_replied reach member echo alone trace (by simp)))

/-! ## Statuses -/

theorem echo_folds (reach : Platform.Reach P heads w) (member : i ∈ w.installed)
    (echo : i.adapter = .echo) (alone : Alone w i) {e : Entry Event} (logged : e ∈ w.pool.log)
    {receipt : Bytes} {status : IntentStatus} {update : Option Wire.IntentStatusUpdate}
    (folds : e.what = .folded i.venue receipt status update) : status = .fulfilled := by
  have founded := (reach_founded reach).1
  obtain ⟨start, pool⟩ := founded.reach
  obtain ⟨who, what⟩ := e
  obtain rfl : what = _ := folds
  cases who with
  | none => cases host_logged pool logged
  | some id =>
      obtain ⟨before, after, split⟩ := List.append_of_mem ((mem_own id).mpr logged)
      have bound : id < w.pool.calls.length := by
        by_contra fresh
        rw [pool.numbered.silent id (Nat.le_of_not_lt fresh)] at split
        simp at split
      have law := (lawful_own pool (List.getElem?_eq_getElem bound)).at_split split
      obtain ⟨slot, past, route, rfl⟩ := law
      obtain ⟨first, mid, hpast, -⟩ := routed_split route
      have resolves : ⟨some id, .resolved i.venue (.ok slot)⟩ ∈ w.pool.log := by
        rw [← mem_own, split, hpast]
        simp
      obtain rfl := routed_alone founded member alone (some id) resolves
      have inside : .resolved i.venue (.ok i.slot) ∈ past := by
        have there : .resolved i.venue (.ok i.slot) ∈ past ++
            [.answered i.slot (.status receipt) (.status (.ok status)), .unlocked i.slot] := by
          rw [hpast]
          simp
        simpa using there
      rw [List.append_assoc] at split
      have replies := echo_answers reach member echo split inside
      cases replies
      rfl

theorem transitions_fulfilled {statuses : List IntentStatus}
    (all : ∀ status ∈ statuses, status = .fulfilled) :
    transitions statuses = [] ∨ transitions statuses = [.fulfilled] := by
  have stutters : ∀ rest : List IntentStatus, (∀ status ∈ rest, status = .fulfilled) →
      rest.destutter' (· ≠ ·) .fulfilled = [.fulfilled] := by
    intro rest settled
    induction rest with
    | nil => rfl
    | cons next rest ih =>
        obtain rfl := settled next List.mem_cons_self
        rw [List.destutter'_cons_neg _ (by simp)]
        exact ih fun status member => settled status (List.mem_cons_of_mem _ member)
  cases statuses with
  | nil => exact .inl rfl
  | cons first rest =>
      right
      obtain rfl := all first List.mem_cons_self
      unfold transitions
      rw [List.destutter_cons',
        stutters rest fun status member => all status (List.mem_cons_of_mem _ member)]
      rfl

theorem folded_of_foldedIn {venue : VenueId} {receipt : Bytes} {log : List (Entry Event)}
    {status : IntentStatus} (member : status ∈ foldedIn venue receipt log) :
    ∃ e ∈ log, ∃ update, e.what = .folded venue receipt status update := by
  obtain ⟨e, here, folds⟩ := List.mem_filterMap.mp member
  obtain ⟨who, what⟩ := e
  cases what with
  | folded venue' receipt' status' update =>
      simp only [foldedStatus] at folds
      split at folds
      next same =>
        obtain ⟨rfl, rfl⟩ := same
        cases folds
        exact ⟨_, here, update, rfl⟩
      next => cases folds
  | _ => cases folds

/-- A watched receipt of the venue is reported at most once an epoch, as fulfilled. -/
theorem echo_reports (reach : Platform.Reach P heads w) (member : i ∈ w.installed)
    (echo : i.adapter = .echo) (alone : Alone w i) {receipt : Bytes} {who : Option Nat}
    {before after : List (Entry Event)}
    (split : w.pool.log = before ++ ⟨who, .inserted i.venue receipt⟩ :: after) :
    emittedIn i.venue receipt (epoch i.venue receipt after) = [] ∨
      ∃ update, emittedIn i.venue receipt (epoch i.venue receipt after) = [update] ∧
        Says i.venue receipt .fulfilled update := by
  have founded := (reach_founded reach).1
  obtain ⟨start, pool⟩ := founded.reach
  have reported := ((tracks_reach pool i.venue receipt).facts before who after split).1
  have all : ∀ status ∈ foldedIn i.venue receipt (epoch i.venue receipt after),
      status = .fulfilled := by
    intro status folded
    obtain ⟨e, inside, update, folds⟩ := folded_of_foldedIn folded
    have logged : e ∈ w.pool.log := by
      rw [split]
      apply List.mem_append_right
      exact List.mem_cons_of_mem _ (List.takeWhile_subset _ inside)
    exact echo_folds reach member echo alone logged folds
  unfold Reported at reported
  rcases transitions_fulfilled all with none_ | one
  · rw [none_] at reported
    exact .inl (List.forall₂_nil_left_iff.mp reported)
  · rw [one] at reported
    obtain ⟨update, rest, told, others, same⟩ := List.forall₂_cons_left_iff.mp reported
    rw [List.forall₂_nil_left_iff.mp others] at same
    exact .inr ⟨update, same, told⟩

/-- A registry serves the echo venue registered alone under its id, whatever else happens on
it. The id resolves to the venue for good and cannot be taken; every call on it came before
the venue or is throttled or served, a submit accepted with its own body as the receipt; and
a watched receipt is reported at most once before its watch ends, as fulfilled. -/
theorem echo_serves (reach : Platform.Reach P heads w) (member : i ∈ w.installed)
    (echo : i.adapter = .echo) (alone : Alone w i) :
    (w.pool.shared.resolve i.venue = .ok i.slot ∧ ∀ liveness bodyVersions,
      w.pool.shared.register i.venue liveness bodyVersions = .error ⟨i.venue⟩) ∧
    (∀ id call outcome, w.pool.calls[id]? = some call → call.venue? = some i.venue →
      w.pool.threads id = some (.done outcome) →
        outcome = call.refuse .unknownVenue ∨ EchoServes P call outcome) ∧
    ∀ receipt before who after,
      w.pool.log = before ++ ⟨who, .inserted i.venue receipt⟩ :: after →
        emittedIn i.venue receipt (epoch i.venue receipt after) = [] ∨
          ∃ update, emittedIn i.venue receipt (epoch i.venue receipt after) = [update] ∧
            Says i.venue receipt .fulfilled update := by
  refine ⟨echo_stays reach member echo alone, ?_, ?_⟩
  · intro id call outcome made routes returned
    rcases echo_call reach member echo alone made routes returned with ⟨refused, -⟩ | served
    · exact .inl refused
    · exact .inr served
  · intro receipt before who after split
    exact echo_reports reach member echo alone split

end Echoes

/-- A body is submitted to the echo venue and its receipt polled. -/
def echoed : List PlatformLabel :=
  [.register stubVenue .echo] ++
  beside ([.spawn (.submit "keeper" stubVenue [1])] ++ throughGate 0 ++
    [.advance 0 (.elapsed 0), .advance 0 (.elapsed 0)]) ++
  [.answer 0] ++
  beside [.advance 0 (.elapsed 0), .advance 0 (.verdict .allow), .advance 0 (.elapsed 0)] ++
  [.answer 0] ++
  beside [.advance 0 (.elapsed 0), .advance 0 (.elapsed 0), .spawn .pollStatusTransitions,
    .advance 1 (.elapsed 0), .advance 1 (.elapsed 0), .advance 1 (.elapsed 0),
    .advance 1 (.elapsed 0)] ++
  [.answer 1] ++ beside [.advance 1 (.elapsed 0), .advance 1 (.elapsed 0)]

def slotsOf (log : List (Entry Event)) : List Slot :=
  log.filterMap fun e =>
    match e.what with
    | .registered _ slot _ => some slot
    | _ => none

theorem echo_serves_stub : ∃ w : Platform,
    Platform.Reach oneCharge (fun _ => Flaky.healthyHead) w ∧
    w.pool.shared.resolve stubVenue = .ok 0 ∧
    (Outcome.submitted (.ok (.accepted [1])) =
        Call.refuse (.submit "keeper" stubVenue [1]) .unknownVenue ∨
      EchoServes oneCharge (.submit "keeper" stubVenue [1]) (.submitted (.ok (.accepted [1])))) ∧
    ∃ update, Says stubVenue [1] .fulfilled update := by
  have ran : (Platform.run oneCharge echoed (Platform.idle 0 fun _ => Flaky.healthyHead)).map
      (fun w => (w.installed, w.pool.calls[0]?, outcomeOf w.pool 0, slotsOf w.pool.log,
        w.pool.log[10]?, emittedIn stubVenue [1] (epoch stubVenue [1] (w.pool.log.drop 11)))) =
      some ([⟨0, 0, stubVenue, .echo⟩], some (.submit "keeper" stubVenue [1]),
        some (.submitted (.ok (.accepted [1]))), [0], some ⟨some 0, .inserted stubVenue [1]⟩,
        [⟨"cow", [1], [1, 2, 0, 0]⟩]) := by
    rfl
  obtain ⟨w, reached, same⟩ := Option.map_eq_some_iff.mp ran
  simp only [Prod.mk.injEq] at same
  obtain ⟨installed, made, returned, slots, inserted, emitted⟩ := same
  have reach : Platform.Reach oneCharge (fun _ => Flaky.healthyHead) w :=
    .of_run (.start 0) reached
  have member : (⟨0, 0, stubVenue, .echo⟩ : Installed) ∈ w.installed := by
    rw [installed]
    exact List.mem_cons_self
  have alone : Alone w ⟨0, 0, stubVenue, .echo⟩ := by
    intro e logged slot liveness registers
    have listed : slot ∈ slotsOf w.pool.log := by
      apply List.mem_filterMap.mpr
      exact ⟨e, logged, by rw [registers]⟩
    rw [slots] at listed
    exact List.mem_singleton.mp listed
  obtain ⟨⟨resolves, -⟩, calls, reports⟩ := echo_serves reach member rfl alone
  refine ⟨w, reach, resolves, calls 0 _ _ made rfl (thread_of_outcomeOf returned), ?_⟩
  obtain ⟨bound, here⟩ := List.getElem?_eq_some_iff.mp inserted
  have split : w.pool.log =
      w.pool.log.take 10 ++ ⟨some 0, .inserted stubVenue [1]⟩ :: w.pool.log.drop 11 := by
    rw [← here, List.getElem_cons_drop, List.take_append_drop]
  rcases reports [1] _ _ _ split with none_ | ⟨update, -, told⟩
  · rw [emitted] at none_
    cases none_
  · exact ⟨update, told⟩

end Videre.Native
