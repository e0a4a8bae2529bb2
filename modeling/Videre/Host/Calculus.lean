import Videre.Host.Steps

/-! # One rule an operation

What a call does on its own, under any law of its trace and any claim about where
its rest stands: the rest adheres when it stands where the claim says, every event
the operation logs is lawful, and what follows adheres. Calls follow by chaining
the rules along their code.
-/

namespace Videre.Host

open Interaction

variable {P : Policy} {law : List Event → Event → Prop}
  {point : List Event → Async Outcome → Prop} {id : Nat} {past : List Event}

theorem adheres_resolve {venue : VenueId} {rest : Except VenueError Slot → Async Outcome}
    (here : point past (.call (.resolve venue) rest)) (lawful : ∀ a, law past (.resolved venue a))
    (next : ∀ a, (venueRegistry P).Adheres law point id (past ++ [.resolved venue a]) (rest a)) :
    (venueRegistry P).Adheres law point id past (.call (.resolve venue) rest) := by
  refine ⟨here, ?_, nofun⟩
  intro i s a events t (acts : act P id _ i s = some (a, events, t))
  obtain ⟨_, hevents, _⟩ := act_resolve acts
  subst hevents
  exact ⟨⟨lawful a, trivial⟩, next a⟩

theorem adheres_quotaAdmits {caller : String} {rest : Bool → Async Outcome}
    (here : point past (.call (.quotaAdmits caller) rest)) (lawful : ∀ a, law past (.gated caller a))
    (next : ∀ a, (venueRegistry P).Adheres law point id (past ++ [.gated caller a]) (rest a)) :
    (venueRegistry P).Adheres law point id past (.call (.quotaAdmits caller) rest) := by
  refine ⟨here, ?_, nofun⟩
  intro i s a events t (acts : act P id _ i s = some (a, events, t))
  obtain ⟨_, hevents, _⟩ := act_quotaAdmits acts
  subst hevents
  exact ⟨⟨lawful a, trivial⟩, next a⟩

theorem adheres_charge {caller : String} {rest : Unit → Async Outcome}
    (here : point past (.call (.charge caller) rest)) (lawful : ∀ t, law past (.charged caller t))
    (next : ∀ t, (venueRegistry P).Adheres law point id (past ++ [.charged caller t]) (rest ())) :
    (venueRegistry P).Adheres law point id past (.call (.charge caller) rest) := by
  refine ⟨here, ?_, nofun⟩
  intro i s a events t (acts : act P id _ i s = some (a, events, t))
  obtain ⟨_, _, hevents, _⟩ := act_charge acts
  subst hevents
  exact ⟨⟨lawful _, trivial⟩, next _⟩

theorem adheres_lock {slot : Slot} {rest : Unit → Async Outcome}
    (here : point past (.call (.lock slot) rest)) (lawful : law past (.locked slot))
    (next : (venueRegistry P).Adheres law point id (past ++ [.locked slot]) (rest ())) :
    (venueRegistry P).Adheres law point id past (.call (.lock slot) rest) := by
  refine ⟨here, ?_, ?_⟩
  · intro i s a events t (acts : act P id _ i s = some (a, events, t))
    obtain ⟨_, hevents, _⟩ := act_lock acts
    subst hevents
    exact ⟨⟨lawful, trivial⟩, next⟩
  · intro s events t gone
    cases gone
    trivial

theorem adheres_unlock {slot : Slot} {rest : Unit → Async Outcome}
    (here : point past (.call (.unlock slot) rest)) (lawful : law past (.unlocked slot))
    (next : (venueRegistry P).Adheres law point id (past ++ [.unlocked slot]) (rest ())) :
    (venueRegistry P).Adheres law point id past (.call (.unlock slot) rest) := by
  refine ⟨here, ?_, nofun⟩
  intro i s a events t (acts : act P id _ i s = some (a, events, t))
  obtain ⟨hevents, _⟩ := act_unlock acts
  subst hevents
  exact ⟨⟨lawful, trivial⟩, next⟩

theorem adheres_invoke {slot : Slot} {inv : Invocation} {rest : Unit → Async Outcome}
    (here : point past (.call (.invoke slot inv) rest)) (lawful : law past (.invoked slot inv))
    (next : (venueRegistry P).Adheres law point id (past ++ [.invoked slot inv]) (rest ())) :
    (venueRegistry P).Adheres law point id past (.call (.invoke slot inv) rest) := by
  refine ⟨here, ?_, nofun⟩
  intro i s a events t (acts : act P id _ i s = some (a, events, t))
  obtain ⟨hevents, _⟩ := act_invoke acts
  subst hevents
  exact ⟨⟨lawful, trivial⟩, next⟩

/-- A call dropped while it awaits an answer leaves the mutex. -/
theorem adheres_answer {slot : Slot} {inv : Invocation}
    {rest : Except VenueError inv.Payload → Async Outcome}
    (here : point past (.call (.answer slot inv) rest)) (left : law past (.unlocked slot))
    (lawful : ∀ reply, law past (.answered slot inv reply))
    (next : ∀ reply a, Reply.answers inv reply = some a →
      (venueRegistry P).Adheres law point id (past ++ [.answered slot inv reply]) (rest a)) :
    (venueRegistry P).Adheres law point id past (.call (.answer slot inv) rest) := by
  refine ⟨here, ?_, ?_⟩
  · intro i s a events t (acts : act P id _ i s = some (a, events, t))
    obtain ⟨reply, answers, hevents, _⟩ := act_answer acts
    subst hevents
    exact ⟨⟨lawful reply, trivial⟩, next reply a answers⟩
  · intro s events t gone
    cases gone
    exact ⟨left, trivial⟩

theorem adheres_check {ctx : GuardContext} {rest : GuardVerdict → Async Outcome}
    (here : point past (.call (.check ctx) rest)) (lawful : ∀ verdict, law past (.guarded ctx verdict))
    (next : ∀ verdict,
      (venueRegistry P).Adheres law point id (past ++ [.guarded ctx verdict]) (rest verdict)) :
    (venueRegistry P).Adheres law point id past (.call (.check ctx) rest) := by
  refine ⟨here, ?_, nofun⟩
  intro i s a events t (acts : act P id _ i s = some (a, events, t))
  obtain ⟨hevents, _⟩ := act_check acts
  subst hevents
  exact ⟨⟨lawful a, trivial⟩, next a⟩

theorem unfolded_evictions (now : Nat) (watched : List WatchedIntent) (venue : VenueId)
    (receipt : Bytes) (status : IntentStatus) (update : Option Wire.IntentStatusUpdate) :
    .folded venue receipt status update ∉ evictions now watched := by
  intro member
  simp only [evictions, List.mem_map] at member
  obtain ⟨_, _, same⟩ := member
  cases same

/-- What an admission or a snapshot logs: events on the watch list that fold nothing. -/
structure Listing (events : List Event) : Prop where
  quiet : ∀ e ∈ events, e.onWatch = true
  unfolded : ∀ venue receipt status update, .folded venue receipt status update ∉ events

/-- A listing extends any trace under a law that allows the events on the watch list but folds. -/
theorem Listing.extends {events : List Event} (listing : Listing events)
    (allowed : ∀ past e, e.onWatch = true →
      (∀ venue receipt status update, e ≠ .folded venue receipt status update) → law past e)
    (past : List Event) : Extends law past events := by
  obtain ⟨quiet, unfolded⟩ := listing
  induction events generalizing past with
  | nil => trivial
  | cons e events ih =>
      constructor
      · apply allowed past e (quiet e List.mem_cons_self)
        intro v r s u same
        exact unfolded v r s u (same ▸ List.mem_cons_self)
      · exact ih _ (fun x h => quiet x (List.mem_cons_of_mem _ h))
          (fun v r s u h => unfolded v r s u (List.mem_cons_of_mem _ h))

theorem adheres_watch {venue : VenueId} {receipt : Bytes} {rest : Bool → Async Outcome}
    (here : point past (.call (.watch venue receipt) rest))
    (lawful : ∀ events, Listing events → Extends law past events)
    (next : ∀ admitted events, Listing events →
      (venueRegistry P).Adheres law point id (past ++ events) (rest admitted)) :
    (venueRegistry P).Adheres law point id past (.call (.watch venue receipt) rest) := by
  refine ⟨here, ?_, nofun⟩
  intro i s a events t (acts : act P id _ i s = some (a, events, t))
  obtain ⟨_, _, _, _, hevents⟩ := act_watch acts
  have listing : Listing events := by
    refine ⟨act_watch_onWatch acts, fun v r s u member => ?_⟩
    rw [hevents, List.mem_append] at member
    rcases member with gone | new
    · exact unfolded_evictions _ _ v r s u gone
    · split at new
      · simp at new
      · cases new
  exact ⟨lawful events listing, next a events listing⟩

theorem adheres_snapshot {rest : List (VenueId × Bytes) → Async Outcome}
    (here : point past (.call .snapshot rest))
    (lawful : ∀ events, Listing events → Extends law past events)
    (next : ∀ pairs events, Listing events →
      (venueRegistry P).Adheres law point id (past ++ events) (rest pairs)) :
    (venueRegistry P).Adheres law point id past (.call .snapshot rest) := by
  refine ⟨here, ?_, nofun⟩
  intro i s a events t (acts : act P id _ i s = some (a, events, t))
  obtain ⟨_, hevents, _⟩ := act_snapshot acts
  subst hevents
  have listing : Listing (evictions s.now s.watched) :=
    ⟨onWatch_evictions _ _, unfolded_evictions _ _⟩
  exact ⟨lawful _ listing, next a _ listing⟩

theorem recordPolledStatus_unwatched {r : Registry} {venue : VenueId} {receipt : Bytes}
    {status : IntentStatus} (gone : isWatched venue receipt r.watched = false) :
    r.recordPolledStatus P venue receipt status = (none, r) := by
  have absent : r.watched.findIdx? (WatchedIntent.watches venue receipt) = none := by
    rw [List.findIdx?_eq_none_iff]
    intro w member
    unfold isWatched at gone
    rw [List.any_eq_false] at gone
    exact Bool.eq_false_iff.mpr (gone w member)
  unfold Registry.recordPolledStatus
  rw [absent]

/-- What a fold logs: nothing when the pair is not watched, else the fold and, when it took
the pair off the list, the removal. -/
inductive Folding (venue : VenueId) (receipt : Bytes) (status : IntentStatus) :
    Option Wire.IntentStatusUpdate → List Event → Prop
  | unwatched : Folding venue receipt status none []
  | kept (update : Option Wire.IntentStatusUpdate) :
      Folding venue receipt status update [.folded venue receipt status update]
  | removed (update : Option Wire.IntentStatusUpdate) :
      Folding venue receipt status update
        [.folded venue receipt status update, .removed venue receipt]

theorem adheres_recordPolledStatus {venue : VenueId} {receipt : Bytes} {status : IntentStatus}
    {rest : Option Wire.IntentStatusUpdate → Async Outcome}
    (here : point past (.call (.recordPolledStatus venue receipt status) rest))
    (lawful : ∀ update events, Folding venue receipt status update events →
      Extends law past events)
    (next : ∀ update events, Folding venue receipt status update events →
      (venueRegistry P).Adheres law point id (past ++ events) (rest update)) :
    (venueRegistry P).Adheres law point id past
      (.call (.recordPolledStatus venue receipt status) rest) := by
  refine ⟨here, ?_, nofun⟩
  intro i s a events t (acts : act P id _ i s = some (a, events, t))
  obtain ⟨ha, _, hevents⟩ := act_recordPolledStatus acts
  have folding : Folding venue receipt status a events := by
    rw [hevents]
    by_cases watched : isWatched venue receipt s.watched = true
    · rw [if_pos watched]
      split
      · exact .kept a
      · exact .removed a
    · rw [if_neg watched, ha, recordPolledStatus_unwatched (Bool.eq_false_iff.mpr watched)]
      exact .unwatched
  exact ⟨lawful a events folding, next a events folding⟩

theorem Folding.quiet {venue : VenueId} {receipt : Bytes} {status : IntentStatus}
    {update : Option Wire.IntentStatusUpdate} {events : List Event}
    (folding : Folding venue receipt status update events) : ∀ e ∈ events, e.onWatch = true := by
  cases folding with
  | unwatched => exact List.forall_mem_nil _
  | kept => simp [Event.onWatch]
  | removed => simp [Event.onWatch]

end Videre.Host
