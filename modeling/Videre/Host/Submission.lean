import Videre.Host.Discipline

/-! # No submission bypasses its header

The mutex of an adapter makes the events between a call's lock and unlock its own
as far as that adapter sees. With the law of a call this fixes what an adapter saw
right before each `submit`, whatever the other calls do.
-/

namespace Videre.Host

open Interaction

variable {P : Policy}

def HolderMatches (p : RegistryPool) : Prop :=
  ∀ id slot, p.shared.holder slot = some id ↔ holds (own id p.log) = some slot

/-- An adapter is entered by the one call that holds its mutex. -/
def Exclusive (past : List (Entry Event)) (e : Entry Event) : Prop :=
  ∀ slot inv, e.what = .invoked slot inv →
    ∃ id, e.who = some id ∧ ∀ j, holds (own j past) = some slot ↔ j = id

def Event.besideMutex : Event → Bool
  | .locked _ | .unlocked _ | .invoked _ _ => false
  | _ => true

theorem holds_append_besideMutex {events : List Event}
    (beside : ∀ e ∈ events, e.besideMutex = true) (past : List Event) :
    holds (past ++ events) = holds past := by
  rw [holds_append]
  induction events with
  | nil => rfl
  | cons e events ih =>
      have first : heldAfter (holds past) e = holds past := by
        have here := beside e (by simp)
        cases e <;> first | rfl | cases here
      rw [List.foldl_cons, first]
      exact ih fun x h => beside x (by simp [h])

theorem besideMutex_onWatch {e : Event} (quiet : e.onWatch = true) : e.besideMutex = true := by
  cases e <;> first | rfl | cases quiet

theorem besideMutex_onRoute {e : Event} (routing : e.onRoute = true) : e.besideMutex = true := by
  cases e <;> first | rfl | cases routing

/-! ## What a step does to the mutexes -/

theorem act_mutex {id : Nat} {o : Op} {i : Input} {r r' : Registry} {a : o.Ans}
    {events : List Event} (acts : act P id o i r = some (a, events, r')) :
    (∃ slot, o = .lock slot ∧ r.holder slot = none ∧ events = [.locked slot] ∧
      r'.holder = Function.update r.holder slot (some id)) ∨
    (∃ slot, o = .unlock slot ∧ events = [.unlocked slot] ∧
      r'.holder = Function.update r.holder slot none) ∨
    (∃ slot inv, o = .invoke slot inv ∧ events = [.invoked slot inv] ∧ r'.holder = r.holder) ∨
    ((∀ e ∈ events, e.besideMutex = true) ∧ r'.holder = r.holder) := by
  cases o with
  | lock slot =>
      obtain ⟨free, hevents, hr⟩ := act_lock acts
      exact .inl ⟨slot, rfl, free, hevents, by rw [hr]⟩
  | unlock slot =>
      obtain ⟨hevents, hr⟩ := act_unlock acts
      exact .inr (.inl ⟨slot, rfl, hevents, by rw [hr]⟩)
  | invoke slot inv =>
      obtain ⟨hevents, hr⟩ := act_invoke acts
      exact .inr (.inr (.inl ⟨slot, inv, rfl, hevents, by rw [hr]⟩))
  | resolve venue =>
      obtain ⟨_, hevents, hr⟩ := act_resolve acts
      exact .inr (.inr (.inr ⟨by simp [hevents, Event.besideMutex], by rw [hr]⟩))
  | quotaAdmits caller =>
      obtain ⟨_, hevents, hr⟩ := act_quotaAdmits acts
      exact .inr (.inr (.inr ⟨by simp [hevents, Event.besideMutex], by rw [hr]; rfl⟩))
  | charge caller =>
      obtain ⟨_, _, hevents, hr⟩ := act_charge acts
      exact .inr (.inr (.inr ⟨by simp [hevents, Event.besideMutex], by rw [hr]; rfl⟩))
  | answer slot inv =>
      obtain ⟨_, _, hevents, hr⟩ := act_answer acts
      exact .inr (.inr (.inr ⟨by simp [hevents, Event.besideMutex], by rw [hr]⟩))
  | check ctx =>
      obtain ⟨hevents, hr⟩ := act_check acts
      exact .inr (.inr (.inr ⟨by simp [hevents, Event.besideMutex], by rw [hr]⟩))
  | watch venue receipt =>
      obtain ⟨_, hr⟩ := act_watch_frame acts
      have quiet := act_watch_onWatch acts
      exact .inr (.inr (.inr ⟨fun e h => besideMutex_onWatch (quiet e h), by rw [hr]⟩))
  | snapshot =>
      have quiet := act_snapshot_onWatch acts
      exact .inr (.inr (.inr ⟨fun e h => besideMutex_onWatch (quiet e h),
        by rw [act_snapshot_frame acts]⟩))
  | recordPolledStatus venue receipt status =>
      have quiet := act_recordPolledStatus_onWatch acts
      exact .inr (.inr (.inr ⟨fun e h => besideMutex_onWatch (quiet e h),
        by rw [act_recordPolledStatus_frame acts]⟩))

theorem holder_besideMutex {r r' : Registry} {log : List (Entry Event)} {who : Option Nat}
    {events : List Event}
    (holders : ∀ id slot, r.holder slot = some id ↔ holds (own id log) = some slot)
    (same : r'.holder = r.holder) (beside : ∀ e ∈ events, e.besideMutex = true) :
    ∀ id slot, r'.holder slot = some id ↔ holds (own id (log ++ tagged who events)) = some slot := by
  intro id slot
  rw [same, own_append]
  by_cases mine : who = some id
  · rw [mine, own_tagged_self, holds_append_besideMutex beside]
    exact holders id slot
  · rw [own_tagged_other id mine, List.append_nil]
    exact holders id slot

theorem holder_lock {r r' : Registry} {log : List (Entry Event)} {id : Nat} {slot : Slot}
    (holders : ∀ id slot, r.holder slot = some id ↔ holds (own id log) = some slot)
    (free : r.holder slot = none) (own_free : holds (own id log) = none)
    (after : r'.holder = Function.update r.holder slot (some id)) :
    ∀ j s, r'.holder s = some j ↔
      holds (own j (log ++ tagged (some id) [.locked slot])) = some s := by
  intro j s
  rw [after, own_append, Function.update_apply]
  by_cases mine : j = id
  · subst mine
    rw [own_tagged_self, holds_append]
    by_cases here : s = slot
    · simp [here]
    · have none_else : r.holder s ≠ some j := by
        rw [Ne, holders j s, own_free]
        nofun
      simp [here, none_else, Ne.symm here]
  · have foreign : (some id : Option Nat) ≠ some j := by
      intro h
      exact mine (Option.some.inj h).symm
    rw [own_tagged_other j foreign, List.append_nil]
    by_cases here : s = slot
    · subst here
      have none_else : holds (own j log) ≠ some s := by
        rw [Ne, ← holders j s, free]
        nofun
      simp [none_else, Ne.symm mine]
    · rw [if_neg here]
      exact holders j s

theorem holder_unlock {r r' : Registry} {log : List (Entry Event)} {id : Nat} {slot : Slot}
    (holders : ∀ id slot, r.holder slot = some id ↔ holds (own id log) = some slot)
    (held : holds (own id log) = some slot)
    (after : r'.holder = Function.update r.holder slot none) :
    ∀ j s, r'.holder s = some j ↔
      holds (own j (log ++ tagged (some id) [.unlocked slot])) = some s := by
  intro j s
  rw [after, own_append, Function.update_apply]
  have holder : r.holder slot = some id := (holders id slot).mpr held
  by_cases mine : j = id
  · subst mine
    rw [own_tagged_self, holds_append]
    by_cases here : s = slot
    · simp [here]
    · have other : r.holder s ≠ some j := by
        rw [Ne, holders j s, held]
        intro same
        exact here (Option.some.inj same).symm
      simp [here, other]
  · have foreign : (some id : Option Nat) ≠ some j := by
      intro h
      exact mine (Option.some.inj h).symm
    rw [own_tagged_other j foreign, List.append_nil]
    by_cases here : s = slot
    · subst here
      have other : holds (own j log) ≠ some s := by
        rw [Ne, ← holders j s, holder]
        intro same
        exact mine (Option.some.inj same).symm
      simp [other]
    · rw [if_neg here]
      exact holders j s

theorem exclusive_none {past : List (Entry Event)} {who : Option Nat} {events : List Event}
    (outside : ∀ slot inv, .invoked slot inv ∉ events) :
    Extends Exclusive past (tagged who events) := by
  induction events generalizing past with
  | nil => trivial
  | cons e events ih =>
      constructor
      · intro slot inv same
        exact absurd (by simp [← same]) (outside slot inv)
      · exact ih fun slot inv member => outside slot inv (List.mem_cons_of_mem _ member)

theorem not_invoked_besideMutex {events : List Event}
    (beside : ∀ e ∈ events, e.besideMutex = true) (slot : Slot) (inv : Invocation) :
    .invoked slot inv ∉ events :=
  fun member => nomatch beside _ member

theorem mutexes_kept {p : RegistryPool} {start : Nat}
    (reach : (venueRegistry P).Reach (Registry.new start) p) :
    HolderMatches p ∧ Lawful Exclusive p.log := by
  induction reach with
  | start => exact ⟨fun _ _ => ⟨nofun, nofun⟩, lawful_nil⟩
  | @step p q label before moves ih =>
      obtain ⟨holders, exclusive⟩ := ih
      obtain ⟨call, rfl, rfl⟩ | ⟨id, i, o, rest, a, events, r, rfl, thread, acts, rfl⟩ |
        ⟨id, o, rest, events, r, rfl, thread, gone, rfl⟩ | ⟨event, rfl, rfl⟩ :=
          (venueRegistry P).step_cases moves
      · exact ⟨holders, exclusive⟩
      · obtain ⟨call, _, follows⟩ := follows_thread before thread
        have law := (follows.2.1 _ _ _ _ _ acts).1
        rcases act_mutex acts with ⟨slot, _, free, hevents, after⟩ | ⟨slot, _, hevents, after⟩ |
          ⟨slot, inv, _, hevents, after⟩ | ⟨beside, after⟩
        · rw [hevents] at law ⊢
          exact ⟨holder_lock holders free law.1 after,
            exclusive.append (exclusive_none (by simp))⟩
        · rw [hevents] at law ⊢
          exact ⟨holder_unlock holders law.1 after, exclusive.append (exclusive_none (by simp))⟩
        · rw [hevents] at law ⊢
          have held : holds (own id p.log) = some slot := law.1.1
          have holder := (holders id slot).mpr held
          constructor
          · intro j s
            rw [own_append, after]
            by_cases mine : (some id : Option Nat) = some j
            · rw [mine, own_tagged_self, holds_append]
              exact holders j s
            · rw [own_tagged_other j mine, List.append_nil]
              exact holders j s
          · apply exclusive.append
            refine ⟨?_, trivial⟩
            intro slot' inv' same
            cases same
            refine ⟨id, rfl, fun j => ?_⟩
            rw [← holders j slot, holder, Option.some.injEq]
            exact eq_comm
        · exact ⟨holder_besideMutex holders after beside,
            exclusive.append (exclusive_none (not_invoked_besideMutex beside))⟩
      · obtain ⟨call, _, follows⟩ := follows_thread before thread
        have law := follows.2.2 _ _ _ gone
        rcases abandon_cases id gone with ⟨slot, _, hevents, hr⟩ | ⟨slot, inv, _, hevents, hr⟩
        · rw [hevents, hr]
          exact ⟨holder_besideMutex holders rfl (List.forall_mem_nil _),
            exclusive.append (exclusive_none (by simp))⟩
        · rw [hevents] at law ⊢
          rw [hr]
          exact ⟨holder_unlock holders law.1 rfl, exclusive.append (exclusive_none (by simp))⟩
      · have beside : ∀ e ∈ (host event p.shared).1, e.besideMutex = true :=
          fun e member => besideMutex_onRoute (host_onRoute event p.shared e member)
        exact ⟨holder_besideMutex holders (host_frame event p.shared).2.1 beside,
          exclusive.append (exclusive_none (not_invoked_besideMutex beside))⟩

/-! ## What an adapter sees -/

/-- While a call moves no mutex, no other call enters the adapter it holds. -/
theorem alone_while_held {log before mid : List (Entry Event)} {id : Nat} {slot : Slot}
    (exclusive : Lawful Exclusive log) (part : ∃ later, log = before ++ mid ++ later)
    (held : holds (own id before) = some slot)
    (beside : ∀ e ∈ own id mid, e.besideMutex = true) :
    ∀ e ∈ mid, ∀ inv, e.what ≠ .invoked slot inv := by
  intro e member inv same
  obtain ⟨later, hlog⟩ := part
  obtain ⟨first, second, hmid⟩ := List.append_of_mem member
  have split : log = (before ++ first) ++ e :: (second ++ later) := by
    rw [hlog, hmid]
    simp
  obtain ⟨j, who, holder⟩ := exclusive.at_split split slot inv same
  have still : holds (own id (before ++ first)) = some slot := by
    rw [own_append, holds_append_besideMutex]
    · exact held
    · intro x hx
      apply beside x
      rw [hmid, own_append]
      exact List.mem_append_left _ hx
  have mine : id = j := (holder id).mp still
  have entered : e.what ∈ own id mid := by
    rw [mem_own, hmid, mine, ← who]
    simp
  have := beside _ entered
  rw [same] at this
  cases this

/-- Every `submit` an adapter sees comes right after a header derived from the same body by
the same call, with one charge and one consultation of the guard on that header in between;
and once the guard is consulted the adapter is entered whatever it answers. -/
theorem submission_prepared {P : Policy} {p : RegistryPool} (reach : Reachable P p) :
    (∀ past later id slot body,
      p.log = past ++ ⟨some id, .invoked slot (.submit body)⟩ :: later →
      ∃ caller venue header instant verdict before mid,
        p.calls[id]? = some (.submit caller venue body) ∧
        past = before ++ ⟨some id, .invoked slot (.deriveHeader body)⟩ :: mid ∧
        (∀ e ∈ mid, ∀ inv, e.what ≠ .invoked slot inv) ∧
        own id mid =
          [.answered slot (.deriveHeader body) (.header (.ok header)),
            .charged caller instant, .guarded ⟨caller, venue, header⟩ verdict]) ∧
    (∀ id ctx rest, p.threads id = some (.call (.check ctx) rest) →
      ∃ caller venue body slot, p.calls[id]? = some (.submit caller venue body) ∧
        ctx.caller = caller ∧ ctx.venue = venue ∧
        ∀ verdict input, ∃ q,
          (venueRegistry P).run [.advance id (.verdict verdict), .advance id input] p = some q ∧
          q.log = p.log ++
            [⟨some id, .guarded ctx verdict⟩, ⟨some id, .invoked slot (.submit body)⟩]) := by
  obtain ⟨start, reach⟩ := reach
  constructor
  · intro past later id slot body split
    have logged : own id p.log = own id past ++ .invoked slot (.submit body) :: own id later := by
      rw [split, own_append, own_cons_self]
    have bound : id < p.calls.length := by
      by_contra fresh
      rw [reach.numbered.silent id (Nat.le_of_not_lt fresh)] at logged
      simp at logged
    have made := List.getElem?_eq_getElem bound
    have lawful := lawful_own reach made
    obtain ⟨held, _, prepared⟩ := lawful.at_split logged
    obtain ⟨caller, venue, header, instant, verdict, own_before, hcall, hown⟩ := prepared body rfl
    obtain ⟨before, mid, hpast, hbefore, hmid⟩ := split_of_own id hown
    have derived : own id p.log = own_before ++ .invoked slot (.deriveHeader body) ::
        (own id mid ++ .invoked slot (.submit body) :: own id later) := by
      rw [logged, hown, hmid]
      simp
    have held_before : holds (own id before) = some slot := by
      rw [hbefore]
      exact (lawful.at_split derived).1
    refine ⟨caller, venue, header, instant, verdict, before, mid, by rw [made, hcall], hpast, ?_,
      hmid⟩
    have here : holds (own id (before ++ [⟨some id, .invoked slot (.deriveHeader body)⟩])) =
        some slot := by
      rw [own_append, holds_append]
      simpa using held_before
    apply alone_while_held (mutexes_kept reach).2 _ here
    · rw [hmid]
      simp [Event.besideMutex]
    · exact ⟨⟨some id, .invoked slot (.submit body)⟩ :: later, by rw [split, hpast]; simp⟩
  · intro id ctx rest thread
    obtain ⟨call, made, follows⟩ := follows_thread reach thread
    obtain ⟨caller, venue, body, slot, next, hcall, hcaller, hvenue, ignored⟩ :=
      follows.at_point.check ctx rest rfl
    refine ⟨caller, venue, body, slot, by rw [made, hcall], hcaller, hvenue, ?_⟩
    intro verdict input
    have checks : (venueRegistry P).act id (.check ctx) (.verdict verdict) p.shared =
        some (verdict, [.guarded ctx verdict], p.shared) := rfl
    have enters : (venueRegistry P).act id (.invoke slot (.submit body)) input p.shared =
        some ((), [.invoked slot (.submit body)], p.shared) := rfl
    have stands : Function.update p.threads id (some (rest verdict)) id =
        some (.call (.invoke slot (.submit body)) next) := by
      rw [Function.update_self, ignored verdict]
    have consulted := (venueRegistry P).step_advance thread checks
    have entered := (venueRegistry P).step_advance
      (p := { p with
        threads := Function.update p.threads id (some (rest verdict))
        log := p.log ++ tagged (some id) [.guarded ctx verdict] })
      stands enters
    refine ⟨_, by simp only [System.run, consulted, entered]; rfl, ?_⟩
    simp

def deniedSubmit : Schedule :=
  [.host (.register stubVenue 0 ∅), .spawn (.submit "keeper" stubVenue [1])] ++
  throughGate 0 ++ throughHeader 0 (.deny "over the limit")

theorem submission_prepared_stub :
    ∃ p past, Reachable oneCharge p ∧
      p.log = past ++ [⟨some 0, .invoked 0 (.submit [1])⟩] ∧
      ∃ caller venue header instant verdict before mid,
        p.calls[0]? = some (.submit caller venue [1]) ∧
        past = before ++ ⟨some 0, .invoked 0 (.deriveHeader [1])⟩ :: mid ∧
        (∀ e ∈ mid, ∀ inv, e.what ≠ .invoked 0 inv) ∧
        own 0 mid =
          [.answered 0 (.deriveHeader [1]) (.header (.ok header)),
            .charged caller instant, .guarded ⟨caller, venue, header⟩ verdict] := by
  have ran : ((venueRegistry oneCharge).run deniedSubmit
      (System.empty (Registry.new 0))).map (fun p => p.log.getLast?) =
      some (some ⟨some 0, .invoked 0 (.submit [1])⟩) := by
    decide
  obtain ⟨p, reached, last⟩ := Option.map_eq_some_iff.mp ran
  have split := List.getLast?_eq_some_iff.mp last
  obtain ⟨past, hlog⟩ := split
  have reach : Reachable oneCharge p := ⟨0, .of_run .start reached⟩
  exact ⟨p, past, reach, hlog, (submission_prepared reach).1 past [] 0 0 [1] hlog⟩

end Videre.Host
