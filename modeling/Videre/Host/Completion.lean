import Videre.Host.Story
import Videre.Host.Submission
import Videre.Interaction.Progress

/-! # Every call comes to an end

A call waits for a mutex with none in hand, and one that has a mutex in hand is under
way and waits for none. So a waiting call waits for one that can go on, no schedule
goes on for ever without new calls, and all calls can be brought to their ends.
-/

namespace Videre.Host

open Interaction

variable {P : Policy}

/-! ## No mutex in hand at the end -/

theorem TourTrace.holds {pairs : List (VenueId × Bytes)} {trace : List Event}
    {updates : List Wire.IntentStatusUpdate} (tour : TourTrace pairs trace updates)
    {past : List Event} (free : Host.holds past = none) : Host.holds (past ++ trace) = none := by
  induction tour with
  | nil => simpa using free
  | snoc _ last ih =>
      rw [← List.append_assoc]
      cases last with
      | unrouted e =>
          rw [holds_append, ih]
          rfl
      | unheard slot e =>
          rw [holds_append, ih]
          rfl
      | heard slot status folding =>
          rw [← List.append_assoc, holds_append_onWatch folding.quiet, holds_append, ih]
          rfl

theorem holds_left (past : List Event) (slot : Slot) : Host.holds (past ++ [.unlocked slot]) = none := by
  rw [holds_append]
  rfl

theorem Story.holds {call : Call} {trace : List Event} {outcome : Outcome}
    (story : Story P call trace outcome) : Host.holds trace = none := by
  cases story with
  | unrouted e routes => rfl
  | throttled slot routes spends => rfl
  | underived => exact holds_left _ _
  | submitted => exact holds_left _ _
  | quoted => rfl
  | observed _ _ slot _ listing => exact holds_append_onWatch listing.quiet _
  | polled pairs pruned tour => exact tour.holds (holds_append_onWatch pruned.quiet [])
  | status => rfl
  | cancelled => rfl

theorem dropped_free {p : RegistryPool} {start : Nat}
    (reach : (venueRegistry P).Reach (Registry.new start) p) {id : Nat}
    (given : id < p.calls.length) (dropped : p.threads id = none) :
    holds (own id p.log) = none := by
  induction reach with
  | start => exact absurd given (Nat.not_lt_zero _)
  | @step p q label before moves ih =>
      obtain ⟨call, -, rfl⟩ | ⟨j, i, o, rest, a, events, r, -, thread, acts, rfl⟩ |
        ⟨j, o, rest, events, r, -, thread, gone, rfl⟩ | ⟨event, -, rfl⟩ :=
          (venueRegistry P).step_cases moves
      · simp only [Function.update_apply] at dropped
        rw [List.length_append, List.length_singleton] at given
        by_cases new : id = p.calls.length
        · rw [if_pos new] at dropped
          cases dropped
        · rw [if_neg new] at dropped
          exact ih (by omega) dropped
      · simp only [Function.update_apply] at dropped
        by_cases mine : id = j
        · rw [if_pos mine] at dropped
          cases dropped
        · rw [if_neg mine] at dropped
          have foreign : (some j : Option Nat) ≠ some id := by
            intro h
            exact mine (Option.some.inj h).symm
          rw [own_append, own_tagged_other id foreign, List.append_nil]
          exact ih given dropped
      · simp only [Function.update_apply] at dropped
        by_cases mine : id = j
        · subst mine
          rw [own_append, own_tagged_self]
          rcases abandon_cases id gone with ⟨slot, ho, hevents, -⟩ | ⟨slot, inv, -, hevents, -⟩
          · subst ho hevents
            obtain ⟨call, -, point⟩ := tells_thread before thread
            rw [List.append_nil]
            exact point.waiting slot rest rfl
          · subst hevents
            exact holds_left _ _
        · rw [if_neg mine] at dropped
          have foreign : (some j : Option Nat) ≠ some id := by
            intro h
            exact mine (Option.some.inj h).symm
          rw [own_append, own_tagged_other id foreign, List.append_nil]
          exact ih given dropped
      · rw [own_append, own_tagged_other id (by simp), List.append_nil]
        exact ih given dropped

/-! ## What can go on -/

/-- Every operation but the wait for a mutex takes some input. -/
theorem enabled_unless_lock {p : RegistryPool} {id : Nat} {o : Op} {rest : o.Ans → Async Outcome}
    (thread : p.threads id = some (.call o rest)) (other : ∀ slot, o ≠ .lock slot) :
    (venueRegistry P).Enabled p id := by
  cases o with
  | lock slot => exact absurd rfl (other slot)
  | resolve venue => exact System.enabled_of_act (.elapsed 0) thread rfl
  | quotaAdmits caller => exact System.enabled_of_act (.elapsed 0) thread rfl
  | charge caller => exact System.enabled_of_act (.elapsed 0) thread rfl
  | unlock slot => exact System.enabled_of_act (.elapsed 0) thread rfl
  | invoke slot inv => exact System.enabled_of_act (.elapsed 0) thread rfl
  | check ctx => exact System.enabled_of_act (.verdict .allow) thread rfl
  | watch venue receipt => exact System.enabled_of_act (.elapsed 0) thread rfl
  | snapshot => exact System.enabled_of_act (.elapsed 0) thread rfl
  | recordPolledStatus venue receipt status =>
      exact System.enabled_of_act (.elapsed 0) thread rfl
  | answer slot inv =>
      cases inv with
      | deriveHeader body =>
          exact System.enabled_of_act (.reply (.header (.error .timeout))) thread rfl
      | quote body =>
          exact System.enabled_of_act (.reply (.quotation (.error .timeout))) thread rfl
      | submit body =>
          exact System.enabled_of_act (.reply (.outcome (.error .timeout))) thread rfl
      | status receipt =>
          exact System.enabled_of_act (.reply (.status (.error .timeout))) thread rfl
      | cancel receipt =>
          exact System.enabled_of_act (.reply (.cancelled (.error .timeout))) thread rfl

theorem enabled_of_free {p : RegistryPool} {id : Nat} {slot : Slot} {rest : Unit → Async Outcome}
    (thread : p.threads id = some (.call (.lock slot) rest)) (free : p.shared.holder slot = none) :
    (venueRegistry P).Enabled p id := by
  have acts : (venueRegistry P).act id (.lock slot) (.elapsed 0) p.shared =
      some ((), [.locked slot],
        { p.shared with holder := Function.update p.shared.holder slot (some id) }) := by
    show act P id (.lock slot) (.elapsed 0) p.shared = _
    simp only [act, free]
  exact System.enabled_of_act (.elapsed 0) thread acts

theorem holder_enabled {p : RegistryPool} {start : Nat}
    (reach : (venueRegistry P).Reach (Registry.new start) p) {slot : Slot} {id : Nat}
    (held : p.shared.holder slot = some id) :
    (∃ o rest, p.threads id = some (.call o rest) ∧ ∀ s, o ≠ .lock s) ∧
      (venueRegistry P).Enabled p id := by
  have holding : holds (own id p.log) = some slot := ((mutexes_kept reach).1 id slot).mp held
  have given : id < p.calls.length := by
    by_contra fresh
    rw [reach.numbered.silent id (Nat.le_of_not_lt fresh)] at holding
    cases holding
  cases thread : p.threads id with
  | none =>
      rw [dropped_free reach given thread] at holding
      cases holding
  | some t =>
      obtain ⟨call, -, point⟩ := tells_thread reach thread
      cases t with
      | done outcome =>
          rw [(point.returned outcome rfl).holds] at holding
          cases holding
      | call o rest =>
          have other : ∀ s, o ≠ .lock s := by
            intro s same
            subst same
            rw [point.waiting s rest rfl] at holding
            cases holding
          exact ⟨⟨o, rest, rfl, other⟩, enabled_unless_lock thread other⟩

/-- A call that cannot go on waits for a mutex another call holds, and that one can. -/
theorem waits_for_enabled {p : RegistryPool} {start : Nat}
    (reach : (venueRegistry P).Reach (Registry.new start) p) {id : Nat} {o : Op}
    {rest : o.Ans → Async Outcome} (thread : p.threads id = some (.call o rest))
    (stuck : ¬ (venueRegistry P).Enabled p id) :
    ∃ slot holder, o = .lock slot ∧ p.shared.holder slot = some holder ∧ holder ≠ id ∧
      (venueRegistry P).Enabled p holder := by
  by_cases waits : ∃ slot, o = .lock slot
  · obtain ⟨slot, rfl⟩ := waits
    cases held : p.shared.holder slot with
    | none => exact absurd (enabled_of_free thread held) stuck
    | some holder =>
        obtain ⟨⟨o, next, running, other⟩, enabled⟩ := holder_enabled reach held
        refine ⟨slot, holder, rfl, held, ?_, enabled⟩
        intro same
        rw [same, thread] at running
        cases running
        exact other slot rfl
  · push Not at waits
    exact absurd (enabled_unless_lock thread waits) stuck

/-- Some schedule of their operations alone brings the calls made so far to their ends. -/
theorem calls_drain {p : RegistryPool} {start : Nat}
    (reach : (venueRegistry P).Reach (Registry.new start) p) :
    ∃ labels q, (∀ label ∈ labels, ∃ id input, label = .advance id input) ∧
      (venueRegistry P).run labels p = some q ∧ ∀ id, q.standing id = none := by
  apply System.drains ((venueRegistry P).Reach (Registry.new start)) _ _ reach reach.numbered
  · intro p q id input before moves
    exact before.step moves
  · intro p reached stuck id
    by_contra standing
    obtain ⟨o, stands⟩ := Option.ne_none_iff_exists'.mp standing
    obtain ⟨rest, thread⟩ := Pool.of_standing stands
    obtain ⟨_, holder, _, _, _, enabled⟩ := waits_for_enabled reached thread (stuck id)
    exact stuck holder enabled

/-- However the calls are scheduled, no call is ever stuck for good: one that cannot take its
operation waits for the mutex of another call that can; the calls made so far take finitely
many operations in all, whatever the host does in between; and some schedule of their
operations alone, dropping none, brings all of them to their ends. -/
theorem calls_come_to_end {P : Policy} {p : RegistryPool} (reach : Reachable P p) :
    (∀ id o rest, p.threads id = some (.call o rest) → ¬ (venueRegistry P).Enabled p id →
      ∃ slot holder, o = .lock slot ∧ p.shared.holder slot = some holder ∧ holder ≠ id ∧
        (venueRegistry P).Enabled p holder) ∧
    (¬ ∃ turns : Nat → RegistryPool,
      turns 0 = p ∧ ∀ n, (venueRegistry P).Works (turns n) (turns (n + 1))) ∧
    (∃ labels q, (∀ label ∈ labels, ∃ id input, label = .advance id input) ∧
      (venueRegistry P).run labels p = some q ∧ ∀ id, q.standing id = none) := by
  obtain ⟨start, reach⟩ := reach
  exact ⟨fun id o rest thread stuck => waits_for_enabled reach thread stuck,
    System.ends reach.numbered, calls_drain reach⟩

/-- The second of two racing submits waits for the first, and both can be finished. -/
theorem calls_come_to_end_racing : ∃ p, Reachable oneCharge p ∧
    p.standing 1 = some (.lock 0) ∧ ¬ (venueRegistry oneCharge).Enabled p 1 ∧
    ∃ holder, p.shared.holder 0 = some holder ∧ (venueRegistry oneCharge).Enabled p holder := by
  have ran : ((venueRegistry oneCharge).run
      ([.host (.register stubVenue 0 ∅), .spawn (.submit "keeper" stubVenue [1]),
        .spawn (.submit "keeper" stubVenue [2])] ++ throughGate 0 ++ throughGate 1 ++
        throughHeader 0 .allow) (System.empty (Registry.new 0))).map
      (fun p => (p.standing 1, p.shared.holder 0)) = some (some (.lock 0), some 0) := by
    decide
  obtain ⟨p, reached, ends⟩ := Option.map_eq_some_iff.mp ran
  have stands : p.standing 1 = some (.lock 0) := congrArg Prod.fst ends
  have held : p.shared.holder 0 = some 0 := congrArg Prod.snd ends
  have reach : Reachable oneCharge p := ⟨0, .of_run .start reached⟩
  obtain ⟨rest, thread⟩ := Pool.of_standing stands
  have stuck : ¬ (venueRegistry oneCharge).Enabled p 1 := by
    rintro ⟨input, q, moves⟩
    simp only [System.step, thread, venueRegistry, act, held, reduceCtorEq] at moves
  obtain ⟨slot, holder, same, holds_, _, enabled⟩ :=
    (calls_come_to_end reach).1 1 (.lock 0) rest thread stuck
  cases same
  exact ⟨p, reach, stands, stuck, holder, holds_, enabled⟩

end Videre.Host
