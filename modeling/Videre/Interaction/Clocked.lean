import Videre.Interaction.Pool

/-! # Clocked runs

The log of a pool says what happened and not when. A clocked run pairs every logged
event with the readings of a clock on the shared state before and after the step
that logged it.
-/

namespace Interaction

structure Stamped (Ev : Type) where
  entry : Entry Ev
  opened : Nat
  closed : Nat

def stamped {Ev : Type} (opened closed : Nat) (logged : List (Entry Ev)) : List (Stamped Ev) :=
  logged.map fun entry => ⟨entry, opened, closed⟩

@[simp] theorem entries_stamped {Ev : Type} (opened closed : Nat) (logged : List (Entry Ev)) :
    (stamped opened closed logged).map Stamped.entry = logged := by
  simp [stamped, Function.comp_def]

theorem mem_stamped {Ev : Type} {opened closed : Nat} {logged : List (Entry Ev)} {x : Stamped Ev} :
    x ∈ stamped opened closed logged ↔
      x.entry ∈ logged ∧ x.opened = opened ∧ x.closed = closed := by
  obtain ⟨entry, o, c⟩ := x
  simp only [stamped, List.mem_map, Stamped.mk.injEq]
  constructor
  · rintro ⟨e, member, rfl, rfl, rfl⟩
    exact ⟨member, rfl, rfl⟩
  · rintro ⟨member, rfl, rfl⟩
    exact ⟨entry, member, rfl, rfl, rfl⟩

namespace System

variable {Op : Type} {Ans : Op → Type} {σ ι ε Ev κ α : Type}
  (S : System Op Ans σ ι ε Ev κ α) (clock : σ → Nat)

/-- The pools some schedule reaches, with the stamped log of the schedule. -/
inductive Clocked (s : σ) : List (Stamped Ev) → Pool Op Ans σ Ev κ α → Prop
  | start : Clocked s [] (empty s)
  | step {h : List (Stamped Ev)} {p q : Pool Op Ans σ Ev κ α} {label : Label ι ε κ}
      {logged : List (Entry Ev)} (before : Clocked s h p) (moves : S.step p label = some q)
      (log : q.log = p.log ++ logged) :
      Clocked s (h ++ stamped (clock p.shared) (clock q.shared) logged) q

variable {S clock} {s : σ} {h : List (Stamped Ev)} {p : Pool Op Ans σ Ev κ α}

theorem Clocked.reach (timed : S.Clocked clock s h p) : S.Reach s p := by
  induction timed with
  | start => exact .start
  | step before moves log ih => exact ih.step moves

theorem Clocked.log (timed : S.Clocked clock s h p) : h.map Stamped.entry = p.log := by
  induction timed with
  | start => rfl
  | step before moves log ih =>
      rw [List.map_append, ih, log, entries_stamped]

theorem step_log {q : Pool Op Ans σ Ev κ α} {label : Label ι ε κ}
    (moves : S.step p label = some q) : ∃ logged, q.log = p.log ++ logged := by
  obtain ⟨_, -, rfl⟩ | ⟨_, _, _, _, _, events, _, -, _, _, rfl⟩ |
    ⟨_, _, _, events, _, -, _, _, rfl⟩ | ⟨event, -, rfl⟩ := S.step_cases moves
  · exact ⟨[], (List.append_nil _).symm⟩
  · exact ⟨_, rfl⟩
  · exact ⟨_, rfl⟩
  · exact ⟨_, rfl⟩

theorem run_log {q : Pool Op Ans σ Ev κ α} {labels : List (Label ι ε κ)}
    (ran : S.run labels p = some q) : ∃ later, q.log = p.log ++ later := by
  induction labels generalizing p with
  | nil =>
      cases ran
      exact ⟨[], (List.append_nil _).symm⟩
  | cons label labels ih =>
      unfold run at ran
      split at ran
      next r moves =>
        obtain ⟨logged, grows⟩ := step_log moves
        obtain ⟨later, more⟩ := ih ran
        exact ⟨logged ++ later, by rw [more, grows, List.append_assoc]⟩
      next => cases ran

theorem Reach.clocked (reach : S.Reach s p) : ∃ h, S.Clocked clock s h p := by
  induction reach with
  | start => exact ⟨[], .start⟩
  | step before moves ih =>
      obtain ⟨h, timed⟩ := ih
      obtain ⟨logged, log⟩ := step_log moves
      exact ⟨_, timed.step moves log⟩

/-- Under a clock that does not go back, stamps are in order and none is ahead of the clock. -/
theorem Clocked.ordered
    (forward : ∀ p q label, S.step p label = some q → clock p.shared ≤ clock q.shared)
    (timed : S.Clocked clock s h p) :
    h.Pairwise (fun x y => x.closed ≤ y.closed) ∧ ∀ x ∈ h, x.closed ≤ clock p.shared := by
  induction timed with
  | start => exact ⟨.nil, List.forall_mem_nil _⟩
  | @step h p q label logged before moves log ih =>
      have later := forward p q label moves
      constructor
      · rw [List.pairwise_append]
        refine ⟨ih.1, ?_, ?_⟩
        · exact List.pairwise_map.mpr (List.pairwise_of_forall fun _ _ => Nat.le_refl _)
        · intro x old y new
          rw [(mem_stamped.mp new).2.2]
          exact Nat.le_trans (ih.2 x old) later
      · intro x member
        rcases List.mem_append.mp member with old | new
        · exact Nat.le_trans (ih.2 x old) later
        · exact Nat.le_of_eq (mem_stamped.mp new).2.2

end System

end Interaction
