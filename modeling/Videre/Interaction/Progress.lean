import Mathlib.Algebra.BigOperators.Intervals
import Mathlib.Logic.Hydra
import Videre.Interaction.Pool

/-! # Calls that come to an end

What is left of a call is a tree that every answer cuts down, and one operation of
one call leaves the other calls alone. So the calls made so far cannot go on for
ever, whatever the host does between their operations. Where some call can always
take its operation as long as one is under way, a scheduler that takes whatever it
can take brings every call to its end.
-/

namespace Interaction

open Relation

namespace Program

variable {Op : Type} {Ans : Op → Type} {α : Type}

/-- What one answer leaves of a program. -/
inductive Residual : Program Op Ans α → Program Op Ans α → Prop
  | answered (o : Op) (rest : Ans o → Program Op Ans α) (a : Ans o) :
      Residual (rest a) (.call o rest)

theorem residual_wellFounded : WellFounded (@Residual Op Ans α) := by
  constructor
  intro p
  induction p with
  | done a =>
      constructor
      intro q smaller
      cases smaller
  | call o rest ih =>
      constructor
      intro q smaller
      cases smaller with
      | answered _ _ a => exact ih a

end Program

variable {Op : Type} {Ans : Op → Type} {σ ι ε Ev κ α : Type}

def heads : Option (Program Op Ans α) → Multiset (Program Op Ans α)
  | some t => {t}
  | none => 0

def Pool.left (p : Pool Op Ans σ Ev κ α) : Multiset (Program Op Ans α) :=
  ∑ id ∈ Finset.range p.calls.length, heads (p.threads id)

theorem sum_heads_update {n id : Nat} (within : id < n)
    (threads : Nat → Option (Program Op Ans α)) (left : Option (Program Op Ans α)) :
    (∑ j ∈ Finset.range n, heads (Function.update threads id left j)) + heads (threads id) =
      (∑ j ∈ Finset.range n, heads (threads j)) + heads left := by
  have member : id ∈ Finset.range n := Finset.mem_range.mpr within
  rw [← Finset.add_sum_erase _ (fun j => heads (threads j)) member,
    ← Finset.add_sum_erase _ (fun j => heads (Function.update threads id left j)) member]
  have others : ∑ j ∈ (Finset.range n).erase id, heads (Function.update threads id left j) =
      ∑ j ∈ (Finset.range n).erase id, heads (threads j) := by
    apply Finset.sum_congr rfl
    intro j there
    rw [Function.update_of_ne (Finset.ne_of_mem_erase there)]
  rw [others, Function.update_self]
  ac_rfl

namespace System

variable (S : System Op Ans σ ι ε Ev κ α)

/-- The host acts any number of times, and then one call takes an operation or is dropped. -/
inductive Works : Pool Op Ans σ Ev κ α → Pool Op Ans σ Ev κ α → Prop
  | host {p q r : Pool Op Ans σ Ev κ α} (event : ε) (moves : S.step p (.host event) = some q)
      (later : Works q r) : Works p r
  | advance {p q : Pool Op Ans σ Ev κ α} (id : Nat) (input : ι)
      (moves : S.step p (.advance id input) = some q) : Works p q
  | drop {p q : Pool Op Ans σ Ev κ α} (id : Nat) (moves : S.step p (.drop id) = some q) :
      Works p q

def Enabled (p : Pool Op Ans σ Ev κ α) (id : Nat) : Prop :=
  ∃ input q, S.step p (.advance id input) = some q

variable {S}

theorem enabled_of_act {p : Pool Op Ans σ Ev κ α} {id : Nat} {o : Op}
    {rest : Ans o → Program Op Ans α} {a : Ans o} {events : List Ev} {s : σ} (input : ι)
    (thread : p.threads id = some (.call o rest))
    (acts : S.act id o input p.shared = some (a, events, s)) : S.Enabled p id :=
  ⟨input, _, S.step_advance thread acts⟩

theorem Numbered.step {p q : Pool Op Ans σ Ev κ α} (numbered : Numbered p)
    {label : Label ι ε κ} (moves : S.step p label = some q) : Numbered q := by
  obtain ⟨call, -, rfl⟩ | ⟨id, i, o, rest, a, events, t, -, thread, acts, rfl⟩ |
    ⟨id, o, rest, events, t, -, thread, gone, rfl⟩ | ⟨event, -, rfl⟩ := S.step_cases moves
  · constructor
    · intro id t running
      simp only [Function.update_apply] at running
      rw [List.length_append, List.length_singleton]
      by_cases new : id = p.calls.length
      · omega
      · rw [if_neg new] at running
        have := numbered.thread id t running
        omega
    · intro id fresh
      rw [List.length_append, List.length_singleton] at fresh
      exact numbered.silent id (by omega)
  · exact numbered.moved thread _ _ _
  · exact numbered.moved thread _ _ _
  · constructor
    · exact numbered.thread
    · intro id fresh
      rw [own_append, numbered.silent id fresh, own_tagged_other id (by simp), List.nil_append]

/-- Work cuts one head down and grows none but what was left under it. -/
theorem Works.cuts {p q : Pool Op Ans σ Ev κ α} (works : S.Works p q) (numbered : Numbered p) :
    Numbered q ∧ CutExpand Program.Residual q.left p.left := by
  induction works with
  | @host p q r event moves _ ih =>
      have same : q.left = p.left := by
        cases moves
        rfl
      rw [← same]
      exact ih (numbered.step moves)
  | @advance p q id input moves =>
      refine ⟨numbered.step moves, ?_⟩
      simp only [step] at moves
      split at moves
      next o rest thread =>
        split at moves
        next a events s acts =>
          cases moves
          have within := numbered.thread id _ thread
          have sum := sum_heads_update within p.threads (some (rest a))
          rw [thread] at sum
          refine ⟨{rest a}, .call o rest, ?_, sum⟩
          intro t left
          rw [Multiset.mem_singleton.mp left]
          exact .answered o rest a
        next => cases moves
      next => cases moves
  | @drop p q id moves =>
      refine ⟨numbered.step moves, ?_⟩
      simp only [step] at moves
      split at moves
      next o rest thread =>
        split at moves
        next events s gone =>
          cases moves
          have within := numbered.thread id _ thread
          have sum := sum_heads_update within p.threads none
          rw [thread] at sum
          exact ⟨0, .call o rest, fun t left => absurd left (Multiset.notMem_zero t), sum⟩
        next => cases moves
      next => cases moves

/-- No schedule works for ever on the calls made so far. -/
theorem ends {p : Pool Op Ans σ Ev κ α} (numbered : Numbered p) :
    ¬ ∃ turns : Nat → Pool Op Ans σ Ev κ α,
      turns 0 = p ∧ ∀ n, S.Works (turns n) (turns (n + 1)) := by
  rintro ⟨turns, rfl, works⟩
  have kept : ∀ n, Numbered (turns n) := by
    intro n
    induction n with
    | zero => exact numbered
    | succ n ih => exact ((works n).cuts ih).1
  have wf : WellFounded (CutExpand (@Program.Residual Op Ans α)) :=
    Program.residual_wellFounded.cutExpand
  obtain ⟨least, ⟨n, rfl⟩, minimal⟩ :=
    wf.has_min (Set.range fun n => (turns n).left) ⟨_, 0, rfl⟩
  exact minimal _ ⟨n + 1, rfl⟩ ((works n).cuts (kept n)).2

/-- Where a call under way can always be found that takes its operation, the calls made so far
are brought to their ends without dropping any. -/
theorem drains (I : Pool Op Ans σ Ev κ α → Prop)
    (keeps : ∀ p q id input, I p → S.step p (.advance id input) = some q → I q)
    (live : ∀ p, I p → (∀ id, ¬ S.Enabled p id) → ∀ id, p.standing id = none)
    {p : Pool Op Ans σ Ev κ α} (here : I p) (numbered : Numbered p) :
    ∃ labels q, (∀ label ∈ labels, ∃ id input, label = .advance id input) ∧
      S.run labels p = some q ∧ ∀ id, q.standing id = none := by
  have wf : WellFounded fun q p : Pool Op Ans σ Ev κ α =>
      CutExpand Program.Residual q.left p.left :=
    InvImage.wf Pool.left Program.residual_wellFounded.cutExpand
  induction p using wf.induction with
  | _ p ih =>
      by_cases stuck : ∀ id, ¬ S.Enabled p id
      · exact ⟨[], p, List.forall_mem_nil _, rfl, live p here stuck⟩
      · push Not at stuck
        obtain ⟨id, input, q, moves⟩ := stuck
        have smaller := (Works.advance id input moves).cuts numbered
        obtain ⟨labels, r, advances, ran, done⟩ :=
          ih q smaller.2 (keeps p q id input here moves) smaller.1
        refine ⟨.advance id input :: labels, r, ?_, ?_, done⟩
        · intro label member
          rcases List.mem_cons.mp member with rfl | later
          · exact ⟨id, input, rfl⟩
          · exact advances label later
        · simp only [run, moves, ran]

theorem calls_at {p q : Pool Op Ans σ Ev κ α} {label : Label ι ε κ}
    (moves : S.step p label = some q) {id : Nat} {call : κ} (made : q.calls[id]? = some call) :
    p.calls[id]? = some call ∨ (label = .spawn call ∧ id = p.calls.length) := by
  obtain ⟨new, hlabel, rfl⟩ | ⟨_, _, _, _, _, _, _, -, -, -, rfl⟩ |
    ⟨_, _, _, _, _, -, -, -, rfl⟩ | ⟨_, -, rfl⟩ := S.step_cases moves
  · by_cases old : id < p.calls.length
    · rw [List.getElem?_append_left old] at made
      exact .inl made
    · right
      have bound := (List.getElem?_eq_some_iff.mp made).choose
      rw [List.length_append, List.length_singleton] at bound
      have last : id = p.calls.length := by omega
      subst last
      rw [List.getElem?_concat_length, Option.some.injEq] at made
      exact ⟨hlabel.trans (congrArg Label.spawn made), rfl⟩
  · exact .inl made
  · exact .inl made
  · exact .inl made

theorem standing_none {p q : Pool Op Ans σ Ev κ α} {label : Label ι ε κ}
    (moves : S.step p label = some q) {id : Nat} (given : id < p.calls.length)
    (ended : p.standing id = none) : q.standing id = none := by
  have other : ∀ {j : Nat} {o : Op} {rest : Ans o → Program Op Ans α},
      p.threads j = some (.call o rest) → id ≠ j := by
    intro j o rest thread same
    subst same
    rw [Pool.standing, thread] at ended
    cases ended
  obtain ⟨new, -, rfl⟩ | ⟨j, _, o, rest, _, _, _, -, thread, -, rfl⟩ |
    ⟨j, o, rest, _, _, -, thread, -, rfl⟩ | ⟨_, -, rfl⟩ := S.step_cases moves
  · simp only [Pool.standing, Function.update_of_ne (Nat.ne_of_lt given)]
    exact ended
  · simp only [Pool.standing, Function.update_of_ne (other thread)]
    exact ended
  · simp only [Pool.standing, Function.update_of_ne (other thread)]
    exact ended
  · exact ended

theorem thread_done {p q : Pool Op Ans σ Ev κ α} {label : Label ι ε κ}
    (moves : S.step p label = some q) (numbered : Numbered p) {id : Nat} {a : α}
    (ended : p.threads id = some (.done a)) : q.threads id = some (.done a) := by
  have given := numbered.thread id _ ended
  have other : ∀ {j : Nat} {o : Op} {rest : Ans o → Program Op Ans α},
      p.threads j = some (.call o rest) → id ≠ j := by
    intro j o rest thread same
    rw [← same, ended] at thread
    cases thread
  obtain ⟨new, -, rfl⟩ | ⟨j, _, o, rest, _, _, _, -, thread, -, rfl⟩ |
    ⟨j, o, rest, _, _, -, thread, -, rfl⟩ | ⟨_, -, rfl⟩ := S.step_cases moves
  · exact (Function.update_of_ne (Nat.ne_of_lt given) _ _).trans ended
  · exact (Function.update_of_ne (other thread) _ _).trans ended
  · exact (Function.update_of_ne (other thread) _ _).trans ended
  · exact ended

theorem run_advances {labels : List (Label ι ε κ)} {p q : Pool Op Ans σ Ev κ α}
    (advances : ∀ label ∈ labels, ∃ id input, label = .advance id input)
    (ran : S.run labels p = some q) {id : Nat} (there : p.threads id ≠ none) :
    q.threads id ≠ none := by
  induction labels generalizing p with
  | nil =>
      cases ran
      exact there
  | cons label labels ih =>
      obtain ⟨j, input, rfl⟩ := advances label List.mem_cons_self
      unfold run at ran
      split at ran
      next r moves =>
        apply ih (fun label member => advances label (List.mem_cons_of_mem _ member)) ran
        obtain ⟨_, hlabel, _⟩ | ⟨_, _, o, rest, a, _, _, -, -, -, rfl⟩ |
          ⟨_, _, _, _, _, hlabel, _⟩ | ⟨_, hlabel, _⟩ := S.step_cases moves
        · cases hlabel
        · simp only [Function.update_apply]
          split
          · exact Option.some_ne_none _
          · exact there
        · cases hlabel
        · cases hlabel
      next => cases ran

end System

end Interaction
