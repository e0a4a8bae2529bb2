import Videre.Interaction.Trace

/-! # Lives of an automaton

An automaton reads events and may move silently in between. A life is what it reads
and where that leaves it, so a concrete system refines the automaton when everything
it logs is a life.
-/

namespace Interaction

variable {σ β : Type}

inductive Life (edge : σ → β → σ → Prop) (silent : σ → σ → Prop) (s : σ) : List β → σ → Prop
  | start : Life edge silent s [] s
  | rest {trace : List β} {t u : σ} (before : Life edge silent s trace t) (moves : silent t u) :
      Life edge silent s trace u
  | read {trace : List β} {t u : σ} {e : β} (before : Life edge silent s trace t)
      (reads : edge t e u) : Life edge silent s (trace ++ [e]) u

namespace Life

variable {edge : σ → β → σ → Prop} {silent : σ → σ → Prop} {s t : σ} {trace : List β}

/-- What holds at the start and is kept by every silent move and every event holds of a life. -/
theorem invariant {I : List β → σ → Prop} (life : Life edge silent s trace t) (init : I [] s)
    (rest : ∀ trace t u, I trace t → silent t u → I trace u)
    (read : ∀ trace t e u, I trace t → edge t e u → I (trace ++ [e]) u) : I trace t := by
  induction life with
  | start => exact init
  | rest _ moves ih => exact rest _ _ _ ih moves
  | read _ reads ih => exact read _ _ _ _ ih reads

/-- A law that every edge keeps from what a life shows is a law of its trace. -/
theorem lawful {I : List β → σ → Prop} {law : List β → β → Prop}
    (life : Life edge silent s trace t) (init : I [] s)
    (rest : ∀ trace t u, I trace t → silent t u → I trace u)
    (read : ∀ trace t e u, I trace t → edge t e u → law trace e ∧ I (trace ++ [e]) u) :
    Lawful law trace := by
  have kept : Lawful law trace ∧ I trace t := by
    apply life.invariant (I := fun trace t => Lawful law trace ∧ I trace t) ⟨lawful_nil, init⟩
    · rintro trace t u ⟨kept, here⟩ moves
      exact ⟨kept, rest trace t u here moves⟩
    · rintro trace t e u ⟨kept, here⟩ reads
      obtain ⟨allowed, there⟩ := read trace t e u here reads
      exact ⟨kept.append ⟨allowed, trivial⟩, there⟩
  exact kept.1

end Life

end Interaction
