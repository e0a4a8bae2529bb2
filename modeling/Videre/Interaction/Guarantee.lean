import Videre.Interaction.Program
import Mathlib.Logic.Relation

/-! # Rely and guarantee

`Keeps M R G Q p s`: while the environment keeps to `R`, every operation of `p`
started in `s` moves the state as `G` allows, and a run which returns `a` leaves a
state satisfying `Q a`. It is computed along the program, so a function is verified
operation by operation and its residual after a torn run keeps what the whole did.
-/

namespace Interaction

open Relation

variable {Op : Type} {Ans : Op → Type} {σ ι α β ε : Type}

def Keeps (M : Machine Op Ans σ ι) (R : Rely Op σ ι) (G : σ → σ → Prop) (Q : α → σ → Prop) :
    Program Op Ans α → σ → Prop
  | .done a, s => Q a s
  | .call o rest, s =>
      ∀ i a s', R o i s → M.step o i s = some (a, s') → G s s' ∧ Keeps M R G Q (rest a) s'

namespace Keeps

variable {M : Machine Op Ans σ ι} {R : Rely Op σ ι} {G : σ → σ → Prop}

@[simp] theorem done_iff {Q : α → σ → Prop} {a : α} {s : σ} :
    Keeps M R G Q (.done a) s ↔ Q a s := Iff.rfl

/-- Consequence. What was guaranteed on the way is at hand at the end. -/
theorem mono {Q Q' : α → σ → Prop} {p : Program Op Ans α} {s : σ} (h : Keeps M R G Q p s)
    (weaker : ∀ a t, ReflTransGen G s t → Q a t → Q' a t) : Keeps M R G Q' p s := by
  induction p generalizing s with
  | done a => exact weaker a s .refl h
  | call o rest ih =>
      intro i a s' rely moves
      obtain ⟨guarantee, later⟩ := h i a s' rely moves
      exact ⟨guarantee, ih a later fun b t path => weaker b t (path.head guarantee)⟩

theorem both {G' : σ → σ → Prop} {Q Q' : α → σ → Prop} {p : Program Op Ans α} {s : σ}
    (h : Keeps M R G Q p s) (h' : Keeps M R G' Q' p s) :
    Keeps M R (fun u v => G u v ∧ G' u v) (fun a t => Q a t ∧ Q' a t) p s := by
  induction p generalizing s with
  | done a => exact ⟨h, h'⟩
  | call o rest ih =>
      intro i a s' rely moves
      obtain ⟨guarantee, later⟩ := h i a s' rely moves
      obtain ⟨guarantee', later'⟩ := h' i a s' rely moves
      exact ⟨⟨guarantee, guarantee'⟩, ih a later later'⟩

/-- Sequencing: the second program is verified from every state the first returns in. -/
theorem bind {Q : β → σ → Prop} {p : Program Op Ans α} {f : α → Program Op Ans β} {s : σ}
    (h : Keeps M R G (fun a t => Keeps M R G Q (f a) t) p s) : Keeps M R G Q (p >>= f) s := by
  induction p generalizing s with
  | done a => exact h
  | call o rest ih =>
      intro i a s' rely moves
      obtain ⟨guarantee, later⟩ := h i a s' rely moves
      exact ⟨guarantee, ih a later⟩

/-- Sequencing of fallible programs: an error skips the second one. -/
theorem bindExcept {Q : Except ε β → σ → Prop} {x : ExceptT ε (Program Op Ans) α}
    {f : α → ExceptT ε (Program Op Ans) β} {s : σ}
    (h : Keeps M R G
      (fun r t => match r with
        | .ok a => Keeps M R G Q (f a).run t
        | .error e => Q (.error e) t) x.run s) :
    Keeps M R G Q (x >>= f).run s := by
  rw [ExceptT.run_bind]
  refine bind (h.mono ?_)
  intro r t _ post
  cases r with
  | ok a => exact post
  | error e => exact post

theorem lift {Q : Except ε α → σ → Prop} {p : Program Op Ans α} {s : σ}
    (h : Keeps M R G (fun a t => Q (.ok a) t) p s) :
    Keeps M R G Q (ExceptT.lift p : ExceptT ε (Program Op Ans) α).run s := by
  rw [ExceptT.run_lift]
  exact bind (h.mono fun a t _ post => post)

/-- The loop rule for a fold of fallible steps: an invariant indexed by the part of the
list still to come. -/
theorem foldlM {δ : Type} {Q : Except ε β → σ → Prop} {step : β → δ → ExceptT ε (Program Op Ans) β}
    (L : List δ → β → σ → Prop)
    (body : ∀ d rest b s, L (d :: rest) b s → Keeps M R G
      (fun r t => match r with
        | .ok b' => L rest b' t
        | .error e => Q (.error e) t) (step b d).run s)
    (finish : ∀ b s, L [] b s → Q (.ok b) s) :
    ∀ (xs : List δ) (b : β) (s : σ), L xs b s → Keeps M R G Q (xs.foldlM step b).run s
  | [], b, s, loop => finish b s loop
  | d :: rest, b, s, loop => by
      rw [List.foldlM_cons]
      refine bindExcept ((body d rest b s loop).mono ?_)
      intro r t _ post
      cases r with
      | ok b' => exact foldlM L body finish rest b' t post
      | error e => exact post

/-- Soundness: what is verified of a program is verified of every residual it reaches, and
every operation before it kept the guarantee. -/
theorem exec {Q : α → σ → Prop} {p q : Program Op Ans α} {s t : σ}
    (h : Keeps M R G Q p s) (run : Exec M R p s q t) :
    ReflTransGen G s t ∧ Keeps M R G Q q t := by
  induction run with
  | refl => exact ⟨.refl, h⟩
  | step rely moves _ ih =>
      obtain ⟨guarantee, later⟩ := h _ _ _ rely moves
      obtain ⟨path, final⟩ := ih later
      exact ⟨path.head guarantee, final⟩

theorem returns {Q : α → σ → Prop} {p : Program Op Ans α} {a : α} {s t : σ}
    (h : Keeps M R G Q p s) (run : Exec M R p s (.done a) t) : Q a t :=
  (h.exec run).2

end Keeps

end Interaction
