import Mathlib.Data.List.Basic

/-! # Programs over atomic operations

A program is a tree of operations. Each operation is answered at its own type
and the answer selects the rest of the program, so a sequential function with
suspension points is one value whose every residual is again a program. A
machine gives the operations a meaning: given the environment's input for the
operation, it answers and moves the state, or refuses. Nothing here runs an
operation twice, and a run may stop between any two of them.
-/

namespace Interaction

/-- Sequential code over the operations `Op`, with `Ans o` the type `o` answers at. -/
inductive Program (Op : Type) (Ans : Op → Type) (α : Type) : Type
  | done (a : α)
  | call (o : Op) (rest : Ans o → Program Op Ans α)

namespace Program

variable {Op : Type} {Ans : Op → Type} {α β γ : Type}

def bind : Program Op Ans α → (α → Program Op Ans β) → Program Op Ans β
  | .done a, f => f a
  | .call o rest, f => .call o fun x => (rest x).bind f

instance : Monad (Program Op Ans) where
  pure := .done
  bind := bind

def perform (o : Op) : Program Op Ans (Ans o) :=
  .call o .done

def next? : Program Op Ans α → Option Op
  | .done _ => none
  | .call o _ => some o

theorem of_next? {p : Program Op Ans α} {o : Op} (stands : p.next? = some o) :
    ∃ rest, p = .call o rest := by
  cases p with
  | done a => cases stands
  | call o' rest =>
      cases stands
      exact ⟨rest, rfl⟩

@[simp] theorem pure_eq (a : α) : (pure a : Program Op Ans α) = .done a := rfl

@[simp] theorem done_bind (a : α) (f : α → Program Op Ans β) : (.done a >>= f) = f a := rfl

@[simp] theorem call_bind (o : Op) (rest : Ans o → Program Op Ans α) (f : α → Program Op Ans β) :
    (Program.call o rest >>= f) = .call o fun x => rest x >>= f := rfl

@[simp] theorem perform_bind (o : Op) (f : Ans o → Program Op Ans β) :
    (perform o >>= f) = .call o f := rfl

theorem bind_done (p : Program Op Ans α) : (p >>= Program.done) = p := by
  induction p with
  | done a => rfl
  | call o rest ih =>
      rw [call_bind]
      congr 1
      funext x
      exact ih x

theorem bind_assoc (p : Program Op Ans α) (f : α → Program Op Ans β)
    (g : β → Program Op Ans γ) : ((p >>= f) >>= g) = (p >>= fun a => f a >>= g) := by
  induction p with
  | done a => rfl
  | call o rest ih =>
      simp only [call_bind]
      congr 1
      funext x
      exact ih x

instance : LawfulMonad (Program Op Ans) :=
  LawfulMonad.mk' (Program Op Ans) bind_done (fun _ _ => rfl) bind_assoc

end Program

/-- What the operations do. The input is the environment's part of one
operation; `none` is an operation that cannot take that input in that state. -/
structure Machine (Op : Type) (Ans : Op → Type) (σ ι : Type) where
  step : (o : Op) → ι → σ → Option (Ans o × σ)

/-- What is relied on of the environment: the inputs it may give an operation in a state. -/
abbrev Rely (Op σ ι : Type) := Op → ι → σ → Prop

section Execution

variable {Op : Type} {Ans : Op → Type} {σ ι α β : Type}

/-- `Exec M R p s q t`: in an environment that keeps to `R`, program `p` started in
`s` has come to the residual `q` in `t`. The residual is `done` exactly when the
program has returned, and any other residual is a run torn at that operation. -/
inductive Exec (M : Machine Op Ans σ ι) (R : Rely Op σ ι) :
    Program Op Ans α → σ → Program Op Ans α → σ → Prop
  | refl (p : Program Op Ans α) (s : σ) : Exec M R p s p s
  | step {o : Op} {rest : Ans o → Program Op Ans α} {i : ι} {a : Ans o} {s s' t : σ}
      {q : Program Op Ans α} (rely : R o i s) (moves : M.step o i s = some (a, s'))
      (later : Exec M R (rest a) s' q t) : Exec M R (.call o rest) s q t

namespace Exec

variable {M : Machine Op Ans σ ι} {R R' : Rely Op σ ι}

theorem trans {p q r : Program Op Ans α} {s t u : σ}
    (first : Exec M R p s q t) (second : Exec M R q t r u) : Exec M R p s r u := by
  induction first with
  | refl => exact second
  | step rely moves _ ih => exact .step rely moves (ih second)

theorem mono (weaker : ∀ o i s, R o i s → R' o i s) {p q : Program Op Ans α} {s t : σ}
    (run : Exec M R p s q t) : Exec M R' p s q t := by
  induction run with
  | refl p s => exact .refl p s
  | step rely moves _ ih => exact .step (weaker _ _ _ rely) moves ih

end Exec

/-- Run a program against a list of inputs, one an operation. A refused input, an
input the environment may not give and an input after the end all fail the run. -/
def exec (M : Machine Op Ans σ ι) (R : Rely Op σ ι) [∀ o i s, Decidable (R o i s)] :
    Program Op Ans α → List ι → σ → Option (Program Op Ans α × σ)
  | p, [], s => some (p, s)
  | .done _, _ :: _, _ => none
  | .call o rest, i :: is, s =>
      if R o i s then
        match M.step o i s with
        | none => none
        | some (a, s') => exec M R (rest a) is s'
      else none

theorem exec_sound {M : Machine Op Ans σ ι} {R : Rely Op σ ι} [∀ o i s, Decidable (R o i s)]
    {inputs : List ι} {p q : Program Op Ans α} {s t : σ}
    (run : exec M R p inputs s = some (q, t)) : Exec M R p s q t := by
  induction inputs generalizing p s with
  | nil =>
      cases p <;>
        (simp only [exec, Option.some.injEq, Prod.mk.injEq] at run
         obtain ⟨rfl, rfl⟩ := run)
      · exact .refl _ _
      · exact .refl _ _
  | cons i is ih =>
      cases p with
      | done a => simp [exec] at run
      | call o rest =>
          simp only [exec] at run
          split at run
          next rely =>
            cases moves : M.step o i s with
            | none => simp [moves] at run
            | some answer =>
                obtain ⟨a, s'⟩ := answer
                simp only [moves] at run
                exact .step rely moves (ih run)
          next => simp at run

def returned (M : Machine Op Ans σ ι) (R : Rely Op σ ι) [∀ o i s, Decidable (R o i s)]
    (p : Program Op Ans α) (inputs : List ι) (s : σ) : Option (α × σ) :=
  match exec M R p inputs s with
  | some (.done a, t) => some (a, t)
  | _ => none

theorem Exec.of_returned {M : Machine Op Ans σ ι} {R : Rely Op σ ι}
    [∀ o i s, Decidable (R o i s)] {inputs : List ι} {p : Program Op Ans α} {a : α} {s t : σ}
    (ran : returned M R p inputs s = some (a, t)) : Exec M R p s (.done a) t := by
  unfold returned at ran
  split at ran
  next run =>
    cases ran
    exact exec_sound run
  next => simp at ran

end Execution

end Interaction
