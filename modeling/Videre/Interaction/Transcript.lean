import Videre.Interaction.Program

/-! # Transcripts of a run

A transcript lists the operations of a run with the inputs they were given and the
states they were given them in. The run of a sequence is split at its parts, the run
of a loop at its turns. Fallible code stops at the first operation that
fails, unless the code goes on after failures of that operation at that place. That
is a property of the code alone, computed along the program from the operation
before, and it says where in its transcript a run may end in an error.
-/

namespace Interaction

variable {Op : Type} {Ans : Op → Type} {σ ι α β ε : Type}

structure Moment (Op σ ι : Type) where
  op : Op
  input : ι
  before : σ

/-- A run with its transcript. -/
inductive Traced (M : Machine Op Ans σ ι) (R : Rely Op σ ι) :
    Program Op Ans α → σ → List (Moment Op σ ι) → Program Op Ans α → σ → Prop
  | refl (p : Program Op Ans α) (s : σ) : Traced M R p s [] p s
  | step {o : Op} {rest : Ans o → Program Op Ans α} {i : ι} {a : Ans o} {s s' t : σ}
      {transcript : List (Moment Op σ ι)} {q : Program Op Ans α} (rely : R o i s)
      (moves : M.step o i s = some (a, s')) (later : Traced M R (rest a) s' transcript q t) :
      Traced M R (.call o rest) s (⟨o, i, s⟩ :: transcript) q t

section Runs

variable {M : Machine Op Ans σ ι} {R : Rely Op σ ι}

theorem Traced.run {p q : Program Op Ans α} {s t : σ} {transcript : List (Moment Op σ ι)}
    (traced : Traced M R p s transcript q t) : Exec M R p s q t := by
  induction traced with
  | refl p s => exact .refl p s
  | step rely moves _ ih => exact .step rely moves ih

theorem Exec.traced {p q : Program Op Ans α} {s t : σ} (run : Exec M R p s q t) :
    ∃ transcript, Traced M R p s transcript q t := by
  induction run with
  | refl p s => exact ⟨[], .refl p s⟩
  | step rely moves _ ih =>
      obtain ⟨transcript, later⟩ := ih
      exact ⟨_, .step rely moves later⟩

theorem Traced.of_bind {p : Program Op Ans α} {f : α → Program Op Ans β} {b : β} {s t : σ}
    {transcript : List (Moment Op σ ι)}
    (traced : Traced M R (p >>= f) s transcript (.done b) t) :
    ∃ first second a u, transcript = first ++ second ∧ Traced M R p s first (.done a) u ∧
      Traced M R (f a) u second (.done b) t := by
  induction p generalizing s transcript with
  | done a => exact ⟨[], transcript, a, s, rfl, .refl _ _, traced⟩
  | call o rest ih =>
      rw [Program.call_bind] at traced
      cases traced with
      | step rely moves later =>
          obtain ⟨first, second, a, u, split, run, next⟩ := ih _ later
          exact ⟨_ :: first, second, a, u, congrArg _ split, .step rely moves run, next⟩

/-- A sequence of fallible programs returns a value when both do. -/
theorem Traced.of_bind_ok {x : ExceptT ε (Program Op Ans) α}
    {f : α → ExceptT ε (Program Op Ans) β} {b : β} {s t : σ} {transcript : List (Moment Op σ ι)}
    (traced : Traced M R (x >>= f).run s transcript (.done (.ok b)) t) :
    ∃ first second a u, transcript = first ++ second ∧
      Traced M R x.run s first (.done (.ok a)) u ∧
      Traced M R (f a).run u second (.done (.ok b)) t := by
  rw [ExceptT.run_bind] at traced
  obtain ⟨first, second, out, u, split, run, next⟩ := traced.of_bind
  cases out with
  | error e => cases next
  | ok a => exact ⟨first, second, a, u, split, run, next⟩

theorem Traced.of_done {a b : α} {s t : σ} {transcript : List (Moment Op σ ι)}
    (traced : Traced M R (.done a) s transcript (.done b) t) :
    transcript = [] ∧ b = a ∧ t = s := by
  cases traced
  exact ⟨rfl, rfl, rfl⟩

theorem Traced.of_perform {o : Op} {a : Ans o} {s t : σ} {transcript : List (Moment Op σ ι)}
    (traced : Traced M R (Program.perform o) s transcript (.done a) t) :
    ∃ i, transcript = [⟨o, i, s⟩] ∧ M.step o i s = some (a, t) := by
  cases traced with
  | @step _ _ i b _ _ _ _ _ rely moves later =>
      obtain ⟨none_left, same, rfl⟩ := later.of_done
      exact ⟨i, by rw [none_left], by rw [same]; exact moves⟩

theorem Traced.of_lift {p : Program Op Ans α} {a : α} {s t : σ}
    {transcript : List (Moment Op σ ι)} (traced : Traced M R
      (ExceptT.lift p : ExceptT ε (Program Op Ans) α).run s transcript (.done (.ok a)) t) :
    Traced M R p s transcript (.done a) t := by
  rw [ExceptT.run_lift] at traced
  obtain ⟨first, second, b, u, split, run, next⟩ := traced.of_bind
  obtain ⟨none_left, same, rfl⟩ := next.of_done
  cases same
  rw [split, none_left, List.append_nil]
  exact run

structure Turn (δ β Op σ ι : Type) where
  item : δ
  before : β
  transcript : List (Moment Op σ ι)
  after : β

/-- The turns of a loop one after the other, each a run of the loop's step. -/
inductive Turns (M : Machine Op Ans σ ι) (R : Rely Op σ ι) {δ : Type}
    (step : β → δ → ExceptT ε (Program Op Ans) β) :
    β → σ → List (Turn δ β Op σ ι) → β → σ → Prop
  | nil (b : β) (s : σ) : Turns M R step b s [] b s
  | cons {b b' b'' : β} {s s' s'' : σ} {d : δ} {transcript : List (Moment Op σ ι)}
      {turns : List (Turn δ β Op σ ι)}
      (turn : Traced M R (step b d).run s transcript (.done (.ok b')) s')
      (later : Turns M R step b' s' turns b'' s'') :
      Turns M R step b s (⟨d, b, transcript, b'⟩ :: turns) b'' s''

theorem Traced.of_foldlM {δ : Type} {step : β → δ → ExceptT ε (Program Op Ans) β} {xs : List δ}
    {b b' : β} {s t : σ} {transcript : List (Moment Op σ ι)}
    (traced : Traced M R (xs.foldlM step b).run s transcript (.done (.ok b')) t) :
    ∃ turns, Turns M R step b s turns b' t ∧ turns.map Turn.item = xs ∧
      transcript = turns.flatMap Turn.transcript := by
  induction xs generalizing b s transcript with
  | nil =>
      obtain ⟨none_left, same, rfl⟩ := traced.of_done
      cases same
      exact ⟨[], .nil _ _, rfl, none_left⟩
  | cons d xs ih =>
      rw [List.foldlM_cons] at traced
      obtain ⟨first, second, b₁, u, split, turn, next⟩ := traced.of_bind_ok
      obtain ⟨turns, later, items, rest⟩ := ih next
      refine ⟨⟨d, b, first, b₁⟩ :: turns, .cons turn later, congrArg _ items, ?_⟩
      rw [split, rest, List.flatMap_cons]

/-- The rule of a loop's turns: what each turn keeps of its value, the loop keeps. -/
theorem Turns.keep {δ : Type} {step : β → δ → ExceptT ε (Program Op Ans) β} {b b' : β} {s t : σ}
    {turns : List (Turn δ β Op σ ι)} (L : List (Turn δ β Op σ ι) → β → Prop)
    (run : Turns M R step b s turns b' t)
    (keeps : ∀ past d b b' transcript s s',
      Traced M R (step b d).run s transcript (.done (.ok b')) s' → L past b →
        L (past ++ [⟨d, b, transcript, b'⟩]) b')
    (past : List (Turn δ β Op σ ι)) (start : L past b) : L (past ++ turns) b' := by
  induction run generalizing past with
  | nil b s => rwa [List.append_nil]
  | @cons b b' b'' s s' s'' d transcript turns turn later ih =>
      have next := ih _ (keeps past d b b' transcript s s' turn start)
      rwa [List.append_assoc] at next

end Runs

section Along

/-- Whatever the operations answer, the program performs only operations that `may`, and returns
only values that satisfy `Q`. -/
def Along (may : Op → Prop) (Q : α → Prop) : Program Op Ans α → Prop
  | .done a => Q a
  | .call o rest => may o ∧ ∀ a, Along may Q (rest a)

namespace Along

variable {may : Op → Prop}

theorem mono {Q Q' : α → Prop} {p : Program Op Ans α} (along : Along may Q p)
    (weaker : ∀ a, Q a → Q' a) : Along may Q' p := by
  induction p with
  | done a => exact weaker a along
  | call o rest ih => exact ⟨along.1, fun a => ih a (along.2 a)⟩

theorem bind {Q : β → Prop} {p : Program Op Ans α} {f : α → Program Op Ans β}
    (along : Along may (fun a => Along may Q (f a)) p) : Along may Q (p >>= f) := by
  induction p with
  | done a => exact along
  | call o rest ih => exact ⟨along.1, fun a => ih a (along.2 a)⟩

theorem bindExcept {Q : Except ε β → Prop} {x : ExceptT ε (Program Op Ans) α}
    {f : α → ExceptT ε (Program Op Ans) β} (fails : ∀ e, Q (.error e))
    (along : Along may (fun out => ∀ a, out = .ok a → Along may Q (f a).run) x.run) :
    Along may Q (x >>= f).run := by
  rw [ExceptT.run_bind]
  refine bind (along.mono ?_)
  intro out holds
  cases out with
  | ok a => exact holds a rfl
  | error e => exact fails e

theorem traced {M : Machine Op Ans σ ι} {R : Rely Op σ ι} {Q : α → Prop} {p : Program Op Ans α}
    {a : α} {s t : σ} {transcript : List (Moment Op σ ι)} (along : Along may Q p)
    (run : Traced M R p s transcript (.done a) t) : (∀ m ∈ transcript, may m.op) ∧ Q a := by
  induction p generalizing s transcript with
  | done b =>
      cases run
      exact ⟨nofun, along⟩
  | call o rest ih =>
      cases run with
      | step rely moves later =>
          obtain ⟨ops, holds⟩ := ih _ (along.2 _) later
          exact ⟨List.forall_mem_cons.mpr ⟨along.1, ops⟩, holds⟩

end Along

end Along

section Strictness

variable (failure? : (o : Op) → Ans o → Option ε) (tolerates : Option Op → Op → Bool)

/-- `Strict failure? tolerates Q prev p`: begun after the operation `prev`, the program ends in
an error at once when an operation fails which is not tolerated there, and in no other way. A
value it returns satisfies `Q` with the operation before. -/
def Strict (Q : Option Op → α → Prop) : Option Op → Program Op Ans (Except ε α) → Prop
  | prev, .done (.ok a) => Q prev a
  | _, .done (.error _) => False
  | prev, .call o rest => ∀ a,
      match failure? o a with
      | none => Strict Q (some o) (rest a)
      | some e =>
          if tolerates prev o then Strict Q (some o) (rest a) else rest a = .done (.error e)

/-- Every moment at which an operation fails untolerated satisfies `P`. -/
def EachBreak (faulty : ι → Bool) (P : Moment Op σ ι → Prop) :
    Option Op → List (Moment Op σ ι) → Prop
  | _, [] => True
  | prev, m :: rest => (faulty m.input = true → tolerates prev m.op = false → P m) ∧
      EachBreak faulty P (some m.op) rest

namespace Strict

variable {failure? : (o : Op) → Ans o → Option ε} {tolerates : Option Op → Op → Bool}
  {prev : Option Op}

theorem mono {Q Q' : Option Op → α → Prop} {p : Program Op Ans (Except ε α)}
    (strict : Strict failure? tolerates Q prev p) (weaker : ∀ prev a, Q prev a → Q' prev a) :
    Strict failure? tolerates Q' prev p := by
  induction p generalizing prev with
  | done out =>
      cases out with
      | ok a => exact weaker prev a strict
      | error e => exact strict
  | call o rest ih =>
      intro a
      have here := strict a
      cases fails : failure? o a with
      | none =>
          rw [fails] at here
          exact ih a here
      | some e =>
          simp only [fails] at here ⊢
          by_cases tolerated : tolerates prev o = true
          · rw [if_pos tolerated] at here ⊢
            exact ih a here
          · rw [if_neg tolerated] at here ⊢
            exact here

/-- A tolerated operation may answer anything. -/
theorem tolerated {Q : Option Op → α → Prop} {o : Op} {rest : Ans o → Program Op Ans (Except ε α)}
    (goesOn : tolerates prev o = true)
    (holds : ∀ a, Strict failure? tolerates Q (some o) (rest a)) :
    Strict failure? tolerates Q prev (.call o rest) := by
  intro a
  cases failure? o a with
  | none => exact holds a
  | some e =>
      simp only [if_pos goesOn]
      exact holds a

/-- Sequencing: the second program begins after the last operation of the first. -/
theorem bind {Q : Option Op → β → Prop} {x : ExceptT ε (Program Op Ans) α}
    {f : α → ExceptT ε (Program Op Ans) β}
    (strict : Strict failure? tolerates
      (fun last a => Strict failure? tolerates Q last (f a).run) prev x.run) :
    Strict failure? tolerates Q prev (x >>= f).run := by
  rw [ExceptT.run_bind]
  generalize x.run = p at strict
  induction p generalizing prev with
  | done out =>
      cases out with
      | ok a => exact strict
      | error e => exact strict.elim
  | call o rest ih =>
      intro a
      have here := strict a
      cases fails : failure? o a with
      | none =>
          rw [fails] at here
          exact ih a here
      | some e =>
          simp only [fails] at here ⊢
          by_cases tolerated : tolerates prev o = true
          · rw [if_pos tolerated] at here ⊢
            exact ih a here
          · rw [if_neg tolerated] at here ⊢
            rw [here]
            rfl

theorem foldlM {δ : Type} {step : β → δ → ExceptT ε (Program Op Ans) β}
    (body : ∀ last b d, Strict failure? tolerates (fun _ _ => True) last (step b d).run) :
    ∀ (xs : List δ) (last : Option Op) (b : β),
      Strict failure? tolerates (fun _ _ => True) last (xs.foldlM step b).run
  | [], _, _ => trivial
  | d :: rest, last, b => by
      rw [List.foldlM_cons]
      exact bind ((body last b d).mono fun last' b' _ => foldlM body rest last' b')

end Strict

/-- How a run ends: with a value and without a break, or in an error, at its only break. -/
def EndsAtBreak (tolerates : Option Op → Op → Bool) (faulty : ι → Bool) (M : Machine Op Ans σ ι)
    (prev : Option Op) (transcript : List (Moment Op σ ι)) (t : σ) : Except ε α → Prop
  | .ok _ => ∀ P, EachBreak tolerates faulty P prev transcript
  | .error _ => ∃ m a, M.step m.op m.input m.before = some (a, t) ∧ faulty m.input = true ∧
      ∀ P, EachBreak tolerates faulty P prev transcript ↔ P m

/-- An operation that is not a break leaves the end of a run to what follows it. -/
theorem EndsAtBreak.cons {tolerates : Option Op → Op → Bool} {faulty : ι → Bool}
    {M : Machine Op Ans σ ι} {prev : Option Op} {transcript : List (Moment Op σ ι)} {t : σ}
    {m : Moment Op σ ι} {out : Except ε α}
    (quiet : faulty m.input = true → tolerates prev m.op = false → False)
    (ends : EndsAtBreak tolerates faulty M (some m.op) transcript t out) :
    EndsAtBreak tolerates faulty M prev (m :: transcript) t out := by
  have pass : ∀ P : Moment Op σ ι → Prop, EachBreak tolerates faulty P prev (m :: transcript) ↔
      EachBreak tolerates faulty P (some m.op) transcript :=
    fun P => ⟨fun each => each.2, fun each => ⟨fun f u => (quiet f u).elim, each⟩⟩
  cases out with
  | ok a => exact fun P => (pass P).mpr (ends P)
  | error e =>
      obtain ⟨m', a, last, faulted, only⟩ := ends
      exact ⟨m', a, last, faulted, fun P => (pass P).trans (only P)⟩

theorem Traced.breaks {failure? : (o : Op) → Ans o → Option ε} {tolerates : Option Op → Op → Bool}
    {faulty : ι → Bool} {M : Machine Op Ans σ ι} {R : Rely Op σ ι}
    (agree : ∀ {o i s a s'}, M.step o i s = some (a, s') → (failure? o a).isSome = faulty i)
    {Q : Option Op → α → Prop} {prev : Option Op} {p : Program Op Ans (Except ε α)} {s t : σ}
    {transcript : List (Moment Op σ ι)} {out : Except ε α}
    (traced : Traced M R p s transcript (.done out) t)
    (strict : Strict failure? tolerates Q prev p) :
    EndsAtBreak tolerates faulty M prev transcript t out := by
  generalize ended : Program.done out = q at traced
  induction traced generalizing prev with
  | refl p s =>
      cases ended
      cases out with
      | ok a => exact fun _ => trivial
      | error e => exact strict.elim
  | @step o rest i a s s' t transcript q rely moves later ih =>
      have here := strict a
      have agreed := agree moves
      cases fails : failure? o a with
      | none =>
          rw [fails] at here agreed
          refine (ih here ended).cons ?_
          intro faulted _
          exact absurd (agreed.trans faulted) (by simp)
      | some e =>
          rw [fails] at agreed
          simp only [fails] at here
          by_cases tolerated : tolerates prev o = true
          · rw [if_pos tolerated] at here
            refine (ih here ended).cons ?_
            intro _ untolerated
            exact absurd (tolerated.symm.trans untolerated) (by simp)
          · rw [if_neg tolerated] at here
            rw [here] at later
            cases later
            cases ended
            have untolerated : tolerates prev o = false := by simpa using tolerated
            refine ⟨⟨o, i, s⟩, a, moves, agreed.symm, fun P => ?_⟩
            exact ⟨fun each => each.1 agreed.symm untolerated,
              fun holds => ⟨fun _ _ => holds, trivial⟩⟩

end Strictness

end Interaction
