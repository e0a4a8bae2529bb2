import Videre.Interaction.Program
import Videre.Interaction.Trace

/-! # Pools of programs over one shared state

Any number of calls run against one shared state, one operation of one call at a
time and in any order. A call may be abandoned where the system says so, and the
host may act between any two operations. Every operation appends to one log, so
what a run did is data of the pool it reaches.
-/

namespace Interaction

/-- What the calls, the operations and the host do to the shared state, and what they log. -/
structure System (Op : Type) (Ans : Op → Type) (σ ι ε Ev κ α : Type) where
  code : κ → Program Op Ans α
  act : Nat → (o : Op) → ι → σ → Option (Ans o × List Ev × σ)
  abandon : Nat → Op → σ → Option (List Ev × σ)
  host : ε → σ → List Ev × σ

/-- The shared state, the calls made so far by number, what is left of each, and the log. -/
structure Pool (Op : Type) (Ans : Op → Type) (σ Ev κ α : Type) where
  shared : σ
  calls : List κ
  threads : Nat → Option (Program Op Ans α)
  log : List (Entry Ev)

inductive Label (ι ε κ : Type)
  | spawn (call : κ)
  | advance (id : Nat) (input : ι)
  | drop (id : Nat)
  | host (event : ε)

def Pool.standing {Op : Type} {Ans : Op → Type} {σ Ev κ α : Type} (p : Pool Op Ans σ Ev κ α)
    (id : Nat) : Option Op :=
  (p.threads id).bind Program.next?

theorem Pool.of_standing {Op : Type} {Ans : Op → Type} {σ Ev κ α : Type} {p : Pool Op Ans σ Ev κ α}
    {id : Nat} {o : Op} (stands : p.standing id = some o) :
    ∃ rest, p.threads id = some (.call o rest) := by
  obtain ⟨t, thread, next⟩ := Option.bind_eq_some_iff.mp stands
  obtain ⟨rest, ht⟩ := Program.of_next? next
  exact ⟨rest, by rw [thread, ht]⟩

namespace System

variable {Op : Type} {Ans : Op → Type} {σ ι ε Ev κ α : Type}

def empty (s : σ) : Pool Op Ans σ Ev κ α :=
  ⟨s, [], fun _ => none, []⟩

variable (S : System Op Ans σ ι ε Ev κ α)

def step (p : Pool Op Ans σ Ev κ α) : Label ι ε κ → Option (Pool Op Ans σ Ev κ α)
  | .spawn call =>
      some { p with
        calls := p.calls ++ [call]
        threads := Function.update p.threads p.calls.length (some (S.code call)) }
  | .advance id input =>
      match p.threads id with
      | some (.call o rest) =>
          match S.act id o input p.shared with
          | some (a, events, s) =>
              some { p with
                shared := s
                threads := Function.update p.threads id (some (rest a))
                log := p.log ++ tagged (some id) events }
          | none => none
      | _ => none
  | .drop id =>
      match p.threads id with
      | some (.call o _) =>
          match S.abandon id o p.shared with
          | some (events, s) =>
              some { p with
                shared := s
                threads := Function.update p.threads id none
                log := p.log ++ tagged (some id) events }
          | none => none
      | _ => none
  | .host event =>
      some { p with
        shared := (S.host event p.shared).2
        log := p.log ++ tagged none (S.host event p.shared).1 }

/-- Everything one step can do. -/
theorem step_cases {p q : Pool Op Ans σ Ev κ α} {label : Label ι ε κ}
    (moves : S.step p label = some q) :
    (∃ call, label = .spawn call ∧ q =
      { p with
        calls := p.calls ++ [call]
        threads := Function.update p.threads p.calls.length (some (S.code call)) }) ∨
    (∃ id input o rest a events s, label = .advance id input ∧
      p.threads id = some (.call o rest) ∧ S.act id o input p.shared = some (a, events, s) ∧
      q = { p with
        shared := s
        threads := Function.update p.threads id (some (rest a))
        log := p.log ++ tagged (some id) events }) ∨
    (∃ id o rest events s, label = .drop id ∧
      p.threads id = some (.call o rest) ∧ S.abandon id o p.shared = some (events, s) ∧
      q = { p with
        shared := s
        threads := Function.update p.threads id none
        log := p.log ++ tagged (some id) events }) ∨
    (∃ event, label = .host event ∧ q =
      { p with
        shared := (S.host event p.shared).2
        log := p.log ++ tagged none (S.host event p.shared).1 }) := by
  cases label with
  | spawn call => exact .inl ⟨call, rfl, (Option.some.inj moves).symm⟩
  | advance id input =>
      right; left
      simp only [step] at moves
      split at moves
      next o rest thread =>
        split at moves
        next a events s acts =>
          exact ⟨id, input, o, rest, a, events, s, rfl, thread, acts, (Option.some.inj moves).symm⟩
        next => cases moves
      next => cases moves
  | drop id =>
      right; right; left
      simp only [step] at moves
      split at moves
      next o rest thread =>
        split at moves
        next events s gone =>
          exact ⟨id, o, rest, events, s, rfl, thread, gone, (Option.some.inj moves).symm⟩
        next => cases moves
      next => cases moves
  | host event => exact .inr (.inr (.inr ⟨event, rfl, (Option.some.inj moves).symm⟩))

theorem step_advance {p : Pool Op Ans σ Ev κ α} {id : Nat} {input : ι} {o : Op}
    {rest : Ans o → Program Op Ans α} {a : Ans o} {events : List Ev} {s : σ}
    (thread : p.threads id = some (.call o rest))
    (acts : S.act id o input p.shared = some (a, events, s)) :
    S.step p (.advance id input) = some { p with
      shared := s
      threads := Function.update p.threads id (some (rest a))
      log := p.log ++ tagged (some id) events } := by
  simp only [step, thread, acts]

def run : List (Label ι ε κ) → Pool Op Ans σ Ev κ α → Option (Pool Op Ans σ Ev κ α)
  | [], p => some p
  | label :: labels, p =>
      match S.step p label with
      | some q => run labels q
      | none => none

/-- The pools some schedule reaches from the shared state `s` with no call made. -/
inductive Reach (s : σ) : Pool Op Ans σ Ev κ α → Prop
  | start : Reach s (empty s)
  | step {p q : Pool Op Ans σ Ev κ α} {label : Label ι ε κ} (before : Reach s p)
      (moves : S.step p label = some q) : Reach s q

variable {S}

theorem Reach.of_run {s : σ} {labels : List (Label ι ε κ)} {p q : Pool Op Ans σ Ev κ α}
    (before : S.Reach s p) (ran : S.run labels p = some q) : S.Reach s q := by
  induction labels generalizing p with
  | nil =>
      cases ran
      exact before
  | cons label labels ih =>
      unfold run at ran
      split at ran
      next r moves => exact ih (before.step moves) ran
      next => cases ran

/-! ## What a call does on its own -/

variable (S) in
/-- Whatever the operations answer, thread `id` with the own past `past` and the rest
`p` of its program appends what `law` allows and stands at every operation where
`point` says. -/
def Adheres (law : List Ev → Ev → Prop) (point : List Ev → Program Op Ans α → Prop) (id : Nat) :
    List Ev → Program Op Ans α → Prop
  | past, .done a => point past (.done a)
  | past, .call o rest =>
      point past (.call o rest) ∧
      (∀ i s a events t, S.act id o i s = some (a, events, t) →
        Extends law past events ∧ Adheres law point id (past ++ events) (rest a)) ∧
      ∀ s events t, S.abandon id o s = some (events, t) → Extends law past events

theorem Adheres.at_point {law : List Ev → Ev → Prop} {point : List Ev → Program Op Ans α → Prop}
    {id : Nat} {past : List Ev} {p : Program Op Ans α} (h : S.Adheres law point id past p) :
    point past p := by
  cases p with
  | done a => exact h
  | call o rest => exact h.1

theorem Adheres.of_forall {law : List Ev → Ev → Prop} {point : List Ev → Program Op Ans α → Prop}
    (always : ∀ past e, law past e) (anywhere : ∀ past p, point past p) (id : Nat)
    (past : List Ev) (p : Program Op Ans α) : S.Adheres law point id past p := by
  induction p generalizing past with
  | done a => exact anywhere past _
  | call o rest ih =>
      refine ⟨anywhere past _, ?_, fun _ _ _ _ => .of_forall always _ _⟩
      exact fun _ _ a _ _ _ => ⟨.of_forall always _ _, ih a _⟩

/-- Threads have numbers given to calls, and a number not given yet has logged nothing. -/
structure Numbered (p : Pool Op Ans σ Ev κ α) : Prop where
  thread : ∀ id t, p.threads id = some t → id < p.calls.length
  silent : ∀ id, p.calls.length ≤ id → own id p.log = []

theorem Numbered.moved {p : Pool Op Ans σ Ev κ α} (numbered : Numbered p) {id : Nat}
    {t : Program Op Ans α} (thread : p.threads id = some t) (left : Option (Program Op Ans α))
    (events : List Ev) (s : σ) :
    Numbered { p with
      shared := s
      threads := Function.update p.threads id left
      log := p.log ++ tagged (some id) events } := by
  have bound := numbered.thread id t thread
  constructor
  · intro other u running
    simp only [Function.update_apply] at running
    by_cases same : other = id
    · rw [same]
      exact bound
    · rw [if_neg same] at running
      exact numbered.thread other u running
  · intro other fresh
    have foreign : (some id : Option Nat) ≠ some other := by
      intro h
      cases h
      exact absurd fresh (Nat.not_le.mpr bound)
    rw [own_append, numbered.silent other fresh, own_tagged_other other foreign, List.nil_append]

theorem Reach.numbered {s : σ} {p : Pool Op Ans σ Ev κ α} (reach : S.Reach s p) : Numbered p := by
  induction reach with
  | start => exact ⟨nofun, fun _ _ => rfl⟩
  | @step p q label before moves ih =>
      obtain ⟨call, -, rfl⟩ | ⟨id, i, o, rest, a, events, t, -, thread, acts, rfl⟩ |
        ⟨id, o, rest, events, t, -, thread, gone, rfl⟩ | ⟨event, -, rfl⟩ := S.step_cases moves
      · constructor
        · intro id t running
          simp only [Function.update_apply] at running
          rw [List.length_append, List.length_singleton]
          by_cases new : id = p.calls.length
          · omega
          · rw [if_neg new] at running
            have := ih.thread id t running
            omega
        · intro id fresh
          rw [List.length_append, List.length_singleton] at fresh
          exact ih.silent id (by omega)
      · exact ih.moved thread _ _ _
      · exact ih.moved thread _ _ _
      · constructor
        · exact ih.thread
        · intro id fresh
          rw [own_append, ih.silent id fresh, own_tagged_other id (by simp), List.nil_append]

/-- A call that adheres from its start adheres in every pool reached. -/
theorem Reach.adheres {law : κ → List Ev → Ev → Prop}
    {point : κ → List Ev → Program Op Ans α → Prop}
    (code : ∀ id call, S.Adheres (law call) (point call) id [] (S.code call))
    {s : σ} {p : Pool Op Ans σ Ev κ α} (reach : S.Reach s p) {id : Nat} {call : κ}
    (made : p.calls[id]? = some call) :
    Lawful (law call) (own id p.log) ∧
      ∀ t, p.threads id = some t → S.Adheres (law call) (point call) id (own id p.log) t := by
  induction reach with
  | start => simp [empty] at made
  | @step p q label before moves ih =>
      have numbered := before.numbered
      obtain ⟨new, -, rfl⟩ | ⟨other, i, o, rest, a, events, t, -, thread, acts, rfl⟩ |
        ⟨other, o, rest, events, t, -, thread, gone, rfl⟩ | ⟨event, -, rfl⟩ := S.step_cases moves
      · simp only [Function.update_apply] at made ⊢
        by_cases fresh : id = p.calls.length
        · subst fresh
          rw [List.getElem?_concat_length, Option.some.injEq] at made
          subst made
          rw [numbered.silent _ (Nat.le_refl _)]
          refine ⟨lawful_nil, fun t running => ?_⟩
          rw [if_pos rfl, Option.some.injEq] at running
          subst running
          exact code _ _
        · rw [if_neg fresh]
          have bound := (List.getElem?_eq_some_iff.mp made).choose
          rw [List.length_append, List.length_singleton] at bound
          rw [List.getElem?_append_left (by omega)] at made
          exact ih made
      · obtain ⟨lawful, adheres⟩ := ih made
        simp only [Function.update_apply, own_append]
        by_cases mine : id = other
        · subst mine
          rw [own_tagged_self, if_pos rfl]
          have here := (adheres _ thread).2.1 _ _ _ _ _ acts
          refine ⟨lawful.append here.1, fun t running => ?_⟩
          rw [Option.some.injEq] at running
          subst running
          exact here.2
        · have foreign : (some other : Option Nat) ≠ some id := by
            intro h
            exact mine (Option.some.inj h).symm
          rw [own_tagged_other id foreign, List.append_nil, if_neg mine]
          exact ⟨lawful, adheres⟩
      · obtain ⟨lawful, adheres⟩ := ih made
        simp only [Function.update_apply, own_append]
        by_cases mine : id = other
        · subst mine
          rw [own_tagged_self, if_pos rfl]
          exact ⟨lawful.append ((adheres _ thread).2.2 _ _ _ gone), fun t running => nomatch running⟩
        · have foreign : (some other : Option Nat) ≠ some id := by
            intro h
            exact mine (Option.some.inj h).symm
          rw [own_tagged_other id foreign, List.append_nil, if_neg mine]
          exact ⟨lawful, adheres⟩
      · rw [own_append, own_tagged_other id (by simp), List.append_nil]
        exact ih made

theorem Adheres.step {law : List Ev → Ev → Prop} {point : List Ev → Program Op Ans α → Prop}
    {id : Nat} {past : List Ev} {p q : Pool Op Ans σ Ev κ α} {label : Label ι ε κ}
    (given : id < p.calls.length)
    (adheres : ∀ t, p.threads id = some t → S.Adheres law point id past t)
    (moves : S.step p label = some q) :
    ∃ events, own id q.log = own id p.log ++ events ∧ Extends law past events ∧
      ∀ t, q.threads id = some t → S.Adheres law point id (past ++ events) t := by
  have quiet : ∀ {who : Option Nat} {events : List Ev}, who ≠ some id →
      own id (p.log ++ tagged who events) = own id p.log ++ [] := by
    intro who events other
    rw [own_append, own_tagged_other id other]
  obtain ⟨call, -, rfl⟩ | ⟨other, i, o, rest, a, events, t, -, thread, acts, rfl⟩ |
    ⟨other, o, rest, events, t, -, thread, gone, rfl⟩ | ⟨event, -, rfl⟩ := S.step_cases moves
  · refine ⟨[], (List.append_nil _).symm, trivial, fun t running => ?_⟩
    simp only [Function.update_apply, if_neg (Nat.ne_of_lt given)] at running
    rw [List.append_nil]
    exact adheres t running
  · by_cases mine : id = other
    · subst mine
      obtain ⟨lawful, later⟩ := (adheres _ thread).2.1 _ _ _ _ _ acts
      refine ⟨events, by rw [own_append, own_tagged_self], lawful, fun t running => ?_⟩
      simp only [Function.update_self, Option.some.injEq] at running
      subst running
      exact later
    · refine ⟨[], quiet (fun h => mine (Option.some.inj h).symm), trivial, fun t running => ?_⟩
      simp only [Function.update_apply, if_neg mine] at running
      rw [List.append_nil]
      exact adheres t running
  · by_cases mine : id = other
    · subst mine
      refine ⟨events, by rw [own_append, own_tagged_self], (adheres _ thread).2.2 _ _ _ gone, ?_⟩
      intro t running
      simp only [Function.update_self, reduceCtorEq] at running
    · refine ⟨[], quiet (fun h => mine (Option.some.inj h).symm), trivial, fun t running => ?_⟩
      simp only [Function.update_apply, if_neg mine] at running
      rw [List.append_nil]
      exact adheres t running
  · refine ⟨[], quiet (by simp), trivial, fun t running => ?_⟩
    rw [List.append_nil]
    exact adheres t running

theorem calls_step {p q : Pool Op Ans σ Ev κ α} {label : Label ι ε κ}
    (moves : S.step p label = some q) : ∃ new, q.calls = p.calls ++ new := by
  obtain ⟨call, -, rfl⟩ | ⟨id, i, o, rest, a, events, t, -, _, _, rfl⟩ |
    ⟨id, o, rest, events, t, -, _, _, rfl⟩ | ⟨event, -, rfl⟩ := S.step_cases moves
  · exact ⟨[call], rfl⟩
  · exact ⟨[], (List.append_nil _).symm⟩
  · exact ⟨[], (List.append_nil _).symm⟩
  · exact ⟨[], (List.append_nil _).symm⟩

/-- A call that adheres in one pool adheres in every later one. -/
theorem Adheres.run {law : List Ev → Ev → Prop} {point : List Ev → Program Op Ans α → Prop}
    {id : Nat} {past : List Ev} {p q : Pool Op Ans σ Ev κ α} {labels : List (Label ι ε κ)}
    (given : id < p.calls.length)
    (adheres : ∀ t, p.threads id = some t → S.Adheres law point id past t)
    (ran : S.run labels p = some q) :
    ∃ events, own id q.log = own id p.log ++ events ∧ Extends law past events ∧
      ∀ t, q.threads id = some t → S.Adheres law point id (past ++ events) t := by
  induction labels generalizing p past with
  | nil =>
      cases ran
      exact ⟨[], (List.append_nil _).symm, trivial, by rw [List.append_nil]; exact adheres⟩
  | cons label labels ih =>
      unfold System.run at ran
      split at ran
      next r moves =>
        obtain ⟨first, grown, lawful, here⟩ := Adheres.step given adheres moves
        obtain ⟨new, calls⟩ := calls_step moves
        have given' : id < r.calls.length := by
          rw [calls, List.length_append]
          omega
        obtain ⟨second, log, later, there⟩ := ih given' here ran
        refine ⟨first ++ second, ?_, ?_, ?_⟩
        · rw [log, grown, List.append_assoc]
        · rw [extends_append]
          exact ⟨lawful, later⟩
        · rw [← List.append_assoc]
          exact there
      next => cases ran

/-! ## Properties of whole schedules -/

variable (S) in
def Throughout (Q : Pool Op Ans σ Ev κ α → Prop) :
    List (Label ι ε κ) → Pool Op Ans σ Ev κ α → Prop
  | [], p => Q p
  | label :: labels, p => Q p ∧ ∀ q, S.step p label = some q → Throughout Q labels q

variable (S) in
def EachStep (C : Pool Op Ans σ Ev κ α → Label ι ε κ → Prop) :
    List (Label ι ε κ) → Pool Op Ans σ Ev κ α → Prop
  | [], _ => True
  | label :: labels, p => ∀ q, S.step p label = some q → C p label ∧ EachStep C labels q

theorem Throughout.here {Q : Pool Op Ans σ Ev κ α → Prop} {labels : List (Label ι ε κ)}
    {p : Pool Op Ans σ Ev κ α} (throughout : S.Throughout Q labels p) : Q p := by
  cases labels with
  | nil => exact throughout
  | cons => exact throughout.1

theorem Throughout.mono {Q Q' : Pool Op Ans σ Ev κ α → Prop} (weaker : ∀ p, Q p → Q' p)
    {labels : List (Label ι ε κ)} {p : Pool Op Ans σ Ev κ α} (kept : S.Throughout Q labels p) :
    S.Throughout Q' labels p := by
  induction labels generalizing p with
  | nil => exact weaker p kept
  | cons label labels ih => exact ⟨weaker p kept.1, fun q moves => ih (kept.2 q moves)⟩

/-- What every step into a pool where `C` holds keeps, a schedule along which `C` holds keeps. -/
theorem Throughout.invariant {s : σ} {C I : Pool Op Ans σ Ev κ α → Prop}
    (keeps : ∀ p q label, S.Reach s p → I p → S.step p label = some q → C q → I q)
    {labels : List (Label ι ε κ)} {p : Pool Op Ans σ Ev κ α} (reach : S.Reach s p) (here : I p)
    (kept : S.Throughout C labels p) : S.Throughout I labels p := by
  induction labels generalizing p with
  | nil => exact here
  | cons label labels ih =>
      refine ⟨here, fun q moves => ?_⟩
      have later := kept.2 q moves
      exact ih (reach.step moves) (keeps p q label reach here moves later.here) later

variable (S) in
def check (Q : Pool Op Ans σ Ev κ α → Bool) :
    List (Label ι ε κ) → Pool Op Ans σ Ev κ α → Bool
  | [], p => Q p
  | label :: labels, p =>
      Q p && match S.step p label with
        | some q => check Q labels q
        | none => true

theorem Throughout.of_check {Q : Pool Op Ans σ Ev κ α → Bool} {labels : List (Label ι ε κ)}
    {p : Pool Op Ans σ Ev κ α} (checked : S.check Q labels p = true) :
    S.Throughout (fun p => Q p = true) labels p := by
  induction labels generalizing p with
  | nil => exact checked
  | cons label labels ih =>
      rw [check, Bool.and_eq_true] at checked
      refine ⟨checked.1, fun q moves => ih ?_⟩
      simpa [moves] using checked.2

/-- A property that a step keeps exactly when it meets a condition holds throughout a
schedule exactly when every step of it meets the condition. -/
theorem throughout_iff_eachStep {s : σ} {Q : Pool Op Ans σ Ev κ α → Prop}
    {C : Pool Op Ans σ Ev κ α → Label ι ε κ → Prop}
    (keeps : ∀ p q label, S.Reach s p → Q p → S.step p label = some q → (Q q ↔ C p label))
    (labels : List (Label ι ε κ)) {p : Pool Op Ans σ Ev κ α} (reach : S.Reach s p) (here : Q p) :
    S.Throughout Q labels p ↔ S.EachStep C labels p := by
  induction labels generalizing p with
  | nil => simp [Throughout, EachStep, here]
  | cons label labels ih =>
      simp only [Throughout, EachStep]
      constructor
      · intro throughout q moves
        have after := throughout.2 q moves
        have there : Q q := by
          cases labels with
          | nil => exact after
          | cons => exact after.1
        exact ⟨(keeps p q label reach here moves).mp there,
          (ih (reach.step moves) there).mp after⟩
      · intro each
        refine ⟨here, fun q moves => ?_⟩
        have there := (keeps p q label reach here moves).mpr (each q moves).1
        exact (ih (reach.step moves) there).mpr (each q moves).2

end System

end Interaction
