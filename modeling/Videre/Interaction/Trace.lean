import Mathlib.Data.List.Basic

/-! # Laws of append-only traces

A law says which event may follow a given past. A trace keeps the law when each
of its events may follow the events before it, so a law holds of a trace as soon
as it holds at every append.
-/

namespace Interaction

variable {β γ : Type}

def Extends (law : List β → β → Prop) : List β → List β → Prop
  | _, [] => True
  | past, e :: events => law past e ∧ Extends law (past ++ [e]) events

/-- Every event of the trace may follow the ones before it. -/
def Lawful (law : List β → β → Prop) (trace : List β) : Prop :=
  Extends law [] trace

section Laws

variable {law : List β → β → Prop}

@[simp] theorem extends_nil (past : List β) : Extends law past [] := trivial

@[simp] theorem extends_cons (past events : List β) (e : β) :
    Extends law past (e :: events) ↔ law past e ∧ Extends law (past ++ [e]) events := Iff.rfl

@[simp] theorem extends_append (past first second : List β) :
    Extends law past (first ++ second) ↔
      Extends law past first ∧ Extends law (past ++ first) second := by
  induction first generalizing past with
  | nil => simp
  | cons e first ih =>
      simp only [List.cons_append, extends_cons, ih, List.append_assoc]
      exact and_assoc.symm

theorem lawful_nil : Lawful law [] := trivial

theorem Lawful.append {past events : List β} (before : Lawful law past)
    (now : Extends law past events) : Lawful law (past ++ events) := by
  unfold Lawful
  rw [extends_append]
  exact ⟨before, now⟩

theorem Lawful.at_split {trace past later : List β} {e : β} (kept : Lawful law trace)
    (split : trace = past ++ e :: later) : law past e := by
  subst split
  unfold Lawful at kept
  rw [extends_append, extends_cons] at kept
  exact kept.2.1

theorem Extends.of_forall (always : ∀ past e, law past e) (past events : List β) :
    Extends law past events := by
  induction events generalizing past with
  | nil => trivial
  | cons e events ih => exact ⟨always past e, ih _⟩

end Laws

/-- An element occurs in an appended list either in the first part or, after all of it, in
the second. -/
theorem split_append {xs ys past later : List β} {e : β}
    (split : xs ++ ys = past ++ e :: later) :
    (∃ rest, xs = past ++ e :: rest ∧ later = rest ++ ys) ∨
      (∃ mid, past = xs ++ mid ∧ ys = mid ++ e :: later) := by
  rcases List.append_eq_append_iff.mp split with ⟨mid, hpast, hys⟩ | ⟨mid, hxs, hlater⟩
  · exact .inr ⟨mid, hpast, hys⟩
  · cases mid with
    | nil =>
        rw [List.append_nil] at hxs
        exact .inr ⟨[], by rw [hxs, List.append_nil], hlater.symm⟩
    | cons x rest =>
        rw [List.cons_append, List.cons.injEq] at hlater
        exact .inl ⟨rest, by rw [hxs, ← hlater.1], hlater.2⟩

/-- One logged event and the thread that did it; `none` is the host. -/
structure Entry (Ev : Type) where
  who : Option Nat
  what : Ev
  deriving DecidableEq, Repr

/-- Events as one actor logs them. -/
def tagged {Ev : Type} (who : Option Nat) (events : List Ev) : List (Entry Ev) :=
  events.map (Entry.mk who)

/-- The events thread `id` did, in the order of the log. -/
def own {Ev : Type} (id : Nat) (log : List (Entry Ev)) : List Ev :=
  log.filterMap fun e => if e.who = some id then some e.what else none

section Own

variable {Ev : Type} (id : Nat)

@[simp] theorem tagged_nil (who : Option Nat) : tagged who ([] : List Ev) = [] := rfl

@[simp] theorem tagged_cons (who : Option Nat) (e : Ev) (events : List Ev) :
    tagged who (e :: events) = ⟨who, e⟩ :: tagged who events := rfl

@[simp] theorem tagged_append (who : Option Nat) (first second : List Ev) :
    tagged who (first ++ second) = tagged who first ++ tagged who second := by
  simp [tagged]

theorem mem_tagged {who : Option Nat} {events : List Ev} {e : Entry Ev} :
    e ∈ tagged who events ↔ e.who = who ∧ e.what ∈ events := by
  obtain ⟨w, what⟩ := e
  simp only [tagged, List.mem_map, Entry.mk.injEq]
  constructor
  · rintro ⟨x, member, same, rfl⟩
    exact ⟨same.symm, member⟩
  · rintro ⟨same, member⟩
    exact ⟨what, member, same.symm, rfl⟩

@[simp] theorem own_nil : own id ([] : List (Entry Ev)) = [] := rfl

@[simp] theorem own_append (first second : List (Entry Ev)) :
    own id (first ++ second) = own id first ++ own id second := by
  simp [own]

@[simp] theorem own_cons_self (e : Ev) (log : List (Entry Ev)) :
    own id (⟨some id, e⟩ :: log) = e :: own id log := by
  simp [own]

theorem own_cons_other {e : Entry Ev} (other : e.who ≠ some id) (log : List (Entry Ev)) :
    own id (e :: log) = own id log := by
  simp [own, other]

@[simp] theorem own_tagged_self (events : List Ev) : own id (tagged (some id) events) = events := by
  induction events with
  | nil => rfl
  | cons e events ih => simp [ih]

theorem own_tagged_other {who : Option Nat} (other : who ≠ some id) (events : List Ev) :
    own id (tagged who events) = [] := by
  induction events with
  | nil => rfl
  | cons e events ih =>
      rw [tagged_cons, own_cons_other id other, ih]

theorem mem_own {log : List (Entry Ev)} {e : Ev} : e ∈ own id log ↔ ⟨some id, e⟩ ∈ log := by
  simp only [own, List.mem_filterMap]
  constructor
  · rintro ⟨⟨who, what⟩, member, eq⟩
    split at eq
    next h =>
      cases eq
      simp only at h
      rwa [h] at member
    next => cases eq
  · intro member
    exact ⟨⟨some id, e⟩, member, by simp⟩

/-- Where a thread's own trace splits, the log splits at the same event. -/
theorem split_of_own {log : List (Entry Ev)} {past later : List Ev} {e : Ev}
    (split : own id log = past ++ e :: later) :
    ∃ before after, log = before ++ ⟨some id, e⟩ :: after ∧ own id before = past ∧
      own id after = later := by
  induction log generalizing past with
  | nil => simp at split
  | cons entry log ih =>
      by_cases mine : entry.who = some id
      · obtain ⟨who, what⟩ := entry
        simp only at mine
        subst mine
        rw [own_cons_self] at split
        cases past with
        | nil =>
            rw [List.nil_append, List.cons.injEq] at split
            rw [split.1]
            exact ⟨[], log, rfl, rfl, split.2⟩
        | cons x past =>
            rw [List.cons_append, List.cons.injEq] at split
            obtain ⟨before, after, hlog, hbefore, hafter⟩ := ih split.2
            refine ⟨⟨some id, what⟩ :: before, after, by rw [hlog]; rfl, ?_, hafter⟩
            rw [own_cons_self, hbefore, split.1]
      · rw [own_cons_other id mine] at split
        obtain ⟨before, after, hlog, hbefore, hafter⟩ := ih split
        refine ⟨entry :: before, after, by rw [hlog]; rfl, ?_, hafter⟩
        rw [own_cons_other id mine, hbefore]

end Own

end Interaction
