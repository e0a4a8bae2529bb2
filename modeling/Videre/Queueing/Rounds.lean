import Mathlib.Data.List.Nodup
import Mathlib.Algebra.BigOperators.Group.List.Basic
import Mathlib.Algebra.Ring.Nat

/-! # Service in rounds under a budget

A queue is served in rounds. A round serves the first `budget` entries; some of them
stay, at the head and in order, and the rest of the queue moves up behind them. What
stays costs the next round a place, so which entries have been served after any
number of rounds is read off the places lost.
-/

namespace Queueing

variable {α : Type}

/-- One round: what it served and what stayed of that. -/
structure Round (α : Type) where
  served : List α
  stayed : List α

/-- `Rounds budget queue past now`: after the rounds `past`, what began as `queue` is `now`. -/
inductive Rounds (budget : Nat) (queue : List α) : List (Round α) → List α → Prop
  | start : Rounds budget queue [] queue
  | serve {past : List (Round α)} {now stayed : List α} (before : Rounds budget queue past now)
      (some_of : stayed.Sublist (now.take budget)) :
      Rounds budget queue (past ++ [⟨now.take budget, stayed⟩]) (stayed ++ now.drop budget)

/-- The places that staying entries take in the rounds after theirs. -/
def lost (past : List (Round α)) : Nat :=
  (past.map fun round => round.stayed.length).sum

theorem lost_concat (past : List (Round α)) (round : Round α) :
    lost (past ++ [round]) = lost past + round.stayed.length := by
  simp [lost]

/-- The queue has been served up to `front`, and the entries that stayed stand before it. -/
structure Front (budget : Nat) (queue : List α) (past : List (Round α)) (now : List α)
    (front : Nat) (stayed : List α) : Prop where
  split : now = stayed ++ queue.drop front
  behind : ∀ a ∈ stayed, a ∈ queue.take front
  short : stayed.length ≤ budget
  served : ∀ a, (∃ round ∈ past, a ∈ round.served) ↔ a ∈ queue.take front
  places : front + lost past = past.length * budget + stayed.length

variable {budget : Nat} {queue now : List α} {past : List (Round α)}

theorem Front.serve {front : Nat} {stayed stayed' : List α}
    (at_ : Front budget queue past now front stayed)
    (some_of : stayed'.Sublist (now.take budget)) :
    Front budget queue (past ++ [⟨now.take budget, stayed'⟩]) (stayed' ++ now.drop budget)
      (front + (budget - stayed.length)) stayed' := by
  have short := at_.short
  have taken : now.take budget =
      stayed ++ (queue.drop front).take (budget - stayed.length) := by
    rw [at_.split, List.take_append, List.take_of_length_le short]
  have dropped : now.drop budget = queue.drop (front + (budget - stayed.length)) := by
    rw [at_.split, List.drop_append, List.drop_of_length_le short, List.nil_append,
      List.drop_drop]
  have reached : queue.take (front + (budget - stayed.length)) =
      queue.take front ++ (queue.drop front).take (budget - stayed.length) :=
    List.take_add
  have within : ∀ a ∈ now.take budget, a ∈ queue.take (front + (budget - stayed.length)) := by
    intro a served
    rw [taken, List.mem_append] at served
    rw [reached, List.mem_append]
    rcases served with old | new
    · exact .inl (at_.behind a old)
    · exact .inr new
  refine ⟨by rw [dropped], fun a stays => within a (some_of.subset stays), ?_, ?_, ?_⟩
  · have bound := some_of.length_le
    rw [List.length_take] at bound
    omega
  · intro a
    constructor
    · rintro ⟨round, listed, served⟩
      rcases List.mem_append.mp listed with old | new
      · rw [reached, List.mem_append]
        exact .inl ((at_.served a).mp ⟨round, old, served⟩)
      · rw [List.mem_singleton.mp new] at served
        exact within a served
    · intro served
      rw [reached, List.mem_append] at served
      rcases served with old | new
      · obtain ⟨round, listed, served⟩ := (at_.served a).mpr old
        exact ⟨round, List.mem_append_left _ listed, served⟩
      · refine ⟨_, List.mem_append_right past List.mem_cons_self, ?_⟩
        show a ∈ now.take budget
        rw [taken]
        exact List.mem_append_right stayed new
  · have places := at_.places
    rw [lost_concat, List.length_append, List.length_singleton, Nat.add_mul, Nat.one_mul]
    show front + (budget - stayed.length) + (lost past + stayed'.length) = _
    omega

theorem Rounds.front (rounds : Rounds budget queue past now) :
    ∃ front stayed, Front budget queue past now front stayed := by
  induction rounds with
  | start => exact ⟨0, [], by simp, by simp, by simp, by simp, by simp [lost]⟩
  | serve before some_of ih =>
      obtain ⟨front, stayed, at_⟩ := ih
      exact ⟨_, _, at_.serve some_of⟩

theorem mem_take_iff_length_le {front : Nat} (nodup : queue.Nodup) :
    (∀ a ∈ queue, a ∈ queue.take front) ↔ queue.length ≤ front := by
  constructor
  · intro all
    by_contra short
    have inside : front < queue.length := by omega
    have listed := all _ (List.getElem_mem inside)
    have split := List.nodup_append.mp ((List.take_append_drop front queue).symm ▸ nodup)
    have later : queue[front] ∈ queue.drop front := by
      rw [List.drop_eq_getElem_cons inside]
      exact List.mem_cons_self
    exact split.2.2 _ listed _ later rfl
  · intro enough a listed
    rw [List.take_of_length_le enough]
    exact listed

/-- Every entry has been served exactly when the places of all rounds make up for the queue and
for the places lost before the last round. -/
theorem Rounds.covered_iff (rounds : Rounds budget queue past now) (nodup : queue.Nodup) :
    (∀ a ∈ queue, ∃ round ∈ past, a ∈ round.served) ↔
      queue.length + lost past.dropLast ≤ past.length * budget := by
  have at_ : ∃ front, (∀ a, (∃ round ∈ past, a ∈ round.served) ↔ a ∈ queue.take front) ∧
      front + lost past.dropLast = past.length * budget := by
    cases rounds with
    | start => exact ⟨0, by simp, by simp [lost]⟩
    | serve before some_of =>
        obtain ⟨front, stayed, at_⟩ := before.front
        have next := at_.serve some_of
        have places := next.places
        simp only [lost_concat] at places
        refine ⟨_, next.served, ?_⟩
        rw [List.dropLast_concat]
        omega
  obtain ⟨front, served, places⟩ := at_
  have covered : (∀ a ∈ queue, ∃ round ∈ past, a ∈ round.served) ↔
      ∀ a ∈ queue, a ∈ queue.take front := forall₂_congr fun a _ => served a
  rw [covered, mem_take_iff_length_le nodup]
  omega

end Queueing
