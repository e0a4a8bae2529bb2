import Mathlib.Data.Finset.Card
import Videre.Host.Story

/-! # How far a budget is overspent

The gate and the charge are apart, so calls of one caller that are past the gate
together may all be charged. The charges in the window and the calls still on their
way to a charge never sum to more than the last passed gate left room for: what one
caller overspends is bounded by how many of its calls are in flight at once.
-/

namespace Videre.Host

open Interaction

/-- Whether a call passed the gate as `caller` and was not charged yet. -/
def towardsCharge (caller : String) (past : List Event) : Bool :=
  past.contains (.gated caller true) && (chargesOf past).isEmpty

def isInFlight (caller : String) (p : RegistryPool) (id : Nat) : Bool :=
  (p.standing id).isSome && towardsCharge caller (own id p.log)

def inFlight (caller : String) (p : RegistryPool) : Nat :=
  ((Finset.range p.calls.length).filter fun id => isInFlight caller p id = true).card

section Counting

variable {caller : String} {p q : RegistryPool} {id : Nat}

theorem towardsCharge_append {past events : List Event}
    (towards : towardsCharge caller (past ++ events) = true) :
    towardsCharge caller past = true ∨ .gated caller true ∈ events := by
  unfold towardsCharge at towards ⊢
  simp only [Bool.and_eq_true, List.contains_iff_mem, List.mem_append, List.isEmpty_iff,
    chargesOf_append, List.append_eq_nil_iff] at towards ⊢
  obtain ⟨before | now, uncharged, _⟩ := towards
  · exact .inl ⟨before, uncharged⟩
  · exact .inr now

theorem charged_towards {past : List Event} {instant : Nat} :
    towardsCharge caller (past ++ [.charged caller instant]) = false := by
  simp [towardsCharge]

theorem inFlight_le (calls : q.calls.length = p.calls.length)
    (others : ∀ j, j ≠ id → isInFlight caller q j = isInFlight caller p j)
    (here : isInFlight caller q id = true → isInFlight caller p id = true) :
    inFlight caller q ≤ inFlight caller p := by
  unfold inFlight
  rw [calls]
  apply Finset.card_le_card
  intro j member
  rw [Finset.mem_filter] at member ⊢
  obtain ⟨given, flies⟩ := member
  by_cases mine : j = id
  · subst mine
    exact ⟨given, here flies⟩
  · exact ⟨given, others j mine ▸ flies⟩

theorem inFlight_le_succ (calls : q.calls.length = p.calls.length)
    (others : ∀ j, j ≠ id → isInFlight caller q j = isInFlight caller p j) :
    inFlight caller q ≤ inFlight caller p + 1 := by
  unfold inFlight
  rw [calls]
  have within : (Finset.range p.calls.length).filter (fun j => isInFlight caller q j = true) ⊆
      insert id ((Finset.range p.calls.length).filter fun j => isInFlight caller p j = true) := by
    intro j member
    rw [Finset.mem_filter] at member
    rw [Finset.mem_insert, Finset.mem_filter]
    by_cases mine : j = id
    · exact .inl mine
    · exact .inr ⟨member.1, others j mine ▸ member.2⟩
  exact Nat.le_trans (Finset.card_le_card within) (Finset.card_insert_le _ _)

theorem inFlight_lt (calls : q.calls.length = p.calls.length)
    (others : ∀ j, j ≠ id → isInFlight caller q j = isInFlight caller p j)
    (given : id < p.calls.length) (before : isInFlight caller p id = true)
    (after : isInFlight caller q id = false) : inFlight caller q < inFlight caller p := by
  unfold inFlight
  rw [calls]
  apply Finset.card_lt_card
  rw [Finset.ssubset_iff_of_subset]
  · refine ⟨id, ?_, ?_⟩
    · rw [Finset.mem_filter, Finset.mem_range]
      exact ⟨given, before⟩
    · rw [Finset.mem_filter]
      intro member
      rw [after] at member
      cases member.2
  · intro j member
    rw [Finset.mem_filter] at member ⊢
    obtain ⟨within, flies⟩ := member
    by_cases mine : j = id
    · subst mine
      rw [after] at flies
      cases flies
    · exact ⟨within, others j mine ▸ flies⟩

end Counting

variable {P : Policy} {p q : RegistryPool}

/-! ## What a step does -/

theorem isInFlight_moved (caller : String) {id j : Nat} (other : j ≠ id)
    (left : Option (Async Outcome)) (events : List Event) (r : Registry) :
    isInFlight caller { p with
      shared := r
      threads := Function.update p.threads id left
      log := p.log ++ tagged (some id) events } j = isInFlight caller p j := by
  have foreign : (some id : Option Nat) ≠ some j := by
    intro h
    exact other (Option.some.inj h).symm
  unfold isInFlight Pool.standing
  simp only [Function.update_apply, if_neg other, own_append, own_tagged_other j foreign,
    List.append_nil]

/-- A step puts at most one call in flight, and only through the gate. -/
theorem step_inFlight {start : Nat} (reach : (venueRegistry P).Reach (Registry.new start) p)
    {label : Label Input HostEvent Call} (moves : (venueRegistry P).step p label = some q)
    (caller : String) :
    inFlight caller q ≤ inFlight caller p ∨
      inFlight caller q ≤ inFlight caller p + 1 ∧
        ∃ who events, q.log = p.log ++ tagged who events ∧ .gated caller true ∈ events := by
  obtain ⟨call, -, rfl⟩ | ⟨id, i, o, rest, a, events, r, -, thread, acts, rfl⟩ |
    ⟨id, o, rest, events, r, -, thread, gone, rfl⟩ | ⟨event, -, rfl⟩ :=
      (venueRegistry P).step_cases moves
  · left
    have silent := reach.numbered.silent p.calls.length (Nat.le_refl _)
    unfold inFlight
    rw [List.length_append, List.length_singleton]
    apply Finset.card_le_card
    intro j member
    rw [Finset.mem_filter, Finset.mem_range] at member ⊢
    obtain ⟨within, flies⟩ := member
    by_cases new : j = p.calls.length
    · subst new
      simp [isInFlight, towardsCharge, silent] at flies
    · refine ⟨by omega, ?_⟩
      simpa [isInFlight, Pool.standing, Function.update_apply, new] using flies
  · have others := fun j (other : j ≠ id) =>
      isInFlight_moved (p := p) caller other (some (rest a)) events r
    by_cases gates : .gated caller true ∈ events
    · right
      constructor
      · apply inFlight_le_succ _ others
        rfl
      · exact ⟨some id, events, rfl, gates⟩
    · left
      apply inFlight_le _ others
      · intro flies
        unfold isInFlight at flies ⊢
        rw [Bool.and_eq_true, own_append, own_tagged_self] at flies
        rw [Bool.and_eq_true]
        constructor
        · simp [Pool.standing, thread, Program.next?]
        · rcases towardsCharge_append flies.2 with before | now
          · exact before
          · exact absurd now gates
      · rfl
  · left
    apply inFlight_le _ fun j (other : j ≠ id) =>
      isInFlight_moved (p := p) caller other none events r
    · intro flies
      simp [isInFlight, Pool.standing] at flies
    · rfl
  · left
    apply Nat.le_of_eq
    unfold inFlight isInFlight Pool.standing
    congr 1
    apply Finset.filter_congr
    intro j _
    rw [own_append, own_tagged_other j (by simp), List.append_nil]

theorem charge_inFlight {start : Nat} (reach : (venueRegistry P).Reach (Registry.new start) p)
    {id : Nat} {nanos : Nat} {caller : String} {rest : Unit → Async Outcome}
    (thread : p.threads id = some (.call (.charge caller) rest))
    (moves : (venueRegistry P).step p (.advance id (.elapsed nanos)) = some q) :
    inFlight caller q < inFlight caller p := by
  have charges : (venueRegistry P).act id (.charge caller) (.elapsed nanos) p.shared =
      some ((), [.charged caller (p.shared.now + nanos)], p.shared.charge P caller nanos) := rfl
  rw [System.step_advance _ thread charges] at moves
  cases moves
  obtain ⟨call, -, point⟩ := tells_thread reach thread
  obtain ⟨passed, uncharged⟩ := point.charging caller rest rfl
  apply inFlight_lt _ fun j (other : j ≠ id) => isInFlight_moved (p := p) caller other _ _ _
  · exact reach.numbered.thread id _ thread
  · simp [isInFlight, towardsCharge, Pool.standing, thread, Program.next?, passed, uncharged]
  · unfold isInFlight
    rw [own_append, own_tagged_self, charged_towards, Bool.and_false]
  · rfl

/-- A gate that admits has counted fewer charges than the budget, if the count fits its word. -/
theorem spent_lt_of_admitted {r : Registry} {caller : String} (ordered : Chronological r)
    (fits : spent P r caller < 2 ^ 32) (admitted : (r.quotaAdmits P caller).1 = true) :
    spent P r caller < P.quota.maxCharges.toNat := by
  have exact : (prune r.now P.quota.window (r.perCaller caller)).length = spent P r caller := by
    rw [prune_eq_inWindow (ordered caller).1]
    rfl
  have counted : UInt32.ofNat (spent P r caller) < P.quota.maxCharges := by
    simpa [Registry.quotaAdmits, exact] using admitted
  rw [UInt32.lt_iff_toNat_lt, UInt32.toNat_ofNat', Nat.mod_eq_of_lt fits] at counted
  exact counted

def Bounded (P : Policy) (caller : String) (k : Nat) (p : RegistryPool) : Prop :=
  spent P p.shared caller + inFlight caller p ≤ P.quota.maxCharges.toNat + (k - 1)

theorem Bounded.step {start k : Nat} {caller : String}
    (reach : (venueRegistry P).Reach (Registry.new start) p) (bounded : Bounded P caller k p)
    (fits : P.quota.maxCharges.toNat + k ≤ 2 ^ 32) {label : Label Input HostEvent Call}
    (moves : (venueRegistry P).step p label = some q) (few : inFlight caller q ≤ k) :
    Bounded P caller k q := by
  unfold Bounded at bounded ⊢
  have admits := P.admits
  have word := P.quota.maxCharges.toNat_lt
  rcases step_ledger moves with ⟨id, who, nanos, rest, hlabel, thread, shared, log⟩ |
    ⟨-, who, events, log, quiet⟩
  · subst hlabel
    rw [shared]
    by_cases same : caller = who
    · subst same
      have fewer := charge_inFlight reach thread moves
      have ahead : spentAt P p.shared (p.shared.now + nanos) caller ≤ spent P p.shared caller :=
        inWindow_length_le (Nat.le_add_right _ _) _ _
      rw [spent_charge]
      omega
    · have later : p.shared.now ≤ (p.shared.charge P who nanos).now := Nat.le_add_right _ _
      have less := spent_of_perCaller (P := P) later (.inl (charge_other p.shared nanos same))
      rcases step_inFlight reach moves caller with fewer | ⟨-, who', events, log', gated⟩
      · omega
      · have entered : (⟨who', .gated caller true⟩ : Entry Event) ∈ tagged who' events :=
          mem_tagged.mpr ⟨rfl, gated⟩
        rw [← List.append_cancel_left (log.symm.trans log'), List.mem_singleton] at entered
        cases entered
  · have less := spent_of_perCaller quiet.clock (quiet.kept caller)
    rcases step_inFlight reach moves caller with fewer | ⟨-, who', events', log', gated⟩
    · omega
    · have entered : (⟨who', .gated caller true⟩ : Entry Event) ∈ tagged who' events' :=
        mem_tagged.mpr ⟨rfl, gated⟩
      rw [← List.append_cancel_left (log.symm.trans log')] at entered
      have room := spent_lt_of_admitted (chronological reach) (by omega)
        (quiet.gated caller (mem_tagged.mp entered).2)
      omega

/-- As long as no more than `k` calls of one caller are between the gate and the charge at once,
the charges in its window never exceed its budget by more than `k - 1`, whatever the calls,
the adapters and the host do. -/
theorem overspend_bounded (P : Policy) (start : Nat) (caller : String) (k : Nat)
    (fits : P.quota.maxCharges.toNat + k ≤ 2 ^ 32) (labels : Schedule)
    (few : (venueRegistry P).Throughout (fun p => inFlight caller p ≤ k) labels
      (System.empty (Registry.new start))) :
    (venueRegistry P).Throughout
      (fun p => spent P p.shared caller ≤ P.quota.maxCharges.toNat + (k - 1)) labels
      (System.empty (Registry.new start)) := by
  have bounded : Bounded P caller k (System.empty (Registry.new start)) :=
    Nat.zero_le (P.quota.maxCharges.toNat + (k - 1))
  have kept := few.invariant (I := Bounded P caller k)
    (fun p q label reach bounded moves few => bounded.step reach fits moves few) .start bounded
  exact kept.mono fun p bounded => Nat.le_trans (Nat.le_add_right _ _) bounded

/-- Two racing submits on one unit of budget come to the bound. -/
theorem overspend_bounded_racing :
    (venueRegistry oneCharge).Throughout
      (fun p => spent oneCharge p.shared "keeper" ≤ oneCharge.quota.maxCharges.toNat + (2 - 1))
      racingSubmits (System.empty (Registry.new 0)) ∧
    ∃ p, (venueRegistry oneCharge).run racingSubmits (System.empty (Registry.new 0)) = some p ∧
      spent oneCharge p.shared "keeper" = oneCharge.quota.maxCharges.toNat + (2 - 1) := by
  constructor
  · apply overspend_bounded oneCharge 0 "keeper" 2 (by decide) racingSubmits
    have checked : (venueRegistry oneCharge).check (fun p => decide (inFlight "keeper" p ≤ 2))
        racingSubmits (System.empty (Registry.new 0)) = true := by
      decide
    exact (System.Throughout.of_check checked).mono fun p small => of_decide_eq_true small
  · have ran : ((venueRegistry oneCharge).run racingSubmits
        (System.empty (Registry.new 0))).map (fun p => spent oneCharge p.shared "keeper") =
        some 2 := by
      decide
    exact Option.map_eq_some_iff.mp ran

end Videre.Host
