import Videre.Host.Steps

/-! # The per-caller budget under concurrency

The gate prunes and counts, the charge prunes and pushes, and a call may wait
between the two. What a step does to the charges in the window is read off the
operation; the budget holds along a schedule exactly when every charge still finds
room at the instant it is stamped.
-/

namespace Videre.Host

open Interaction

def inWindow (now : Nat) (window : Duration) (history : List Nat) : List Nat :=
  history.filter fun t => now - t ≤ window.nanos

variable (P : Policy)

def spentAt (r : Registry) (now : Nat) (caller : String) : Nat :=
  (inWindow now P.quota.window (r.perCaller caller)).length

def spent (r : Registry) (caller : String) : Nat :=
  spentAt P r r.now caller

def WithinBudget (p : RegistryPool) : Prop :=
  ∀ caller, spent P p.shared caller ≤ P.quota.maxCharges.toNat

/-- A step that stamps a charge finds room in the caller's window at that instant. -/
def ChargeAdmitted (p : RegistryPool) : Label Input HostEvent Call → Prop
  | .advance id (.elapsed nanos) =>
      ∀ caller rest, p.threads id = some (.call (.charge caller) rest) →
        spentAt P p.shared (p.shared.now + nanos) caller < P.quota.maxCharges.toNat
  | _ => True

/-- A step that stamps a charge follows a passed gate of the same call, and no charge of
that caller was recorded in between. -/
def Unraced (p : RegistryPool) : Label Input HostEvent Call → Prop
  | .advance id (.elapsed _) =>
      ∀ caller rest, p.threads id = some (.call (.charge caller) rest) →
        ∃ past mid, p.log = past ++ ⟨some id, .gated caller true⟩ :: mid ∧
          ∀ e ∈ mid, ∀ t, e.what ≠ .charged caller t
  | _ => True

/-! ## Windows -/

theorem inWindow_prune {now now' : Nat} (later : now ≤ now') (window : Duration)
    (history : List Nat) :
    inWindow now' window (prune now window history) = inWindow now' window history := by
  unfold inWindow prune
  induction history with
  | nil => rfl
  | cons t history ih =>
      by_cases aged : window.nanos < now - t
      · have out : ¬ now' - t ≤ window.nanos := by omega
        rw [List.dropWhile_cons_of_pos (by simpa using aged), ih,
          List.filter_cons_of_neg (by simpa using out)]
      · rw [List.dropWhile_cons_of_neg (by simpa using aged)]

theorem inWindow_length_le {now now' : Nat} (later : now ≤ now') (window : Duration)
    (history : List Nat) :
    (inWindow now' window history).length ≤ (inWindow now window history).length := by
  apply List.Sublist.length_le
  apply List.monotone_filter_right
  intro t young
  simp only [decide_eq_true_eq] at young ⊢
  omega

/-- On a sorted history the prune loop leaves exactly the charges in the window. -/
theorem prune_eq_inWindow {now : Nat} {window : Duration} {history : List Nat}
    (sorted : history.Pairwise (· ≤ ·)) : prune now window history = inWindow now window history := by
  unfold inWindow prune
  induction history with
  | nil => rfl
  | cons t history ih =>
      have rest := List.pairwise_cons.mp sorted
      by_cases aged : window.nanos < now - t
      · have out : ¬ now - t ≤ window.nanos := by omega
        rw [List.dropWhile_cons_of_pos (by simpa using aged), ih rest.2,
          List.filter_cons_of_neg (by simpa using out)]
      · rw [List.dropWhile_cons_of_neg (by simpa using aged)]
        symm
        rw [List.filter_eq_self]
        intro u member
        have order : t ≤ u := by
          rcases List.mem_cons.mp member with rfl | later
          · exact Nat.le_refl _
          · exact rest.1 u later
        simp only [decide_eq_true_eq]
        omega

variable {P}

theorem spent_of_perCaller {r r' : Registry} {caller : String} (later : r.now ≤ r'.now)
    (kept : r'.perCaller caller = r.perCaller caller ∨
      r'.perCaller caller = prune r.now P.quota.window (r.perCaller caller)) :
    spent P r' caller ≤ spent P r caller := by
  unfold spent spentAt
  rcases kept with same | pruned
  · rw [same]
    exact inWindow_length_le later _ _
  · rw [pruned, inWindow_prune later]
    exact inWindow_length_le later _ _

theorem spent_charge (r : Registry) (caller : String) (nanos : Nat) :
    spent P (r.charge P caller nanos) caller = spentAt P r (r.now + nanos) caller + 1 := by
  have pushed : (r.charge P caller nanos).perCaller caller =
      prune r.now P.quota.window (r.perCaller caller) ++ [r.now + nanos] := by
    simp [Registry.charge, Registry.elapse]
  have clock : (r.charge P caller nanos).now = r.now + nanos := rfl
  unfold spent spentAt
  rw [pushed, clock]
  unfold inWindow
  rw [List.filter_append, List.length_append, List.filter_cons_of_pos (by simp)]
  have same := inWindow_prune (Nat.le_add_right r.now nanos) P.quota.window (r.perCaller caller)
  unfold inWindow at same
  rw [same]
  rfl

theorem charge_other (r : Registry) {caller other : String} (nanos : Nat) (h : other ≠ caller) :
    (r.charge P caller nanos).perCaller other = r.perCaller other := by
  simp [Registry.charge, Registry.elapse, h]

/-! ## What a step does to the ledger -/

/-- A step that stamps no charge: the clock does not go back, a history is kept or pruned,
and a passed gate counted fewer charges than the budget. -/
structure QuietStep (P : Policy) (r r' : Registry) (events : List Event) : Prop where
  clock : r.now ≤ r'.now
  kept : ∀ caller, r'.perCaller caller = r.perCaller caller ∨
    r'.perCaller caller = prune r.now P.quota.window (r.perCaller caller)
  uncharged : ∀ caller t, .charged caller t ∉ events
  gated : ∀ caller, .gated caller true ∈ events → (r.quotaAdmits P caller).1 = true

theorem QuietStep.of_ledger {r r' : Registry} {events : List Event} (clock : r.now ≤ r'.now)
    (same : r'.perCaller = r.perCaller) (uncharged : ∀ caller t, .charged caller t ∉ events)
    (ungated : ∀ caller, .gated caller true ∉ events) : QuietStep P r r' events :=
  ⟨clock, fun _ => .inl (by rw [same]), uncharged, fun caller h => absurd h (ungated caller)⟩

theorem QuietStep.of_onWatch {r r' : Registry} {events : List Event} (clock : r.now ≤ r'.now)
    (same : r'.perCaller = r.perCaller) (quiet : ∀ e ∈ events, e.onWatch = true) :
    QuietStep P r r' events :=
  .of_ledger clock same (fun _ _ h => nomatch quiet _ h) (fun _ h => nomatch quiet _ h)

theorem act_ledger {id : Nat} {o : Op} {i : Input} {r r' : Registry} {a : o.Ans}
    {events : List Event} (acts : act P id o i r = some (a, events, r')) :
    (∃ caller nanos, o = .charge caller ∧ i = .elapsed nanos ∧
      events = [.charged caller (r.now + nanos)] ∧ r' = r.charge P caller nanos) ∨
    (∀ caller, o ≠ .charge caller) ∧ QuietStep P r r' events := by
  cases o with
  | resolve venue =>
      obtain ⟨_, hevents, hr⟩ := act_resolve acts
      subst hr hevents
      exact .inr ⟨nofun, .of_ledger (Nat.le_refl _) rfl (by simp) (by simp)⟩
  | quotaAdmits caller =>
      obtain ⟨ha, hevents, hr⟩ := act_quotaAdmits acts
      subst hr hevents
      right
      refine ⟨nofun, Nat.le_refl _, ?_, by simp, ?_⟩
      · intro c
        by_cases same : c = caller
        · subst same
          exact .inr (by simp [Registry.quotaAdmits])
        · exact .inl (by simp [Registry.quotaAdmits, same])
      · intro c passed
        simp only [List.mem_singleton, Event.gated.injEq] at passed
        rw [passed.1, ← ha, ← passed.2]
  | charge caller =>
      obtain ⟨nanos, hi, hevents, hr⟩ := act_charge acts
      exact .inl ⟨caller, nanos, rfl, hi, hevents, hr⟩
  | lock slot =>
      obtain ⟨_, hevents, hr⟩ := act_lock acts
      subst hr hevents
      exact .inr ⟨nofun, .of_ledger (Nat.le_refl _) rfl (by simp) (by simp)⟩
  | unlock slot =>
      obtain ⟨hevents, hr⟩ := act_unlock acts
      subst hr hevents
      exact .inr ⟨nofun, .of_ledger (Nat.le_refl _) rfl (by simp) (by simp)⟩
  | invoke slot inv =>
      obtain ⟨hevents, hr⟩ := act_invoke acts
      subst hr hevents
      exact .inr ⟨nofun, .of_ledger (Nat.le_refl _) rfl (by simp) (by simp)⟩
  | answer slot inv =>
      obtain ⟨_, _, hevents, hr⟩ := act_answer acts
      subst hr hevents
      exact .inr ⟨nofun, .of_ledger (Nat.le_refl _) rfl (by simp) (by simp)⟩
  | check ctx =>
      obtain ⟨hevents, hr⟩ := act_check acts
      subst hr hevents
      exact .inr ⟨nofun, .of_ledger (Nat.le_refl _) rfl (by simp) (by simp)⟩
  | watch venue receipt =>
      obtain ⟨nanos, hr⟩ := act_watch_frame acts
      rw [hr]
      exact .inr ⟨nofun, .of_onWatch (Nat.le_add_right _ _) rfl (act_watch_onWatch acts)⟩
  | snapshot =>
      rw [act_snapshot_frame acts]
      exact .inr ⟨nofun, .of_onWatch (Nat.le_refl _) rfl (act_snapshot_onWatch acts)⟩
  | recordPolledStatus venue receipt status =>
      rw [act_recordPolledStatus_frame acts]
      exact .inr ⟨nofun, .of_onWatch (Nat.le_refl _) rfl (act_recordPolledStatus_onWatch acts)⟩

theorem host_ledger (event : HostEvent) (r : Registry) :
    QuietStep P r (host event r).2 (host event r).1 := by
  obtain ⟨clock, _, same, _⟩ := host_frame event r
  have routing := host_onRoute event r
  exact .of_ledger clock same (fun _ _ h => nomatch routing _ h) (fun _ h => nomatch routing _ h)

/-- A step of the pool stamps one charge or is quiet. -/
theorem step_ledger {p q : RegistryPool} {label : Label Input HostEvent Call}
    (moves : (venueRegistry P).step p label = some q) :
    (∃ id caller nanos rest, label = .advance id (.elapsed nanos) ∧
      p.threads id = some (.call (.charge caller) rest) ∧
      q.shared = p.shared.charge P caller nanos ∧
      q.log = p.log ++ [⟨some id, .charged caller (p.shared.now + nanos)⟩]) ∨
    (∀ id caller nanos rest, label = .advance id (.elapsed nanos) →
      p.threads id ≠ some (.call (.charge caller) rest)) ∧
      ∃ who events, q.log = p.log ++ tagged who events ∧ QuietStep P p.shared q.shared events := by
  obtain ⟨call, rfl, rfl⟩ | ⟨id, i, o, rest, a, events, r, rfl, thread, acts, rfl⟩ |
    ⟨id, o, rest, events, r, rfl, thread, gone, rfl⟩ | ⟨event, rfl, rfl⟩ :=
      (venueRegistry P).step_cases moves
  · exact .inr ⟨nofun, none, [], by simp, .of_ledger (Nat.le_refl _) rfl (by simp) (by simp)⟩
  · rcases act_ledger acts with ⟨caller, nanos, ho, hi, hevents, hr⟩ | ⟨other, quiet⟩
    · subst ho hi hevents hr
      exact .inl ⟨id, caller, nanos, rest, rfl, thread, rfl, rfl⟩
    · right
      refine ⟨?_, some id, events, rfl, quiet⟩
      intro id' caller nanos rest' same charging
      cases same
      rw [thread] at charging
      cases charging
      exact other caller rfl
  · right
    rcases abandon_cases id gone with ⟨_, _, hevents, hr⟩ | ⟨_, _, _, hevents, hr⟩
    · subst hr hevents
      exact ⟨nofun, none, [], by simp, .of_ledger (Nat.le_refl _) rfl (by simp) (by simp)⟩
    · subst hr hevents
      exact ⟨nofun, _, _, rfl, .of_ledger (Nat.le_refl _) rfl (by simp) (by simp)⟩
  · exact .inr ⟨nofun, none, _, rfl, host_ledger event p.shared⟩

/-! ## Ledgers in order -/

/-- Every history is sorted and holds no charge ahead of the clock. -/
def Chronological (r : Registry) : Prop :=
  ∀ caller, (r.perCaller caller).Pairwise (· ≤ ·) ∧ ∀ t ∈ r.perCaller caller, t ≤ r.now

theorem Chronological.kept {r r' : Registry} (ordered : Chronological r) (later : r.now ≤ r'.now)
    {caller : String}
    (kept : r'.perCaller caller = r.perCaller caller ∨
      r'.perCaller caller = prune r.now P.quota.window (r.perCaller caller)) :
    (r'.perCaller caller).Pairwise (· ≤ ·) ∧ ∀ t ∈ r'.perCaller caller, t ≤ r'.now := by
  obtain ⟨sorted, past⟩ := ordered caller
  have part : (r'.perCaller caller).Sublist (r.perCaller caller) := by
    rcases kept with same | pruned
    · rw [same]
    · rw [pruned]
      exact List.dropWhile_sublist _
  exact ⟨sorted.sublist part, fun t member => Nat.le_trans (past t (part.subset member)) later⟩

theorem Chronological.charge {r : Registry} (ordered : Chronological r) (caller : String)
    (nanos : Nat) : Chronological (r.charge P caller nanos) := by
  have later : r.now ≤ (r.charge P caller nanos).now := Nat.le_add_right _ _
  intro other
  by_cases same : other = caller
  · subst same
    have pushed : (r.charge P other nanos).perCaller other =
        prune r.now P.quota.window (r.perCaller other) ++ [r.now + nanos] := by
      simp [Registry.charge, Registry.elapse]
    have part : (prune r.now P.quota.window (r.perCaller other)).Sublist (r.perCaller other) :=
      List.dropWhile_sublist _
    obtain ⟨sorted, past⟩ := ordered other
    have before : ∀ t ∈ prune r.now P.quota.window (r.perCaller other), t ≤ r.now + nanos := by
      intro t member
      have := past t (part.subset member)
      omega
    rw [pushed]
    constructor
    · rw [List.pairwise_append]
      refine ⟨sorted.sublist part, List.pairwise_singleton _ _, ?_⟩
      intro t member u last
      rw [List.mem_singleton.mp last]
      exact before t member
    · intro t member
      rcases List.mem_append.mp member with old | new
      · exact before t old
      · rw [List.mem_singleton.mp new]
        exact Nat.le_refl _
  · exact ordered.kept (P := P) later (.inl (charge_other r nanos same))

theorem chronological {p : RegistryPool} {start : Nat}
    (reach : (venueRegistry P).Reach (Registry.new start) p) : Chronological p.shared := by
  induction reach with
  | start => exact fun _ => ⟨List.Pairwise.nil, nofun⟩
  | step before moves ih =>
      rcases step_ledger moves with ⟨_, caller, nanos, _, _, _, shared, _⟩ | ⟨_, _, _, _, quiet⟩
      · rw [shared]
        exact ih.charge caller nanos
      · exact fun caller => ih.kept quiet.clock (quiet.kept caller)

/-- A gate that admits has counted the caller's charges in the window, and they are fewer
than its budget. -/
theorem spent_of_admitted {r : Registry} {caller : String} (ordered : Chronological r)
    (within : spent P r caller ≤ P.quota.maxCharges.toNat)
    (admitted : (r.quotaAdmits P caller).1 = true) :
    spent P r caller < P.quota.maxCharges.toNat := by
  have small := P.quota.maxCharges.toNat_lt
  have exact : (prune r.now P.quota.window (r.perCaller caller)).length = spent P r caller := by
    rw [prune_eq_inWindow (ordered caller).1]
    rfl
  have counted : UInt32.ofNat (spent P r caller) < P.quota.maxCharges := by
    simpa [Registry.quotaAdmits, exact] using admitted
  rw [UInt32.lt_iff_toNat_lt, UInt32.toNat_ofNat', Nat.mod_eq_of_lt (by omega)] at counted
  exact counted

/-! ## The budget along a schedule -/

theorem withinBudget_step {p q : RegistryPool} {label : Label Input HostEvent Call}
    (within : WithinBudget P p) (moves : (venueRegistry P).step p label = some q) :
    WithinBudget P q ↔ ChargeAdmitted P p label := by
  rcases step_ledger moves with ⟨id, caller, nanos, rest, hlabel, thread, shared, _⟩ |
    ⟨other, _, _, _, quiet⟩
  · subst hlabel
    constructor
    · intro after caller' rest' thread'
      rw [thread] at thread'
      cases thread'
      have := after caller
      rw [shared, spent_charge] at this
      omega
    · intro admitted who
      rw [shared]
      by_cases same : who = caller
      · subst same
        rw [spent_charge]
        have := admitted who rest thread
        omega
      · have later : p.shared.now ≤ (p.shared.charge P caller nanos).now := Nat.le_add_right _ _
        have less := spent_of_perCaller (P := P) later (.inl (charge_other p.shared nanos same))
        exact Nat.le_trans less (within who)
  · constructor
    · intro _
      unfold ChargeAdmitted
      split
      next id nanos =>
        intro caller rest thread
        exact absurd thread (other id caller nanos rest rfl)
      next => trivial
    · intro _ caller
      exact Nat.le_trans (spent_of_perCaller quiet.clock (quiet.kept caller)) (within caller)

/-- As long as no charge of its caller follows it, a passed gate has room. -/
def RoomAtGate (P : Policy) (p : RegistryPool) : Prop :=
  ∀ past who caller mid, p.log = past ++ ⟨who, .gated caller true⟩ :: mid →
    (∀ e ∈ mid, ∀ t, e.what ≠ .charged caller t) →
    spent P p.shared caller < P.quota.maxCharges.toNat

theorem RoomAtGate.step {p q : RegistryPool} {label : Label Input HostEvent Call} {start : Nat}
    (room : RoomAtGate P p) (reach : (venueRegistry P).Reach (Registry.new start) p)
    (within : WithinBudget P p) (moves : (venueRegistry P).step p label = some q) :
    RoomAtGate P q := by
  intro past who caller mid split uncharged
  rcases step_ledger moves with ⟨id, caller', nanos, rest, _, _, shared, log⟩ |
    ⟨_, who', events, log, quiet⟩
  · rw [log] at split
    rcases split_append split with ⟨later, before, hmid⟩ | ⟨mid', _, last⟩
    · have charged : (⟨some id, .charged caller' (p.shared.now + nanos)⟩ : Entry Event) ∈ mid := by
        rw [hmid]
        simp
      have other : caller ≠ caller' := by
        intro same
        subst same
        exact uncharged _ charged _ rfl
      have kept := room past who caller later before fun e member =>
        uncharged e (by rw [hmid]; exact List.mem_append_left _ member)
      have after : p.shared.now ≤ (p.shared.charge P caller' nanos).now := Nat.le_add_right _ _
      have less := spent_of_perCaller (P := P) after (.inl (charge_other p.shared nanos other))
      rw [shared]
      exact Nat.lt_of_le_of_lt less kept
    · cases mid' with
      | nil => simp at last
      | cons x xs => simp at last
  · have less := spent_of_perCaller (P := P) quiet.clock (quiet.kept caller)
    apply Nat.lt_of_le_of_lt less
    rw [log] at split
    rcases split_append split with ⟨later, before, hmid⟩ | ⟨mid', _, now⟩
    · apply room past who caller later before
      intro e member
      apply uncharged e
      rw [hmid]
      exact List.mem_append_left _ member
    · have gated : .gated caller true ∈ events := by
        have member : (⟨who, .gated caller true⟩ : Entry Event) ∈ tagged who' events := by
          rw [now]
          simp
        exact (mem_tagged.mp member).2
      exact spent_of_admitted (chronological reach) (within caller) (quiet.gated caller gated)

/-- A charge that races no other charge of its caller finds the room its gate found. -/
theorem admitted_of_room {p : RegistryPool} {label : Label Input HostEvent Call}
    (room : RoomAtGate P p) (alone : Unraced p label) : ChargeAdmitted P p label := by
  unfold ChargeAdmitted
  split
  next id nanos =>
    intro caller rest thread
    obtain ⟨past, mid, split, uncharged⟩ := alone caller rest thread
    have ahead : spentAt P p.shared (p.shared.now + nanos) caller ≤ spent P p.shared caller :=
      inWindow_length_le (Nat.le_add_right _ _) _ _
    exact Nat.lt_of_le_of_lt ahead (room past _ caller mid split uncharged)
  next => trivial

theorem admitted_of_unraced (labels : Schedule) {p : RegistryPool}
    {start : Nat} (reach : (venueRegistry P).Reach (Registry.new start) p)
    (within : WithinBudget P p) (room : RoomAtGate P p)
    (unraced : (venueRegistry P).EachStep Unraced labels p) :
    (venueRegistry P).EachStep (ChargeAdmitted P) labels p := by
  induction labels generalizing p with
  | nil => trivial
  | cons label labels ih =>
      intro q moves
      obtain ⟨alone, later⟩ := unraced q moves
      have admitted := admitted_of_room room alone
      have after := (withinBudget_step within moves).mpr admitted
      exact ⟨admitted, ih (reach.step moves) after (room.step reach within moves) later⟩

/-- The budget of every caller holds in every pool a schedule passes exactly when every
charge of the schedule is stamped with room left in the window; and it is when no charge
falls between another call's gate and its charge. -/
theorem budget_holds_iff_admitted (P : Policy) (start : Nat)
    (labels : Schedule) :
    ((venueRegistry P).Throughout (WithinBudget P) labels (System.empty (Registry.new start)) ↔
      (venueRegistry P).EachStep (ChargeAdmitted P) labels (System.empty (Registry.new start))) ∧
    ((venueRegistry P).EachStep Unraced labels (System.empty (Registry.new start)) →
      (venueRegistry P).EachStep (ChargeAdmitted P) labels
        (System.empty (Registry.new start))) := by
  have within : WithinBudget P (System.empty (Registry.new start)) := fun _ => Nat.zero_le _
  have room : RoomAtGate P (System.empty (Registry.new start)) := by
    intro past who caller mid split
    simp [System.empty] at split
  constructor
  · exact System.throughout_iff_eachStep
      (fun p q label _ before moves => withinBudget_step before moves) labels .start within
  · exact admitted_of_unraced labels .start within room

/-! ## Two calls on one unit of budget -/

/-- Both calls resolve and pass the gate, then one after the other holds the adapter. -/
def racingSubmits : Schedule :=
  [.host (.register stubVenue 0 ∅),
    .spawn (.submit "keeper" stubVenue [1]), .spawn (.submit "keeper" stubVenue [2])] ++
  throughGate 0 ++ throughGate 1 ++
  throughHeader 0 .allow ++ throughSubmit 0 [7] ++ throughHeader 1 .allow

/-- Two concurrent submits of one caller are both charged on a budget of one. -/
theorem budget_overspent :
    ∃ p, Reachable oneCharge p ∧
      oneCharge.quota.maxCharges.toNat < spent oneCharge p.shared "keeper" := by
  have ran : ((venueRegistry oneCharge).run racingSubmits
      (System.empty (Registry.new 0))).map (fun p => spent oneCharge p.shared "keeper") =
      some 2 := by
    decide
  obtain ⟨p, reached, two⟩ := Option.map_eq_some_iff.mp ran
  refine ⟨p, ⟨0, .of_run .start reached⟩, ?_⟩
  rw [two]
  decide

end Videre.Host
