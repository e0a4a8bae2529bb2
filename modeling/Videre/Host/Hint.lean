import Videre.Host.Window

/-! # Waiting out a rate limit

A rate-limited answer says when to come back. Between the answer and the next call
nothing is charged to the caller, so whether the wait was long enough is decided by
the charges made before the answer.
-/

namespace Videre.Host

open Interaction

def Outcome.hint? : Outcome → Option UInt64
  | .submitted (.error (.rateLimited limit)) | .quoted (.error (.rateLimited limit)) =>
      limit.retryAfterMs
  | _ => none

def hintOf (q : RegistryPool) (id : Nat) : Option UInt64 :=
  match q.threads id with
  | some (.done outcome) => outcome.hint?
  | _ => none

def hintNanos (ms : UInt64) : Nat :=
  ms.toNat * 10 ^ 6

/-- The pools that calls made one after another reach from `q`. -/
inductive Later (P : Policy) (q : RegistryPool) : RegistryPool → Prop
  | here : Later P q q
  | step {r r' : RegistryPool} {label : Label Input HostEvent Call} (before : Later P q r)
      (moves : (venueRegistry P).step r label = some r')
      (alone : ∀ call, label = .spawn call → ∀ id, r.standing id = none) : Later P q r'

/-- The caller, answered at `q`, makes no call until its call `id`, which has resolved a live
venue and is at the gate no sooner than the hint said. -/
structure WaitedOut (P : Policy) (caller : String) (ms : UInt64) (q r : RegistryPool) (id : Nat) :
    Prop where
  later : Later P q r
  only : ∀ j call, q.calls.length ≤ j → r.calls[j]? = some call →
    call.caller? = some caller → j = id
  live : ∃ venue slot, own id r.log = [.resolved venue (.ok slot)]
  gate : r.standing id = some (.quotaAdmits caller)
  waited : q.shared.now + hintNanos ms ≤ r.shared.now

def HintSuffices (P : Policy) (caller : String) (ms : UInt64) (q : RegistryPool) : Prop :=
  ∀ r id, WaitedOut P caller ms q r id → (r.shared.quotaAdmits P caller).1 = true

section Waiting

variable {P : Policy} {q r : RegistryPool}

theorem Later.serial (later : Later P q r) (serial : Serial P q) : Serial P r := by
  induction later with
  | here => exact serial
  | step before moves alone ih => exact ih.step moves alone

theorem Later.hosted (later : Later P q r) (event : HostEvent) :
    ∃ r', Later P q r' ∧ r'.shared = (host event r.shared).2 ∧ r'.calls = r.calls ∧
      r'.threads = r.threads ∧ ∀ j, own j r'.log = own j r.log := by
  have moves : (venueRegistry P).step r (.host event) =
      some { r with
        shared := (host event r.shared).2
        log := r.log ++ tagged none (host event r.shared).1 } := rfl
  refine ⟨_, later.step moves nofun, rfl, rfl, rfl, fun j => ?_⟩
  rw [own_append, own_tagged_other j (by simp), List.append_nil]

structure Over (q r : RegistryPool) : Prop where
  calls : q.calls.length ≤ r.calls.length
  idle : ∀ j < q.calls.length, r.standing j = none
  silent : ∃ more, r.log = q.log ++ more ∧ ∀ j < q.calls.length, own j more = []

theorem Over.moved (ended : Over q r) {id : Nat} {o : Op} (stands : r.standing id = some o)
    (left : Option (Async Outcome)) (events : List Event) (s : Registry) :
    Over q ⟨s, r.calls, Function.update r.threads id left, r.log ++ tagged (some id) events⟩ := by
  have recent : ∀ j < q.calls.length, j ≠ id := by
    intro j old same
    rw [← same, ended.idle j old] at stands
    cases stands
  obtain ⟨more, log, silent⟩ := ended.silent
  refine ⟨ended.calls, ?_, more ++ tagged (some id) events, ?_, ?_⟩
  · intro j old
    rw [standing_update, if_neg (recent j old)]
    exact ended.idle j old
  · rw [log, List.append_assoc]
  · intro j old
    have foreign : (some id : Option Nat) ≠ some j :=
      fun same => recent j old (Option.some.inj same).symm
    rw [own_append, silent j old, own_tagged_other j foreign, List.append_nil]

theorem Later.over (later : Later P q r) (idle : ∀ j, q.standing j = none) : Over q r := by
  induction later with
  | here => exact ⟨Nat.le_refl _, fun j _ => idle j, [], (List.append_nil _).symm, fun _ _ => rfl⟩
  | @step r r' label before moves alone ih =>
      obtain ⟨call, rfl, rfl⟩ | ⟨id, i, o, rest, a, events, s, rfl, thread, acts, rfl⟩ |
        ⟨id, o, rest, events, s, rfl, thread, gone, rfl⟩ | ⟨event, rfl, rfl⟩ :=
          (venueRegistry P).step_cases moves
      · refine ⟨?_, ?_, ih.silent⟩
        · rw [List.length_append]
          exact Nat.le_trans ih.calls (Nat.le_add_right _ _)
        · intro j old
          have new : j ≠ r.calls.length := by
            have := ih.calls
            omega
          rw [standing_update, if_neg new]
          exact ih.idle j old
      · exact ih.moved (by simp [Pool.standing, thread, Program.next?]; rfl) _ _ _
      · exact ih.moved (by simp [Pool.standing, thread, Program.next?]; rfl) _ _ _
      · obtain ⟨more, log, silent⟩ := ih.silent
        refine ⟨ih.calls, ih.idle,
          more ++ tagged none ((venueRegistry P).host event r.shared).1, ?_, ?_⟩
        · rw [log, List.append_assoc]
        · intro j old
          rw [own_append, silent j old, own_tagged_other j (by simp), List.append_nil]

theorem charges_eq_nil {caller : String} {log : List (Entry Event)}
    (uncharged : ∀ e ∈ log, ∀ t, e.what ≠ .charged caller t) : charges caller log = [] := by
  have none_kept : charges caller (log.filter fun _ => false) = charges caller log :=
    charges_filter _ fun e member t charged => absurd charged (uncharged e member t)
  rw [← none_kept, List.filter_false]
  rfl

theorem WaitedOut.charges {caller : String} {ms : UInt64} {id : Nat}
    (waited : WaitedOut P caller ms q r id) (serial : Serial P q)
    (idle : ∀ j, q.standing j = none) :
    Host.charges caller r.log = Host.charges caller q.log := by
  have serial' := waited.later.serial serial
  obtain ⟨start, reach⟩ := serial'.reach
  obtain ⟨more, log, silent⟩ := (waited.later.over idle).silent
  rw [log, charges_append]
  have uncharged : Host.charges caller more = [] := by
    apply charges_eq_nil
    intro e member t charged
    obtain ⟨who, what⟩ := e
    simp only at charged
    subst charged
    have logged : ⟨who, .charged caller t⟩ ∈ r.log := by
      rw [log]
      exact List.mem_append_right _ member
    cases who with
    | none => cases host_logged reach logged
    | some j =>
        have inside : .charged caller t ∈ own j r.log := (mem_own j).mpr logged
        have bound : j < r.calls.length := by
          by_contra fresh
          rw [reach.numbered.silent j (Nat.le_of_not_lt fresh)] at inside
          cases inside
        have made := List.getElem?_eq_getElem bound
        obtain ⟨past, rest, split⟩ := List.append_of_mem inside
        have mine : Call.caller? r.calls[j] = some caller :=
          (serial'.charges made).1.at_split split
        by_cases old : j < q.calls.length
        · have none_ := (mem_own j).mpr member
          rw [silent j old] at none_
          cases none_
        · have same := waited.only j _ (Nat.le_of_not_lt old) made mine
          obtain ⟨venue, slot, resolved⟩ := waited.live
          rw [same, resolved] at inside
          simp at inside
  rw [uncharged, List.append_nil]

theorem answered_of_hintOf {id : Nat} {ms : UInt64} (hinted : hintOf q id = some ms) :
    ∃ outcome, q.threads id = some (.done outcome) ∧ outcome.hint? = some ms := by
  unfold hintOf at hinted
  split at hinted
  next outcome thread => exact ⟨outcome, thread, hinted⟩
  next => cases hinted

/-- A call that has just been answered leaves no other under way. -/
theorem idle_of_answered {p : RegistryPool} {id : Nat} {input : Input} {outcome : Outcome}
    (serial : Serial P p) (moves : (venueRegistry P).step p (.advance id input) = some q)
    (answered : q.threads id = some (.done outcome)) : ∀ j, q.standing j = none := by
  obtain ⟨_, hlabel, _⟩ | ⟨id', i, o, rest, a, events, s, hlabel, thread, acts, hq⟩ |
    ⟨_, _, _, _, _, hlabel, _⟩ | ⟨_, hlabel, _⟩ := (venueRegistry P).step_cases moves
  · cases hlabel
  · cases hlabel
    intro j
    have here : p.standing id = some o := by simp [Pool.standing, thread, Program.next?]
    by_cases same : j = id
    · rw [same]
      simp [Pool.standing, answered, Program.next?]
    · rw [hq, standing_update, if_neg same]
      cases stands : p.standing j with
      | none => rfl
      | some o' => exact absurd (serial.alone.one j id _ _ stands here) same
  · cases hlabel
  · cases hlabel

theorem resolve_revived (s : Registry) (venue : VenueId) (liveness : Liveness) :
    let s' := (host (.register venue liveness ∅) (s.markAlive liveness)).2
    s'.now = s.now ∧ ∃ slot, s'.resolve venue = .ok slot := by
  intro s'
  cases registered : (s.markAlive liveness).register venue liveness ∅ with
  | error e =>
      have same : s' = s.markAlive liveness := by simp [s', host, registered]
      rw [same]
      refine ⟨rfl, ?_⟩
      unfold Registry.register at registered
      split at registered
      next alive =>
        obtain ⟨installed, there, live⟩ := (Option.any_eq_true _ _).mp alive
        exact ⟨installed.slot, by simp only [Registry.resolve, there, live, if_true]⟩
      next => cases registered
  | ok s'' =>
      have same : s' = s'' := by simp [s', host, registered]
      rw [same, register_frame registered]
      refine ⟨rfl, (s.markAlive liveness).slots, ?_⟩
      simp [Registry.resolve, Registry.markAlive]

/-- With no call under way and the venue live, a quote gets to the gate. -/
theorem Later.quoted (later : Later P q r) (serial : Serial P q) (idle : ∀ j, r.standing j = none)
    {venue : VenueId} {slot : Slot} (resolves : r.shared.resolve venue = .ok slot)
    (caller : String) :
    ∃ r', Later P q r' ∧ r'.shared = r.shared ∧ r'.calls = r.calls ++ [.quote caller venue []] ∧
      own r.calls.length r'.log = [.resolved venue (.ok slot)] ∧
      r'.standing r.calls.length = some (.quotaAdmits caller) := by
  obtain ⟨start, reach⟩ := (later.serial serial).reach
  obtain ⟨rest, code, gate⟩ : ∃ rest, Call.code P (.quote caller venue []) =
      .call (.resolve venue) rest ∧
        (rest (.ok slot)).next? = some (.quotaAdmits caller) := ⟨_, rfl, rfl⟩
  obtain ⟨s, hs⟩ : ∃ s : RegistryPool, s = { r with
      calls := r.calls ++ [.quote caller venue []]
      threads := Function.update r.threads r.calls.length
        (some (Call.code P (.quote caller venue []))) } := ⟨_, rfl⟩
  have spawned : (venueRegistry P).step r (.spawn (.quote caller venue [])) = some s := by
    rw [hs]
    rfl
  have made := later.step spawned fun _ _ => idle
  have thread : s.threads r.calls.length = some (.call (.resolve venue) rest) := by
    rw [hs, ← code]
    exact Function.update_self _ _ _
  have acts : (venueRegistry P).act r.calls.length (.resolve venue) (.elapsed 0) s.shared =
      some (.ok slot, [.resolved venue (.ok slot)], r.shared) := by
    rw [hs, ← resolves]
    rfl
  have moves := (venueRegistry P).step_advance thread acts
  refine ⟨_, made.step moves nofun, rfl, by rw [hs], ?_, ?_⟩
  · rw [own_append, own_tagged_self, hs, reach.numbered.silent _ (Nat.le_refl _), List.nil_append]
  · rw [standing_update, if_pos rfl]
    exact gate

/-- The caller can come back after any wait: the clock moves on, a venue is registered and the
caller asks it for a quote. -/
theorem waiting_run (serial : Serial P q) (idle : ∀ j, q.standing j = none) (caller : String)
    (ms : UInt64) :
    ∃ r id, WaitedOut P caller ms q r id ∧ r.shared.now = q.shared.now + hintNanos ms := by
  obtain ⟨r₁, later₁, shared₁, calls₁, threads₁, _⟩ :=
    (Later.here (P := P) (q := q)).hosted (.elapse (hintNanos ms))
  obtain ⟨r₂, later₂, shared₂, calls₂, threads₂, _⟩ := later₁.hosted (.markAlive 0)
  obtain ⟨r₃, later₃, shared₃, calls₃, threads₃, _⟩ := later₂.hosted (.register stubVenue 0 ∅)
  obtain ⟨clock, slot, resolves⟩ := resolve_revived r₁.shared stubVenue 0
  have idle₃ : ∀ j, r₃.standing j = none := by
    intro j
    unfold Pool.standing
    rw [threads₃, threads₂, threads₁]
    exact idle j
  have live : r₃.shared.resolve stubVenue = .ok slot := by
    rw [shared₃, shared₂]
    exact resolves
  have calls : r₃.calls = q.calls := by rw [calls₃, calls₂, calls₁]
  obtain ⟨r, later, shared, made, alone, gate⟩ := later₃.quoted serial idle₃ live caller
  have now : r.shared.now = q.shared.now + hintNanos ms := by
    rw [shared, shared₃, shared₂]
    refine clock.trans ?_
    rw [shared₁]
    rfl
  refine ⟨r, r₃.calls.length, ⟨later, ?_, ⟨_, _, alone⟩, gate, Nat.le_of_eq now.symm⟩, now⟩
  intro j call new there _
  have bound := (List.getElem?_eq_some_iff.mp there).choose
  rw [made, List.length_append, List.length_singleton] at bound
  rw [calls] at bound ⊢
  omega

end Waiting

/-! ## When the hint suffices -/

/-- Admission does not get harder while a caller waits, so the end of the hint decides. -/
theorem suffices_iff {P : Policy} {q : RegistryPool} {caller : String} {ms : UInt64}
    (serial : Serial P q) (idle : ∀ j, q.standing j = none) :
    HintSuffices P caller ms q ↔
      (inWindow (q.shared.now + hintNanos ms) P.quota.window (charges caller q.log)).length <
        P.quota.maxCharges.toNat := by
  have decides : ∀ {r id}, WaitedOut P caller ms q r id →
      ((r.shared.quotaAdmits P caller).1 = true ↔
        (inWindow r.shared.now P.quota.window (charges caller q.log)).length <
          P.quota.maxCharges.toNat) := by
    intro r id waited
    have serial' := waited.later.serial serial
    obtain ⟨start, reach⟩ := serial'.reach
    rw [gate_decides reach (serial'.budget.1 caller), waited.charges serial idle]
  constructor
  · intro suffices_
    obtain ⟨r, id, waited, now⟩ := waiting_run serial idle caller ms
    rw [← now]
    exact (decides waited).mp (suffices_ r id waited)
  · intro room r id waited
    rw [decides waited]
    exact Nat.lt_of_le_of_lt (inWindow_length_le waited.waited _ _) room

theorem hintNanos_windowMs_le (window : Duration) :
    hintNanos (windowMs window) ≤ window.nanos := by
  have whole : (windowMs window).toNat ≤ window.asMillis := by
    unfold windowMs
    by_cases fits : window.asMillis < 2 ^ 64
    · rw [if_pos fits, UInt64.toNat_ofNat', Nat.mod_eq_of_lt fits]
    · rw [if_neg fits, UInt64.toNat_ofNat']
      omega
  unfold hintNanos
  unfold Duration.asMillis at whole
  omega

/-- A call refused at the gate is told the window, and the whole budget is in the window. -/
theorem refused_full {P : Policy} {p q : RegistryPool} {id : Nat} {input : Input}
    {caller : String} {outcome : Outcome} {ms : UInt64} (serial : Serial P p)
    (gate : p.standing id = some (.quotaAdmits caller))
    (moves : (venueRegistry P).step p (.advance id input) = some q)
    (answered : q.threads id = some (.done outcome)) (limited : outcome.hint? = some ms) :
    ms = windowMs P.quota.window ∧
      (inWindow q.shared.now P.quota.window (charges caller q.log)).length =
        P.quota.maxCharges.toNat := by
  obtain ⟨start, reach⟩ := serial.reach
  obtain ⟨rest, thread⟩ := Pool.of_standing gate
  obtain ⟨call, made⟩ := serial.made thread
  obtain ⟨_, refusal, next⟩ := ((serial.charges made).2 _ thread).at_point.gate caller rest rfl
  have within := serial.budget.1 caller
  have decides := gate_decides reach within
  have acts : (venueRegistry P).act id (.quotaAdmits caller) input p.shared =
      some ((p.shared.quotaAdmits P caller).1, [.gated caller (p.shared.quotaAdmits P caller).1],
        (p.shared.quotaAdmits P caller).2) := rfl
  rw [(venueRegistry P).step_advance thread acts, Option.some.injEq] at moves
  subst moves
  have after : rest (p.shared.quotaAdmits P caller).1 = .done outcome :=
    Option.some.inj ((Function.update_self id _ p.threads).symm.trans answered)
  have refused : (p.shared.quotaAdmits P caller).1 = false := by
    by_contra passed
    obtain ⟨o, next', continues⟩ := next
    rw [Bool.eq_true_of_not_eq_false passed, continues] at after
    cases after
  constructor
  · rw [refused] at after
    rcases refusal with submitted | quoted
    · rw [after] at submitted
      cases submitted
      exact (Option.some.inj limited).symm
    · rw [after] at quoted
      cases quoted
      exact (Option.some.inj limited).symm
  · have uncharged : charges caller (p.log ++ tagged (some id)
        [.gated caller (p.shared.quotaAdmits P caller).1]) = charges caller p.log := by
      rw [charges_append, charges_tagged]
      exact List.append_nil _
    have counted : (inWindow p.shared.now P.quota.window (charges caller p.log)).length =
        spent P p.shared caller := by
      rw [← (ledger_covers reach caller).inWindow]
      rfl
    have full : ¬ (inWindow p.shared.now P.quota.window (charges caller p.log)).length <
        P.quota.maxCharges.toNat := by
      rw [← decides, refused]
      nofun
    show (inWindow p.shared.now P.quota.window (charges caller (p.log ++ _))).length = _
    rw [uncharged]
    omega

theorem charges_past {P : Policy} {p : RegistryPool} {start : Nat}
    (reach : (venueRegistry P).Reach (Registry.new start) p) (caller : String) :
    ∀ s ∈ charges caller p.log, s ≤ p.shared.now := by
  induction reach with
  | start => exact List.forall_mem_nil _
  | @step p q label before moves ih =>
      rcases step_ledger moves with ⟨id, who, nanos, _, _, _, shared, log⟩ |
        ⟨_, who, events, log, quiet⟩
      · intro s member
        have clock : q.shared.now = p.shared.now + nanos := by rw [shared]; rfl
        rw [log, charges_append] at member
        rcases List.mem_append.mp member with old | new
        · have := ih s old
          omega
        · have same : s = p.shared.now + nanos := by
            simp only [charges, List.map_cons, List.map_nil, chargesOf_cons, Event.charge?,
              chargesOf_nil, Option.toList_some, List.append_nil, List.mem_map,
              List.mem_filter, List.mem_singleton] at new
            obtain ⟨_, ⟨rfl, _⟩, rfl⟩ := new
            rfl
          omega
      · intro s member
        rw [log, charges_append, charges_tagged, chargesOf_eq_nil quiet.uncharged] at member
        exact Nat.le_trans (ih s (by simpa using member)) quiet.clock

theorem inWindow_shrinks_iff {now wait : Nat} {window : Duration} {history : List Nat}
    (whole : wait ≤ window.nanos) (past : ∀ s ∈ history, s ≤ now) :
    (inWindow (now + wait) window history).length < (inWindow now window history).length ↔
      ∃ s ∈ inWindow now window history, s + (window.nanos - wait) < now := by
  have again : inWindow (now + wait) window history =
      inWindow (now + wait) window (inWindow now window history) := by
    unfold inWindow
    rw [List.filter_filter]
    apply List.filter_congr
    intro s _
    by_cases young : now + wait - s ≤ window.nanos
    · have : now - s ≤ window.nanos := by omega
      simp [young, this]
    · simp [young]
  have old_iff : ∀ s ∈ inWindow now window history,
      (¬ now + wait - s ≤ window.nanos ↔ s + (window.nanos - wait) < now) := by
    intro s member
    have := past s (List.mem_filter.mp member).1
    omega
  rw [again]
  unfold inWindow at old_iff ⊢
  rw [List.length_filter_lt_length_iff_exists]
  constructor
  · rintro ⟨s, member, old⟩
    exact ⟨s, member, (old_iff s member).mp (by simpa using old)⟩
  · rintro ⟨s, member, old⟩
    exact ⟨s, member, by simpa using (old_iff s member).mpr old⟩

/-- Waiting out a hint gets the caller through the gate exactly when fewer charges than the
clamped bound are in the window as soon as the hint is over. A refusal at the gate hints the
window in whole milliseconds, so then some counted charge must be older than what the
milliseconds leave of the window. -/
theorem hint_suffices_iff {builder : VenueRegistryBuilder} {horizon : Nat} {p q : RegistryPool}
    {id : Nat} {input : Input} {caller : String} {ms : UInt64}
    (serial : Serial (builder.build horizon) p)
    (moves : (venueRegistry (builder.build horizon)).step p (.advance id input) = some q)
    (hinted : hintOf q id = some ms) :
    (HintSuffices (builder.build horizon) caller ms q ↔
      (inWindow (q.shared.now + hintNanos ms) builder.quota.window
        (charges caller q.log)).length < max builder.quota.maxCharges.toNat 1) ∧
    (p.standing id = some (.quotaAdmits caller) →
      ms = windowMs builder.quota.window ∧
        (HintSuffices (builder.build horizon) caller ms q ↔
          ∃ s ∈ inWindow q.shared.now builder.quota.window (charges caller q.log),
            s + (builder.quota.window.nanos - hintNanos ms) < q.shared.now)) := by
  obtain ⟨outcome, answered, limited⟩ := answered_of_hintOf hinted
  have idle := idle_of_answered serial moves answered
  have serial' : Serial (builder.build horizon) q := serial.step moves nofun
  obtain ⟨start, reach⟩ := serial'.reach
  have decided : HintSuffices (builder.build horizon) caller ms q ↔ _ := suffices_iff serial' idle
  have bound : (builder.build horizon).quota.maxCharges.toNat =
      max builder.quota.maxCharges.toNat 1 := toNat_max_one _
  refine ⟨by rw [decided, bound]; rfl, fun gate => ?_⟩
  obtain ⟨told, full⟩ := refused_full serial gate moves answered limited
  refine ⟨told, ?_⟩
  have shrinks := inWindow_shrinks_iff (hintNanos_windowMs_le builder.quota.window)
    (charges_past reach caller)
  rw [decided, ← full, told]
  exact shrinks

/-- Refused a nanosecond after its one charge, the caller of two quotes is told long enough. -/
theorem hint_suffices_iff_stub :
    ∃ q, hintOf q 1 = some 60000 ∧ q.shared.now = 1 ∧
      HintSuffices oneCharge "keeper" 60000 q := by
  have ran : ((runInTurn oneCharge quotedTwice (System.empty (Registry.new 0))).bind fun p =>
      ((venueRegistry oneCharge).step p (.advance 1 (.elapsed 0))).map fun q =>
        (p.standing 1, hintOf q 1, q.shared.now, charges "keeper" q.log)) =
      some (some (.quotaAdmits "keeper"), some 60000, 1, [0]) := by
    decide
  obtain ⟨p, reached, ran⟩ := Option.bind_eq_some_iff.mp ran
  obtain ⟨q, moves, same⟩ := Option.map_eq_some_iff.mp ran
  simp only [Prod.mk.injEq] at same
  obtain ⟨gate, hinted, clock, history⟩ := same
  have serial : Serial oneCharge p := (Serial.built 0).of_runInTurn reached
  have suffices_ := ((hint_suffices_iff serial moves hinted).2 gate).2
  rw [clock, history] at suffices_
  exact ⟨q, hinted, clock, suffices_.mpr ⟨0, by decide, by decide⟩⟩

def quotedAtOnce : Schedule :=
  [.host (.register stubVenue 0 ∅), .spawn (.quote "keeper" stubVenue [1])] ++ throughGate 0 ++
  [.advance 0 (.elapsed 0), .advance 0 (.elapsed 0), .advance 0 (.elapsed 0),
    .advance 0 (.reply (.quotation (.error .timeout))), .advance 0 (.elapsed 0),
    .spawn (.quote "keeper" stubVenue [1]), .advance 1 (.elapsed 0)]

/-- Refused at the instant of its one charge, the caller is told to wait a minute, and a minute
later is refused again. -/
theorem hint_too_short :
    ∃ p q, Serial oneCharge p ∧
      (venueRegistry oneCharge).step p (.advance 1 (.elapsed 0)) = some q ∧
      hintOf q 1 = some 60000 ∧ q.shared.now = 0 ∧ ¬ HintSuffices oneCharge "keeper" 60000 q := by
  have ran : ((runInTurn oneCharge quotedAtOnce (System.empty (Registry.new 0))).bind fun p =>
      ((venueRegistry oneCharge).step p (.advance 1 (.elapsed 0))).map fun q =>
        (hintOf q 1, q.shared.now, charges "keeper" q.log)) = some (some 60000, 0, [0]) := by
    decide
  obtain ⟨p, reached, ran⟩ := Option.bind_eq_some_iff.mp ran
  obtain ⟨q, moves, same⟩ := Option.map_eq_some_iff.mp ran
  simp only [Prod.mk.injEq] at same
  obtain ⟨hinted, clock, history⟩ := same
  have serial : Serial oneCharge p := (Serial.built 0).of_runInTurn reached
  refine ⟨p, q, serial, moves, hinted, clock, ?_⟩
  obtain ⟨outcome, answered, _⟩ := answered_of_hintOf hinted
  have serial' : Serial oneCharge q := serial.step moves nofun
  rw [suffices_iff serial' (idle_of_answered serial moves answered), clock, history]
  decide

end Videre.Host
