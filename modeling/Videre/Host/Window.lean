import Mathlib.Data.List.TakeWhile
import Videre.Host.Discipline
import Videre.Host.Ledger

/-! # The sliding window of calls made in turn

The ledger forgets charges that aged out, so it is a tail of the full history. For
calls made one after another it decides as the full history does: the gate of a
call sees what earlier calls were charged, and a call is charged at most once.
-/

namespace Videre.Host

open Interaction

/-! ## The full history -/

@[simp] def Event.charge? : Event → Option (String × Nat)
  | .charged caller instant => some (caller, instant)
  | _ => none

def chargesOf (trace : List Event) : List (String × Nat) :=
  trace.filterMap Event.charge?

def charges (caller : String) (log : List (Entry Event)) : List Nat :=
  ((chargesOf (log.map Entry.what)).filter (·.1 = caller)).map (·.2)

@[simp] theorem chargesOf_nil : chargesOf [] = [] := rfl

@[simp] theorem chargesOf_append (first second : List Event) :
    chargesOf (first ++ second) = chargesOf first ++ chargesOf second :=
  List.filterMap_append

@[simp] theorem chargesOf_cons (e : Event) (events : List Event) :
    chargesOf (e :: events) = e.charge?.toList ++ chargesOf events := by
  unfold chargesOf
  cases h : e.charge? with
  | none => rw [List.filterMap_cons_none h]; rfl
  | some charge => rw [List.filterMap_cons_some h]; rfl

theorem charges_append (caller : String) (first second : List (Entry Event)) :
    charges caller (first ++ second) = charges caller first ++ charges caller second := by
  simp [charges]

theorem chargesOf_eq_nil {events : List Event} (uncharged : ∀ caller t, .charged caller t ∉ events) :
    chargesOf events = [] := by
  unfold chargesOf
  rw [List.filterMap_eq_nil_iff]
  intro e member
  cases e with
  | charged caller t => exact absurd member (uncharged caller t)
  | _ => rfl

theorem chargesOf_onWatch {events : List Event} (quiet : ∀ e ∈ events, e.onWatch = true) :
    chargesOf events = [] :=
  chargesOf_eq_nil fun _ _ member => nomatch quiet _ member

theorem charges_tagged (caller : String) (who : Option Nat) (events : List Event) :
    charges caller (tagged who events) = ((chargesOf events).filter (·.1 = caller)).map (·.2) := by
  unfold charges tagged
  rw [List.map_map]
  congr 3
  exact List.map_id _

/-! ## What the ledger keeps -/

/-- The ledger is the full history less charges that have left the window. -/
def Covers (now : Nat) (window : Duration) (ledger history : List Nat) : Prop :=
  ∃ aged, history = aged ++ ledger ∧ ∀ t ∈ aged, window.nanos < now - t

section Covers

variable {now now' : Nat} {window : Duration} {ledger history : List Nat}

/-- Both count the same charges in the window. -/
theorem Covers.inWindow (covers : Covers now window ledger history) :
    Host.inWindow now window ledger = Host.inWindow now window history := by
  obtain ⟨aged, split, old⟩ := covers
  have out : Host.inWindow now window aged = [] := by
    unfold Host.inWindow
    rw [List.filter_eq_nil_iff]
    intro t member
    have := old t member
    simp only [decide_eq_true_eq]
    omega
  unfold Host.inWindow at out ⊢
  rw [split, List.filter_append, out, List.nil_append]

theorem Covers.later (covers : Covers now window ledger history) (later : now ≤ now') :
    Covers now' window ledger history := by
  obtain ⟨aged, split, old⟩ := covers
  refine ⟨aged, split, fun t member => ?_⟩
  have := old t member
  omega

theorem Covers.prune (covers : Covers now window ledger history) :
    Covers now window (Host.prune now window ledger) history := by
  obtain ⟨aged, split, old⟩ := covers
  refine ⟨aged ++ ledger.takeWhile fun front => window.nanos < now - front, ?_, ?_⟩
  · rw [split, List.append_assoc]
    congr 1
    exact List.takeWhile_append_dropWhile.symm
  · intro t member
    rcases List.mem_append.mp member with gone | dropped
    · exact old t gone
    · simpa using List.mem_takeWhile_imp dropped

theorem Covers.push (covers : Covers now window ledger history) (t : Nat) :
    Covers now window (ledger ++ [t]) (history ++ [t]) := by
  obtain ⟨aged, split, old⟩ := covers
  exact ⟨aged, by rw [split, List.append_assoc], old⟩

end Covers

section Ledger

variable {P : Policy}

/-- Whatever the calls do, every caller's ledger covers its full history. -/
theorem ledger_covers {p : RegistryPool} {start : Nat}
    (reach : (venueRegistry P).Reach (Registry.new start) p) (caller : String) :
    Covers p.shared.now P.quota.window (p.shared.perCaller caller) (charges caller p.log) := by
  induction reach with
  | start => exact ⟨[], rfl, List.forall_mem_nil _⟩
  | @step p q label before moves ih =>
      rcases step_ledger moves with ⟨id, who, nanos, _, _, _, shared, log⟩ |
        ⟨_, who, events, log, quiet⟩
      · rw [shared, log, charges_append]
        have later : p.shared.now ≤ (p.shared.charge P who nanos).now := Nat.le_add_right _ _
        by_cases same : caller = who
        · subst same
          have pushed : (p.shared.charge P caller nanos).perCaller caller =
              Host.prune p.shared.now P.quota.window (p.shared.perCaller caller) ++
                [p.shared.now + nanos] := by
            simp [Registry.charge, Registry.elapse]
          have new : charges caller [⟨some id, .charged caller (p.shared.now + nanos)⟩] =
              [p.shared.now + nanos] := by
            simp [charges]
          rw [pushed, new]
          exact (ih.prune.push _).later later
        · have none_ : charges caller [⟨some id, .charged who (p.shared.now + nanos)⟩] = [] := by
            simp [charges, Ne.symm same]
          rw [charge_other _ _ same, none_, List.append_nil]
          exact ih.later later
      · have none_ : charges caller (tagged who events) = [] := by
          rw [charges_tagged, chargesOf_eq_nil quiet.uncharged]
          rfl
        rw [log, charges_append, none_, List.append_nil]
        rcases quiet.kept caller with same | pruned
        · rw [same]
          exact ih.later quiet.clock
        · rw [pruned]
          exact ih.prune.later quiet.clock

/-- A gate decides by the full history as long as the count fits its machine word. -/
theorem gate_decides {p : RegistryPool} {start : Nat}
    (reach : (venueRegistry P).Reach (Registry.new start) p) {caller : String}
    (within : spent P p.shared caller ≤ P.quota.maxCharges.toNat) :
    (p.shared.quotaAdmits P caller).1 = true ↔
      (inWindow p.shared.now P.quota.window (charges caller p.log)).length <
        P.quota.maxCharges.toNat := by
  have small := P.quota.maxCharges.toNat_lt
  have counted : Host.prune p.shared.now P.quota.window (p.shared.perCaller caller) =
      inWindow p.shared.now P.quota.window (charges caller p.log) := by
    rw [prune_eq_inWindow (chronological reach caller).1, (ledger_covers reach caller).inWindow]
  have same : (inWindow p.shared.now P.quota.window (charges caller p.log)).length =
      spent P p.shared caller := by
    rw [← (ledger_covers reach caller).inWindow]
    rfl
  unfold Registry.quotaAdmits
  simp only [counted, same, decide_eq_true_eq]
  rw [UInt32.lt_iff_toNat_lt, UInt32.toNat_ofNat', Nat.mod_eq_of_lt (by omega)]

end Ledger

/-! ## What a call is charged -/

def Call.caller? : Call → Option String
  | .submit caller _ _ | .quote caller _ _ => some caller
  | _ => none

/-- The derive stage of a submit charges: the header derived, or the body did not decode. -/
def Event.derives : Event → Bool
  | .answered _ (.deriveHeader _) (.header (.ok _)) => true
  | .answered _ (.deriveHeader _) (.header (.error (.invalidBody _))) => true
  | _ => false

def Event.passes : Event → Bool
  | .gated _ true => true
  | _ => false

def Event.besideBudget : Event → Bool
  | .charged _ _ | .gated _ _ | .answered _ _ _ => false
  | _ => true

def Call.due (trace : List Event) : Call → Bool
  | .submit _ _ _ => trace.any Event.derives
  | .quote _ _ _ => trace.any Event.passes
  | _ => false

/-- Whether an operation is a step of the way to a charge: the route, the gate, the charge. -/
def Op.charges : Op → Bool
  | .resolve _ | .quotaAdmits _ | .charge _ => true
  | _ => false

/-- A call is charged in its caller's name. -/
def ChargeLaw (call : Call) (_ : List Event) : Event → Prop
  | .charged caller _ => call.caller? = some caller
  | _ => True

def Owed (call : Call) (trace : List Event) : Prop :=
  (chargesOf trace).length = if call.due trace then 1 else 0

/-- Where a call stands: a resolved submit or quote is at the gate, a refused one is rate
limited, a charge follows the passed gate, and a finished call was charged what it owes. -/
structure ChargePoint (P : Policy) (call : Call) (past : List Event) (p : Async Outcome) :
    Prop where
  routing : ∀ caller venue rest, call.caller? = some caller → p = .call (.resolve venue) rest →
    (∀ slot, ∃ next, rest (.ok slot) = .call (.quotaAdmits caller) next) ∧
      ∀ e, ∃ outcome, rest (.error e) = .done outcome
  gate : ∀ caller rest, p = .call (.quotaAdmits caller) rest →
    call.caller? = some caller ∧
      (rest false = .done (.submitted (.error (rateLimited P))) ∨
        rest false = .done (.quoted (.error (rateLimited P)))) ∧
      ∃ o next, rest true = .call o next
  charging : ∀ caller rest, p = .call (.charge caller) rest →
    ∃ before mid, past = before ++ .gated caller true :: mid ∧ chargesOf mid = []
  finished : ∀ outcome, p = .done outcome → Owed call past

section Charging

variable (P : Policy) (id : Nat)

abbrev Charges (call : Call) : List Event → Async Outcome → Prop :=
  (venueRegistry P).Adheres (ChargeLaw call) (ChargePoint P call) id

variable {P id} {made : Call} {past : List Event}

theorem Listing.uncharged {events : List Event} (listing : Listing events) :
    Extends (ChargeLaw made) past events := by
  apply listing.extends
  intro past e on _
  cases e with
  | charged => cases on
  | _ => trivial

/-- A call about to do another operation owes the law nothing. -/
theorem ChargePoint.aside {o : Op} (rest : o.Ans → Async Outcome) (aside : o.charges = false) :
    ChargePoint P made past (.call o rest) := by
  constructor
  · intro caller venue next _ same
    cases same
    cases aside
  · intro caller next same
    cases same
    cases aside
  · intro caller next same
    cases same
    cases aside
  · intro outcome same
    cases same

theorem Charges.done {outcome : Outcome} (owed : Owed made past) :
    Charges P id made past (.done outcome) :=
  ⟨nofun, nofun, nofun, fun _ _ => owed⟩

theorem Charges.resolve {venue : VenueId} {rest : Except VenueError Slot → Async Outcome}
    (routes : ∀ caller, made.caller? = some caller →
      (∀ slot, ∃ next, rest (.ok slot) = .call (.quotaAdmits caller) next) ∧
        ∀ e, ∃ outcome, rest (.error e) = .done outcome)
    (next : ∀ a, Charges P id made (past ++ [.resolved venue a]) (rest a)) :
    Charges P id made past (.call (.resolve venue) rest) := by
  refine adheres_resolve ⟨?_, nofun, nofun, nofun⟩ (fun _ => trivial) next
  intro caller venue' rest' mine same
  cases same
  exact routes caller mine

theorem Charges.quotaAdmits {caller : String} {rest : Bool → Async Outcome}
    (mine : made.caller? = some caller)
    (limited : rest false = .done (.submitted (.error (rateLimited P))) ∨
      rest false = .done (.quoted (.error (rateLimited P))))
    (passes : ∃ o after, rest true = .call o after)
    (next : ∀ a, Charges P id made (past ++ [.gated caller a]) (rest a)) :
    Charges P id made past (.call (.quotaAdmits caller) rest) := by
  refine adheres_quotaAdmits ⟨nofun, ?_, nofun, nofun⟩ (fun _ => trivial) next
  intro caller' rest' same
  cases same
  exact ⟨mine, limited, passes⟩

theorem Charges.charge {caller : String} {rest : Unit → Async Outcome}
    (mine : made.caller? = some caller)
    (passed : ∃ before mid, past = before ++ .gated caller true :: mid ∧ chargesOf mid = [])
    (next : ∀ t, Charges P id made (past ++ [.charged caller t]) (rest ())) :
    Charges P id made past (.call (.charge caller) rest) := by
  refine adheres_charge ⟨nofun, nofun, ?_, nofun⟩ (fun _ => mine) next
  intro caller' rest' same
  cases same
  exact passed

theorem Charges.lock {slot : Slot} {rest : Unit → Async Outcome}
    (next : Charges P id made (past ++ [.locked slot]) (rest ())) :
    Charges P id made past (.call (.lock slot) rest) :=
  adheres_lock (.aside _ rfl) trivial next

theorem Charges.await {slot : Slot} {inv : Invocation}
    {rest : Except VenueError inv.Payload → Async Outcome}
    (next : ∀ reply a, Reply.answers inv reply = some a →
      Charges P id made (past ++ [.invoked slot inv] ++ [.answered slot inv reply]) (rest a)) :
    Charges P id made past (Host.call slot inv >>= rest) :=
  adheres_invoke (.aside _ rfl) trivial
    (adheres_answer (.aside _ rfl) trivial (fun _ => trivial) next)

theorem Owed.beside {events : List Event} (owed : Owed made past)
    (beside : ∀ e ∈ events, e.besideBudget = true) : Owed made (past ++ events) := by
  have uncharged : chargesOf events = [] := by
    unfold chargesOf
    rw [List.filterMap_eq_nil_iff]
    intro e member
    have here := beside e member
    cases e with
    | charged => cases here
    | _ => rfl
  have same : made.due (past ++ events) = made.due past := by
    have derives : events.any Event.derives = false := by
      rw [List.any_eq_false]
      intro e member derives
      have here := beside e member
      cases e with
      | answered => cases here
      | _ => cases derives
    have passes : events.any Event.passes = false := by
      rw [List.any_eq_false]
      intro e member passes
      have here := beside e member
      cases e with
      | gated => cases here
      | _ => cases passes
    cases made <;> simp [Call.due, derives, passes]
  unfold Owed at owed ⊢
  rw [chargesOf_append, uncharged, List.append_nil, same]
  exact owed

theorem besideBudget_onWatch {e : Event} (quiet : e.onWatch = true) : e.besideBudget = true := by
  cases e <;> first | rfl | cases quiet

theorem Charges.leave {slot : Slot} {α : Type} {result : α} {wrap : α → Outcome}
    (owed : Owed made past) : Charges P id made past (do return wrap (← Host.leave slot result)) :=
  adheres_unlock (.aside _ rfl) trivial
    (Charges.done (owed.beside (by simp [Event.besideBudget])))

theorem reply_of_refusal {body : Bytes} {reply : Reply} {e : VenueError}
    (answers : reply.answers (.deriveHeader body) = some (.error e)) :
    reply = .header (.error e) := by
  cases reply with
  | header result =>
      cases answers
      rfl
  | _ => cases answers

theorem charges_submit (caller : String) (venue : VenueId) (body : Bytes) :
    Charges P id (.submit caller venue body) [] (Call.code P (.submit caller venue body)) := by
  apply Charges.resolve
  case routes =>
    intro c mine
    cases mine
    exact ⟨fun _ => ⟨_, rfl⟩, fun _ => ⟨_, rfl⟩⟩
  case next =>
    intro a
    cases a with
    | error e => exact Charges.done rfl
    | ok slot =>
        apply Charges.quotaAdmits rfl (.inl rfl) ⟨_, _, rfl⟩
        intro admits
        cases admits with
        | false => exact Charges.done rfl
        | true =>
            apply Charges.lock
            apply Charges.await
            intro reply a answers
            cases a with
            | error e =>
                rw [reply_of_refusal answers]
                cases e with
                | invalidBody detail =>
                    apply Charges.charge rfl ⟨[.resolved venue (.ok slot)], _, rfl, rfl⟩
                    intro instant
                    exact Charges.leave rfl
                | _ => exact Charges.leave rfl
            | ok header =>
                rw [reply_of_header answers]
                apply Charges.charge rfl ⟨[.resolved venue (.ok slot)], _, rfl, rfl⟩
                intro instant
                apply adheres_check (.aside _ rfl) (fun _ => trivial)
                intro verdict
                apply Charges.await
                intro reply a _
                cases a with
                | error e => exact Charges.leave rfl
                | ok outcome =>
                    cases outcome with
                    | requiresSigning tx => exact Charges.leave rfl
                    | accepted receipt =>
                        apply adheres_watch (.aside _ rfl)
                          (fun _ listing => listing.uncharged)
                        intro admitted events listing
                        apply Charges.leave
                        refine Owed.beside ?_ fun e member =>
                          besideBudget_onWatch (listing.quiet e member)
                        rfl

theorem charges_quote (caller : String) (venue : VenueId) (body : Bytes) :
    Charges P id (.quote caller venue body) [] (Call.code P (.quote caller venue body)) := by
  apply Charges.resolve
  case routes =>
    intro c mine
    cases mine
    exact ⟨fun _ => ⟨_, rfl⟩, fun _ => ⟨_, rfl⟩⟩
  case next =>
    intro a
    cases a with
    | error e => exact Charges.done rfl
    | ok slot =>
        apply Charges.quotaAdmits rfl (.inr rfl) ⟨_, _, rfl⟩
        intro admits
        cases admits with
        | false => exact Charges.done rfl
        | true =>
            apply Charges.charge rfl ⟨[.resolved venue (.ok slot)], _, rfl, rfl⟩
            intro instant
            apply Charges.lock
            apply Charges.await
            intro reply a _
            exact Charges.leave rfl

theorem charges_observe (venue : VenueId) (receipt : Bytes) :
    Charges P id (.observe venue receipt) [] (Call.code P (.observe venue receipt)) := by
  apply Charges.resolve (by exact fun _ mine => nomatch mine)
  intro a
  cases a with
  | error e => exact Charges.done rfl
  | ok slot =>
      apply adheres_watch (.aside _ rfl) (fun _ listing => listing.uncharged)
      intro admitted events listing
      have none_ : chargesOf ([] ++ [.resolved venue (.ok slot)] ++ events) = [] := by
        rw [chargesOf_append, chargesOf_onWatch listing.quiet]
        rfl
      cases admitted with
      | false => exact Charges.done (congrArg List.length none_)
      | true => exact Charges.done (congrArg List.length none_)

theorem charges_pollEach (rest : List (VenueId × Bytes)) {updates : List Wire.IntentStatusUpdate}
    (uncharged : chargesOf past = []) :
    Charges P id .pollStatusTransitions past (do return .polled (← pollEach rest updates)) := by
  induction rest generalizing past updates with
  | nil => exact Charges.done (congrArg List.length uncharged)
  | cons pair rest ih =>
      obtain ⟨venue, receipt⟩ := pair
      apply Charges.resolve (by exact fun _ mine => nomatch mine)
      intro a
      cases a with
      | error e =>
          apply ih
          simpa using uncharged
      | ok slot =>
          apply Charges.lock
          apply Charges.await
          intro reply polled _
          apply adheres_unlock (.aside _ rfl) trivial
          cases polled with
          | error e =>
              apply ih
              simpa using uncharged
          | ok status =>
              apply adheres_recordPolledStatus (.aside _ rfl)
              · intro update events folding
                cases folding with
                | unwatched => trivial
                | kept => exact ⟨trivial, trivial⟩
                | removed => exact ⟨trivial, trivial, trivial⟩
              · intro update events folding
                have quiet := chargesOf_onWatch folding.quiet
                cases update with
                | none =>
                    apply ih
                    rw [chargesOf_append, quiet]
                    simpa using uncharged
                | some update =>
                    apply ih
                    rw [chargesOf_append, quiet]
                    simpa using uncharged

theorem charges_status (venue : VenueId) (receipt : Bytes) :
    Charges P id (.status venue receipt) [] (Call.code P (.status venue receipt)) := by
  apply Charges.resolve (by exact fun _ mine => nomatch mine)
  intro a
  cases a with
  | error e => exact Charges.done rfl
  | ok slot =>
      apply Charges.lock
      apply Charges.await
      intro reply a _
      exact Charges.leave rfl

theorem charges_cancel (venue : VenueId) (receipt : Bytes) :
    Charges P id (.cancel venue receipt) [] (Call.code P (.cancel venue receipt)) := by
  apply Charges.resolve (by exact fun _ mine => nomatch mine)
  intro a
  cases a with
  | error e => exact Charges.done rfl
  | ok slot =>
      apply Charges.lock
      apply Charges.await
      intro reply a _
      exact Charges.leave rfl

theorem charges_code (call : Call) : Charges P id call [] (Call.code P call) := by
  cases call with
  | submit caller venue body => exact charges_submit caller venue body
  | quote caller venue body => exact charges_quote caller venue body
  | observe venue receipt => exact charges_observe venue receipt
  | pollStatusTransitions =>
      apply adheres_snapshot (.aside _ rfl) (fun _ listing => listing.uncharged)
      intro pairs events listing
      exact charges_pollEach pairs (chargesOf_onWatch listing.quiet)
  | status venue receipt => exact charges_status venue receipt
  | cancel venue receipt => exact charges_cancel venue receipt

end Charging

/-! ## Calls made in turn -/

/-- The pools that calls made one after another reach: a call is made when no other is under
way, and the host acts at any time. -/
inductive Serial (P : Policy) : RegistryPool → Prop
  | built (now : Nat) : Serial P (System.empty (Registry.new now))
  | step {p q : RegistryPool} {label : Label Input HostEvent Call} (before : Serial P p)
      (moves : (venueRegistry P).step p label = some q)
      (alone : ∀ call, label = .spawn call → ∀ id, p.standing id = none) : Serial P q

section Serial

variable {P : Policy} {p : RegistryPool}

theorem Serial.reach (serial : Serial P p) :
    ∃ start, (venueRegistry P).Reach (Registry.new start) p := by
  induction serial with
  | built now => exact ⟨now, .start⟩
  | step before moves alone ih =>
      obtain ⟨start, reach⟩ := ih
      exact ⟨start, reach.step moves⟩

/-- One call is under way at most, and since it began only it and the host logged. -/
structure Alone (p : RegistryPool) : Prop where
  one : ∀ i j o o', p.standing i = some o → p.standing j = some o' → i = j
  since : ∀ id o, p.standing id = some o → ∃ before during, p.log = before ++ during ∧
    own id before = [] ∧ ∀ e ∈ during, e.who = some id ∨ e.who = none

theorem standing_update {p : RegistryPool} {id j : Nat} {left : Option (Async Outcome)}
    {shared : Registry} {calls : List Call} {log : List (Entry Event)} :
    Pool.standing ⟨shared, calls, Function.update p.threads id left, log⟩ j =
      if j = id then left.bind Program.next? else p.standing j := by
  show (Function.update p.threads id left j).bind Program.next? = _
  rw [Function.update_apply]
  split <;> rfl

theorem Alone.only (alone : Alone p) {id j : Nat} {o o' : Op} {left : Option (Async Outcome)}
    {shared : Registry} {calls : List Call} {log : List (Entry Event)}
    (here : p.standing id = some o)
    (stands : Pool.standing ⟨shared, calls, Function.update p.threads id left, log⟩ j = some o') :
    j = id := by
  rw [standing_update] at stands
  by_contra other
  rw [if_neg other] at stands
  exact other (alone.one j id _ _ stands here)

theorem since_append {log : List (Entry Event)} {id : Nat} {who : Option Nat}
    (own_or_host : who = some id ∨ who = none) (events : List Event)
    (since : ∃ before during, log = before ++ during ∧ own id before = [] ∧
      ∀ e ∈ during, e.who = some id ∨ e.who = none) :
    ∃ before during, log ++ tagged who events = before ++ during ∧ own id before = [] ∧
      ∀ e ∈ during, e.who = some id ∨ e.who = none := by
  obtain ⟨before, during, split, silent, mine⟩ := since
  refine ⟨before, during ++ tagged who events, ?_, silent, ?_⟩
  · rw [split, List.append_assoc]
  · intro e member
    rcases List.mem_append.mp member with old | now
    · exact mine e old
    · rw [(mem_tagged.mp now).1]
      exact own_or_host

theorem Serial.alone (serial : Serial P p) : Alone p := by
  induction serial with
  | built now =>
      constructor
      · intro i j o o' stands
        cases stands
      · intro id o stands
        cases stands
  | @step p q label before moves alone ih =>
      obtain ⟨start, reach⟩ := before.reach
      obtain ⟨call, rfl, rfl⟩ | ⟨id, i, o, rest, a, events, r, rfl, thread, acts, rfl⟩ |
        ⟨id, o, rest, events, r, rfl, thread, gone, rfl⟩ | ⟨event, rfl, rfl⟩ :=
          (venueRegistry P).step_cases moves
      · have none_ := alone call rfl
        have new : ∀ {j o}, (Pool.standing ⟨p.shared, p.calls ++ [call],
            Function.update p.threads p.calls.length (some ((venueRegistry P).code call)), p.log⟩ j)
              = some o → j = p.calls.length := by
          intro j o stands
          rw [standing_update, none_ j] at stands
          by_contra other
          rw [if_neg other] at stands
          cases stands
        refine ⟨fun i j o o' hi hj => (new hi).trans (new hj).symm, fun id o stands => ?_⟩
        refine ⟨p.log, [], (List.append_nil _).symm, ?_, List.forall_mem_nil _⟩
        rw [new stands]
        exact reach.numbered.silent _ (Nat.le_refl _)
      · have here : p.standing id = some o := by
          simp [Pool.standing, thread, Program.next?]
        constructor
        · intro i j o o' hi hj
          exact (ih.only here hi).trans (ih.only here hj).symm
        · intro j o' stands
          rw [ih.only here stands]
          exact since_append (.inl rfl) events (ih.since id o here)
      · have here : p.standing id = some o := by
          simp [Pool.standing, thread, Program.next?]
        have none_ : ∀ {j o'}, (Pool.standing ⟨r, p.calls, Function.update p.threads id none,
            p.log ++ tagged (some id) events⟩ j) ≠ some o' := by
          intro j o' stands
          have self := ih.only here stands
          rw [standing_update, if_pos self] at stands
          cases stands
        exact ⟨fun i j o o' hi _ => absurd hi none_, fun j o' stands => absurd stands none_⟩
      · refine ⟨ih.one, fun id o stands => ?_⟩
        exact since_append (.inr rfl) _ (ih.since id o stands)

theorem Serial.charges (serial : Serial P p) {id : Nat} {call : Call}
    (made : p.calls[id]? = some call) :
    Lawful (ChargeLaw call) (own id p.log) ∧
      ∀ t, p.threads id = some t → Charges P id call (own id p.log) t := by
  obtain ⟨start, reach⟩ := serial.reach
  exact reach.adheres (fun id call => charges_code call) made

theorem Serial.made (serial : Serial P p) {id : Nat} {t : Async Outcome}
    (thread : p.threads id = some t) : ∃ call, p.calls[id]? = some call := by
  obtain ⟨start, reach⟩ := serial.reach
  exact ⟨_, List.getElem?_eq_getElem (reach.numbered.thread id t thread)⟩

/-- In turn, no charge falls between a call's gate and its own charge. -/
theorem Serial.unraced (serial : Serial P p) (label : Label Input HostEvent Call) :
    Unraced p label := by
  unfold Unraced
  split
  next id nanos =>
    intro caller rest thread
    obtain ⟨start, reach⟩ := serial.reach
    obtain ⟨call, made⟩ := serial.made thread
    obtain ⟨_, _, mine, uncharged⟩ :=
      ((serial.charges made).2 _ thread).at_point.charging caller rest rfl
    obtain ⟨before, after, log, _, hafter⟩ := split_of_own id mine
    refine ⟨before, after, log, ?_⟩
    have stands : p.standing id = some (.charge caller) := by
      simp [Pool.standing, thread, Program.next?]
    obtain ⟨old, during, split, silent, only⟩ := serial.alone.since id _ stands
    have recent : ∀ e ∈ after, e.who = some id ∨ e.who = none := by
      rw [split] at log
      rcases split_append log with ⟨mid, hold, _⟩ | ⟨mid, _, hduring⟩
      · rw [hold, own_append, own_cons_self] at silent
        simp at silent
      · intro e member
        apply only e
        rw [hduring]
        exact List.mem_append_right _ (List.mem_cons_of_mem _ member)
    intro e member t charged
    rcases recent e member with self | host
    · have inside : .charged caller t ∈ own id after := by
        rw [mem_own, ← self, ← charged]
        exact member
      have counted : (caller, t) ∈ chargesOf (own id after) := by
        unfold chargesOf
        rw [List.mem_filterMap]
        exact ⟨_, inside, rfl⟩
      rw [hafter, uncharged] at counted
      cases counted
    · have logged : ⟨none, .charged caller t⟩ ∈ p.log := by
        rw [log, ← host, ← charged]
        simp [member]
      cases host_logged reach logged
  next => trivial

theorem Serial.budget (serial : Serial P p) : WithinBudget P p ∧ RoomAtGate P p := by
  induction serial with
  | built now =>
      refine ⟨fun _ => Nat.zero_le _, ?_⟩
      intro past who caller mid split
      simp [System.empty] at split
  | @step p q label before moves alone ih =>
      obtain ⟨within, room⟩ := ih
      obtain ⟨start, reach⟩ := before.reach
      have admitted := admitted_of_room room (before.unraced label)
      exact ⟨(withinBudget_step within moves).mpr admitted, room.step reach within moves⟩

def inTurn (p : RegistryPool) : Label Input HostEvent Call → Bool
  | .spawn _ => (List.range p.calls.length).all fun id => (p.standing id).isNone
  | _ => true

variable (P) in
def runInTurn : Schedule → RegistryPool → Option RegistryPool
  | [], p => some p
  | label :: labels, p =>
      match (venueRegistry P).step p label, inTurn p label with
      | some q, true => runInTurn labels q
      | _, _ => none

theorem Serial.of_runInTurn {q : RegistryPool} {labels : Schedule} (serial : Serial P p)
    (ran : runInTurn P labels p = some q) : Serial P q := by
  induction labels generalizing p with
  | nil =>
      cases ran
      exact serial
  | cons label labels ih =>
      unfold runInTurn at ran
      split at ran
      next r moves turn =>
        apply ih (serial.step moves ?_) ran
        intro call same id
        subst same
        obtain ⟨start, reach⟩ := serial.reach
        by_cases called : id < p.calls.length
        · have idle := List.all_eq_true.mp turn id (List.mem_range.mpr called)
          exact Option.isNone_iff_eq_none.mp idle
        · cases thread : p.threads id with
          | none => simp [Pool.standing, thread]
          | some t => exact absurd (reach.numbered.thread id t thread) called
      next => cases ran

/-! ## Refinement -/

theorem toNat_max_one (n : UInt32) : (max n 1).toNat = max n.toNat 1 := by
  show (if n ≤ 1 then 1 else n).toNat = _
  have one : (1 : UInt32).toNat = 1 := rfl
  by_cases small : n ≤ 1
  · rw [if_pos small, one]
    rw [UInt32.le_iff_toNat_le] at small
    omega
  · rw [if_neg small]
    rw [UInt32.le_iff_toNat_le] at small
    omega

/-- The caller a logged event was done for. -/
def spender (calls : List Call) (e : Entry Event) : Option String :=
  (e.who.bind fun id => calls[id]?).bind Call.caller?

def Event.isVerdict : Event → Bool
  | .guarded _ _ => true
  | _ => false

def doneFor (caller : String) (p : RegistryPool) : List (Entry Event) :=
  p.log.filter fun e => spender p.calls e = some caller && !e.what.isVerdict

theorem charges_cons (caller : String) (e : Entry Event) (log : List (Entry Event)) :
    charges caller (e :: log) = charges caller [e] ++ charges caller log :=
  charges_append caller [e] log

theorem charges_filter {caller : String} {log : List (Entry Event)} (keep : Entry Event → Bool)
    (all : ∀ e ∈ log, ∀ t, e.what = .charged caller t → keep e = true) :
    charges caller (log.filter keep) = charges caller log := by
  induction log with
  | nil => rfl
  | cons e log ih =>
      have rest := ih fun x h => all x (List.mem_cons_of_mem _ h)
      by_cases kept : keep e = true
      · rw [List.filter_cons_of_pos kept, charges_cons, charges_cons caller e log, rest]
      · have none_ : charges caller [e] = [] := by
          have other : ∀ t, e.what ≠ .charged caller t :=
            fun t same => kept (all e List.mem_cons_self t same)
          obtain ⟨who, what⟩ := e
          cases what with
          | charged c t =>
              have : c ≠ caller := fun same => other t (by rw [same])
              simp [charges, this]
          | _ => rfl
        rw [List.filter_cons_of_neg kept, charges_cons caller e log, none_, rest]
        rfl

/-- Calls made one after another are gated as by a plain sliding window over the full
history: a resolved submit or quote reaches the gate; the gate admits it exactly when the
caller's charges in the window are fewer than the clamped bound, and else it is rate limited;
a finished call was charged once if its quote passed the gate or its header was derived or
refused as undecodable, else never; and a caller's history is made of what its own calls did,
verdicts apart. -/
theorem ledger_refines_window {builder : VenueRegistryBuilder} {horizon : Nat} {p : RegistryPool}
    (serial : Serial (builder.build horizon) p) :
    (∀ id call caller venue rest, p.calls[id]? = some call → call.caller? = some caller →
      p.threads id = some (.call (.resolve venue) rest) →
      (∀ slot, ∃ next, rest (.ok slot) = .call (.quotaAdmits caller) next) ∧
        ∀ e, ∃ outcome, rest (.error e) = .done outcome) ∧
    (∀ id caller rest input q, p.threads id = some (.call (.quotaAdmits caller) rest) →
      (venueRegistry (builder.build horizon)).step p (.advance id input) = some q →
      ∃ call admits, p.calls[id]? = some call ∧ call.caller? = some caller ∧
        q.log = p.log ++ [⟨some id, .gated caller admits⟩] ∧ q.threads id = some (rest admits) ∧
        (admits = true ↔
          (inWindow p.shared.now builder.quota.window (charges caller p.log)).length <
            max builder.quota.maxCharges.toNat 1) ∧
        (rest false = .done (.submitted (.error (rateLimited (builder.build horizon)))) ∨
          rest false = .done (.quoted (.error (rateLimited (builder.build horizon))))) ∧
        ∃ o next, rest true = .call o next) ∧
    (∀ id call outcome, p.calls[id]? = some call → p.threads id = some (.done outcome) →
      (chargesOf (own id p.log)).length = if call.due (own id p.log) then 1 else 0) ∧
    (∀ caller, charges caller p.log = charges caller (doneFor caller p)) := by
  obtain ⟨start, reach⟩ := serial.reach
  refine ⟨?_, ?_, ?_, ?_⟩
  · intro id call caller venue rest made mine thread
    exact ((serial.charges made).2 _ thread).at_point.routing caller venue rest mine rfl
  · intro id caller rest input q thread moves
    obtain ⟨call, made⟩ := serial.made thread
    obtain ⟨mine, limited, passes⟩ := ((serial.charges made).2 _ thread).at_point.gate caller rest rfl
    have acts : (venueRegistry (builder.build horizon)).act id (.quotaAdmits caller) input p.shared =
        some ((p.shared.quotaAdmits (builder.build horizon) caller).1,
          [.gated caller (p.shared.quotaAdmits (builder.build horizon) caller).1],
          (p.shared.quotaAdmits (builder.build horizon) caller).2) := rfl
    rw [(venueRegistry (builder.build horizon)).step_advance thread acts, Option.some.injEq] at moves
    subst moves
    refine ⟨call, _, made, mine, rfl, Function.update_self _ _ _, ?_, limited, passes⟩
    rw [gate_decides reach (serial.budget.1 caller), ← toNat_max_one]
    rfl
  · intro id call outcome made thread
    exact ((serial.charges made).2 _ thread).at_point.finished outcome rfl
  · intro caller
    symm
    apply charges_filter
    intro e member t charged
    obtain ⟨who, what⟩ := e
    simp only at charged
    subst charged
    cases who with
    | none => cases host_logged reach member
    | some id =>
        have inside : .charged caller t ∈ own id p.log := (mem_own id).mpr member
        have bound : id < p.calls.length := by
          by_contra fresh
          rw [reach.numbered.silent id (Nat.le_of_not_lt fresh)] at inside
          cases inside
        have made := List.getElem?_eq_getElem bound
        obtain ⟨past, later, split⟩ := List.append_of_mem inside
        have mine : Call.caller? p.calls[id] = some caller :=
          (serial.charges made).1.at_split split
        simp [spender, made, mine, Event.isVerdict]

/-- Two quotes of one caller, the first of an adapter that does not answer in time. -/
def quotedTwice : Schedule :=
  [.host (.register stubVenue 0 ∅), .spawn (.quote "keeper" stubVenue [1])] ++ throughGate 0 ++
  [.advance 0 (.elapsed 0), .advance 0 (.elapsed 0), .advance 0 (.elapsed 0),
    .advance 0 (.reply (.quotation (.error .timeout))), .advance 0 (.elapsed 0),
    .host (.elapse 1), .spawn (.quote "keeper" stubVenue [1]), .advance 1 (.elapsed 0)]

/-- The second quote, in the window of the first, is refused at the gate. -/
theorem ledger_refines_window_stub :
    ∃ p, Serial oneCharge p ∧ ∀ q,
      (venueRegistry oneCharge).step p (.advance 1 (.elapsed 0)) = some q →
      q.log = p.log ++ [⟨some 1, .gated "keeper" false⟩] := by
  have ran : (runInTurn oneCharge quotedTwice (System.empty (Registry.new 0))).map
      (fun p => (p.standing 1, p.shared.now, charges "keeper" p.log)) =
      some (some (.quotaAdmits "keeper"), 1, [0]) := by
    decide
  obtain ⟨p, reached, same⟩ := Option.map_eq_some_iff.mp ran
  simp only [Prod.mk.injEq] at same
  obtain ⟨stands, clock, history⟩ := same
  have serial : Serial oneCharge p := (Serial.built 0).of_runInTurn reached
  refine ⟨p, serial, fun q moves => ?_⟩
  obtain ⟨rest, thread⟩ := Pool.of_standing stands
  obtain ⟨_, admits, _, _, log, _, decision, _⟩ :=
    (ledger_refines_window serial).2.1 1 "keeper" rest (.elapsed 0) q thread moves
  rw [clock, history] at decision
  have refused : admits = false := by
    rw [← Bool.not_eq_true, decision]
    decide
  rw [log, refused]

end Serial

end Videre.Host
