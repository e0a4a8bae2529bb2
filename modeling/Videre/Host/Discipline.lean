import Videre.Host.Calculus

/-! # What each call does on its own

A call holds one adapter mutex at a time, enters only the adapter it last resolved
and while it holds that adapter's mutex, and enters `submit` only right after a
header, a charge and one guard consultation. One rule an operation; the calls
follow by chaining the rules along their code.
-/

namespace Videre.Host

open Interaction

/-! ## Reading an own trace -/

@[simp] def heldAfter (held : Option Slot) : Event → Option Slot
  | .locked slot => some slot
  | .unlocked _ => none
  | _ => held

def holds (past : List Event) : Option Slot :=
  past.foldl heldAfter none

@[simp] def routedAfter (route : Option (VenueId × Slot)) : Event → Option (VenueId × Slot)
  | .resolved venue (.ok slot) => some (venue, slot)
  | .resolved _ (.error _) => none
  | _ => route

def routed (past : List Event) : Option (VenueId × Slot) :=
  past.foldl routedAfter none

@[simp] def Event.update : Event → Option Wire.IntentStatusUpdate
  | .folded _ _ _ update => update
  | _ => none

def recorded (past : List Event) : List Wire.IntentStatusUpdate :=
  past.filterMap Event.update

@[simp] theorem holds_nil : holds [] = none := rfl

@[simp] theorem routed_nil : routed [] = none := rfl

@[simp] theorem recorded_nil : recorded [] = [] := rfl

@[simp] theorem holds_append (past events : List Event) :
    holds (past ++ events) = events.foldl heldAfter (holds past) := by
  simp [holds]

@[simp] theorem routed_append (past events : List Event) :
    routed (past ++ events) = events.foldl routedAfter (routed past) := by
  simp [routed]

@[simp] theorem recorded_append (past events : List Event) :
    recorded (past ++ events) = recorded past ++ recorded events := by
  simp [recorded]

@[simp] theorem recorded_cons (e : Event) (events : List Event) :
    recorded (e :: events) = e.update.toList ++ recorded events := by
  unfold recorded
  cases h : e.update with
  | none => rw [List.filterMap_cons_none h]; rfl
  | some update => rw [List.filterMap_cons_some h]; rfl

theorem holds_append_onWatch {events : List Event} (quiet : ∀ e ∈ events, e.onWatch = true)
    (past : List Event) : holds (past ++ events) = holds past := by
  rw [holds_append]
  induction events with
  | nil => rfl
  | cons e events ih =>
      have first : heldAfter (holds past) e = holds past := by
        have here := quiet e (by simp)
        cases e <;> first | rfl | cases here
      rw [List.foldl_cons, first]
      exact ih fun x h => quiet x (by simp [h])

/-! ## The law of a call -/

/-- The last thing a call did was derive the header of `body`, be charged for it and consult
the guard on it. -/
def Prepared (call : Call) (past : List Event) (slot : Slot) (body : Bytes) : Prop :=
  ∃ caller venue header instant verdict before, call = .submit caller venue body ∧
    past = before ++
      [.invoked slot (.deriveHeader body),
        .answered slot (.deriveHeader body) (.header (.ok header)),
        .charged caller instant, .guarded ⟨caller, venue, header⟩ verdict]

/-- The last thing a call did was hear `status` for `receipt` from the adapter it resolved
`venue` to, and leave that adapter. -/
def Polled (past : List Event) (venue : VenueId) (receipt : Bytes) (status : IntentStatus) : Prop :=
  ∃ slot before, routed past = some (venue, slot) ∧
    past = before ++
      [.answered slot (.status receipt) (.status (.ok status)), .unlocked slot]

def CallLaw (call : Call) (past : List Event) : Event → Prop
  | .locked _ => holds past = none
  | .unlocked slot => holds past = some slot
  | .invoked slot inv =>
      holds past = some slot ∧ (∃ venue, routed past = some (venue, slot)) ∧
        ∀ body, inv = .submit body → Prepared call past slot body
  | .folded venue receipt status _ => Polled past venue receipt status
  | .registered _ _ _ | .duplicate _ | .died _ | .revived _ => False
  | _ => True

/-- Where the rest of a call stands: the guard's verdict does not choose what follows it, and
a poll returns what it recorded. -/
structure CallPoint (call : Call) (past : List Event) (p : Async Outcome) : Prop where
  check : ∀ ctx rest, p = .call (.check ctx) rest →
    ∃ caller venue body slot next, call = .submit caller venue body ∧
      ctx.caller = caller ∧ ctx.venue = venue ∧
      ∀ verdict, rest verdict = .call (.invoke slot (.submit body)) next
  polled : ∀ updates, p = .done (.polled updates) → updates = recorded past

abbrev Follows (P : Policy) (call : Call) (id : Nat) : List Event → Async Outcome → Prop :=
  (venueRegistry P).Adheres (CallLaw call) (CallPoint call) id

section Rules

variable {P : Policy} {call : Call} {id : Nat} {past : List Event}

theorem Listing.lawful {events : List Event} (listing : Listing events) :
    Extends (CallLaw call) past events := by
  apply listing.extends
  intro past e quiet unfolded
  cases e with
  | folded v r s u => exact absurd rfl (unfolded v r s u)
  | inserted v r => trivial
  | evicted v r => trivial
  | removed v r => trivial
  | _ => cases quiet

theorem Listing.recorded {events : List Event} (listing : Listing events) :
    Host.recorded events = [] := by
  unfold Host.recorded
  rw [List.filterMap_eq_nil_iff]
  intro e member
  cases e with
  | folded v r s u => exact absurd member (listing.unfolded v r s u)
  | _ => rfl

theorem Folding.recorded {venue : VenueId} {receipt : Bytes} {status : IntentStatus}
    {update : Option Wire.IntentStatusUpdate} {events : List Event}
    (folding : Folding venue receipt status update events) :
    Host.recorded events = update.toList := by
  cases folding with
  | unwatched => rfl
  | kept => cases update <;> rfl
  | removed => cases update <;> rfl

theorem Follows.done {outcome : Outcome} (returned : ∀ updates, outcome = .polled updates →
    updates = recorded past) : Follows P call id past (.done outcome) where
  check := nofun
  polled := fun updates h => returned updates (by cases h; rfl)

theorem Follows.resolve {venue : VenueId} {rest : Except VenueError Slot → Async Outcome}
    (next : ∀ a, Follows P call id (past ++ [.resolved venue a]) (rest a)) :
    Follows P call id past (.call (.resolve venue) rest) :=
  adheres_resolve ⟨nofun, nofun⟩ (fun _ => trivial) next

theorem Follows.quotaAdmits {caller : String} {rest : Bool → Async Outcome}
    (next : ∀ a, Follows P call id (past ++ [.gated caller a]) (rest a)) :
    Follows P call id past (.call (.quotaAdmits caller) rest) :=
  adheres_quotaAdmits ⟨nofun, nofun⟩ (fun _ => trivial) next

theorem Follows.charge {caller : String} {rest : Unit → Async Outcome}
    (next : ∀ t, Follows P call id (past ++ [.charged caller t]) (rest ())) :
    Follows P call id past (.call (.charge caller) rest) :=
  adheres_charge ⟨nofun, nofun⟩ (fun _ => trivial) next

theorem Follows.lock {slot : Slot} {rest : Unit → Async Outcome} (free : holds past = none)
    (next : Follows P call id (past ++ [.locked slot]) (rest ())) :
    Follows P call id past (.call (.lock slot) rest) :=
  adheres_lock ⟨nofun, nofun⟩ free next

theorem Follows.unlock {slot : Slot} {rest : Unit → Async Outcome} (held : holds past = some slot)
    (next : Follows P call id (past ++ [.unlocked slot]) (rest ())) :
    Follows P call id past (.call (.unlock slot) rest) :=
  adheres_unlock ⟨nofun, nofun⟩ held next

theorem Follows.invoke {slot : Slot} {inv : Invocation} {rest : Unit → Async Outcome}
    (lawful : CallLaw call past (.invoked slot inv))
    (next : Follows P call id (past ++ [.invoked slot inv]) (rest ())) :
    Follows P call id past (.call (.invoke slot inv) rest) :=
  adheres_invoke ⟨nofun, nofun⟩ lawful next

theorem Follows.answer {slot : Slot} {inv : Invocation}
    {rest : Except VenueError inv.Payload → Async Outcome} (held : holds past = some slot)
    (next : ∀ reply a, Reply.answers inv reply = some a →
      Follows P call id (past ++ [.answered slot inv reply]) (rest a)) :
    Follows P call id past (.call (.answer slot inv) rest) :=
  adheres_answer ⟨nofun, nofun⟩ held (fun _ => trivial) next

theorem Follows.check {ctx : GuardContext} {rest : GuardVerdict → Async Outcome}
    {venue : VenueId} {caller : String} {body : Bytes} {slot : Slot}
    {after : Unit → Async Outcome} (submits : call = .submit caller venue body)
    (hcaller : ctx.caller = caller) (hvenue : ctx.venue = venue)
    (ignored : ∀ verdict, rest verdict = .call (.invoke slot (.submit body)) after)
    (next : ∀ verdict, Follows P call id (past ++ [.guarded ctx verdict]) (rest verdict)) :
    Follows P call id past (.call (.check ctx) rest) := by
  apply adheres_check ⟨?_, nofun⟩ (fun _ => trivial) next
  intro ctx' rest' same
  cases same
  exact ⟨caller, venue, body, slot, after, submits, hcaller, hvenue, ignored⟩

theorem Follows.watch {venue : VenueId} {receipt : Bytes} {rest : Bool → Async Outcome}
    (next : ∀ admitted events, (∀ e ∈ events, e.onWatch = true) → recorded events = [] →
      Follows P call id (past ++ events) (rest admitted)) :
    Follows P call id past (.call (.watch venue receipt) rest) :=
  adheres_watch ⟨nofun, nofun⟩ (fun _ listing => listing.lawful)
    fun admitted events listing => next admitted events listing.quiet listing.recorded

theorem Follows.snapshot {rest : List (VenueId × Bytes) → Async Outcome}
    (next : ∀ pairs events, (∀ e ∈ events, e.onWatch = true) → recorded events = [] →
      Follows P call id (past ++ events) (rest pairs)) :
    Follows P call id past (.call .snapshot rest) :=
  adheres_snapshot ⟨nofun, nofun⟩ (fun _ listing => listing.lawful)
    fun pairs events listing => next pairs events listing.quiet listing.recorded

theorem Follows.recordPolledStatus {venue : VenueId} {receipt : Bytes} {status : IntentStatus}
    {rest : Option Wire.IntentStatusUpdate → Async Outcome}
    (polled : Polled past venue receipt status)
    (next : ∀ update events, (∀ e ∈ events, e.onWatch = true) →
      recorded events = update.toList → Follows P call id (past ++ events) (rest update)) :
    Follows P call id past (.call (.recordPolledStatus venue receipt status) rest) := by
  apply adheres_recordPolledStatus ⟨nofun, nofun⟩
  · intro update events folding
    cases folding with
    | unwatched => trivial
    | kept => exact ⟨polled, trivial⟩
    | removed => exact ⟨polled, trivial, trivial⟩
  · exact fun update events folding => next update events folding.quiet folding.recorded

end Rules

/-! ## The calls keep their law -/

section Calls

variable (P : Policy) (id : Nat)

theorem Follows.leave {call : Call} {past : List Event} {slot : Slot} {α : Type} {result : α}
    {wrap : α → Outcome} (held : holds past = some slot)
    (plain : ∀ updates, wrap result ≠ .polled updates) :
    Follows P call id past (do return wrap (← Host.leave slot result)) := by
  apply Follows.unlock held
  exact Follows.done fun updates h => absurd h (plain updates)

theorem Follows.call {call : Call} {past : List Event} {venue : VenueId} {slot : Slot}
    {inv : Invocation} {rest : Except VenueError inv.Payload → Async Outcome}
    (held : holds past = some slot) (route : routed past = some (venue, slot))
    (lawful : ∀ body, inv = .submit body → Prepared call past slot body)
    (next : ∀ reply a, Reply.answers inv reply = some a →
      Follows P call id (past ++ [.invoked slot inv] ++ [.answered slot inv reply]) (rest a)) :
    Follows P call id past (Host.call slot inv >>= rest) := by
  apply Follows.invoke ⟨held, ⟨venue, route⟩, lawful⟩
  apply Follows.answer
  · simpa using held
  · exact next

theorem not_submit {call : Call} {past : List Event} {slot : Slot} {inv : Invocation}
    (other : ∀ body, inv ≠ .submit body) :
    ∀ body, inv = .submit body → Prepared call past slot body :=
  fun body same => absurd same (other body)

theorem reply_of_status {receipt : Bytes} {reply : Reply} {status : IntentStatus}
    (answers : reply.answers (.status receipt) = some (.ok status)) :
    reply = .status (.ok status) := by
  cases reply with
  | status result =>
      cases answers
      rfl
  | _ => cases answers

theorem reply_of_header {body : Bytes} {reply : Reply} {header : IntentHeader}
    (answers : reply.answers (.deriveHeader body) = some (.ok header)) :
    reply = .header (.ok header) := by
  cases reply with
  | header result =>
      cases answers
      rfl
  | _ => cases answers

theorem follows_submit (caller : String) (venue : VenueId) (body : Bytes) :
    Follows P (.submit caller venue body) id [] (Call.code P (.submit caller venue body)) := by
  apply Follows.resolve
  intro a
  cases a with
  | error e => exact Follows.done nofun
  | ok slot =>
      apply Follows.quotaAdmits
      intro admits
      cases admits with
      | false => exact Follows.done nofun
      | true =>
          apply Follows.lock rfl
          apply Follows.call P id rfl rfl (by exact not_submit nofun)
          intro reply a answers
          cases a with
          | error e =>
              cases e with
              | invalidBody detail =>
                  apply Follows.charge
                  intro instant
                  exact Follows.leave P id rfl nofun
              | _ => exact Follows.leave P id rfl nofun
          | ok header =>
              rw [reply_of_header answers]
              apply Follows.charge
              intro instant
              apply Follows.check
              case submits => rfl
              case hcaller => rfl
              case hvenue => rfl
              case ignored => exact fun _ => rfl
              case next =>
                intro verdict
                apply Follows.call P id rfl rfl
                · intro body' same
                  cases same
                  exact ⟨caller, venue, header, instant, verdict,
                    [.resolved venue (.ok slot), .gated caller true, .locked slot], rfl, rfl⟩
                · intro reply a _
                  cases a with
                  | error e => exact Follows.leave P id rfl nofun
                  | ok outcome =>
                      cases outcome with
                      | requiresSigning tx => exact Follows.leave P id rfl nofun
                      | accepted receipt =>
                          apply Follows.watch
                          intro admitted events quiet _
                          apply Follows.leave P id ?_ (by exact nofun)
                          rw [holds_append_onWatch quiet]
                          rfl

theorem follows_quote (caller : String) (venue : VenueId) (body : Bytes) :
    Follows P (.quote caller venue body) id [] (Call.code P (.quote caller venue body)) := by
  apply Follows.resolve
  intro a
  cases a with
  | error e => exact Follows.done nofun
  | ok slot =>
      apply Follows.quotaAdmits
      intro admits
      cases admits with
      | false => exact Follows.done nofun
      | true =>
          apply Follows.charge
          intro instant
          apply Follows.lock rfl
          apply Follows.call P id rfl rfl (by exact not_submit nofun)
          intro reply a _
          exact Follows.leave P id rfl nofun

theorem follows_observe (venue : VenueId) (receipt : Bytes) :
    Follows P (.observe venue receipt) id [] (Call.code P (.observe venue receipt)) := by
  apply Follows.resolve
  intro a
  cases a with
  | error e => exact Follows.done nofun
  | ok slot =>
      apply Follows.watch
      intro admitted events _ _
      cases admitted with
      | false => exact Follows.done nofun
      | true => exact Follows.done nofun

theorem follows_pollEach (rest : List (VenueId × Bytes)) {past : List Event}
    {updates : List Wire.IntentStatusUpdate} (free : holds past = none)
    (kept : recorded past = updates) :
    Follows P .pollStatusTransitions id past (do return .polled (← pollEach rest updates)) := by
  induction rest generalizing past updates with
  | nil =>
      apply Follows.done
      intro returned same
      cases same
      exact kept.symm
  | cons pair rest ih =>
      obtain ⟨venue, receipt⟩ := pair
      apply Follows.resolve
      intro a
      cases a with
      | error e =>
          apply ih
          · simpa using free
          · simpa using kept
      | ok slot =>
          apply Follows.lock (by simpa using free)
          apply Follows.call P id (by simp) (by simp; rfl) (by exact not_submit nofun)
          intro reply polled answers
          apply Follows.unlock (by simp)
          cases polled with
          | error e =>
              apply ih
              · simp
              · simpa using kept
          | ok status =>
              rw [reply_of_status answers]
              apply Follows.recordPolledStatus
              · exact ⟨slot, past ++ [.resolved venue (.ok slot), .locked slot,
                  .invoked slot (.status receipt)], by simp, by simp⟩
              intro update events quiet new
              cases update with
              | none =>
                  apply ih
                  · rw [holds_append_onWatch quiet]
                    simp
                  · rw [recorded_append, new]
                    simpa using kept
              | some update =>
                  apply ih
                  · rw [holds_append_onWatch quiet]
                    simp
                  · rw [recorded_append, new]
                    simp [← kept]

theorem follows_pollStatusTransitions :
    Follows P .pollStatusTransitions id [] (Call.code P .pollStatusTransitions) := by
  apply Follows.snapshot
  intro pairs events quiet new
  apply follows_pollEach P id pairs
  · exact holds_append_onWatch quiet []
  · exact new

theorem follows_status (venue : VenueId) (receipt : Bytes) :
    Follows P (.status venue receipt) id [] (Call.code P (.status venue receipt)) := by
  apply Follows.resolve
  intro a
  cases a with
  | error e => exact Follows.done nofun
  | ok slot =>
      apply Follows.lock rfl
      apply Follows.call P id rfl rfl (by exact not_submit nofun)
      intro reply a _
      exact Follows.leave P id rfl nofun

theorem follows_cancel (venue : VenueId) (receipt : Bytes) :
    Follows P (.cancel venue receipt) id [] (Call.code P (.cancel venue receipt)) := by
  apply Follows.resolve
  intro a
  cases a with
  | error e => exact Follows.done nofun
  | ok slot =>
      apply Follows.lock rfl
      apply Follows.call P id rfl rfl (by exact not_submit nofun)
      intro reply a _
      exact Follows.leave P id rfl nofun

theorem follows_code (call : Call) : Follows P call id [] (Call.code P call) := by
  cases call with
  | submit caller venue body => exact follows_submit P id caller venue body
  | quote caller venue body => exact follows_quote P id caller venue body
  | observe venue receipt => exact follows_observe P id venue receipt
  | pollStatusTransitions => exact follows_pollStatusTransitions P id
  | status venue receipt => exact follows_status P id venue receipt
  | cancel venue receipt => exact follows_cancel P id venue receipt

end Calls

theorem follows_thread {P : Policy} {p : RegistryPool} {start : Nat}
    (reach : (venueRegistry P).Reach (Registry.new start) p) {id : Nat} {t : Async Outcome}
    (thread : p.threads id = some t) :
    ∃ call, p.calls[id]? = some call ∧ Follows P call id (own id p.log) t := by
  have bound := reach.numbered.thread id t thread
  have made := List.getElem?_eq_getElem bound
  exact ⟨_, made, (reach.adheres (fun id call => follows_code P id call) made).2 t thread⟩

theorem lawful_own {P : Policy} {p : RegistryPool} {start : Nat}
    (reach : (venueRegistry P).Reach (Registry.new start) p) {id : Nat} {call : Call}
    (made : p.calls[id]? = some call) : Lawful (CallLaw call) (own id p.log) :=
  (reach.adheres (fun id call => follows_code P id call) made).1

theorem host_logged {P : Policy} {p : RegistryPool} {start : Nat}
    (reach : (venueRegistry P).Reach (Registry.new start) p) {e : Event}
    (member : ⟨none, e⟩ ∈ p.log) : e.onRoute = true := by
  induction reach with
  | start => cases member
  | @step p q label before moves ih =>
      obtain ⟨call, rfl, rfl⟩ | ⟨id, i, o, rest, a, events, r, rfl, thread, acts, rfl⟩ |
        ⟨id, o, rest, events, r, rfl, thread, gone, rfl⟩ | ⟨event, rfl, rfl⟩ :=
          (venueRegistry P).step_cases moves
      · exact ih member
      · rcases List.mem_append.mp member with old | new
        · exact ih old
        · simp [tagged] at new
      · rcases List.mem_append.mp member with old | new
        · exact ih old
        · simp [tagged] at new
      · rcases List.mem_append.mp member with old | new
        · exact ih old
        · exact host_onRoute event p.shared e (mem_tagged.mp new).2

end Videre.Host
