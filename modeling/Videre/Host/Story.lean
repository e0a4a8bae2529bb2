import Videre.Host.WatchSet
import Videre.Host.Window

/-! # What a returned call did

The whole trace of a call that returned, and the answer it returned, by how far it
came: refused on the way in, stopped at the header, or through to the adapter's own
answer. A poll's trace is one visit after another, over the pairs of its snapshot.
One rule an operation; the calls follow by chaining the rules along their code.
-/

namespace Videre.Host

open Interaction

/-! ## The traces -/

/-- The venue a call is routed to; a poll goes to every watched one. -/
def Call.venue? : Call → Option VenueId
  | .submit _ venue _ | .quote _ venue _ | .observe venue _ | .status venue _ | .cancel venue _ =>
      some venue
  | .pollStatusTransitions => none

def Call.refuse : Call → VenueError → Outcome
  | .submit _ _ _, e => .submitted (.error e)
  | .quote _ _ _, e => .quoted (.error e)
  | .observe _ _, e => .observed (.error e)
  | .pollStatusTransitions, _ => .polled []
  | .status _ _, e => .status (.error e)
  | .cancel _ _, e => .cancelled (.error e)

/-- What a call is charged for a body whose header the adapter does not derive. -/
def DecodeCharge (caller : String) : VenueError → List Event → Prop
  | .invalidBody _, charged => ∃ instant, charged = [.charged caller instant]
  | _, charged => charged = []

def Watching : Except VenueError SubmitOutcome → List Event → Prop
  | .ok (.accepted _), events => Listing events
  | _, events => events = []

/-- One visit of a poll and the updates it records. -/
inductive VisitTrace (venue : VenueId) (receipt : Bytes) :
    List Event → List Wire.IntentStatusUpdate → Prop
  | unrouted (e : VenueError) : VisitTrace venue receipt [.resolved venue (.error e)] []
  | unheard (slot : Slot) (e : VenueError) : VisitTrace venue receipt
      [.resolved venue (.ok slot), .locked slot, .invoked slot (.status receipt),
        .answered slot (.status receipt) (.status (.error e)), .unlocked slot] []
  | heard (slot : Slot) (status : IntentStatus) {update : Option Wire.IntentStatusUpdate}
      {events : List Event} (folding : Folding venue receipt status update events) :
      VisitTrace venue receipt
        ([.resolved venue (.ok slot), .locked slot, .invoked slot (.status receipt),
          .answered slot (.status receipt) (.status (.ok status)), .unlocked slot] ++ events)
        update.toList

/-- The visits of a poll, one a pair and in order. -/
inductive TourTrace : List (VenueId × Bytes) → List Event → List Wire.IntentStatusUpdate → Prop
  | nil : TourTrace [] [] []
  | snoc {pairs : List (VenueId × Bytes)} {trace visit : List Event}
      {updates new : List Wire.IntentStatusUpdate} {venue : VenueId} {receipt : Bytes}
      (before : TourTrace pairs trace updates) (last : VisitTrace venue receipt visit new) :
      TourTrace (pairs ++ [(venue, receipt)]) (trace ++ visit) (updates ++ new)

inductive Story (P : Policy) : Call → List Event → Outcome → Prop
  | unrouted {call : Call} {venue : VenueId} (e : VenueError) (routes : call.venue? = some venue) :
      Story P call [.resolved venue (.error e)] (call.refuse e)
  | throttled {call : Call} {caller : String} {venue : VenueId} (slot : Slot)
      (routes : call.venue? = some venue) (spends : call.caller? = some caller) :
      Story P call [.resolved venue (.ok slot), .gated caller false] (call.refuse (rateLimited P))
  | underived (caller : String) (venue : VenueId) (body : Bytes) (slot : Slot) (e : VenueError)
      {charged : List Event} (charge : DecodeCharge caller e charged) :
      Story P (.submit caller venue body)
        ([.resolved venue (.ok slot), .gated caller true, .locked slot,
          .invoked slot (.deriveHeader body), .answered slot (.deriveHeader body) (.header (.error e))]
          ++ charged ++ [.unlocked slot])
        (.submitted (.error e))
  | submitted (caller : String) (venue : VenueId) (body : Bytes) (slot : Slot)
      (header : IntentHeader) (instant : Nat) (verdict : GuardVerdict)
      (result : Except VenueError SubmitOutcome) {watching : List Event}
      (watches : Watching result watching) :
      Story P (.submit caller venue body)
        ([.resolved venue (.ok slot), .gated caller true, .locked slot,
          .invoked slot (.deriveHeader body),
          .answered slot (.deriveHeader body) (.header (.ok header)), .charged caller instant,
          .guarded ⟨caller, venue, header⟩ verdict, .invoked slot (.submit body),
          .answered slot (.submit body) (.outcome result)] ++ watching ++ [.unlocked slot])
        (.submitted result)
  | quoted (caller : String) (venue : VenueId) (body : Bytes) (slot : Slot) (instant : Nat)
      (result : Except VenueError Quotation) :
      Story P (.quote caller venue body)
        [.resolved venue (.ok slot), .gated caller true, .charged caller instant, .locked slot,
          .invoked slot (.quote body), .answered slot (.quote body) (.quotation result),
          .unlocked slot]
        (.quoted result)
  | observed (venue : VenueId) (receipt : Bytes) (slot : Slot) (admitted : Bool)
      {watching : List Event} (listing : Listing watching) :
      Story P (.observe venue receipt) ([.resolved venue (.ok slot)] ++ watching)
        (.observed (if admitted then .ok () else .error (.unavailable "status watch set full")))
  | polled (pairs : List (VenueId × Bytes)) {listing trace : List Event}
      {updates : List Wire.IntentStatusUpdate} (pruned : Listing listing)
      (tour : TourTrace pairs trace updates) :
      Story P .pollStatusTransitions (listing ++ trace) (.polled updates)
  | status (venue : VenueId) (receipt : Bytes) (slot : Slot) (result : Except VenueError IntentStatus) :
      Story P (.status venue receipt)
        [.resolved venue (.ok slot), .locked slot, .invoked slot (.status receipt),
          .answered slot (.status receipt) (.status result), .unlocked slot]
        (.status result)
  | cancelled (venue : VenueId) (receipt : Bytes) (slot : Slot) (result : Except VenueError Unit) :
      Story P (.cancel venue receipt)
        [.resolved venue (.ok slot), .locked slot, .invoked slot (.cancel receipt),
          .answered slot (.cancel receipt) (.cancelled result), .unlocked slot]
        (.cancelled result)

/-! ## Where a call stands -/

/-- A call waits for a mutex with none in hand, is charged once and after its gate, and only a
poll folds statuses, going on from its snapshot; of a returned call `told` holds. -/
structure StoryPoint (told : List Event → Outcome → Prop) (call : Call) (past : List Event)
    (p : Async Outcome) : Prop where
  waiting : ∀ slot rest, p = .call (.lock slot) rest → holds past = none
  charging : ∀ caller rest, p = .call (.charge caller) rest →
    .gated caller true ∈ past ∧ chargesOf past = []
  polling : ∀ rest, p = .call .snapshot rest → call = .pollStatusTransitions ∧ past = [] ∧
    ∀ pairs, rest pairs = do return .polled (← pollEach pairs [])
  folding : ∀ venue receipt status rest,
    p = .call (.recordPolledStatus venue receipt status) rest → call = .pollStatusTransitions
  returned : ∀ outcome, p = .done outcome → told past outcome

/-- Operations a call may come to anywhere. -/
def Op.plain : Op → Bool
  | .lock _ | .charge _ | .snapshot | .recordPolledStatus _ _ _ => false
  | _ => true

abbrev Tells (P : Policy) (told : List Event → Outcome → Prop) (call : Call) (id : Nat) :
    List Event → Async Outcome → Prop :=
  (venueRegistry P).Adheres (fun _ _ => True) (StoryPoint told call) id

section Rules

variable {P : Policy} {told : List Event → Outcome → Prop} {made : Call} {id : Nat}
  {past : List Event}

theorem StoryPoint.plain {o : Op} {rest : o.Ans → Async Outcome} (plain : o.plain = true) :
    StoryPoint told made past (.call o rest) := by
  constructor
  · intro slot next same
    cases same
    cases plain
  · intro caller next same
    cases same
    cases plain
  · intro next same
    cases same
    cases plain
  · intro venue receipt status next same
    cases same
    cases plain
  · intro outcome same
    cases same

theorem extends_anything (past events : List Event) : Extends (fun _ _ => True) past events :=
  .of_forall (fun _ _ => trivial) past events

theorem Tells.done {outcome : Outcome} (story : told past outcome) :
    Tells P told made id past (.done outcome) := by
  constructor
  · intro slot rest same
    cases same
  · intro caller rest same
    cases same
  · intro rest same
    cases same
  · intro venue receipt status rest same
    cases same
  · intro outcome' same
    cases same
    exact story

theorem Tells.resolve {venue : VenueId} {rest : Except VenueError Slot → Async Outcome}
    (next : ∀ a, Tells P told made id (past ++ [.resolved venue a]) (rest a)) :
    Tells P told made id past (.call (.resolve venue) rest) :=
  adheres_resolve (.plain rfl) (fun _ => trivial) next

theorem Tells.quotaAdmits {caller : String} {rest : Bool → Async Outcome}
    (next : ∀ a, Tells P told made id (past ++ [.gated caller a]) (rest a)) :
    Tells P told made id past (.call (.quotaAdmits caller) rest) :=
  adheres_quotaAdmits (.plain rfl) (fun _ => trivial) next

theorem Tells.charge {caller : String} {rest : Unit → Async Outcome}
    (passed : .gated caller true ∈ past) (uncharged : chargesOf past = [])
    (next : ∀ instant, Tells P told made id (past ++ [.charged caller instant]) (rest ())) :
    Tells P told made id past (.call (.charge caller) rest) := by
  apply adheres_charge _ (fun _ => trivial) next
  constructor
  · intro slot next same
    cases same
  · intro caller' next same
    cases same
    exact ⟨passed, uncharged⟩
  · intro next same
    cases same
  · intro venue receipt status next same
    cases same
  · intro outcome same
    cases same

theorem Tells.lock {slot : Slot} {rest : Unit → Async Outcome} (free : holds past = none)
    (next : Tells P told made id (past ++ [.locked slot]) (rest ())) :
    Tells P told made id past (.call (.lock slot) rest) := by
  apply adheres_lock _ trivial next
  constructor
  · intro slot' next same
    cases same
    exact free
  · intro caller next same
    cases same
  · intro next same
    cases same
  · intro venue receipt status next same
    cases same
  · intro outcome same
    cases same

theorem Tells.unlock {slot : Slot} {rest : Unit → Async Outcome}
    (next : Tells P told made id (past ++ [.unlocked slot]) (rest ())) :
    Tells P told made id past (.call (.unlock slot) rest) :=
  adheres_unlock (.plain rfl) trivial next

theorem Tells.await {slot : Slot} {inv : Invocation}
    {rest : Except VenueError inv.Payload → Async Outcome}
    (next : ∀ reply a, Reply.answers inv reply = some a →
      Tells P told made id (past ++ [.invoked slot inv] ++ [.answered slot inv reply]) (rest a)) :
    Tells P told made id past (Host.call slot inv >>= rest) :=
  adheres_invoke (.plain rfl) trivial
    (adheres_answer (.plain rfl) trivial (fun _ => trivial) next)

theorem Tells.check {ctx : GuardContext} {rest : GuardVerdict → Async Outcome}
    (next : ∀ verdict, Tells P told made id (past ++ [.guarded ctx verdict]) (rest verdict)) :
    Tells P told made id past (.call (.check ctx) rest) :=
  adheres_check (.plain rfl) (fun _ => trivial) next

theorem Tells.watch {venue : VenueId} {receipt : Bytes} {rest : Bool → Async Outcome}
    (next : ∀ admitted events, Listing events → Tells P told made id (past ++ events) (rest admitted)) :
    Tells P told made id past (.call (.watch venue receipt) rest) :=
  adheres_watch (.plain rfl) (fun _ _ => extends_anything _ _) next

theorem Tells.recordPolledStatus {venue : VenueId} {receipt : Bytes} {status : IntentStatus}
    {rest : Option Wire.IntentStatusUpdate → Async Outcome} (polls : made = .pollStatusTransitions)
    (next : ∀ update events, Folding venue receipt status update events →
      Tells P told made id (past ++ events) (rest update)) :
    Tells P told made id past (.call (.recordPolledStatus venue receipt status) rest) := by
  apply adheres_recordPolledStatus _ (fun _ _ _ => extends_anything _ _) next
  constructor
  · intro slot next same
    cases same
  · intro caller next same
    cases same
  · intro next same
    cases same
  · intro venue' receipt' status' next same
    exact polls
  · intro outcome same
    cases same

theorem Tells.leave {slot : Slot} {α : Type} {result : α} {wrap : α → Outcome}
    (story : told (past ++ [.unlocked slot]) (wrap result)) :
    Tells P told made id past (do return wrap (← Host.leave slot result)) :=
  Tells.unlock (Tells.done story)

end Rules

/-! ## Replies at their type -/

theorem reply_of_derived {body : Bytes} {reply : Reply} {a : Except VenueError IntentHeader}
    (answers : reply.answers (.deriveHeader body) = some a) : reply = .header a := by
  cases reply with
  | header result =>
      cases answers
      rfl
  | _ => cases answers

theorem reply_of_quote {body : Bytes} {reply : Reply} {a : Except VenueError Quotation}
    (answers : reply.answers (.quote body) = some a) : reply = .quotation a := by
  cases reply with
  | quotation result =>
      cases answers
      rfl
  | _ => cases answers

theorem reply_of_submit {body : Bytes} {reply : Reply} {a : Except VenueError SubmitOutcome}
    (answers : reply.answers (.submit body) = some a) : reply = .outcome a := by
  cases reply with
  | outcome result =>
      cases answers
      rfl
  | _ => cases answers

theorem reply_of_polled {receipt : Bytes} {reply : Reply} {a : Except VenueError IntentStatus}
    (answers : reply.answers (.status receipt) = some a) : reply = .status a := by
  cases reply with
  | status result =>
      cases answers
      rfl
  | _ => cases answers

theorem reply_of_cancel {receipt : Bytes} {reply : Reply} {a : Except VenueError Unit}
    (answers : reply.answers (.cancel receipt) = some a) : reply = .cancelled a := by
  cases reply with
  | cancelled result =>
      cases answers
      rfl
  | _ => cases answers

/-! ## The calls -/

section Calls

variable (P : Policy) (id : Nat)

theorem tells_submit (caller : String) (venue : VenueId) (body : Bytes) :
    Tells P (Story P (.submit caller venue body)) (.submit caller venue body) id []
      (Call.code P (.submit caller venue body)) := by
  apply Tells.resolve
  intro a
  cases a with
  | error e => exact Tells.done (.unrouted e rfl)
  | ok slot =>
      apply Tells.quotaAdmits
      intro admits
      cases admits with
      | false => exact Tells.done (.throttled slot rfl rfl)
      | true =>
          apply Tells.lock rfl
          apply Tells.await
          intro reply derived answers
          rw [reply_of_derived answers]
          cases derived with
          | error e =>
              cases e with
              | invalidBody detail =>
                  apply Tells.charge (by simp) (by simp)
                  intro instant
                  exact Tells.leave (.underived caller venue body slot _ ⟨instant, rfl⟩)
              | _ => exact Tells.leave (.underived caller venue body slot _ rfl)
          | ok header =>
              apply Tells.charge (by simp) (by simp)
              intro instant
              apply Tells.check
              intro verdict
              apply Tells.await
              intro reply result answers
              rw [reply_of_submit answers]
              cases result with
              | error e =>
                  exact Tells.leave (.submitted caller venue body slot header instant verdict _ rfl)
              | ok outcome =>
                  cases outcome with
                  | requiresSigning tx =>
                      exact Tells.leave
                        (.submitted caller venue body slot header instant verdict _ rfl)
                  | accepted receipt =>
                      apply Tells.watch
                      intro admitted events listing
                      exact Tells.leave
                        (.submitted caller venue body slot header instant verdict _ listing)

theorem tells_quote (caller : String) (venue : VenueId) (body : Bytes) :
    Tells P (Story P (.quote caller venue body)) (.quote caller venue body) id []
      (Call.code P (.quote caller venue body)) := by
  apply Tells.resolve
  intro a
  cases a with
  | error e => exact Tells.done (.unrouted e rfl)
  | ok slot =>
      apply Tells.quotaAdmits
      intro admits
      cases admits with
      | false => exact Tells.done (.throttled slot rfl rfl)
      | true =>
          apply Tells.charge (by simp) (by simp)
          intro instant
          apply Tells.lock rfl
          apply Tells.await
          intro reply result answers
          rw [reply_of_quote answers]
          exact Tells.leave (.quoted caller venue body slot instant result)

theorem tells_observe (venue : VenueId) (receipt : Bytes) :
    Tells P (Story P (.observe venue receipt)) (.observe venue receipt) id []
      (Call.code P (.observe venue receipt)) := by
  apply Tells.resolve
  intro a
  cases a with
  | error e => exact Tells.done (.unrouted e rfl)
  | ok slot =>
      apply Tells.watch
      intro admitted events listing
      cases admitted with
      | false => exact Tells.done (.observed venue receipt slot false listing)
      | true => exact Tells.done (.observed venue receipt slot true listing)

/-- The rest of a poll, from the visits behind it. -/
theorem tells_pollEach (told : List Event → Outcome → Prop) (start : List Event)
    {pairs : List (VenueId × Bytes)}
    (story : ∀ trace updates, TourTrace pairs trace updates → told (start ++ trace) (.polled updates))
    (rest : List (VenueId × Bytes)) {visited : List (VenueId × Bytes)} {trace : List Event}
    {updates : List Wire.IntentStatusUpdate} (split : pairs = visited ++ rest)
    (tour : TourTrace visited trace updates) (free : holds (start ++ trace) = none) :
    Tells P told .pollStatusTransitions id (start ++ trace)
      (do return .polled (← pollEach rest updates)) := by
  induction rest generalizing visited trace updates with
  | nil =>
      rw [List.append_nil] at split
      exact Tells.done (story trace updates (split ▸ tour))
  | cons pair rest ih =>
      obtain ⟨venue, receipt⟩ := pair
      have further : pairs = (visited ++ [(venue, receipt)]) ++ rest := by
        rw [split, List.append_assoc]
        rfl
      apply Tells.resolve
      intro a
      cases a with
      | error e =>
          have longer := tour.snoc (VisitTrace.unrouted e : VisitTrace venue receipt _ _)
          rw [List.append_nil] at longer
          rw [List.append_assoc]
          apply ih further longer
          rw [← List.append_assoc, holds_append, free]
          rfl
      | ok slot =>
          apply Tells.lock
          · rw [holds_append, free]
            rfl
          apply Tells.await
          intro reply polled answers
          rw [reply_of_polled answers]
          apply Tells.unlock
          cases polled with
          | error e =>
              have longer := tour.snoc (VisitTrace.unheard slot e : VisitTrace venue receipt _ _)
              rw [List.append_nil] at longer
              simp only [List.append_assoc, List.cons_append, List.nil_append]
              apply ih further longer
              rw [← List.append_assoc, holds_append]
              rfl
          | ok status =>
              apply Tells.recordPolledStatus rfl
              intro update events folding
              have longer := tour.snoc (.heard slot status folding)
              have later : holds (start ++ (trace ++ ([.resolved venue (.ok slot), .locked slot,
                  .invoked slot (.status receipt),
                  .answered slot (.status receipt) (.status (.ok status)), .unlocked slot] ++
                    events))) = none := by
                rw [← List.append_assoc, ← List.append_assoc, holds_append_onWatch folding.quiet,
                  holds_append]
                rfl
              simp only [List.append_assoc, List.cons_append, List.nil_append] at longer later ⊢
              cases update with
              | none =>
                  rw [Option.toList_none, List.append_nil] at longer
                  exact ih further longer later
              | some update => exact ih further longer later

theorem tells_pollStatusTransitions :
    Tells P (Story P .pollStatusTransitions) .pollStatusTransitions id []
      (Call.code P .pollStatusTransitions) := by
  apply adheres_snapshot _ (fun _ _ => extends_anything _ _)
  · intro pairs events listing
    have start := tells_pollEach P id (Story P .pollStatusTransitions) events
      (fun trace updates tour => .polled pairs listing tour) pairs rfl .nil
      (by rw [List.append_nil]; exact holds_append_onWatch listing.quiet [])
    rw [List.append_nil] at start
    exact start
  · constructor
    · intro slot rest same
      cases same
    · intro caller rest same
      cases same
    · intro rest same
      cases same
      exact ⟨rfl, rfl, fun _ => rfl⟩
    · intro venue receipt status rest same
      cases same
    · intro outcome same
      cases same

theorem tells_status (venue : VenueId) (receipt : Bytes) :
    Tells P (Story P (.status venue receipt)) (.status venue receipt) id []
      (Call.code P (.status venue receipt)) := by
  apply Tells.resolve
  intro a
  cases a with
  | error e => exact Tells.done (.unrouted e rfl)
  | ok slot =>
      apply Tells.lock rfl
      apply Tells.await
      intro reply result answers
      rw [reply_of_polled answers]
      exact Tells.leave (.status venue receipt slot result)

theorem tells_cancel (venue : VenueId) (receipt : Bytes) :
    Tells P (Story P (.cancel venue receipt)) (.cancel venue receipt) id []
      (Call.code P (.cancel venue receipt)) := by
  apply Tells.resolve
  intro a
  cases a with
  | error e => exact Tells.done (.unrouted e rfl)
  | ok slot =>
      apply Tells.lock rfl
      apply Tells.await
      intro reply result answers
      rw [reply_of_cancel answers]
      exact Tells.leave (.cancelled venue receipt slot result)

theorem tells_code (call : Call) : Tells P (Story P call) call id [] (Call.code P call) := by
  cases call with
  | submit caller venue body => exact tells_submit P id caller venue body
  | quote caller venue body => exact tells_quote P id caller venue body
  | observe venue receipt => exact tells_observe P id venue receipt
  | pollStatusTransitions => exact tells_pollStatusTransitions P id
  | status venue receipt => exact tells_status P id venue receipt
  | cancel venue receipt => exact tells_cancel P id venue receipt

end Calls

theorem tells_thread {P : Policy} {p : RegistryPool} {start : Nat}
    (reach : (venueRegistry P).Reach (Registry.new start) p) {id : Nat} {t : Async Outcome}
    (thread : p.threads id = some t) :
    ∃ call, p.calls[id]? = some call ∧ StoryPoint (Story P call) call (own id p.log) t := by
  have bound := reach.numbered.thread id t thread
  have made := List.getElem?_eq_getElem bound
  have tells := (reach.adheres (fun id call => tells_code P id call) made).2 t thread
  exact ⟨_, made, tells.at_point⟩

/-- Whatever the other calls and the host do, a call that returned did exactly what its story
says: an outcome is the adapter's own answer to this call, or the registry's refusal. -/
theorem returned_story {P : Policy} {p : RegistryPool} (reach : Reachable P p) {id : Nat}
    {outcome : Outcome} (returned : p.threads id = some (.done outcome)) :
    ∃ call, p.calls[id]? = some call ∧ Story P call (own id p.log) outcome := by
  obtain ⟨start, reach⟩ := reach
  obtain ⟨call, made, point⟩ := tells_thread reach returned
  exact ⟨call, made, point.returned outcome rfl⟩

def outcomeOf (p : RegistryPool) (id : Nat) : Option Outcome :=
  match p.threads id with
  | some (.done outcome) => some outcome
  | _ => none

theorem thread_of_outcomeOf {p : RegistryPool} {id : Nat} {outcome : Outcome}
    (returned : outcomeOf p id = some outcome) : p.threads id = some (.done outcome) := by
  unfold outcomeOf at returned
  split at returned
  next thread =>
    cases returned
    exact thread
  next => cases returned

def acceptedSubmit : Schedule :=
  [.host (.register stubVenue 0 ∅), .spawn (.submit "keeper" stubVenue [1])] ++ throughGate 0 ++
    throughHeader 0 .allow ++ throughSubmit 0 [7]

theorem returned_story_accepted : ∃ p, Reachable oneCharge p ∧
    ∃ call, p.calls[0]? = some call ∧
      Story oneCharge call (own 0 p.log) (.submitted (.ok (.accepted [7]))) := by
  have ran : ((venueRegistry oneCharge).run acceptedSubmit
      (System.empty (Registry.new 0))).bind (outcomeOf · 0) =
      some (.submitted (.ok (.accepted [7]))) := by
    rfl
  obtain ⟨p, reached, returned⟩ := Option.bind_eq_some_iff.mp ran
  have reach : Reachable oneCharge p := ⟨0, .of_run .start reached⟩
  exact ⟨p, reach, returned_story reach (thread_of_outcomeOf returned)⟩

def Toured (start : List Event) (pairs : List (VenueId × Bytes)) (past : List Event)
    (outcome : Outcome) : Prop :=
  ∃ trace updates, outcome = .polled updates ∧ past = start ++ trace ∧ TourTrace pairs trace updates

/-- A poll whose snapshot is taken goes on from it: whatever is called, answered, registered or
killed meanwhile, when it returns it has visited every pair of the snapshot once and in order,
and returns the updates of its visits in order. The pairs are the watched ones not yet due. -/
theorem poll_tours_snapshot {P : Policy} {p q r : RegistryPool} (reach : Reachable P p) {id : Nat}
    {input : Input} {labels : Schedule} {updates : List Wire.IntentStatusUpdate}
    (polls : p.standing id = some .snapshot)
    (snapped : (venueRegistry P).step p (.advance id input) = some q)
    (ran : (venueRegistry P).run labels q = some r)
    (returned : r.threads id = some (.done (.polled updates))) :
    ∃ trace, own id r.log = evictions p.shared.now p.shared.watched ++ trace ∧
      TourTrace p.shared.snapshot.1 trace updates ∧ p.shared.snapshot.1.Nodup ∧
      ∀ venue receipt, (venue, receipt) ∈ p.shared.snapshot.1 ↔
        ∃ w ∈ p.shared.watched, w.unexpired p.shared.now = true ∧ w.pair = (venue, receipt) := by
  obtain ⟨start, reach⟩ := reach
  obtain ⟨rest, thread⟩ := Pool.of_standing polls
  obtain ⟨call, -, point⟩ := tells_thread reach thread
  obtain ⟨-, silent, next⟩ := point.polling rest rfl
  obtain ⟨_, hlabel, _⟩ | ⟨j, i, o, rest', a, events, s, hlabel, thread', acts, after⟩ |
    ⟨_, _, _, _, _, hlabel, _⟩ | ⟨_, hlabel, _⟩ := (venueRegistry P).step_cases snapped
  · cases hlabel
  · cases hlabel
    rw [thread] at thread'
    cases thread'
    have snaps : act P id .snapshot input p.shared = some (a, events, s) := acts
    obtain ⟨ha, hevents, -⟩ := act_snapshot snaps
    subst ha hevents
    have given : id < q.calls.length := by
      rw [after]
      exact reach.numbered.thread id _ thread
    have logged : own id q.log = evictions p.shared.now p.shared.watched := by
      rw [after, own_append, silent, own_tagged_self, List.nil_append]
    have tours := tells_pollEach P id
      (Toured (evictions p.shared.now p.shared.watched) p.shared.snapshot.1)
      (evictions p.shared.now p.shared.watched)
      (fun trace updates tour => ⟨trace, updates, rfl, rfl, tour⟩) p.shared.snapshot.1 rfl .nil
      (by rw [List.append_nil]; exact holds_append_onWatch (onWatch_evictions _ _) [])
    rw [List.append_nil, ← next] at tours
    have ready : ∀ t, q.threads id = some t →
        Tells P (Toured (evictions p.shared.now p.shared.watched) p.shared.snapshot.1)
          .pollStatusTransitions id (evictions p.shared.now p.shared.watched) t := by
      intro t running
      rw [after] at running
      simp only [Function.update_self, Option.some.injEq] at running
      exact running ▸ tours
    obtain ⟨later, log, -, there⟩ := System.Adheres.run given ready ran
    obtain ⟨trace, updates', same, past, tour⟩ := (there _ returned).at_point.returned _ rfl
    cases same
    refine ⟨trace, ?_, tour, ?_, ?_⟩
    · rw [log, logged, past]
    · exact ((watchOk reach).pruned _).distinct
    · intro venue receipt
      show (venue, receipt) ∈ (pruneExpired p.shared.now p.shared.watched).map WatchedIntent.pair ↔ _
      simp only [List.mem_map, mem_pruneExpired, and_assoc]
  · cases hlabel
  · cases hlabel

/-- A receipt is watched and a poll is about to take its snapshot. -/
def pollStarted : Schedule :=
  [.host (.register stubVenue 0 ∅), .spawn (.observe stubVenue [7]), .advance 0 (.elapsed 0),
    .advance 0 (.elapsed 0), .spawn .pollStatusTransitions]

/-- The venue is killed while the poll waits for its answer. -/
theorem poll_tours_snapshot_stub : ∃ (p r : RegistryPool) (trace : List Event)
    (update : Wire.IntentStatusUpdate), Reachable oneCharge p ∧
    r.threads 1 = some (.done (.polled [update])) ∧
    own 1 r.log = evictions p.shared.now p.shared.watched ++ trace ∧
    TourTrace p.shared.snapshot.1 trace [update] := by
  have ran : ((venueRegistry oneCharge).run pollStarted (System.empty (Registry.new 0))).bind
      (fun p => ((venueRegistry oneCharge).step p (.advance 1 (.elapsed 0))).bind fun q =>
        ((venueRegistry oneCharge).run ([.advance 1 (.elapsed 0), .advance 1 (.elapsed 0),
          .advance 1 (.elapsed 0), .host (.markDead 0),
          .advance 1 (.reply (.status (.ok .fulfilled))), .advance 1 (.elapsed 0),
          .advance 1 (.elapsed 0)]) q).bind fun r =>
        (p.standing 1).bind fun o => (outcomeOf r 1).map fun outcome => (o, outcome)) =
      some (.snapshot, .polled [⟨"cow", [7], [1, 2, 0, 0]⟩]) := by
    rfl
  obtain ⟨p, reached, ran⟩ := Option.bind_eq_some_iff.mp ran
  obtain ⟨q, snapped, ran⟩ := Option.bind_eq_some_iff.mp ran
  obtain ⟨r, later, ran⟩ := Option.bind_eq_some_iff.mp ran
  obtain ⟨o, stands, told⟩ := Option.bind_eq_some_iff.mp ran
  obtain ⟨outcome, returned, same⟩ := Option.map_eq_some_iff.mp told
  simp only [Prod.mk.injEq] at same
  obtain ⟨rfl, rfl⟩ := same
  have reach : Reachable oneCharge p := ⟨0, .of_run .start reached⟩
  have thread := thread_of_outcomeOf returned
  obtain ⟨trace, split, tour, -⟩ := poll_tours_snapshot reach stands snapped later thread
  exact ⟨p, r, trace, _, reach, thread, split, tour⟩

end Videre.Host
