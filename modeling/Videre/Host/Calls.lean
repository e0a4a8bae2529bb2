import Videre.Host.Registry
import Videre.Interaction.Pool

/-! # Calls on the registry

Every call is a program over the registry's critical sections, its adapter
mutexes and the adapter methods. Entering a method and awaiting its answer are two
operations, so the registry and other calls move on in between, and a call may be
dropped while it waits for a mutex or for an answer.
-/

namespace Videre.Host

open Interaction

inductive Invocation
  | deriveHeader (body : Bytes)
  | quote (body : Bytes)
  | submit (body : Bytes)
  | status (receipt : Bytes)
  | cancel (receipt : Bytes)
  deriving DecidableEq, Repr

@[reducible] def Invocation.Payload : Invocation → Type
  | .deriveHeader _ => IntentHeader
  | .quote _ => Quotation
  | .submit _ => SubmitOutcome
  | .status _ => IntentStatus
  | .cancel _ => Unit

inductive Reply
  | header (result : Except VenueError IntentHeader)
  | quotation (result : Except VenueError Quotation)
  | outcome (result : Except VenueError SubmitOutcome)
  | status (result : Except VenueError IntentStatus)
  | cancelled (result : Except VenueError Unit)
  deriving DecidableEq

def Reply.answers : (inv : Invocation) → Reply → Option (Except VenueError inv.Payload)
  | .deriveHeader _, .header result => some result
  | .quote _, .quotation result => some result
  | .submit _, .outcome result => some result
  | .status _, .status result => some result
  | .cancel _, .cancelled result => some result
  | _, _ => none

inductive Op
  | resolve (venue : VenueId)
  | quotaAdmits (caller : String)
  | charge (caller : String)
  | lock (slot : Slot)
  | unlock (slot : Slot)
  | invoke (slot : Slot) (inv : Invocation)
  | answer (slot : Slot) (inv : Invocation)
  | check (ctx : GuardContext)
  | watch (venue : VenueId) (receipt : Bytes)
  | snapshot
  | recordPolledStatus (venue : VenueId) (receipt : Bytes) (status : IntentStatus)
  deriving DecidableEq

@[reducible] def Op.Ans : Op → Type
  | .resolve _ => Except VenueError Slot
  | .quotaAdmits _ => Bool
  | .charge _ | .lock _ | .unlock _ | .invoke _ _ => Unit
  | .answer _ inv => Except VenueError inv.Payload
  | .check _ => GuardVerdict
  | .watch _ _ => Bool
  | .snapshot => List (VenueId × Bytes)
  | .recordPolledStatus _ _ _ => Option Wire.IntentStatusUpdate

/-- The environment's part of one operation: the time between two clock readings,
the guard's verdict, an adapter's reply. -/
inductive Input
  | elapsed (nanos : Nat)
  | verdict (verdict : GuardVerdict)
  | reply (reply : Reply)

inductive Event
  | registered (venue : VenueId) (slot : Slot) (liveness : Liveness)
  | duplicate (venue : VenueId)
  | died (liveness : Liveness)
  | revived (liveness : Liveness)
  | resolved (venue : VenueId) (answer : Except VenueError Slot)
  | gated (caller : String) (admits : Bool)
  | charged (caller : String) (instant : Nat)
  | locked (slot : Slot)
  | unlocked (slot : Slot)
  | invoked (slot : Slot) (inv : Invocation)
  | answered (slot : Slot) (inv : Invocation) (reply : Reply)
  | guarded (ctx : GuardContext) (verdict : GuardVerdict)
  | inserted (venue : VenueId) (receipt : Bytes)
  | evicted (venue : VenueId) (receipt : Bytes)
  | folded (venue : VenueId) (receipt : Bytes) (status : IntentStatus)
      (update : Option Wire.IntentStatusUpdate)
  | removed (venue : VenueId) (receipt : Bytes)
  deriving DecidableEq

/-- What the composition root, the sweep and the adapters do outside any call. -/
inductive HostEvent
  | elapse (nanos : Nat)
  | register (venue : VenueId) (liveness : Liveness) (bodyVersions : Finset UInt32)
  | markDead (liveness : Liveness)
  | markAlive (liveness : Liveness)

inductive Call
  | submit (caller : String) (venue : VenueId) (body : Bytes)
  | quote (caller : String) (venue : VenueId) (body : Bytes)
  | observe (venue : VenueId) (receipt : Bytes)
  | pollStatusTransitions
  | status (venue : VenueId) (receipt : Bytes)
  | cancel (venue : VenueId) (receipt : Bytes)
  deriving DecidableEq, Repr

inductive Outcome
  | submitted (result : Except VenueError SubmitOutcome)
  | quoted (result : Except VenueError Quotation)
  | observed (result : Except VenueError Unit)
  | polled (updates : List Wire.IntentStatusUpdate)
  | status (result : Except VenueError IntentStatus)
  | cancelled (result : Except VenueError Unit)

/-! ## The calls -/

abbrev Async := Program Op Op.Ans

namespace Async

def resolve (venue : VenueId) : Async (Except VenueError Slot) := .perform (Op.resolve venue)
def quotaAdmits (caller : String) : Async Bool := .perform (Op.quotaAdmits caller)
def charge (caller : String) : Async Unit := .perform (Op.charge caller)
def lock (slot : Slot) : Async Unit := .perform (Op.lock slot)
def unlock (slot : Slot) : Async Unit := .perform (Op.unlock slot)
def invoke (slot : Slot) (inv : Invocation) : Async Unit := .perform (Op.invoke slot inv)
def answer (slot : Slot) (inv : Invocation) : Async (Except VenueError inv.Payload) :=
  .perform (Op.answer slot inv)
def check (ctx : GuardContext) : Async GuardVerdict := .perform (Op.check ctx)
def watch (venue : VenueId) (receipt : Bytes) : Async Bool := .perform (Op.watch venue receipt)
def snapshot : Async (List (VenueId × Bytes)) := .perform Op.snapshot
def recordPolledStatus (venue : VenueId) (receipt : Bytes) (status : IntentStatus) :
    Async (Option Wire.IntentStatusUpdate) :=
  .perform (Op.recordPolledStatus venue receipt status)

end Async

def leave {α : Type} (slot : Slot) (result : α) : Async α := do
  Async.unlock slot
  return result

/-- A decode failure is charged to the caller; other errors are not its fault. -/
def chargeDecodeFailure (caller : String) : VenueError → Async Unit
  | .invalidBody _ => Async.charge caller
  | _ => return ()

/-- An accepted receipt goes under status watch. -/
def watchAccepted (venue : VenueId) : SubmitOutcome → Async Unit
  | .accepted receipt => do
      let _ ← Async.watch venue receipt
      return ()
  | .requiresSigning _ => return ()

/-- Await one method of the adapter behind a held mutex. -/
def call (slot : Slot) (inv : Invocation) : Async (Except VenueError inv.Payload) := do
  Async.invoke slot inv
  Async.answer slot inv

variable (P : Policy)

def rateLimited : VenueError :=
  .rateLimited ⟨some (windowMs P.quota.window)⟩

def submit (caller : String) (venue : VenueId) (body : Bytes) :
    Async (Except VenueError SubmitOutcome) := do
  match ← Async.resolve venue with
  | .error e => return .error e
  | .ok slot =>
      match ← Async.quotaAdmits caller with
      | false => return .error (rateLimited P)
      | true =>
          Async.lock slot
          match ← call slot (.deriveHeader body) with
          | .error e =>
              chargeDecodeFailure caller e
              leave slot (.error e)
          | .ok header =>
              Async.charge caller
              -- The verdict is logged, never enforced.
              let _ ← Async.check ⟨caller, venue, header⟩
              match ← call slot (.submit body) with
              | .error e => leave slot (.error e)
              | .ok outcome =>
                  watchAccepted venue outcome
                  leave slot (.ok outcome)

def quote (caller : String) (venue : VenueId) (body : Bytes) :
    Async (Except VenueError Quotation) := do
  match ← Async.resolve venue with
  | .error e => return .error e
  | .ok slot =>
      match ← Async.quotaAdmits caller with
      | false => return .error (rateLimited P)
      | true =>
          Async.charge caller
          Async.lock slot
          let answer ← call slot (.quote body)
          leave slot answer

def observe (venue : VenueId) (receipt : Bytes) : Async (Except VenueError Unit) := do
  match ← Async.resolve venue with
  | .error e => return .error e
  | .ok _ =>
      match ← Async.watch venue receipt with
      | true => return .ok ()
      | false => return .error (.unavailable "status watch set full")

def pollEach : List (VenueId × Bytes) → List Wire.IntentStatusUpdate →
    Async (List Wire.IntentStatusUpdate)
  | [], updates => return updates
  | (venue, receipt) :: rest, updates => do
      match ← Async.resolve venue with
      | .error _ => pollEach rest updates
      | .ok slot =>
          Async.lock slot
          let polled ← call slot (.status receipt)
          Async.unlock slot
          match polled with
          | .ok status =>
              match ← Async.recordPolledStatus venue receipt status with
              | some update => pollEach rest (updates ++ [update])
              | none => pollEach rest updates
          | .error _ => pollEach rest updates

def pollStatusTransitions : Async (List Wire.IntentStatusUpdate) := do
  let snapshot ← Async.snapshot
  pollEach snapshot []

def status (venue : VenueId) (receipt : Bytes) : Async (Except VenueError IntentStatus) := do
  match ← Async.resolve venue with
  | .error e => return .error e
  | .ok slot =>
      Async.lock slot
      let answer ← call slot (.status receipt)
      leave slot answer

def cancel (venue : VenueId) (receipt : Bytes) : Async (Except VenueError Unit) := do
  match ← Async.resolve venue with
  | .error e => return .error e
  | .ok slot =>
      Async.lock slot
      let answer ← call slot (.cancel receipt)
      leave slot answer

def Call.code : Call → Async Outcome
  | .submit caller venue body => do return .submitted (← Host.submit P caller venue body)
  | .quote caller venue body => do return .quoted (← Host.quote P caller venue body)
  | .observe venue receipt => do return .observed (← Host.observe venue receipt)
  | .pollStatusTransitions => do return .polled (← Host.pollStatusTransitions)
  | .status venue receipt => do return .status (← Host.status venue receipt)
  | .cancel venue receipt => do return .cancelled (← Host.cancel venue receipt)

/-! ## The operations -/

def isWatched (venue : VenueId) (receipt : Bytes) (watched : List WatchedIntent) : Bool :=
  watched.any (WatchedIntent.watches venue receipt)

def evictions (now : Nat) (watched : List WatchedIntent) : List Event :=
  (watched.filter fun w => !w.unexpired now).map fun w => .evicted w.venue w.receipt

def act (id : Nat) : (o : Op) → Input → Registry → Option (o.Ans × List Event × Registry)
  | .resolve venue, _, r => some (r.resolve venue, [.resolved venue (r.resolve venue)], r)
  | .quotaAdmits caller, _, r =>
      let (admits, r') := r.quotaAdmits P caller
      some (admits, [.gated caller admits], r')
  | .charge caller, .elapsed nanos, r =>
      let r' := r.charge P caller nanos
      some ((), [.charged caller r'.now], r')
  | .lock slot, _, r =>
      match r.holder slot with
      | none => some ((), [.locked slot], { r with holder := Function.update r.holder slot (some id) })
      | some _ => none
  | .unlock slot, _, r =>
      some ((), [.unlocked slot], { r with holder := Function.update r.holder slot none })
  | .invoke slot inv, _, r => some ((), [.invoked slot inv], r)
  | .answer slot inv, .reply reply, r =>
      match reply.answers inv with
      | some result => some (result, [.answered slot inv reply], r)
      | none => none
  | .check ctx, .verdict verdict, r => some (verdict, [.guarded ctx verdict], r)
  | .watch venue receipt, .elapsed nanos, r =>
      let (admitted, r') := r.watch P venue receipt nanos
      let entered := admitted && !isWatched venue receipt (pruneExpired r.now r.watched)
      some (admitted,
        evictions r.now r.watched ++ if entered then [.inserted venue receipt] else [], r')
  | .snapshot, _, r =>
      let (pairs, r') := r.snapshot
      some (pairs, evictions r.now r.watched, r')
  | .recordPolledStatus venue receipt status, _, r =>
      let (update, r') := r.recordPolledStatus P venue receipt status
      some (update,
        if isWatched venue receipt r.watched then
          .folded venue receipt status update ::
            if isWatched venue receipt r'.watched then [] else [.removed venue receipt]
        else [], r')
  | _, _, _ => none

/-- A dropped call leaves the queue of a mutex, or releases the mutex it awaits behind. -/
def abandon (_ : Nat) : Op → Registry → Option (List Event × Registry)
  | .lock _, r => some ([], r)
  | .answer slot _, r =>
      some ([.unlocked slot], { r with holder := Function.update r.holder slot none })
  | _, _ => none

def host : HostEvent → Registry → List Event × Registry
  | .elapse nanos, r => ([], r.elapse nanos)
  | .register venue liveness bodyVersions, r =>
      match r.register venue liveness bodyVersions with
      | .ok r' => ([.registered venue r.slots liveness], r')
      | .error _ => ([.duplicate venue], r)
  | .markDead liveness, r => ([.died liveness], r.markDead liveness)
  | .markAlive liveness, r => ([.revived liveness], r.markAlive liveness)

/-- The registry under a policy, with every call any number of callers make. -/
def venueRegistry : System Op Op.Ans Registry Input HostEvent Event Call Outcome where
  code := Call.code P
  act := act P
  abandon := abandon
  host := host

abbrev RegistryPool := Pool Op Op.Ans Registry Event Call Outcome

/-- The pools that calls on a registry built with `P` reach, the clock starting anywhere. -/
def Reachable (p : RegistryPool) : Prop :=
  ∃ start, (venueRegistry P).Reach (Registry.new start) p

/-! ## A small registry -/

def oneCharge : Policy :=
  (VenueRegistryBuilder.new ⟨1, .fromSecs 60⟩).build (2 ^ 64)

def stubVenue : VenueId := ⟨"cow"⟩

def stubHeader : IntentHeader :=
  ⟨⟨.native, [1]⟩, ⟨.native, [1]⟩, ⟨1⟩, .eip712⟩

abbrev Schedule := List (Label Input HostEvent Call)

def throughGate (id : Nat) : Schedule :=
  [.advance id (.elapsed 0), .advance id (.elapsed 0)]

/-- A waiting submit holds the adapter, derives the header, is charged, hears the guard and
enters `submit`. -/
def throughHeader (id : Nat) (verdict : GuardVerdict) : Schedule :=
  [.advance id (.elapsed 0), .advance id (.elapsed 0),
    .advance id (.reply (.header (.ok stubHeader))), .advance id (.elapsed 0),
    .advance id (.verdict verdict), .advance id (.elapsed 0)]

/-- The adapter accepts the submission; the receipt is watched and the adapter left. -/
def throughSubmit (id : Nat) (receipt : Bytes) : Schedule :=
  [.advance id (.reply (.outcome (.ok (.accepted receipt)))), .advance id (.elapsed 0),
    .advance id (.elapsed 0)]

end Videre.Host
