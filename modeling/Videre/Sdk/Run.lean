import Videre.Interaction.Guarantee
import Videre.Sdk.Stores

/-! # The keeper run

`reconcile` and `Keeper.run` as programs over the store calls, the poll and the
venue call. A venue call is two operations, the POST and the await of its answer,
so a run may be torn with the POST out and no answer in. The log beside the store
records what was polled, posted, answered and written, in order; no operation
reads it.
-/

namespace Videre.Sdk

open Interaction

/-- Which loop of a run makes a venue call. Recorded in the log only. -/
inductive Pass
  | reconcile
  | commitments
  deriving DecidableEq, Repr

inductive Query
  | pending
  | mark (key : String)
  | list
  | get (c : CommitmentRef)
  | isReady (c : CommitmentRef) (block epochS : UInt64)

@[reducible] def Query.Ans : Query → Type
  | .pending => List Reservation
  | .mark _ => Option Mark
  | .list => List String
  | .get _ => Option Bytes
  | .isReady _ _ _ => Bool

/-- The retrier's writes, each of them several store writes. -/
inductive RetrierCall
  | apply (c : CommitmentRef) (action : RetryAction) (tick : Tick)
  | clearRefusal (c : CommitmentRef)

inductive Op
  | read (q : Query)
  | write (venue : VenueId) (w : JournalWrite)
  | retrier (call : RetrierCall)
  | poll (c : CommitmentRef) (params : Bytes) (tick : Tick)
  | post (pass : Pass) (venue : VenueId) (key : String) (body : Bytes)
  | reply (pass : Pass) (venue : VenueId) (key : String) (body : Bytes)

@[reducible] def Op.Ans : Op → Type
  | .read q => Except Fault q.Ans
  | .write _ _ => Except Fault Unit
  | .retrier _ => Except Fault Unit
  | .poll _ _ _ => Outcome
  | .post _ _ _ _ => Unit
  | .reply _ _ _ _ => SubmitResult

/-- The environment's part of an operation. A store call lands or faults; a retrier call is
several writes, so it may fault with some of them landed. A poll gives an outcome and may
write outside the journal. A POST may or may not place the body at the venue. -/
inductive Input (Edit : Type)
  | ok
  | fault (f : Fault)
  | torn (f : Fault) (landed : List Edit)
  | polled (outcome : Outcome) (edits : List Edit)
  | sent (placed : Bool)
  | answered (result : SubmitResult)

inductive Event
  | polled (c : CommitmentRef) (outcome : Outcome)
  | posted (pass : Pass) (venue : VenueId) (key : String) (body : Bytes) (placed : Bool)
  | answered (pass : Pass) (venue : VenueId) (key : String) (body : Bytes) (result : SubmitResult)
  | wrote (venue : VenueId) (w : JournalWrite)
  deriving DecidableEq

structure World (S : Type) where
  store : S
  log : List Event

def World.record {S : Type} (w : World S) (e : Event) : World S :=
  { w with log := w.log ++ [e] }

@[simp] theorem World.record_log {S : Type} (w : World S) (e : Event) :
    (w.record e).log = w.log ++ [e] := rfl

@[simp] theorem World.record_store {S : Type} (w : World S) (e : Event) :
    (w.record e).store = w.store := rfl

section Machine

variable {S : Type} [KeeperStores S]

def applyEdits (edits : List (KeeperStores.Edit S)) (s : S) : S :=
  edits.foldl (fun s e => KeeperStores.edit e s) s

@[simp] theorem marker_applyEdits (edits : List (KeeperStores.Edit S)) (s : S) (key : String) :
    KeeperStores.marker (applyEdits edits s) key = KeeperStores.marker s key := by
  induction edits generalizing s with
  | nil => rfl
  | cons e rest ih =>
      change KeeperStores.marker (applyEdits rest (KeeperStores.edit e s)) key = _
      rw [ih, KeeperStores.marker_edit]

def World.write (w : World S) (venue : VenueId) (jw : JournalWrite) : World S :=
  ⟨KeeperStores.write jw w.store, w.log ++ [.wrote venue jw]⟩

@[simp] theorem World.write_log (w : World S) (venue : VenueId) (jw : JournalWrite) :
    (w.write venue jw).log = w.log ++ [.wrote venue jw] := rfl

@[simp] theorem World.write_store (w : World S) (venue : VenueId) (jw : JournalWrite) :
    (w.write venue jw).store = KeeperStores.write jw w.store := rfl

theorem World.marker_reserve (w : World S) (venue : VenueId) (key : String) (body : Bytes) :
    KeeperStores.marker (w.write venue (.reserve key body)).store key =
      some (.reserved (KeeperStores.fresh S) body) :=
  marker_write_self (.reserve key body) w.store

theorem World.marker_reserve_other (w : World S) (venue : VenueId) {key key' : String}
    {body : Bytes} (other : key' ≠ key) :
    KeeperStores.marker (w.write venue (.reserve key' body)).store key =
      KeeperStores.marker w.store key :=
  marker_write_other other.symm

theorem World.marker_commit (w : World S) (venue : VenueId) (key : String) :
    KeeperStores.marker (w.write venue (.commit key)).store key = some .committed :=
  marker_write_self (.commit key) w.store

theorem World.marker_commit_other (w : World S) (venue : VenueId) {key key' : String}
    (other : key' ≠ key) :
    KeeperStores.marker (w.write venue (.commit key')).store key =
      KeeperStores.marker w.store key :=
  marker_write_other other.symm

def World.edited (w : World S) (edits : List (KeeperStores.Edit S)) : World S :=
  { w with store := applyEdits edits w.store }

@[simp] theorem World.edited_log (w : World S) (edits : List (KeeperStores.Edit S)) :
    (w.edited edits).log = w.log := rfl

@[simp] theorem World.edited_marker (w : World S) (edits : List (KeeperStores.Edit S))
    (key : String) :
    KeeperStores.marker (w.edited edits).store key = KeeperStores.marker w.store key :=
  marker_applyEdits edits w.store key

def Query.eval (s : S) : (q : Query) → q.Ans
  | .pending => KeeperStores.pending s
  | .mark key => (KeeperStores.marker s key).map Marker.mark
  | .list => KeeperStores.list s
  | .get c => KeeperStores.get s c
  | .isReady c block epochS => KeeperStores.isReady s c block epochS

def RetrierCall.perform (s : S) : RetrierCall → S
  | .apply c action tick => KeeperStores.apply c action tick s
  | .clearRefusal c => KeeperStores.clearRefusal c s

@[simp] theorem marker_perform (call : RetrierCall) (s : S) (key : String) :
    KeeperStores.marker (call.perform s) key = KeeperStores.marker s key := by
  cases call <;> simp [RetrierCall.perform]

def stepOp (o : Op) (i : Input (KeeperStores.Edit S)) (w : World S) :
    Option (o.Ans × World S) :=
  match o, i with
  | .read q, .ok => some (.ok (q.eval w.store), w)
  | .read _, .fault f => some (.error f, w)
  | .write venue jw, .ok => some (.ok (), w.write venue jw)
  | .write _ _, .fault f => some (.error f, w)
  | .retrier call, .ok => some (.ok (), { w with store := call.perform w.store })
  | .retrier _, .torn f landed => some (.error f, w.edited landed)
  | .poll c _ _, .polled outcome edits =>
      some (outcome, (w.edited edits).record (.polled c outcome))
  | .post pass venue key body, .sent placed =>
      some ((), w.record (.posted pass venue key body placed))
  | .reply pass venue key body, .answered result =>
      some (result, w.record (.answered pass venue key body result))
  | _, _ => none

variable (S) in
def machine : Machine Op Op.Ans (World S) (Input (KeeperStores.Edit S)) where
  step := stepOp

end Machine

abbrev KeeperM (α : Type) := ExceptT Fault (Program Op Op.Ans) α

namespace KeeperM

def pending : KeeperM (List Reservation) := ExceptT.mk (Program.perform (Op.read .pending))

def mark (key : String) : KeeperM (Option Mark) := ExceptT.mk (Program.perform (Op.read (.mark key)))

def write (venue : VenueId) (w : JournalWrite) : KeeperM Unit :=
  ExceptT.mk (Program.perform (Op.write venue w))

def list : KeeperM (List String) := ExceptT.mk (Program.perform (Op.read .list))

def get (c : CommitmentRef) : KeeperM (Option Bytes) := ExceptT.mk (Program.perform (Op.read (.get c)))

def isReady (c : CommitmentRef) (block epochS : UInt64) : KeeperM Bool :=
  ExceptT.mk (Program.perform (Op.read (.isReady c block epochS)))

def apply (c : CommitmentRef) (action : RetryAction) (tick : Tick) : KeeperM Unit :=
  ExceptT.mk (Program.perform (Op.retrier (.apply c action tick)))

def clearRefusal (c : CommitmentRef) : KeeperM Unit :=
  ExceptT.mk (Program.perform (Op.retrier (.clearRefusal c)))

def poll (c : CommitmentRef) (params : Bytes) (tick : Tick) : KeeperM Outcome :=
  ExceptT.lift (Program.perform (Op.poll c params tick))

/-- `VenueTransport::submit` and its await. `pass` and `key` say for which reservation. -/
def submit (pass : Pass) (venue : VenueId) (key : String) (body : Bytes) :
    KeeperM SubmitResult :=
  ExceptT.lift do
    let _ ← Program.perform (Op.post pass venue key body)
    Program.perform (Op.reply pass venue key body)

/-- The result of a fallible call as a value, where the source does not use `?`. -/
def attempt {α : Type} (x : KeeperM α) : KeeperM (Except Fault α) :=
  ExceptT.lift x.run

end KeeperM

open KeeperM

/-- The arms of the reconcile loop: act on the answer to one resubmit. -/
def dispose (venue : VenueId) (tick : Tick) (policy : FaultPolicy) (r : Reservation)
    (report : ReconcileReport) : SubmitResult → KeeperM ReconcileReport
  | .ok (.accepted _) => do
      write venue (.commit r.key)
      pure { report with committed := report.committed + 1 }
  | .ok (.requiresSigning tx) => do
      write venue (.release r.key)
      pure { report with unsigned := report.unsigned ++ [tx] }
  | .error fault =>
      if policy.isTerminal fault then do
        write venue (.release r.key)
        pure { report with released := report.released + 1 }
      else
        match fault with
        | .rateLimited (some ms) => do
            write venue (.park r.key r.body (saturatingAdd tick.epochS (divCeil ms 1000)))
            pure { report with pending := report.pending + 1 }
        -- Transient: timeout, unavailable, throttle without a hint.
        | _ => pure { report with pending := report.pending + 1 }

/-- The reconcile loop over the pending list, `spent` venue calls into its budget. -/
def reconcileLoop (venue : VenueId) (tick : Tick) (maxPerTick : Nat) (policy : FaultPolicy) :
    List Reservation → Nat → ReconcileReport → KeeperM ReconcileReport
  | [], _, report => pure report
  | r :: rest, spent, report =>
      if tick.epochS < r.nextEligible then
        reconcileLoop venue tick maxPerTick policy rest spent
          { report with gated := report.gated + 1 }
      else if maxPerTick ≤ spent then
        pure report
      else do
        let result ← submit .reconcile venue r.key r.body
        let report ← dispose venue tick policy r report result
        reconcileLoop venue tick maxPerTick policy rest (spent + 1) report

/-- Top-of-sweep reconcile pass: resolve each stranded reservation of the journal against
the venue, at most `maxPerTick` of them. -/
def reconcile (venue : VenueId) (tick : Tick) (maxPerTick : Nat) (policy : FaultPolicy) :
    KeeperM ReconcileReport := do
  let reservations ← pending
  reconcileLoop venue tick maxPerTick policy reservations 0 {}

namespace Keeper

variable [NexumSdk]

/-- The submit arm of one commitment. `.inl` is the loop's `continue`, `.inr` the retry
action the commitment falls through with. -/
def submitArm (keeper : Keeper) (commitment : CommitmentRef) (report : RunReport)
    (body : Bytes) : KeeperM (RunReport ⊕ RetryAction) := do
  let key := submissionKey keeper.venue body
  match ← mark key with
  -- Durable already: idempotent skip, no venue call.
  | some .committed => pure (.inl { report with duplicates := report.duplicates + 1 })
  -- The reconcile pass owns the reservation.
  | some .reserved => pure (.inl { report with retried := report.retried + 1 })
  | none =>
      write keeper.venue (.reserve key body)
      match ← submit .commitments keeper.venue key body with
      | .ok (.accepted _) =>
          let _ ← attempt (write keeper.venue (.commit key))
          let _ ← attempt (clearRefusal commitment)
          pure (.inl { report with submitted := report.submitted + 1 })
      | .ok (.requiresSigning tx) =>
          write keeper.venue (.release key)
          pure (.inl { report with unsigned := report.unsigned ++ [tx] })
      | .error fault =>
          write keeper.venue (.release key)
          pure (.inr (keeper.faultPolicy.action fault))

/-- Apply a retry action and bucket the commitment by its effect on the set. -/
def settle (commitment : CommitmentRef) (tick : Tick) (action : RetryAction)
    (report : RunReport) : KeeperM RunReport := do
  apply commitment action tick
  let present : Bool := match ← attempt (get commitment) with
    | .ok row => row.isSome
    | .error _ => action != .drop
  if present then
    pure { report with retried := report.retried + 1 }
  else
    pure { report with dropped := report.dropped + 1 }

/-- One iteration of the commitment loop. -/
def visit (keeper : Keeper) (tick : Tick) (report : RunReport) (key : String) :
    KeeperM RunReport :=
  match NexumSdk.parse key with
  | none => pure { report with skipped := report.skipped + 1 }
  | some commitment => do
      if ! (← isReady commitment tick.block tick.epochS) then
        pure { report with gated := report.gated + 1 }
      else
        match ← get commitment with
        | none => pure { report with skipped := report.skipped + 1 }
        | some params =>
            let report := { report with polled := report.polled + 1 }
            let action ← match ← poll commitment params tick with
              | .submit body => keeper.submitArm commitment report body
              | .waitBlock => pure (.inr .tryNextBlock)
              | .backoff seconds => pure (.inr (.backoff seconds))
              | .drop => pure (.inr .drop)
            match action with
            | .inl report => pure report
            | .inr action => settle commitment tick action report

/-- One sweep at `tick`: the reconcile pass, then every commitment of the set. -/
def run (keeper : Keeper) (tick : Tick) : KeeperM RunReport := do
  let rec_ ← reconcile keeper.venue tick keeper.maxPerTick keeper.faultPolicy
  let report : RunReport :=
    { reconciledCommitted := rec_.committed
      reconciledReleased := rec_.released
      reconciledPending := rec_.pending
      reconciledGated := rec_.gated
      reconciledUnsigned := rec_.unsigned.length
      unsigned := rec_.unsigned }
  let keys ← list
  keys.foldlM (keeper.visit tick) report

end Keeper

end Videre.Sdk
