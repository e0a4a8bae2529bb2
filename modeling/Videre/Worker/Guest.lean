import Videre.Client.Typed
import Videre.Host.Delivery

/-! # Guest code

A module's handlers log lines and make calls through the `videre:venue/client` import,
each waiting for its answer. The typed client is written over the import, and its
failures fold into the fault a handler returns. The dispatch of a trigger is the one
`#[keeper]` emits.
-/

namespace Videre

namespace Client.Request

/-- What the import answers a request with. -/
def Returns : Request → Type
  | .quote _ => Quotation
  | .submit _ | .redeem _ => SubmitOutcome
  | .observe _ | .cancel _ => Unit
  | .status _ => IntentStatus

def landed : (request : Request) → Host.Outcome → Option (Except VenueError request.Returns)
  | .quote _, .quoted result => some result
  | .submit _, .submitted result | .redeem _, .submitted result => some result
  | .observe _, .observed result => some result
  | .status _, .status result => some result
  | .cancel _, .cancelled result => some result
  | _, _ => none

def answer (flight : Flight) : (request : Request) → request.Returns → Answer
  | .quote bytes, quotation => .quoted ⟨bytes, quotation, flight⟩
  | .submit _, outcome | .redeem _, outcome => .submitted outcome
  | .observe _, _ => .observed
  | .status _, intent => .status intent
  | .cancel _, _ => .cancelled

theorem receive_landed (flight : Flight) (request : Request) (outcome : Host.Outcome) :
    request.receive flight outcome = (request.landed outcome).map fun result =>
      (result.map (request.answer flight)).mapError fun e => .venue (.ofVenueError e) := by
  cases request <;> cases outcome <;> rfl

end Client.Request

namespace Sdk

def VenueFault.toString : VenueFault → String
  | .unknownVenue => "unknown venue"
  | .invalidBody detail => "invalid body: " ++ detail
  | .unsupported => "unsupported"
  | .denied detail => "denied: " ++ detail
  | .rateLimited none => "rate limited"
  | .rateLimited (some ms) => "rate limited, retry after " ++ ms.toNat.repr ++ " ms"
  | .unavailable detail => "unavailable: " ++ detail
  | .timeout => "timeout"
  | .invalidReceipt => "invalid receipt"
  | .receiptMismatch => "receipt mismatch"

/-- Fold a typed client failure into the fault a handler returns. The retry hint does not
cross. -/
def Fault.ofClientError : Client.ClientError → Fault
  | .body err => .invalidInput err.toString
  | .venue fault =>
      match fault with
      | .unknownVenue => .invalidInput fault.toString
      | .invalidBody detail => .invalidInput detail
      | .unsupported => .unsupported fault.toString
      | .denied detail => .denied detail
      | .rateLimited _ => .rateLimited
      | .unavailable detail => .unavailable detail
      | .timeout => .timeout
      | .invalidReceipt => .invalidInput fault.toString
      | .receiptMismatch => .internal fault.toString

end Sdk

namespace Worker

open Interaction Sdk Client

/-! ## Guest programs -/

inductive Level
  | trace
  | debug
  | info
  | warn
  | error
  deriving DecidableEq, Repr

inductive GuestOp
  | log (level : Level) (message : String)
  /-- A call through the import, at the venue's wire spelling. -/
  | client (venue : String) (request : Request)

def GuestOp.Ans : GuestOp → Type
  | .log _ _ => Unit
  | .client _ request => Except VenueError request.Returns

abbrev Guest := Program GuestOp GuestOp.Ans

abbrev Handler := Guest (Except Fault Unit)

def log (level : Level) (message : String) : Guest Unit :=
  Program.perform (GuestOp.log level message)

def shims (venue : String) (request : Request) : Guest (Except VenueError request.Returns) :=
  Program.perform (GuestOp.client venue request)

/-- `HostVenues`: the shims with their error lifted. -/
def hostVenues (venue : Sdk.VenueId) (request : Request) :
    ExceptT VenueFault Guest request.Returns :=
  ExceptT.mk (do return (← shims venue.id request).mapError .ofVenueError)

/-! ## The typed client -/

/-- `?` on a call of the transport. -/
def transported {α : Type} (x : ExceptT VenueFault Guest α) : ExceptT ClientError Guest α :=
  ExceptT.mk (do return (← x.run).mapError .venue)

structure Priced where
  bytes : Bytes
  quotation : Quotation

namespace VenueClient

variable (V : Venue)

def quote (body : V.Body) : ExceptT ClientError Guest Priced :=
  match V.schema.toBytes body with
  | .ok bytes => do
      let quotation ← transported (hostVenues V.id (.quote bytes))
      return ⟨bytes, quotation⟩
  | .error err => throw (.body err)

def status (receipt : Bytes) : ExceptT ClientError Guest IntentStatus :=
  match guardReceipt receipt with
  | .ok () => transported (hostVenues V.id (.status receipt))
  | .error e => throw (.venue (.ofVenueError e))

def cancel (receipt : Bytes) : ExceptT ClientError Guest Unit :=
  match guardReceipt receipt with
  | .ok () => transported (hostVenues V.id (.cancel receipt))
  | .error e => throw (.venue (.ofVenueError e))

end VenueClient

/-- Submit the quoted body to the venue that priced it. -/
def Priced.submit (V : Venue) (priced : Priced) : ExceptT ClientError Guest SubmitOutcome :=
  transported (hostVenues V.id (.submit priced.bytes))

def folded {α : Type} (x : ExceptT ClientError Guest α) : ExceptT Fault Guest α :=
  ExceptT.mk (do return (← x.run).mapError .ofClientError)

/-! ## Triggers -/

structure Block where
  chainId : UInt64
  number : UInt64
  hash : Bytes
  timestamp : UInt64
  deriving DecidableEq, Repr

structure Log where
  chainId : UInt64
  address : Bytes
  topics : List Bytes
  data : Bytes
  blockHash : Option Bytes
  blockNumber : Option UInt64
  blockTimestamp : Option UInt64
  transactionHash : Option Bytes
  transactionIndex : Option UInt64
  logIndex : Option UInt64
  removed : Bool
  deriving DecidableEq, Repr

structure ScheduleTick where
  firedAt : UInt64
  deriving DecidableEq, Repr

inductive Trigger
  | block (block : Block)
  | event (log : Log)
  | schedule (tick : ScheduleTick)
  | extension (trigger : Host.ExtensionTrigger)
  deriving DecidableEq, Repr

/-- What generated code and borsh print: the detail of a parse failure, and the `Debug`
spelling of a generated status. -/
class Texts where
  readError : Borsh.ReadError → String
  status : IntentStatus → String

variable [Texts]

def decodeErrorToString : Wire.TagError → String
  | .empty => "empty status body: missing the version tag"
  | .unknownVersion version => "unknown status-body version " ++ version.toNat.repr
  | .malformed version detail =>
      "malformed version " ++ version.toNat.repr ++ " payload: " ++ Texts.readError detail

/-- The handlers present on a `#[keeper]` impl. -/
structure Handlers where
  onBlock : Option (Block → Handler)
  onEvent : Option (Log → Handler)
  onSchedule : Option (ScheduleTick → Handler)
  onIntentStatus : Option (Wire.IntentStatusUpdate → Handler)

def arm {Payload : Type} (handler : Option (Payload → Handler)) (payload : Payload) : Handler :=
  match handler with
  | some call => call payload
  | none => .done (.ok ())

/-- The dispatch `#[keeper]` emits. A foreign extension kind is another extension's. -/
def Handlers.onTrigger (handlers : Handlers) : Trigger → Handler
  | .block payload => arm handlers.onBlock payload
  | .event payload => arm handlers.onEvent payload
  | .schedule payload => arm handlers.onSchedule payload
  | .extension payload =>
      match handlers.onIntentStatus with
      | some call =>
          match intentStatusUpdate payload.extensionKind payload.payload with
          | some (.ok update) => call update
          | some (.error err) =>
              .done (.error (.invalidInput (Host.EnvelopeError.display Texts.readError err)))
          | none => .done (.ok ())
      | none => .done (.ok ())

end Worker

end Videre
