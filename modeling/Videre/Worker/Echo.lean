import Videre.Echo.Venue
import Videre.Worker.Guest

/-! # The echo modules

The echo keeper drives the echo venue through the typed client on every block; the echo
client does the same through the raw import and goes on past a refusal. Both log each
intent-status transition fanned back to them.
-/

namespace Videre.Worker

open Interaction Sdk Client

/-- The keeper's published body schema; the first version is the block number. -/
def echoBody : VersionEnum where
  variants := [.ofFormat .u64]
  published := List.cons_ne_nil _ _
  tagged := by decide

def echoVenue : Venue := ⟨⟨"echo-venue"⟩, echoBody⟩

def lifecycleDebug : Wire.IntentStatus → String
  | .pending => "Pending"
  | .open => "Open"
  | .fulfilled => "Fulfilled"
  | .cancelled => "Cancelled"
  | .expired => "Expired"

variable [Texts]

def logTransition (update : Wire.IntentStatusUpdate) : Handler :=
  match Wire.StatusBody.decode update.status with
  | .error err => .done (.error (.invalidInput (decodeErrorToString err)))
  | .ok body => do
      log .info ("intent status from venue " ++ update.venue ++ ": " ++
        lifecycleDebug body.status ++ " (" ++ update.receipt.length.repr ++ " receipt bytes)")
      return .ok ()

namespace EchoKeeper

def onBlock (block : Block) : ExceptT Fault Guest Unit := do
  let quoted ← folded (VenueClient.quote echoVenue (.this block.number))
  log .info ("quoted at " ++ echoVenue.id.id ++ ": gives " ++
    quoted.quotation.gives.amount.length.repr ++ " amount bytes")
  match ← folded (quoted.submit echoVenue) with
  | .requiresSigning _ => log .warn (echoVenue.id.id ++ " unexpectedly asked for a signature")
  | .accepted receipt =>
      log .info ("submitted to " ++ echoVenue.id.id ++ ": receipt " ++
        receipt.length.repr ++ " bytes")
      let status ← folded (VenueClient.status echoVenue receipt)
      log .info ("status at " ++ echoVenue.id.id ++ ": " ++ Texts.status status)
      folded (VenueClient.cancel echoVenue receipt)
      log .info ("cancelled at " ++ echoVenue.id.id)

def handlers : Handlers where
  onBlock := some fun block => (onBlock block).run
  onEvent := none
  onSchedule := none
  onIntentStatus := some logTransition

end EchoKeeper

namespace EchoClient

/-- Venue id the paired adapter answers for. -/
def echoVenueId : String := "echo-venue"

/-- Any bytes do as a body; the block number keeps it legible in the logs. -/
def onBlock (block : Block) : Handler := do
  let body := Echo.toBeBytes block.number
  match ← shims echoVenueId (.quote body) with
  | .ok quotation =>
      log .info ("quoted " ++ body.length.repr ++ " bytes at " ++ echoVenueId ++ ": gives " ++
        (quotation : Quotation).gives.amount.length.repr ++ " amount bytes")
  | .error _ => log .warn ("quote at " ++ echoVenueId ++ " was refused")
  match ← shims echoVenueId (.submit body) with
  | .ok (.accepted receipt) =>
      log .info ("submitted " ++ body.length.repr ++ " bytes to " ++ echoVenueId ++
        ", receipt " ++ receipt.length.repr ++ " bytes")
  | .ok (.requiresSigning _) =>
      log .warn (echoVenueId ++ " unexpectedly asked for a signature")
  | .error _ => log .warn ("submit to " ++ echoVenueId ++ " was refused")
  return .ok ()

def onExtension (trigger : Host.ExtensionTrigger) : Handler :=
  if trigger.extensionKind ≠ intentStatusKind then .done (.ok ())
  else
    match Wire.IntentStatusUpdate.decode trigger.payload with
    | .error err => .done (.error (.invalidInput (Host.EnvelopeError.display Texts.readError err)))
    | .ok update => logTransition update

/-- The dispatch of a plain module over the two handlers present. -/
def onTrigger : Trigger → Handler
  | .block payload => onBlock payload
  | .extension payload => onExtension payload
  | .event _ | .schedule _ => .done (.ok ())

end EchoClient

/-! ## The handlers as trees -/

namespace EchoKeeper

def bodyOf (block : Block) : Bytes :=
  0 :: (Borsh.Format.u32Bytes (UInt32.ofNat block.number.toNat) ++
    Borsh.Format.u32Bytes (UInt32.ofNat (block.number.toNat / 4294967296)))

omit [Texts] in
theorem toBytes_this (block : Block) :
    echoVenue.schema.toBytes (.this block.number) = .ok (bodyOf block) := rfl

end EchoKeeper

/-- The emitted dispatch treats an extension delivery as the hand-written one does. -/
theorem transitions_alike (trigger : Host.ExtensionTrigger) :
    EchoKeeper.handlers.onTrigger (.extension trigger) =
      EchoClient.onTrigger (.extension trigger) := by
  simp only [Handlers.onTrigger, EchoKeeper.handlers, EchoClient.onTrigger, EchoClient.onExtension,
    intentStatusUpdate]
  by_cases kind : trigger.extensionKind = intentStatusKind
  · rw [if_neg (not_not_intro kind), if_neg (not_not_intro kind)]
    cases Wire.IntentStatusUpdate.decode trigger.payload <;> rfl
  · rw [if_pos kind, if_pos kind]

end Videre.Worker
