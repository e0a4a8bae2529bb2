import Videre.Host.WatchSet

/-! # From the poll to a keeper

The status-poll task wraps every update a poll returns in an envelope and sends it
on the generic extension trigger; a keeper recovers the update from the trigger's
kind and payload.
-/

namespace Videre

/-- The `custom-event.kind` an intent-status transition rides on. -/
def intentStatusKind : String := "intent-status"

namespace Sdk

/-- Recover an update from a `custom` event. `none` when the kind is another extension's. -/
def intentStatusUpdate (kind : String) (payload : Bytes) :
    Option (Except Wire.IntentStatusUpdate.EnvelopeError Wire.IntentStatusUpdate) :=
  if kind ≠ intentStatusKind then none else some (Wire.IntentStatusUpdate.decode payload)

end Sdk

namespace Host

structure ExtensionTrigger where
  extensionKind : String
  payload : Bytes
  deriving DecidableEq, Repr

structure ExtensionDelivery where
  extensionKind : String
  attrs : List (String × String)
  trigger : ExtensionTrigger
  deriving DecidableEq, Repr

/-- What the task sends for one update; an envelope that fails to encode is dropped. -/
def delivery (update : Wire.IntentStatusUpdate) : Option ExtensionDelivery :=
  match update.encode with
  | .ok payload =>
      some ⟨intentStatusKind, [("venue", update.venue)], ⟨intentStatusKind, payload⟩⟩
  | .error _ => none

/-- One round of the task over a poll's updates. Each send is answered by the receiver; the
task ends when the receiver dropped. -/
def statusPollRound : List Bool → List Wire.IntentStatusUpdate → List ExtensionDelivery
  | _, [] => []
  | sends, update :: updates =>
      match delivery update with
      | none => statusPollRound sends updates
      | some sent =>
          match sends with
          | true :: sends => sent :: statusPollRound sends updates
          | _ => []

inductive SameState : IntentStatus → Wire.IntentStatus → Prop
  | pending : SameState .pending .pending
  | open : SameState .open .open
  | fulfilled : SameState .fulfilled .fulfilled
  | cancelled : SameState .cancelled .cancelled
  | expired : SameState .expired .expired

theorem sameState_lifecycle (status : IntentStatus) : SameState status (lifecycle status) := by
  cases status with
  | pending => exact .pending
  | «open» => exact .open
  | fulfilled => exact .fulfilled
  | cancelled => exact .cancelled
  | expired => exact .expired

theorem delivery_recovers {update : Wire.IntentStatusUpdate} {sent : ExtensionDelivery}
    (sends : delivery update = some sent) :
    Sdk.intentStatusUpdate sent.trigger.extensionKind sent.trigger.payload =
      some (.ok update) := by
  unfold delivery at sends
  split at sends
  next payload encoded =>
    cases sends
    simp [Sdk.intentStatusUpdate, Wire.IntentStatusUpdate.decode_encode encoded]
  next => cases sends

/-- A round sends the deliveries of its updates, in order, up to the first refused send. -/
theorem statusPollRound_eq (sends : List Bool) (updates : List Wire.IntentStatusUpdate) :
    statusPollRound sends updates =
      (updates.filterMap delivery).take (sends.takeWhile id).length := by
  induction updates generalizing sends with
  | nil => simp [statusPollRound]
  | cons update updates ih =>
      unfold statusPollRound
      split
      next dropped => rw [List.filterMap_cons_none dropped, ih]
      next sent here =>
        rw [List.filterMap_cons_some here]
        cases sends with
        | nil => rfl
        | cons answered rest =>
            cases answered with
            | false => rfl
            | true =>
                show sent :: statusPollRound rest updates = _
                rw [ih]
                rfl

/-- What the fold reports of a polled status: its pair, and a body that states the same
lifecycle state and nothing else. -/
theorem recordPolledStatus_reports {P : Policy} {r r' : Registry} {venue : VenueId}
    {receipt : Bytes} {status : IntentStatus} {update : Wire.IntentStatusUpdate}
    (folds : r.recordPolledStatus P venue receipt status = (some update, r')) :
    ∃ body, (statusBody status).encode = .ok body ∧ update = ⟨venue.asStr, receipt, body⟩ := by
  unfold Registry.recordPolledStatus at folds
  split at folds
  next => cases folds
  next =>
    dsimp only at folds
    split at folds
    next => cases folds
    next =>
      split at folds
      next body encoded =>
        cases folds
        exact ⟨body, encoded, rfl⟩
      next => cases folds

/-- The envelope codec is exact; a keeper recovers from the delivery of a recorded transition
its venue, its receipt and its lifecycle state, with no proof and no reason; and what a round
sends is such deliveries of its updates, all of them in order up to the first refused send. -/
theorem transition_survives_wire :
    (∀ update : Wire.IntentStatusUpdate, update.Fits →
      ∃ bytes, update.encode = .ok bytes ∧ Wire.IntentStatusUpdate.decode bytes = .ok update) ∧
    (∀ bytes update, Wire.IntentStatusUpdate.decode bytes = .ok update →
      update.encode = .ok bytes) ∧
    (∀ (P : Policy) (r r' : Registry) venue receipt status update,
      r.recordPolledStatus P venue receipt status = (some update, r') →
      (venue.asStr.utf8ByteSize < 2 ^ 32 → receipt.length < 2 ^ 32 →
        ∃ sent, delivery update = some sent) ∧
      ∀ sent, delivery update = some sent →
        ∃ body state, Sdk.intentStatusUpdate sent.trigger.extensionKind sent.trigger.payload =
            some (.ok ⟨venue.asStr, receipt, body⟩) ∧
          SameState status state ∧ Wire.StatusBody.decode body = .ok ⟨state, none, none⟩) ∧
    (∀ sends updates, statusPollRound sends updates =
        (updates.filterMap delivery).take (sends.takeWhile id).length ∧
      ∀ sent ∈ statusPollRound sends updates,
        ∃ update ∈ updates, delivery update = some sent ∧
          Sdk.intentStatusUpdate sent.trigger.extensionKind sent.trigger.payload =
            some (.ok update)) := by
  refine ⟨?_, fun _ _ => Wire.IntentStatusUpdate.encode_decode, ?_, ?_⟩
  · intro update fits
    obtain ⟨bytes, wrote⟩ := fits.encodes
    exact ⟨bytes, wrote, Wire.IntentStatusUpdate.decode_encode wrote⟩
  · intro P r r' venue receipt status update folds
    obtain ⟨body, encoded, same⟩ := recordPolledStatus_reports folds
    subst same
    constructor
    · intro smallVenue smallReceipt
      obtain ⟨bare, wrote, four⟩ := Wire.StatusBody.encode_bare (lifecycle status)
      have short : body.length < 2 ^ 32 := by
        have : body = bare := Except.ok.inj (encoded.symm.trans wrote)
        rw [this, four]
        decide
      have fits : (Wire.IntentStatusUpdate.mk venue.asStr receipt body).Fits :=
        ⟨smallVenue, smallReceipt, short⟩
      obtain ⟨payload, enveloped⟩ := fits.encodes
      refine ⟨⟨intentStatusKind, [("venue", venue.asStr)], ⟨intentStatusKind, payload⟩⟩, ?_⟩
      rw [delivery, enveloped]
    · intro sent sends
      exact ⟨body, lifecycle status, delivery_recovers sends, sameState_lifecycle status,
        Wire.StatusBody.decode_encode encoded⟩
  · intro sends updates
    refine ⟨statusPollRound_eq sends updates, ?_⟩
    intro sent member
    rw [statusPollRound_eq] at member
    obtain ⟨update, there, same⟩ := List.mem_filterMap.mp (List.mem_of_mem_take member)
    exact ⟨update, there, same, delivery_recovers same⟩

end Host

end Videre
