import Videre.Borsh.Format
import Videre.Wit.Types

/-! # The status-body codec

Two payloads lead with one version tag each: the status body and the envelope
that carries it. Both fail closed, so the two codecs are one definition over the
tag and the layout behind it.
-/

namespace Videre.Wire

structure EncodeError where
  detail : Borsh.WriteError
  deriving DecidableEq, Repr

/-- Why bytes failed to decode as a tagged payload. -/
inductive TagError
  | empty
  | unknownVersion (version : UInt8)
  | malformed (version : UInt8) (detail : Borsh.ReadError)
  deriving DecidableEq, Repr

section Tagged

variable {α : Type}

def encodeTagged (version : UInt8) (F : Borsh.Format α) (a : α) : Except EncodeError Bytes :=
  match F.write a with
  | .ok payload => .ok (version :: payload)
  | .error err => .error ⟨err⟩

def decodeTagged (version : UInt8) (F : Borsh.Format α) : Bytes → Except TagError α
  | [] => .error .empty
  | tag :: payload =>
      if tag = version then
        match F.fromSlice payload with
        | .ok a => .ok a
        | .error err => .error (.malformed version err)
      else .error (.unknownVersion tag)

theorem decodeTagged_encodeTagged {version : UInt8} {F : Borsh.Format α} {a : α} {bytes : Bytes}
    (wrote : encodeTagged version F a = .ok bytes) : decodeTagged version F bytes = .ok a := by
  unfold encodeTagged at wrote
  split at wrote
  next payload hpayload =>
    cases wrote
    simp [decodeTagged, F.fromSlice_write hpayload]
  next => cases wrote

theorem encodeTagged_decodeTagged {version : UInt8} {F : Borsh.Format α} {a : α} {bytes : Bytes}
    (parsed : decodeTagged version F bytes = .ok a) : encodeTagged version F a = .ok bytes := by
  cases bytes with
  | nil => cases parsed
  | cons tag payload =>
      simp only [decodeTagged] at parsed
      split at parsed
      next same =>
        split at parsed
        next b hb =>
          cases parsed
          simp [encodeTagged, F.write_fromSlice hb, same]
        next => cases parsed
      next => cases parsed

/-- An accepted payload has no accepted continuation. -/
theorem decodeTagged_prefix {version : UInt8} {F : Borsh.Format α} {a b : α} {bytes more : Bytes}
    (short : decodeTagged version F bytes = .ok a)
    (long : decodeTagged version F (bytes ++ more) = .ok b) : more = [] := by
  cases bytes with
  | nil => cases short
  | cons tag payload =>
      rw [List.cons_append] at long
      simp only [decodeTagged] at short long
      by_cases same : tag = version
      · rw [if_pos same] at short long
        split at short
        next a' first =>
          split at long
          next b' second => exact F.fromSlice_prefix first second
          next => cases long
        next => cases short
      · rw [if_neg same] at short
        cases short

theorem encodeTagged_writes {version : UInt8} {F : Borsh.Format α} {a : α} (writes : F.Writes a) :
    ∃ bytes, encodeTagged version F a = .ok bytes := by
  obtain ⟨payload, wrote⟩ := writes
  exact ⟨version :: payload, by rw [encodeTagged, wrote]⟩

/-- A rejection says which of the three ways the bytes fail. -/
theorem decodeTagged_error {version : UInt8} {F : Borsh.Format α} {bytes : Bytes} {e : TagError}
    (rejected : decodeTagged version F bytes = .error e) :
    (bytes = [] ∧ e = .empty) ∨
    (∃ tag rest, bytes = tag :: rest ∧ tag ≠ version ∧ e = .unknownVersion tag) ∨
    (∃ rest detail, bytes = version :: rest ∧ e = .malformed version detail) := by
  cases bytes with
  | nil =>
      cases rejected
      exact .inl ⟨rfl, rfl⟩
  | cons tag payload =>
      right
      simp only [decodeTagged] at rejected
      split at rejected
      next same =>
        split at rejected
        next => cases rejected
        next detail _ =>
          cases rejected
          exact .inr ⟨payload, detail, by rw [same], rfl⟩
      next other =>
        cases rejected
        exact .inl ⟨tag, payload, rfl, other, rfl⟩

end Tagged

/-! ## The status body -/

def versionV1 : UInt8 := 1

/-- Where an intent is in its life at the venue; the order is wire form. -/
inductive IntentStatus
  | pending
  | open
  | fulfilled
  | cancelled
  | expired
  deriving DecidableEq, Repr

def IntentStatus.format : Borsh.Format IntentStatus :=
  .variant
    (fun
      | .pending => 0
      | .open => 1
      | .fulfilled => 2
      | .cancelled => 3
      | .expired => 4)
    (fun tag =>
      if tag = 0 then some .pending
      else if tag = 1 then some .open
      else if tag = 2 then some .fulfilled
      else if tag = 3 then some .cancelled
      else if tag = 4 then some .expired
      else none)
    (by
      intro status
      cases status <;> rfl)
    (by
      intro tag status selected
      split_ifs at selected <;> cases selected <;> exact Eq.symm ‹_›)

/-- Why an intent failed terminally, as the venue reports it. -/
structure FailReason where
  code : String
  detail : String
  deriving DecidableEq, Repr

def FailReason.format : Borsh.Format FailReason :=
  (Borsh.Format.string.pair .string).iso (fun x => ⟨x.1, x.2⟩) (fun r => (r.code, r.detail))
    (fun _ => rfl) (fun _ => rfl)

structure StatusBody where
  status : IntentStatus
  proof : Option Bytes
  reason : Option FailReason
  deriving DecidableEq, Repr

namespace StatusBody

def format : Borsh.Format StatusBody :=
  (IntentStatus.format.pair ((Borsh.Format.bytes.option).pair FailReason.format.option)).iso
    (fun x => ⟨x.1, x.2.1, x.2.2⟩) (fun b => (b.status, b.proof, b.reason))
    (fun _ => rfl) (fun _ => rfl)

abbrev DecodeError := TagError

def encode (body : StatusBody) : Except EncodeError Bytes :=
  encodeTagged versionV1 format body

def decode (bytes : Bytes) : Except DecodeError StatusBody :=
  decodeTagged versionV1 format bytes

theorem decode_encode {body : StatusBody} {bytes : Bytes} (wrote : body.encode = .ok bytes) :
    decode bytes = .ok body :=
  decodeTagged_encodeTagged wrote

theorem encode_decode {body : StatusBody} {bytes : Bytes} (parsed : decode bytes = .ok body) :
    body.encode = .ok bytes :=
  encodeTagged_decodeTagged parsed

/-- A body that only states the lifecycle always encodes, in four bytes. -/
theorem encode_bare (status : IntentStatus) :
    ∃ bytes, (StatusBody.mk status none none).encode = .ok bytes ∧ bytes.length = 4 := by
  cases status <;> exact ⟨_, rfl, rfl⟩

/-- Every field is within the wire's `u32` length bound. -/
structure Fits (body : StatusBody) : Prop where
  proof : ∀ proof, body.proof = some proof → proof.length < 2 ^ 32
  code : ∀ reason, body.reason = some reason → reason.code.utf8ByteSize < 2 ^ 32
  detail : ∀ reason, body.reason = some reason → reason.detail.utf8ByteSize < 2 ^ 32

theorem Fits.encodes {body : StatusBody} (fits : body.Fits) :
    ∃ bytes, body.encode = .ok bytes := by
  apply encodeTagged_writes
  apply Borsh.Format.Writes.iso
  apply Borsh.Format.Writes.pair ⟨_, rfl⟩
  apply Borsh.Format.Writes.pair
  · exact .option fun proof present => Borsh.Format.writes_bytes (fits.proof proof present)
  · apply Borsh.Format.Writes.option
    intro reason present
    apply Borsh.Format.Writes.iso
    exact .pair (Borsh.Format.writes_string (fits.code reason present))
      (Borsh.Format.writes_string (fits.detail reason present))

/-- The codec is a bijection onto the strings it accepts, no accepted string extends another,
and a rejection names what is wrong with the leading byte or the payload. -/
theorem codec_bijective :
    (∀ body : StatusBody, body.Fits →
      ∃ bytes, body.encode = .ok bytes ∧ decode bytes = .ok body) ∧
    (∀ bytes body, decode bytes = .ok body → body.encode = .ok bytes) ∧
    (∀ bytes bytes' body, decode bytes = .ok body → decode bytes' = .ok body → bytes = bytes') ∧
    (∀ bytes more body body', decode bytes = .ok body → decode (bytes ++ more) = .ok body' →
      more = []) ∧
    decode [] = .error .empty ∧
    (∀ tag rest, tag ≠ 1 → decode (tag :: rest) = .error (.unknownVersion tag)) ∧
    (∀ rest e, decode (1 :: rest) = .error e → ∃ detail, e = .malformed 1 detail) := by
  refine ⟨?_, fun _ _ => encode_decode, ?_, fun _ _ _ _ => decodeTagged_prefix, rfl, ?_, ?_⟩
  · intro body fits
    obtain ⟨bytes, wrote⟩ := fits.encodes
    exact ⟨bytes, wrote, decode_encode wrote⟩
  · intro bytes bytes' body first second
    have same := (encode_decode first).symm.trans (encode_decode second)
    exact Except.ok.inj same
  · intro tag rest other
    exact if_neg other
  · intro rest e rejected
    rcases decodeTagged_error rejected with ⟨empty, _⟩ | ⟨tag, _, split, other, _⟩ |
      ⟨_, detail, _, he⟩
    · cases empty
    · cases split
      exact absurd rfl other
    · exact ⟨detail, he⟩

example : (StatusBody.mk .fulfilled (some [0xaa, 0xbb]) none).encode =
    .ok [versionV1, 2, 1, 2, 0, 0, 0, 0xaa, 0xbb, 0] := by decide

end StatusBody

/-! ## The envelope -/

def envelopeVersionV1 : UInt8 := 1

/-- What an intent-status event carries. -/
structure IntentStatusUpdate where
  venue : String
  receipt : Bytes
  status : Bytes
  deriving DecidableEq, Repr

namespace IntentStatusUpdate

def format : Borsh.Format IntentStatusUpdate :=
  (Borsh.Format.string.pair (Borsh.Format.bytes.pair .bytes)).iso
    (fun x => ⟨x.1, x.2.1, x.2.2⟩) (fun u => (u.venue, u.receipt, u.status))
    (fun _ => rfl) (fun _ => rfl)

abbrev EnvelopeError := TagError

def encode (update : IntentStatusUpdate) : Except EncodeError Bytes :=
  encodeTagged envelopeVersionV1 format update

def decode (bytes : Bytes) : Except EnvelopeError IntentStatusUpdate :=
  decodeTagged envelopeVersionV1 format bytes

/-- Every field is within the wire's `u32` length bound. -/
structure Fits (update : IntentStatusUpdate) : Prop where
  venue : update.venue.utf8ByteSize < 2 ^ 32
  receipt : update.receipt.length < 2 ^ 32
  status : update.status.length < 2 ^ 32

theorem decode_encode {update : IntentStatusUpdate} {bytes : Bytes}
    (wrote : update.encode = .ok bytes) : decode bytes = .ok update :=
  decodeTagged_encodeTagged wrote

theorem encode_decode {update : IntentStatusUpdate} {bytes : Bytes}
    (parsed : decode bytes = .ok update) : update.encode = .ok bytes :=
  encodeTagged_decodeTagged parsed

theorem Fits.encodes {update : IntentStatusUpdate} (fits : update.Fits) :
    ∃ bytes, update.encode = .ok bytes := by
  apply encodeTagged_writes
  apply Borsh.Format.Writes.iso
  apply Borsh.Format.Writes.pair (Borsh.Format.writes_string fits.venue)
  exact .pair (Borsh.Format.writes_bytes fits.receipt) (Borsh.Format.writes_bytes fits.status)

end IntentStatusUpdate

end Videre.Wire
