import Videre.Sdk.ValueFlow

/-! # The echo venue

The reference adapter prices a body by its length. A native venue does not link the
guest SDK, so it writes amounts with an encoder of its own, which searches a fixed
array for its first non-zero byte.
-/

namespace Videre.Echo

open BigEndian Sdk

/-- A byte slice; its length is a `usize`. -/
abbrev Slice := { bytes : Bytes // bytes.length < UInt64.size }

/-- Bytes as a slice; there is no other slice. -/
def Slice.of? (bytes : Bytes) : Option Slice :=
  if fits : bytes.length < UInt64.size then some ⟨bytes, fits⟩ else none

def Slice.len (body : Slice) : UInt64 :=
  UInt64.ofNatLT body.val.length body.property

def toBeBytes (value : UInt64) : Bytes :=
  ofWidth 8 value.toNat

/-- The canonical `uint`: minimal big-endian, zero is empty. -/
def minimalBe (value : UInt64) : Bytes :=
  let bytes := toBeBytes value
  let first := bytes.findIdx? (· != 0)
  first.elim [] fun index => bytes.drop index

def zeroNative : AssetAmount :=
  ⟨.native, []⟩

def settlementChain : UInt64 := 1

/-- Project the body onto its header: gives the body length, wants nothing. -/
def deriveHeader (body : Slice) : Except VenueError IntentHeader :=
  .ok
    { gives := ⟨.native, minimalBe body.len⟩
      wants := zeroNative
      settlement := ⟨settlementChain⟩
      authorisation := .eip1271 }

/-- Price the body as its header does, at no fee; the quote never expires. -/
def quote (body : Slice) : Except VenueError Quotation :=
  .ok
    { gives := ⟨.native, minimalBe body.len⟩
      wants := zeroNative
      fee := zeroNative
      validUntilMs := UInt64.ofNat (UInt64.size - 1) }

/-- Accept the body, echoing it back as the receipt. -/
def submit (body : Bytes) : Except VenueError SubmitOutcome :=
  .ok (.accepted body)

def status (_ : Bytes) : Except VenueError IntentStatus :=
  .ok .fulfilled

def cancel (_ : Bytes) : Except VenueError Unit :=
  .ok ()

def bodyVersions : List UInt32 := [1]

/-- A `u64` as the SDK's 256-bit amount. -/
def word (value : UInt64) : U256 :=
  BitVec.ofNat 256 value.toNat

theorem toNat_word (value : UInt64) : (word value).toNat = value.toNat := by
  have small := value.toNat_lt
  unfold word
  rw [BitVec.toNat_ofNat, Nat.mod_eq_of_lt (by omega)]

theorem minimalBe_eq_trim (value : UInt64) : minimalBe value = trim (ofWidth 8 value.toNat) :=
  drop_first_nonzero (toBeBytes value)

variable (R : Ruint)

theorem minimalBe_eq_encodeUint (value : UInt64) : minimalBe value = R.encodeUint (word value) := by
  have small : value.toNat < 256 ^ 8 := value.toNat_lt
  have wide : value.toNat < 256 ^ 32 := Nat.lt_trans small (by decide)
  unfold Ruint.encodeUint
  rw [minimalBe_eq_trim, R.trims, toNat_word]
  exact trim_ofWidth small wide

theorem decodeUint_minimalBe (value : UInt64) :
    (R.decodeUint (minimalBe value)).map BitVec.toNat = .ok value.toNat := by
  rw [minimalBe_eq_encodeUint R, R.decodeUint_encodeUint]
  exact congrArg Except.ok (toNat_word value)

theorem amountValue_zeroNative : (R.amountValue zeroNative).map BitVec.toNat = .ok 0 :=
  decodeUint_minimalBe R 0

/-- The venue's encoder writes what the SDK's does, and the SDK reads every amount of a header
or a quotation: the body length given, and nothing wanted or charged. -/
theorem echo_amounts_canonical :
    (∀ value, minimalBe value = R.encodeUint (word value) ∧ (word value).toNat = value.toNat) ∧
    (∀ body, ∃ header, deriveHeader body = .ok header ∧
      (R.amountValue header.gives).map BitVec.toNat = .ok body.val.length ∧
      (R.amountValue header.wants).map BitVec.toNat = .ok 0) ∧
    (∀ body, ∃ quotation, quote body = .ok quotation ∧
      (R.amountValue quotation.gives).map BitVec.toNat = .ok body.val.length ∧
      (R.amountValue quotation.wants).map BitVec.toNat = .ok 0 ∧
      (R.amountValue quotation.fee).map BitVec.toNat = .ok 0) := by
  have given : ∀ body : Slice,
      (R.amountValue ⟨.native, minimalBe body.len⟩).map BitVec.toNat = .ok body.val.length := by
    intro body
    have length : body.len.toNat = body.val.length := UInt64.toNat_ofNatLT ..
    rw [← length]
    exact decodeUint_minimalBe R body.len
  have nothing := amountValue_zeroNative R
  refine ⟨fun value => ⟨minimalBe_eq_encodeUint R value, toNat_word value⟩, ?_, ?_⟩
  · intro body
    exact ⟨_, rfl, given body, nothing⟩
  · intro body
    exact ⟨_, rfl, given body, nothing, nothing⟩

end Videre.Echo
