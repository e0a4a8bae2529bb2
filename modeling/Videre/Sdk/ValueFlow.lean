import Videre.Numeral.BigEndian
import Videre.Wit.Types

/-! # The canonical `uint`

An amount crosses the wire as the minimal big-endian string of its value. The
decoder rejects what the encoder does not write; width is checked before padding.
-/

namespace Videre.Sdk

open BigEndian

abbrev U256 := BitVec 256

inductive UintError
  | leadingZero
  | overflow (len : Nat)
  deriving DecidableEq, Repr

def UintError.toString : UintError → String
  | .leadingZero => "non-minimal uint: leading zero byte"
  | .overflow len => "uint of " ++ len.repr ++ " bytes overflows the 32-byte EVM word"

/-- What the codec uses of the integer library: the trimmed string is the 32-byte one less its
leading zero bytes, and strings within 32 bytes are read as big-endian. -/
structure Ruint where
  toBeBytesTrimmedVec : U256 → Bytes
  fromBeSlice : Bytes → U256
  trims : ∀ v, toBeBytesTrimmedVec v = trim (ofWidth 32 v.toNat)
  reads : ∀ bytes, bytes.length ≤ 32 → (fromBeSlice bytes).toNat = value bytes

namespace Ruint

variable (R : Ruint)

def encodeUint (v : U256) : Bytes :=
  R.toBeBytesTrimmedVec v

def decodeUint (bytes : Bytes) : Except UintError U256 :=
  if bytes.length > 32 then .error (.overflow bytes.length)
  else if bytes.head? = some 0 then .error .leadingZero
  else .ok (R.fromBeSlice bytes)

theorem value_encodeUint (v : U256) : value (R.encodeUint v) = v.toNat := by
  unfold encodeUint
  rw [R.trims, value_trim, value_ofWidth]
  exact v.isLt

theorem minimal_encodeUint (v : U256) : Minimal (R.encodeUint v) := by
  unfold encodeUint
  rw [R.trims]
  exact minimal_trim _

theorem length_encodeUint (v : U256) : (R.encodeUint v).length ≤ 32 := by
  unfold encodeUint
  rw [R.trims]
  exact Nat.le_trans (length_trim_le _) (Nat.le_of_eq (length_ofWidth 32 _))

/-- The decoder accepts exactly the minimal strings of at most 32 bytes. -/
theorem decodeUint_ok {bytes : Bytes} {v : U256} :
    R.decodeUint bytes = .ok v ↔ bytes.length ≤ 32 ∧ Minimal bytes ∧ R.fromBeSlice bytes = v := by
  unfold decodeUint
  by_cases long : bytes.length > 32
  · rw [if_pos long]
    exact ⟨nofun, fun ⟨short, _⟩ => absurd short (by omega)⟩
  · rw [if_neg long]
    have short : bytes.length ≤ 32 := by omega
    by_cases padded : bytes.head? = some 0
    · rw [if_pos padded]
      exact ⟨nofun, fun ⟨_, minimal, _⟩ => absurd padded minimal⟩
    · rw [if_neg padded, Except.ok.injEq]
      exact ⟨fun same => ⟨short, padded, same⟩, fun ⟨_, _, same⟩ => same⟩

theorem decodeUint_encodeUint (v : U256) : R.decodeUint (R.encodeUint v) = .ok v := by
  rw [decodeUint_ok]
  have short := R.length_encodeUint v
  refine ⟨short, R.minimal_encodeUint v, ?_⟩
  apply BitVec.eq_of_toNat_eq
  rw [R.reads _ short, value_encodeUint]

theorem encodeUint_decodeUint {bytes : Bytes} {v : U256} (parsed : R.decodeUint bytes = .ok v) :
    R.encodeUint v = bytes := by
  obtain ⟨short, minimal, same⟩ := R.decodeUint_ok.mp parsed
  apply (R.minimal_encodeUint v).eq_of_value minimal
  rw [value_encodeUint, ← same, R.reads bytes short]

/-- The codec is a bijection between the 256-bit values and the minimal strings of at most 32
bytes; what it rejects is too long or, when it is not, padded. -/
theorem uint_codec_bijective :
    (∀ v, R.decodeUint (R.encodeUint v) = .ok v) ∧
    (∀ v, value (R.encodeUint v) = v.toNat ∧
      ∀ bytes, value bytes = v.toNat → (R.encodeUint v).length ≤ bytes.length) ∧
    R.encodeUint 0 = [] ∧
    (∀ bytes, (∃ v, R.decodeUint bytes = .ok v) ↔ bytes.length ≤ 32 ∧ bytes.head? ≠ some 0) ∧
    (∀ bytes v, R.decodeUint bytes = .ok v → R.encodeUint v = bytes) ∧
    (∀ bytes, 32 < bytes.length → R.decodeUint bytes = .error (.overflow bytes.length)) ∧
    (∀ bytes, bytes.length ≤ 32 → bytes.head? = some 0 →
      R.decodeUint bytes = .error .leadingZero) ∧
    (∀ a b v w, R.decodeUint a = .ok v → R.decodeUint b = .ok w → (a = b ↔ v = w)) := by
  refine ⟨R.decodeUint_encodeUint, ?_, ?_, ?_, fun _ _ => R.encodeUint_decodeUint, ?_, ?_, ?_⟩
  · intro v
    have here := R.value_encodeUint v
    exact ⟨here, fun bytes same => (R.minimal_encodeUint v).shortest (same.trans here.symm)⟩
  · have empty : Minimal [] := nofun
    apply (R.minimal_encodeUint 0).eq_of_value empty
    rw [value_encodeUint]
    rfl
  · intro bytes
    constructor
    · rintro ⟨v, parsed⟩
      obtain ⟨short, minimal, _⟩ := R.decodeUint_ok.mp parsed
      exact ⟨short, minimal⟩
    · rintro ⟨short, minimal⟩
      exact ⟨_, R.decodeUint_ok.mpr ⟨short, minimal, rfl⟩⟩
  · intro bytes long
    exact if_pos long
  · intro bytes short padded
    unfold decodeUint
    rw [if_neg (by omega), if_pos padded]
  · intro a b v w first second
    constructor
    · intro same
      rw [same, second] at first
      exact (Except.ok.inj first).symm
    · intro same
      rw [← R.encodeUint_decodeUint first, ← R.encodeUint_decodeUint second, same]

/-! ## Amounts -/

def erc20 (token : Bytes) (amount : U256) : AssetAmount :=
  ⟨.erc20 token, R.encodeUint amount⟩

/-- A settlement-chain gas-token amount. -/
def native (amount : U256) : AssetAmount :=
  ⟨.native, R.encodeUint amount⟩

def amountValue (amount : AssetAmount) : Except UintError U256 :=
  R.decodeUint amount.amount

theorem amountValue_constructors (token : Bytes) (amount : U256) :
    R.amountValue (R.erc20 token amount) = .ok amount ∧
      R.amountValue (R.native amount) = .ok amount :=
  ⟨R.decodeUint_encodeUint amount, R.decodeUint_encodeUint amount⟩

end Ruint

/-- The library on bit vectors. -/
def ruint : Ruint where
  toBeBytesTrimmedVec v := trim (ofWidth 32 v.toNat)
  fromBeSlice bytes := BitVec.ofNat 256 (value bytes)
  trims := fun _ => rfl
  reads := by
    intro bytes short
    rw [BitVec.toNat_ofNat, Nat.mod_eq_of_lt]
    calc value bytes < 256 ^ bytes.length := value_lt bytes
      _ ≤ 256 ^ 32 := Nat.pow_le_pow_right (by decide) short

example : ruint.encodeUint 256 = [1, 0] := by decide

end Videre.Sdk
