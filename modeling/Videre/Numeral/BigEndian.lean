import Mathlib.Data.Nat.Digits.Lemmas
import Mathlib.Data.List.DropRight

/-! # Big-endian byte strings

The value of a byte string, the string of a given width, and the minimal string
of a value: the one without a leading zero byte.
-/

namespace BigEndian

/-- The number a byte string writes in base 256, most significant byte first. -/
def value (bytes : List UInt8) : Nat :=
  Nat.ofDigits 256 (bytes.reverse.map UInt8.toNat)

/-- The last `width` bytes of a number. -/
def ofWidth (width n : Nat) : List UInt8 :=
  (List.range width).map fun i => UInt8.ofNat (n / 256 ^ (width - 1 - i))

def trim (bytes : List UInt8) : List UInt8 :=
  bytes.dropWhile (· == 0)

/-- No leading zero byte. -/
def Minimal (bytes : List UInt8) : Prop :=
  bytes.head? ≠ some 0

@[simp] theorem value_nil : value [] = 0 := rfl

theorem value_concat (bytes : List UInt8) (b : UInt8) :
    value (bytes ++ [b]) = b.toNat + 256 * value bytes := by
  simp [value, Nat.ofDigits_cons]

theorem value_cons (b : UInt8) (bytes : List UInt8) :
    value (b :: bytes) = b.toNat * 256 ^ bytes.length + value bytes := by
  simp only [value, List.reverse_cons, List.map_append, List.map_cons, List.map_nil,
    Nat.ofDigits_append, Nat.ofDigits_singleton, List.length_map, List.length_reverse]
  rw [Nat.add_comm, Nat.mul_comm]

theorem value_lt (bytes : List UInt8) : value bytes < 256 ^ bytes.length := by
  have digits : ∀ d ∈ bytes.reverse.map UInt8.toNat, d < 256 := by
    intro d member
    obtain ⟨b, _, rfl⟩ := List.mem_map.mp member
    exact b.toNat_lt
  have bound := Nat.ofDigits_lt_base_pow_length (by decide) digits
  simpa [value] using bound

@[simp] theorem length_ofWidth (width n : Nat) : (ofWidth width n).length = width := by
  simp [ofWidth]

theorem ofWidth_succ (width n : Nat) :
    ofWidth (width + 1) n = ofWidth width (n / 256) ++ [UInt8.ofNat n] := by
  unfold ofWidth
  rw [List.range_succ, List.map_append, List.map_singleton]
  congr 1
  · apply List.map_congr_left
    intro i member
    have below : i < width := List.mem_range.mp member
    have places : width + 1 - 1 - i = (width - 1 - i) + 1 := by omega
    rw [places, Nat.pow_succ, Nat.mul_comm, Nat.div_div_eq_div_mul]
  · simp

theorem value_ofWidth {width n : Nat} (fits : n < 256 ^ width) : value (ofWidth width n) = n := by
  induction width generalizing n with
  | zero =>
      have : n = 0 := by simpa using fits
      rw [this]
      rfl
  | succ width ih =>
      have rest : n / 256 < 256 ^ width := by
        rw [Nat.div_lt_iff_lt_mul (by decide), ← Nat.pow_succ]
        exact fits
      rw [ofWidth_succ, value_concat, ih rest, UInt8.toNat_ofNat']
      omega

theorem ofWidth_value (bytes : List UInt8) : ofWidth bytes.length (value bytes) = bytes := by
  induction bytes using List.reverseRecOn with
  | nil => rfl
  | append_singleton bytes b ih =>
      have small := b.toNat_lt
      have quotient : value (bytes ++ [b]) / 256 = value bytes := by
        rw [value_concat]
        omega
      have last : UInt8.ofNat (value (bytes ++ [b])) = b := by
        rw [← UInt8.toNat_inj, UInt8.toNat_ofNat', value_concat]
        omega
      rw [List.length_append, List.length_singleton, ofWidth_succ, quotient, last, ih]

/-- Strings of one length have one value each. -/
theorem value_inj {first second : List UInt8} (length : first.length = second.length)
    (same : value first = value second) : first = second := by
  rw [← ofWidth_value first, ← ofWidth_value second, length, same]

@[simp] theorem value_trim (bytes : List UInt8) : value (trim bytes) = value bytes := by
  induction bytes with
  | nil => rfl
  | cons b bytes ih =>
      by_cases zero : b = 0
      · have skip : trim (b :: bytes) = trim bytes := by simp [trim, zero]
        rw [skip, ih, value_cons, zero]
        simp
      · have keep : trim (b :: bytes) = b :: bytes := by simp [trim, zero]
        rw [keep]

/-- Cutting at the first non-zero byte, when there is one, trims. -/
theorem drop_first_nonzero (bytes : List UInt8) :
    (bytes.findIdx? (· != 0)).elim [] (bytes.drop ·) = trim bytes := by
  induction bytes with
  | nil => rfl
  | cons b bytes ih =>
      by_cases zero : b = 0
      · have skip : trim (b :: bytes) = trim bytes := by simp [trim, zero]
        rw [skip, ← ih, zero]
        cases found : bytes.findIdx? (· != 0) with
        | none => simp [List.findIdx?_cons, found]
        | some index => simp [List.findIdx?_cons, found]
      · have keep : trim (b :: bytes) = b :: bytes := by simp [trim, zero]
        simp [keep, List.findIdx?_cons, zero]

theorem length_trim_le (bytes : List UInt8) : (trim bytes).length ≤ bytes.length :=
  (List.dropWhile_suffix _).length_le

theorem minimal_trim (bytes : List UInt8) : Minimal (trim bytes) := by
  intro zero
  have kept := List.head?_dropWhile_not (· == (0 : UInt8)) bytes
  unfold trim at zero
  rw [zero] at kept
  simp at kept

/-- The leading byte of a minimal string counts. -/
theorem Minimal.le_value {bytes : List UInt8} (minimal : Minimal bytes) (some_ : bytes ≠ []) :
    256 ^ (bytes.length - 1) ≤ value bytes := by
  cases bytes with
  | nil => exact absurd rfl some_
  | cons b bytes =>
      have one : 1 ≤ b.toNat := by
        have : b.toNat ≠ 0 := by
          intro zero
          apply minimal
          rw [List.head?_cons, Option.some.injEq, ← UInt8.toNat_inj, zero]
          rfl
        omega
      rw [value_cons, List.length_cons, Nat.add_sub_cancel]
      calc 256 ^ bytes.length = 1 * 256 ^ bytes.length := (Nat.one_mul _).symm
        _ ≤ b.toNat * 256 ^ bytes.length := Nat.mul_le_mul_right _ one
        _ ≤ b.toNat * 256 ^ bytes.length + value bytes := Nat.le_add_right _ _

/-- A minimal string is no longer than any string of the same value. -/
theorem Minimal.shortest {bytes other : List UInt8} (minimal : Minimal bytes)
    (same : value other = value bytes) : bytes.length ≤ other.length := by
  by_cases none_ : bytes = []
  · rw [none_]
    exact Nat.zero_le _
  · have low := minimal.le_value none_
    have high := value_lt other
    rw [same] at high
    have := (Nat.pow_lt_pow_iff_right (by decide)).mp (Nat.lt_of_le_of_lt low high)
    have := List.length_pos_iff.mpr none_
    omega

/-- Minimal strings have one value each. -/
theorem Minimal.eq_of_value {first second : List UInt8} (minimal : Minimal first)
    (minimal' : Minimal second) (same : value first = value second) : first = second := by
  have le := minimal.shortest same.symm
  have ge := minimal'.shortest same
  exact value_inj (Nat.le_antisymm le ge) same

/-- The trimmed string of a number does not depend on the width it was written at. -/
theorem trim_ofWidth {width width' n : Nat} (fits : n < 256 ^ width) (fits' : n < 256 ^ width') :
    trim (ofWidth width n) = trim (ofWidth width' n) := by
  apply (minimal_trim _).eq_of_value (minimal_trim _)
  rw [value_trim, value_trim, value_ofWidth fits, value_ofWidth fits']

end BigEndian
