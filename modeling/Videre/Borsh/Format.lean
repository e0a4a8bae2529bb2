import Mathlib.Algebra.Group.Nat.Defs
import Mathlib.Data.List.Basic

/-! # Exact formats

A format writes a value as bytes and reads one back off the front of a string.
It is exact when reading what was written gives the value and leaves the rest,
and when what was read is what writing the value gives. Formats with both laws
are closed under the layouts below: little-endian words, length-prefixed bytes,
strings, options, pairs and index bytes.
-/

namespace Borsh

/-- Why a value has no bytes: a length past the `u32` prefix. -/
inductive WriteError
  | lengthOverflow
  deriving DecidableEq, Repr

inductive ReadError
  | unexpectedLength
  | invalidOption (tag : UInt8)
  | invalidVariant (tag : UInt8)
  | invalidUtf8
  | notAllBytesRead
  deriving DecidableEq, Repr

structure Format (α : Type) where
  write : α → Except WriteError (List UInt8)
  read : List UInt8 → Except ReadError (α × List UInt8)
  read_write : ∀ {a : α} {bytes : List UInt8}, write a = .ok bytes →
    ∀ rest, read (bytes ++ rest) = .ok (a, rest)
  write_read : ∀ {a : α} {bytes rest : List UInt8}, read bytes = .ok (a, rest) →
    ∃ used, write a = .ok used ∧ bytes = used ++ rest

namespace Format

variable {α β : Type}

/-- Parse a whole byte string. -/
def fromSlice (F : Format α) (bytes : List UInt8) : Except ReadError α :=
  match F.read bytes with
  | .error e => .error e
  | .ok (a, []) => .ok a
  | .ok (_, _ :: _) => .error .notAllBytesRead

theorem fromSlice_write (F : Format α) {a : α} {bytes : List UInt8}
    (wrote : F.write a = .ok bytes) : F.fromSlice bytes = .ok a := by
  have back := F.read_write wrote []
  rw [List.append_nil] at back
  simp [fromSlice, back]

theorem write_fromSlice (F : Format α) {a : α} {bytes : List UInt8}
    (parsed : F.fromSlice bytes = .ok a) : F.write a = .ok bytes := by
  unfold fromSlice at parsed
  split at parsed
  next => cases parsed
  next b heq =>
    cases parsed
    obtain ⟨used, wrote, split⟩ := F.write_read heq
    rw [wrote, split, List.append_nil]
  next => cases parsed

/-- No accepted string is a proper prefix of another. -/
theorem fromSlice_prefix (F : Format α) {a b : α} {bytes more : List UInt8}
    (short : F.fromSlice bytes = .ok a) (long : F.fromSlice (bytes ++ more) = .ok b) :
    more = [] := by
  have front := F.read_write (F.write_fromSlice short) more
  unfold fromSlice at long
  rw [front] at long
  cases more with
  | nil => rfl
  | cons x more => cases long

def Writes (F : Format α) (a : α) : Prop :=
  ∃ bytes, F.write a = .ok bytes

/-! ## Index bytes -/

/-- One byte that selects a value, as the index of a variant without fields does. -/
def variant (tag : α → UInt8) (ofTag : UInt8 → Option α) (of_tag : ∀ a, ofTag (tag a) = some a)
    (tag_of : ∀ {t a}, ofTag t = some a → tag a = t) : Format α where
  write a := .ok [tag a]
  read
    | [] => .error .unexpectedLength
    | t :: rest =>
        match ofTag t with
        | some a => .ok (a, rest)
        | none => .error (.invalidVariant t)
  read_write := by
    intro a bytes wrote rest
    cases wrote
    simp [of_tag]
  write_read := by
    intro a bytes rest parsed
    cases bytes with
    | nil => cases parsed
    | cons t tail =>
        simp only at parsed
        split at parsed
        next b heq =>
          cases parsed
          exact ⟨[tag a], rfl, by rw [tag_of heq]; rfl⟩
        next => cases parsed

/-! ## Little-endian words -/

def u32Bytes (n : UInt32) : List UInt8 :=
  [UInt8.ofNat n.toNat, UInt8.ofNat (n.toNat / 256), UInt8.ofNat (n.toNat / 65536),
    UInt8.ofNat (n.toNat / 16777216)]

def u32OfBytes (a b c d : UInt8) : UInt32 :=
  UInt32.ofNat (a.toNat + 256 * b.toNat + 65536 * c.toNat + 16777216 * d.toNat)

theorem u32OfBytes_u32Bytes (n : UInt32) :
    u32OfBytes (UInt8.ofNat n.toNat) (UInt8.ofNat (n.toNat / 256))
      (UInt8.ofNat (n.toNat / 65536)) (UInt8.ofNat (n.toNat / 16777216)) = n := by
  have bound := n.toNat_lt
  unfold u32OfBytes
  simp only [UInt8.toNat_ofNat']
  have digits : n.toNat % 2 ^ 8 + 256 * (n.toNat / 256 % 2 ^ 8) +
      65536 * (n.toNat / 65536 % 2 ^ 8) + 16777216 * (n.toNat / 16777216 % 2 ^ 8) = n.toNat := by
    omega
  rw [digits, UInt32.ofNat_toNat]

theorem u32Bytes_u32OfBytes (a b c d : UInt8) : u32Bytes (u32OfBytes a b c d) = [a, b, c, d] := by
  have ha := a.toNat_lt
  have hb := b.toNat_lt
  have hc := c.toNat_lt
  have hd := d.toNat_lt
  have value : (u32OfBytes a b c d).toNat =
      a.toNat + 256 * b.toNat + 65536 * c.toNat + 16777216 * d.toNat := by
    rw [u32OfBytes, UInt32.toNat_ofNat', Nat.mod_eq_of_lt (by omega)]
  unfold u32Bytes
  rw [value]
  simp only [List.cons.injEq, and_true, ← UInt8.toNat_inj, UInt8.toNat_ofNat']
  omega

def u32 : Format UInt32 where
  write n := .ok (u32Bytes n)
  read
    | a :: b :: c :: d :: rest => .ok (u32OfBytes a b c d, rest)
    | _ => .error .unexpectedLength
  read_write := by
    intro n bytes wrote rest
    cases wrote
    simp only [u32Bytes, List.cons_append, List.nil_append, u32OfBytes_u32Bytes]
  write_read := by
    intro n bytes rest parsed
    split at parsed
    next a b c d tail =>
      cases parsed
      exact ⟨[a, b, c, d], by rw [u32Bytes_u32OfBytes], rfl⟩
    next => cases parsed

/-! ## Layouts over formats -/

def pair (F : Format α) (G : Format β) : Format (α × β) where
  write x :=
    match F.write x.1, G.write x.2 with
    | .ok first, .ok second => .ok (first ++ second)
    | .error e, _ => .error e
    | .ok _, .error e => .error e
  read bytes :=
    match F.read bytes with
    | .error e => .error e
    | .ok (a, rest) =>
        match G.read rest with
        | .error e => .error e
        | .ok (b, left) => .ok ((a, b), left)
  read_write := by
    intro x bytes wrote rest
    split at wrote
    next first second hfirst hsecond =>
      cases wrote
      rw [List.append_assoc, F.read_write hfirst]
      simp only [G.read_write hsecond]
    next => cases wrote
    next => cases wrote
  write_read := by
    intro x bytes rest parsed
    split at parsed
    next => cases parsed
    next a middle hfirst =>
      split at parsed
      next => cases parsed
      next b left hsecond =>
        cases parsed
        obtain ⟨first, wfirst, sfirst⟩ := F.write_read hfirst
        obtain ⟨second, wsecond, ssecond⟩ := G.write_read hsecond
        refine ⟨first ++ second, by simp only [wfirst, wsecond], ?_⟩
        rw [sfirst, ssecond, List.append_assoc]

/-- One tag byte, `0` or `1`, and the value after a `1`. -/
def option (F : Format α) : Format (Option α) where
  write
    | none => .ok [0]
    | some a =>
        match F.write a with
        | .ok bytes => .ok (1 :: bytes)
        | .error e => .error e
  read
    | [] => .error .unexpectedLength
    | tag :: rest =>
        if tag = 0 then .ok (none, rest)
        else if tag = 1 then
          match F.read rest with
          | .ok (a, left) => .ok (some a, left)
          | .error e => .error e
        else .error (.invalidOption tag)
  read_write := by
    intro x bytes wrote rest
    cases x with
    | none =>
        cases wrote
        rfl
    | some a =>
        simp only at wrote
        split at wrote
        next payload hpayload =>
          cases wrote
          simp [F.read_write hpayload]
        next => cases wrote
  write_read := by
    intro x bytes rest parsed
    cases bytes with
    | nil => cases parsed
    | cons tag tail =>
        simp only at parsed
        split at parsed
        next zero =>
          cases parsed
          exact ⟨[0], rfl, by rw [zero]; rfl⟩
        next =>
          split at parsed
          next one =>
            split at parsed
            next a left hread =>
              cases parsed
              obtain ⟨used, wrote, split⟩ := F.write_read hread
              exact ⟨1 :: used, by simp only [wrote], by rw [one, split]; rfl⟩
            next => cases parsed
          next => cases parsed

/-- A type that carries the same data, as a struct carries the tuple of its fields. -/
def iso (F : Format α) (there : α → β) (back : β → α) (back_there : ∀ a, back (there a) = a)
    (there_back : ∀ b, there (back b) = b) : Format β where
  write b := F.write (back b)
  read bytes :=
    match F.read bytes with
    | .error e => .error e
    | .ok (a, rest) => .ok (there a, rest)
  read_write := by
    intro b bytes wrote rest
    simp only [F.read_write wrote, there_back]
  write_read := by
    intro b bytes rest parsed
    split at parsed
    next => cases parsed
    next a left heq =>
      cases parsed
      rw [back_there]
      exact F.write_read heq

/-- The low word, then the high one. -/
def u64 : Format UInt64 :=
  (u32.pair u32).iso (fun x => UInt64.ofNat (x.1.toNat + 4294967296 * x.2.toNat))
    (fun n => (UInt32.ofNat n.toNat, UInt32.ofNat (n.toNat / 4294967296)))
    (by
      intro x
      have low := x.1.toNat_lt
      have high := x.2.toNat_lt
      ext <;> simp only [UInt32.toNat_ofNat', UInt64.toNat_ofNat'] <;> omega)
    (by
      intro n
      have bound := n.toNat_lt
      simp only [← UInt64.toNat_inj, UInt32.toNat_ofNat', UInt64.toNat_ofNat']
      omega)

/-- A `u32` count and as many bytes. -/
def bytes : Format (List UInt8) where
  write payload :=
    if payload.length < 2 ^ 32 then .ok (u32Bytes (UInt32.ofNat payload.length) ++ payload)
    else .error .lengthOverflow
  read input :=
    match u32.read input with
    | .error e => .error e
    | .ok (n, rest) =>
        if n.toNat ≤ rest.length then .ok (rest.take n.toNat, rest.drop n.toNat)
        else .error .unexpectedLength
  read_write := by
    intro payload written wrote rest
    split at wrote
    next small =>
      cases wrote
      have count : (UInt32.ofNat payload.length).toNat = payload.length := by
        rw [UInt32.toNat_ofNat', Nat.mod_eq_of_lt small]
      rw [List.append_assoc, u32.read_write rfl]
      simp [count]
    next => cases wrote
  write_read := by
    intro payload input rest parsed
    split at parsed
    next => cases parsed
    next n tail header =>
      split at parsed
      next enough =>
        cases parsed
        obtain ⟨used, wrote, split⟩ := u32.write_read header
        cases wrote
        have count : (tail.take n.toNat).length = n.toNat := by
          rw [List.length_take, Nat.min_eq_left enough]
        refine ⟨u32Bytes n ++ tail.take n.toNat, ?_, ?_⟩
        · rw [count, if_pos n.toNat_lt, UInt32.ofNat_toNat]
        · rw [split, List.append_assoc, List.take_append_drop]
      next => cases parsed

/-- The bytes of a string, which must be UTF-8 to be read back. -/
def string : Format String where
  write s := bytes.write s.toByteArray.data.toList
  read input :=
    match bytes.read input with
    | .error e => .error e
    | .ok (payload, rest) =>
        match String.fromUTF8? payload.toByteArray with
        | some s => .ok (s, rest)
        | none => .error .invalidUtf8
  read_write := by
    intro s written wrote rest
    have same : s.toByteArray.data.toList.toByteArray = s.toByteArray := by
      ext1
      simp
    rw [bytes.read_write wrote]
    simp [same, String.fromUTF8?, String.fromUTF8, s.isValidUTF8]
  write_read := by
    intro s input rest parsed
    split at parsed
    next => cases parsed
    next payload left header =>
      split at parsed
      next t decoded =>
        cases parsed
        have same : s.toByteArray.data.toList = payload := by
          unfold String.fromUTF8? at decoded
          split at decoded
          next valid =>
            cases decoded
            simp [String.fromUTF8]
          next => cases decoded
        rw [same]
        exact bytes.write_read header
      next => cases parsed

/-! ## What is read -/

/-- The number in the first four bytes, the least significant first. -/
def count? : List UInt8 → Option Nat
  | a :: b :: c :: d :: _ =>
      some (a.toNat + 256 * b.toNat + 65536 * c.toNat + 16777216 * d.toNat)
  | _ => none

def Reads (F : Format α) (input rest : List UInt8) : Prop :=
  ∃ a, F.read input = .ok (a, rest)

variable {F : Format α} {G : Format β}

theorem fromSlice_reads {input : List UInt8} :
    (∃ a, F.fromSlice input = .ok a) ↔ F.Reads input [] := by
  constructor
  · rintro ⟨a, parsed⟩
    have back := F.read_write (F.write_fromSlice parsed) []
    rw [List.append_nil] at back
    exact ⟨a, back⟩
  · rintro ⟨a, front⟩
    exact ⟨a, by rw [fromSlice, front]⟩

theorem reads_pair {input rest : List UInt8} :
    (F.pair G).Reads input rest ↔ ∃ middle, F.Reads input middle ∧ G.Reads middle rest := by
  constructor
  · rintro ⟨x, parsed⟩
    simp only [pair] at parsed
    split at parsed
    next => cases parsed
    next a middle first =>
      split at parsed
      next => cases parsed
      next b left second =>
        cases parsed
        exact ⟨middle, ⟨a, first⟩, ⟨b, second⟩⟩
  · rintro ⟨middle, ⟨a, first⟩, ⟨b, second⟩⟩
    exact ⟨(a, b), by simp only [pair, first, second]⟩

theorem reads_iso {there : α → β} {back : β → α} {back_there : ∀ a, back (there a) = a}
    {there_back : ∀ b, there (back b) = b} {input rest : List UInt8} :
    (F.iso there back back_there there_back).Reads input rest ↔ F.Reads input rest := by
  constructor
  · rintro ⟨b, parsed⟩
    simp only [iso] at parsed
    split at parsed
    next => cases parsed
    next a left front =>
      cases parsed
      exact ⟨a, front⟩
  · rintro ⟨a, front⟩
    exact ⟨there a, by simp only [iso, front]⟩

theorem count?_bound {input : List UInt8} {n : Nat} (counted : count? input = some n) :
    n < 2 ^ 32 ∧ 4 ≤ input.length := by
  match input, counted with
  | a :: b :: c :: d :: tail, counted =>
      have ha := a.toNat_lt
      have hb := b.toNat_lt
      have hc := c.toNat_lt
      have hd := d.toNat_lt
      simp only [count?, Option.some.injEq] at counted
      simp only [List.length_cons]
      omega

theorem u32_read (input : List UInt8) :
    u32.read input = (count? input).elim (.error .unexpectedLength)
      fun n => .ok (UInt32.ofNat n, input.drop 4) := by
  match input with
  | [] | [_] | [_, _] | [_, _, _] | _ :: _ :: _ :: _ :: _ => rfl

theorem bytes_read {input payload rest : List UInt8} :
    bytes.read input = .ok (payload, rest) ↔
      ∃ n ∈ count? input, 4 + n ≤ input.length ∧
        payload = (input.drop 4).take n ∧ rest = input.drop (4 + n) := by
  simp only [bytes, u32_read]
  cases counted : count? input with
  | none => simp
  | some n =>
      obtain ⟨small, four⟩ := count?_bound counted
      have exact_ : (UInt32.ofNat n).toNat = n := by
        rw [UInt32.toNat_ofNat', Nat.mod_eq_of_lt small]
      have room : n ≤ input.length - 4 ↔ 4 + n ≤ input.length := by omega
      simp only [Option.elim_some, exact_, List.length_drop, List.drop_drop, room,
        Option.mem_def, Option.some.injEq, exists_eq_left']
      by_cases enough : 4 + n ≤ input.length
      · rw [if_pos enough, Except.ok.injEq, Prod.mk.injEq]
        simp only [enough, true_and]
        exact and_congr eq_comm eq_comm
      · simp [enough]

theorem reads_bytes {input rest : List UInt8} :
    bytes.Reads input rest ↔
      ∃ n ∈ count? input, 4 + n ≤ input.length ∧ rest = input.drop (4 + n) := by
  constructor
  · rintro ⟨payload, parsed⟩
    obtain ⟨n, counted, enough, _, left⟩ := bytes_read.mp parsed
    exact ⟨n, counted, enough, left⟩
  · rintro ⟨n, counted, enough, left⟩
    exact ⟨_, bytes_read.mpr ⟨n, counted, enough, rfl, left⟩⟩

theorem reads_string {input rest : List UInt8} :
    string.Reads input rest ↔
      ∃ n ∈ count? input, 4 + n ≤ input.length ∧
        ((input.drop 4).take n).toByteArray.IsValidUTF8 ∧ rest = input.drop (4 + n) := by
  constructor
  · rintro ⟨s, parsed⟩
    simp only [string] at parsed
    split at parsed
    next => cases parsed
    next payload left front =>
      obtain ⟨n, counted, enough, first, second⟩ := bytes_read.mp front
      split at parsed
      next t decoded =>
        cases parsed
        refine ⟨n, counted, enough, ?_, second⟩
        rw [← first]
        unfold String.fromUTF8? at decoded
        split at decoded
        next valid => exact valid
        next => cases decoded
      next => cases parsed
  · rintro ⟨n, counted, enough, valid, left⟩
    have front := bytes_read.mpr ⟨n, counted, enough, rfl, left⟩
    refine ⟨String.fromUTF8 _ valid, ?_⟩
    simp only [string, front, String.fromUTF8?, dif_pos valid]

/-! ## What has bytes -/

theorem pair_write {x : α × β} {written : List UInt8} (wrote : (F.pair G).write x = .ok written) :
    ∃ first second, F.write x.1 = .ok first ∧ G.write x.2 = .ok second ∧
      written = first ++ second := by
  simp only [pair] at wrote
  split at wrote
  next first second front back =>
    cases wrote
    exact ⟨first, second, front, back, rfl⟩
  next => cases wrote
  next => cases wrote

theorem bytes_write {payload written : List UInt8} (wrote : bytes.write payload = .ok written) :
    payload.length < 2 ^ 32 ∧ written = u32Bytes (UInt32.ofNat payload.length) ++ payload := by
  simp only [bytes] at wrote
  split at wrote
  next small =>
    cases wrote
    exact ⟨small, rfl⟩
  next => cases wrote

theorem Writes.pair {x : α × β} (first : F.Writes x.1) (second : G.Writes x.2) :
    (F.pair G).Writes x := by
  obtain ⟨front, hfront⟩ := first
  obtain ⟨back, hback⟩ := second
  refine ⟨front ++ back, ?_⟩
  show (match F.write x.1, G.write x.2 with
    | .ok first, .ok second => Except.ok (first ++ second)
    | .error e, _ => .error e
    | .ok _, .error e => .error e) = _
  rw [hfront, hback]

theorem Writes.option {x : Option α} (payload : ∀ a, x = some a → F.Writes a) :
    F.option.Writes x := by
  cases x with
  | none => exact ⟨[0], rfl⟩
  | some a =>
      obtain ⟨front, hfront⟩ := payload a rfl
      refine ⟨1 :: front, ?_⟩
      show (match F.write a with
        | .ok bytes => Except.ok (1 :: bytes)
        | .error e => .error e) = _
      rw [hfront]

theorem Writes.iso {there : α → β} {back : β → α} {back_there : ∀ a, back (there a) = a}
    {there_back : ∀ b, there (back b) = b} {b : β} (writes : F.Writes (back b)) :
    (F.iso there back back_there there_back).Writes b :=
  writes

theorem writes_bytes {payload : List UInt8} (small : payload.length < 2 ^ 32) :
    bytes.Writes payload :=
  ⟨_, if_pos small⟩

theorem writes_string {s : String} (small : s.utf8ByteSize < 2 ^ 32) : string.Writes s := by
  apply writes_bytes
  rw [Array.length_toList]
  exact small

end Format

end Borsh
