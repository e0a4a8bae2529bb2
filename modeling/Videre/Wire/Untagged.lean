import Videre.Wire.StatusBody

/-! # Bare envelopes

An envelope without its version tag begins with the length of its venue. Read as a
tagged one, the low byte of that length is the tag, so every later field is read one
byte late: the venue's first byte becomes the high byte of the venue's length.
-/

namespace Videre.Wire

/-- Two counted byte strings and nothing after them. -/
def TwoCounted (input : Bytes) : Prop :=
  ∃ n ∈ Borsh.Format.count? input, ∃ m ∈ Borsh.Format.count? (input.drop (4 + n)),
    input.length = 8 + n + m

instance (input : Bytes) : Decidable (TwoCounted input) :=
  inferInstanceAs (Decidable (∃ n ∈ Borsh.Format.count? input,
    ∃ m ∈ Borsh.Format.count? (input.drop (4 + n)), input.length = 8 + n + m))

theorem reads_twoCounted {input : Bytes} :
    (Borsh.Format.bytes.pair .bytes).Reads input [] ↔ TwoCounted input := by
  rw [Borsh.Format.reads_pair]
  constructor
  · rintro ⟨middle, first, second⟩
    obtain ⟨n, counted, enough, left⟩ := Borsh.Format.reads_bytes.mp first
    obtain ⟨m, counted', enough', nothing⟩ := Borsh.Format.reads_bytes.mp second
    rw [left] at counted' enough' nothing
    have short := List.drop_eq_nil_iff.mp nothing.symm
    rw [List.length_drop] at enough' short
    exact ⟨n, counted, m, counted', by omega⟩
  · rintro ⟨n, counted, m, counted', whole⟩
    have rest : (input.drop (4 + n)).length = 4 + m := by
      rw [List.length_drop]
      omega
    refine ⟨input.drop (4 + n), Borsh.Format.reads_bytes.mpr ⟨n, counted, by omega, rfl⟩, ?_⟩
    apply Borsh.Format.reads_bytes.mpr
    refine ⟨m, counted', by omega, ?_⟩
    exact (List.drop_eq_nil_iff.mpr (Nat.le_of_eq rest)).symm

namespace IntentStatusUpdate

/-- The bytes after the venue: the receipt and the status, each behind its length. -/
def behindVenue (update : IntentStatusUpdate) : Bytes :=
  Borsh.Format.u32Bytes (UInt32.ofNat update.receipt.length) ++ update.receipt ++
    (Borsh.Format.u32Bytes (UInt32.ofNat update.status.length) ++ update.status)

/-- The bare encoding parses when each length is read one byte late: the venue's length ends in
a byte of one, and counted with its first byte on top it covers a stretch of UTF-8 behind which
two counted strings remain. -/
def ReadsLate (update : IntentStatusUpdate) : Prop :=
  match update.venue.toByteArray.data.toList with
  | [] => False
  | first :: others =>
      let tail := others ++ update.behindVenue
      let length := others.length / 256 + 16777216 * first.toNat
      others.length % 256 = 0 ∧ length ≤ tail.length ∧
        (tail.take length).toByteArray.IsValidUTF8 ∧ TwoCounted (tail.drop length)

theorem decode_ok_iff {tag : UInt8} {payload : Bytes} :
    (∃ update, decode (tag :: payload) = .ok update) ↔
      tag = envelopeVersionV1 ∧ ∃ n ∈ Borsh.Format.count? payload, 4 + n ≤ payload.length ∧
        ((payload.drop 4).take n).toByteArray.IsValidUTF8 ∧
        TwoCounted (payload.drop (4 + n)) := by
  have parses : (∃ update, format.fromSlice payload = .ok update) ↔
      ∃ n ∈ Borsh.Format.count? payload, 4 + n ≤ payload.length ∧
        ((payload.drop 4).take n).toByteArray.IsValidUTF8 ∧
        TwoCounted (payload.drop (4 + n)) := by
    rw [Borsh.Format.fromSlice_reads]
    unfold format
    rw [Borsh.Format.reads_iso, Borsh.Format.reads_pair]
    simp only [reads_twoCounted, Borsh.Format.reads_string]
    constructor
    · rintro ⟨middle, ⟨n, counted, enough, valid, left⟩, fields⟩
      exact ⟨n, counted, enough, valid, left ▸ fields⟩
    · rintro ⟨n, counted, enough, valid, fields⟩
      exact ⟨_, ⟨n, counted, enough, valid, rfl⟩, fields⟩
  rw [← parses]
  unfold decode decodeTagged
  by_cases same : tag = envelopeVersionV1
  · simp only [same, true_and]
    cases parsed : format.fromSlice payload with
    | ok update => simp
    | error e => simp
  · simp [same]

theorem write_bare {update : IntentStatusUpdate} {bare : Bytes}
    (wrote : format.write update = .ok bare) :
    update.venue.toByteArray.data.toList.length < 2 ^ 32 ∧
      bare = Borsh.Format.u32Bytes
          (UInt32.ofNat update.venue.toByteArray.data.toList.length) ++
        (update.venue.toByteArray.data.toList ++ update.behindVenue) := by
  obtain ⟨venue, fields, wroteVenue, wroteFields, whole⟩ := Borsh.Format.pair_write wrote
  obtain ⟨receipt, status, wroteReceipt, wroteStatus, rest⟩ := Borsh.Format.pair_write wroteFields
  obtain ⟨small, same⟩ := Borsh.Format.bytes_write wroteVenue
  refine ⟨small, ?_⟩
  rw [whole, rest, same, (Borsh.Format.bytes_write wroteReceipt).2,
    (Borsh.Format.bytes_write wroteStatus).2, List.append_assoc]
  rfl

/-- The last three bytes of a count and the byte behind it, as a count. -/
theorem count?_late {n : Nat} (small : n < 2 ^ 32) (first : UInt8) (rest : Bytes) :
    Borsh.Format.count? (UInt8.ofNat (n / 256) :: UInt8.ofNat (n / 65536) ::
      UInt8.ofNat (n / 16777216) :: first :: rest) = some (n / 256 + 16777216 * first.toNat) := by
  simp only [Borsh.Format.count?, Option.some.injEq, UInt8.toNat_ofNat']
  omega

theorem decodes_iff_readsLate {update : IntentStatusUpdate} {bare : Bytes}
    (wrote : format.write update = .ok bare) :
    (∃ update', decode bare = .ok update') ↔ update.ReadsLate := by
  obtain ⟨small, split⟩ := write_bare wrote
  unfold ReadsLate
  cases venue : update.venue.toByteArray.data.toList with
  | nil =>
      rw [venue] at split
      rw [split]
      simp [Borsh.Format.u32Bytes, decode, decodeTagged, envelopeVersionV1]
  | cons first others =>
      rw [venue] at small split
      have count : (UInt32.ofNat (first :: others).length).toNat = others.length + 1 := by
        rw [UInt32.toNat_ofNat', Nat.mod_eq_of_lt small, List.length_cons]
      rw [split]
      rw [List.length_cons] at small
      have tag : UInt8.ofNat (others.length + 1) = envelopeVersionV1 ↔
          others.length % 256 = 0 := by
        rw [← UInt8.toNat_inj, UInt8.toNat_ofNat']
        show (others.length + 1) % 256 = 1 ↔ _
        omega
      simp only [Borsh.Format.u32Bytes, count, List.cons_append, List.nil_append]
      rw [decode_ok_iff, count?_late small, tag]
      apply and_congr_right
      intro whole
      have quotient : (others.length + 1) / 256 = others.length / 256 := by omega
      have late : ∀ n, 4 + n = n + 4 := fun n => Nat.add_comm 4 n
      simp only [quotient, Option.mem_def, Option.some.injEq, exists_eq_left', List.length_cons,
        late, List.drop_succ_cons, List.drop_zero, Nat.add_le_add_iff_right]

/-- Behind a first byte other than NUL the late venue takes sixteen mebibytes. -/
theorem ReadsLate.nul_or_long {update : IntentStatusUpdate} (late : update.ReadsLate) :
    update.venue.toByteArray.data.toList.head? = some 0 ∨
      2 ^ 24 + 8 ≤ update.venue.utf8ByteSize + update.behindVenue.length := by
  unfold ReadsLate at late
  split at late
  next => exact late.elim
  next first others venue =>
    obtain ⟨_, room, _, n, _, m, _, fields⟩ := late
    have size : update.venue.utf8ByteSize = others.length + 1 := by
      have length := congrArg List.length venue
      rw [Array.length_toList, List.length_cons] at length
      exact length
    by_cases nul : first = 0
    · left
      rw [venue, nul]
      rfl
    · right
      have one : 1 ≤ first.toNat := by
        have : first.toNat ≠ 0 := fun zero => nul (UInt8.toNat_inj.mp zero)
        omega
      rw [List.length_drop, List.length_append] at fields
      rw [List.length_append] at room
      omega

/-- A bare encoding is rejected unless its lengths also parse one byte late. -/
theorem untagged_rejected_iff {update : IntentStatusUpdate} {bare : Bytes}
    (wrote : format.write update = .ok bare) :
    (∃ e, decode bare = .error e) ↔ ¬ update.ReadsLate := by
  rw [← decodes_iff_readsLate wrote]
  cases parsed : decode bare with
  | ok update' => simp
  | error e => simp

/-- The bare envelope of an intent at `cow`. -/
theorem untagged_rejected_iff_cow :
    (∃ e, decode [3, 0, 0, 0, 99, 111, 119, 1, 0, 0, 0, 0xaa, 1, 0, 0, 0, 1] = .error e) ↔
      ¬ (IntentStatusUpdate.mk "cow" [0xaa] [1]).ReadsLate :=
  untagged_rejected_iff (by decide)

/-- The bare envelope of an intent at a venue whose id is one NUL decodes, to an intent at the
venue of the empty id. -/
theorem untagged_decodes :
    ∃ bare, format.write ⟨"\x00", [0xaa], [1, 2, 0, 0]⟩ = .ok bare ∧
      decode bare = .ok ⟨"", [0xaa], [1, 2, 0, 0]⟩ := by
  refine ⟨[1, 0, 0, 0, 0, 1, 0, 0, 0, 0xaa, 4, 0, 0, 0, 1, 2, 0, 0], by decide, ?_⟩
  decide

end IntentStatusUpdate

end Videre.Wire
