import Videre.Borsh.Format
import Videre.Wit.Types

/-! # The derived intent-body codec

`#[derive(IntentBody)]` expands a version enum into two matches over its variants:
one writes the variant's declaration index before its payload, the other selects
the variant by that byte. Both are recursions over the variants with a running
index, as the expansion builds their arms.
-/

namespace Videre.Sdk

/-! ## The derive -/

structure Payload where
  carrier : Type
  toWriter : carrier → Except String Bytes
  fromSlice : Bytes → Except String carrier

/-- The fields of a variant, with the payload types of the unnamed ones. -/
inductive Fields
  | named (count : Nat)
  | unnamed (payloads : List Payload)
  | unit

structure Variant where
  ident : String
  discriminant : Option String
  fields : Fields

inductive Data
  | enum (variants : List Variant)
  | struct
  | union

structure DeriveInput where
  ident : String
  generics : List String
  data : Data

structure SynError where
  spanned : String
  message : String
  deriving DecidableEq, Repr

/-- A version enum the derive accepts: one payload a version, under a one-byte tag. -/
structure VersionEnum where
  variants : List Payload
  published : variants ≠ []
  tagged : variants.length ≤ 256

/-- The payload of every variant, in declaration order. -/
def expandVariants : List Variant → Except SynError (List Payload)
  | [] => .ok []
  | variant :: rest =>
      match variant.discriminant with
      | some eq =>
          .error ⟨eq, "#[derive(IntentBody)] does not support explicit discriminants: " ++
            "the version tag is the variant's declaration index, so append new versions at the end"⟩
      | none =>
          match variant.fields with
          | .unnamed [payload] =>
              match expandVariants rest with
              | .ok payloads => .ok (payload :: payloads)
              | .error e => .error e
          | _ =>
              .error ⟨variant.ident, "#[derive(IntentBody)] version variants carry exactly one " ++
                "unnamed payload field, e.g. `V1(BodyV1)`"⟩

theorem expandVariants_ok {variants : List Variant} {payloads : List Payload} :
    expandVariants variants = .ok payloads ↔
      (∀ variant ∈ variants, variant.discriminant = none) ∧
        variants.map Variant.fields = payloads.map fun payload => .unnamed [payload] := by
  induction variants generalizing payloads with
  | nil =>
      cases payloads with
      | nil => simp [expandVariants]
      | cons => simp [expandVariants]
  | cons variant rest ih =>
      unfold expandVariants
      cases given : variant.discriminant with
      | some eq => simp [given]
      | none =>
          simp only [List.forall_mem_cons, given, true_and, List.map_cons]
          split
          next payload shape =>
            rw [shape]
            cases payloads with
            | nil => cases expandVariants rest <;> simp
            | cons first payloads =>
                simp only [List.map_cons, List.cons.injEq, Fields.unnamed.injEq, and_true]
                rw [and_left_comm, ← ih]
                cases expandVariants rest <;> simp [eq_comm]
          next other =>
            cases payloads with
            | nil => simp
            | cons first payloads =>
                constructor
                · nofun
                · rintro ⟨_, same⟩
                  exact absurd (List.cons.inj same).1 (other first)

theorem expandVariants_length {variants : List Variant} {payloads : List Payload}
    (expands : expandVariants variants = .ok payloads) : payloads.length = variants.length := by
  have same := congrArg List.length (expandVariants_ok.mp expands).2
  simpa using same.symm

def expand (input : DeriveInput) : Except SynError VersionEnum :=
  if input.generics ≠ [] then
    .error ⟨String.intercalate ", " input.generics,
      "#[derive(IntentBody)] does not support generic version enums: " ++
        "a wire schema has exactly one shape"⟩
  else
    match input.data with
    | .enum variants =>
        if empty : variants = [] then
          .error ⟨input.ident, "#[derive(IntentBody)] needs at least one version variant"⟩
        else if many : 256 < variants.length then
          .error ⟨input.ident, "#[derive(IntentBody)] supports at most 256 versions: " ++
            "the wire tag is one byte"⟩
        else
          match expands : expandVariants variants with
          | .ok payloads =>
              .ok {
                variants := payloads
                published := by
                  intro none_
                  rw [none_] at expands
                  exact empty (List.length_eq_zero_iff.mp (expandVariants_length expands).symm)
                tagged := by
                  rw [expandVariants_length expands]
                  exact Nat.le_of_not_lt many }
          | .error e => .error e
    | _ =>
        .error ⟨input.ident, "#[derive(IntentBody)] applies to the outer per-venue version enum: " ++
          "an enum with one newtype variant per published body version"⟩

/-- The derive accepts exactly the enums without parameters whose variants are newtypes
without discriminants, at least one and at most 256 of them. -/
theorem expand_ok {input : DeriveInput} {schema : VersionEnum} :
    expand input = .ok schema ↔ input.generics = [] ∧ ∃ variants, input.data = .enum variants ∧
      (∀ variant ∈ variants, variant.discriminant = none) ∧
      variants.map Variant.fields = schema.variants.map fun payload => .unnamed [payload] := by
  obtain ⟨payloads, published, tagged⟩ := schema
  unfold expand
  by_cases generic : input.generics ≠ []
  · rw [if_pos generic]
    exact ⟨nofun, fun ⟨plain, _⟩ => absurd plain generic⟩
  · rw [if_neg generic]
    cases input.data with
    | struct => simp
    | union => simp
    | enum variants =>
        simp only [not_not.mp generic, true_and, Data.enum.injEq, exists_eq_left',
          ← expandVariants_ok]
        constructor
        · intro expands
          split at expands
          next => cases expands
          next =>
            split at expands
            next => cases expands
            next =>
              split at expands
              next same =>
                cases expands
                exact same
              next => cases expands
        · intro same
          have length := expandVariants_length same
          have some_ : variants ≠ [] := by
            intro none_
            rw [none_, List.length_nil] at length
            exact published (List.length_eq_zero_iff.mp length)
          rw [dif_neg some_, dif_neg (by omega)]
          split
          next payloads' expands =>
            have : payloads = payloads' := Except.ok.inj (same.symm.trans expands)
            subst this
            rfl
          next e fails =>
            rw [same] at fails
            cases fails

/-! ## The codec -/

/-- Why a body failed to cross the codec. -/
inductive BodyError
  | empty
  | unknownVersion (version : UInt8)
  | malformed (version : UInt8) (detail : String)
  | encode (version : UInt8) (detail : String)
  deriving DecidableEq, Repr

def BodyError.toString : BodyError → String
  | .empty => "empty body: missing the version tag"
  | .unknownVersion version => "unknown body version " ++ version.toNat.repr
  | .malformed version detail =>
      "malformed version " ++ version.toNat.repr ++ " payload: " ++ detail
  | .encode version detail =>
      "version " ++ version.toNat.repr ++ " payload failed to encode: " ++ detail

/-- Decode failures are the caller's `invalid-body`; an encode failure is the adapter's own. -/
def BodyError.toVenueError (err : BodyError) : VenueError :=
  match err with
  | .empty | .unknownVersion _ | .malformed _ _ => .invalidBody err.toString
  | .encode _ _ => .unavailable err.toString

/-- A value of the enum: the variant it is of and that variant's payload. -/
inductive Body : List Payload → Type 1
  | this {first : Payload} {rest : List Payload} (payload : first.carrier) : Body (first :: rest)
  | next {first : Payload} {rest : List Payload} (body : Body rest) : Body (first :: rest)

namespace Body

def index {variants : List Payload} : Body variants → Nat
  | .this _ => 0
  | .next body => body.index + 1

/-- The same value in the enum with more variants at its end. -/
def widen {variants : List Payload} (added : List Payload) : Body variants → Body (variants ++ added)
  | .this payload => .this payload
  | .next body => .next (body.widen added)

/-- The encode arms from the variant declared at `tag` on. -/
def encodeArms (tag : Nat) {variants : List Payload} : Body variants → Except BodyError Bytes
  | @this first _ payload =>
      match first.toWriter payload with
      | .ok out => .ok (UInt8.ofNat tag :: out)
      | .error detail => .error (.encode (UInt8.ofNat tag) detail)
  | .next body => body.encodeArms (tag + 1)

/-- The decode arms from the variant declared at `tag` on. -/
def decodeArms (tag : Nat) : (variants : List Payload) → UInt8 → Bytes →
    Except BodyError (Body variants)
  | [], version, _ => .error (.unknownVersion version)
  | first :: rest, version, payload =>
      if version = UInt8.ofNat tag then
        match first.fromSlice payload with
        | .ok a => .ok (.this a)
        | .error detail => .error (.malformed (UInt8.ofNat tag) detail)
      else
        match decodeArms (tag + 1) rest version payload with
        | .ok body => .ok (.next body)
        | .error e => .error e

end Body

namespace VersionEnum

variable (schema : VersionEnum)

def toBytes (body : Body schema.variants) : Except BodyError Bytes :=
  body.encodeArms 0

def fromBytes : Bytes → Except BodyError (Body schema.variants)
  | [] => .error .empty
  | version :: payload => Body.decodeArms 0 schema.variants version payload

def append (added : List Payload) (room : (schema.variants ++ added).length ≤ 256) : VersionEnum where
  variants := schema.variants ++ added
  published := by simp [schema.published]
  tagged := room

end VersionEnum

/-! ## Exactness -/

/-- A payload codec that round-trips, is canonical and reads the whole string. -/
structure Payload.Exact (p : Payload) : Prop where
  round_trip : ∀ a bytes, p.toWriter a = .ok bytes → p.fromSlice bytes = .ok a
  canonical : ∀ a bytes, p.fromSlice bytes = .ok a → p.toWriter a = .ok bytes

namespace Body

variable {tag : Nat} {variants : List Payload}

theorem index_lt (body : Body variants) : body.index < variants.length := by
  induction body with
  | this payload => exact Nat.zero_lt_succ _
  | next body ih => exact Nat.succ_lt_succ ih

@[simp] theorem index_widen (added : List Payload) (body : Body variants) :
    (body.widen added).index = body.index := by
  induction body with
  | this payload => rfl
  | next body ih => exact congrArg (· + 1) ih

theorem tag_inj {a b : Nat} (ha : a < 256) (hb : b < 256) :
    UInt8.ofNat a = UInt8.ofNat b ↔ a = b := by
  rw [← UInt8.toNat_inj, UInt8.toNat_ofNat_of_lt' ha, UInt8.toNat_ofNat_of_lt' hb]

/-- The bytes of a value lead with its declaration index. -/
theorem encodeArms_tag {body : Body variants} {bytes : Bytes}
    (wrote : body.encodeArms tag = .ok bytes) :
    ∃ payload, bytes = UInt8.ofNat (tag + body.index) :: payload := by
  induction body generalizing tag with
  | this payload =>
      simp only [encodeArms] at wrote
      split at wrote
      next out _ =>
        cases wrote
        exact ⟨out, rfl⟩
      next => cases wrote
  | next body ih =>
      obtain ⟨payload, split⟩ := ih wrote
      refine ⟨payload, ?_⟩
      rw [split, index]
      congr 2
      omega

theorem decodeArms_encodeArms (exact_ : ∀ p ∈ variants, p.Exact)
    (room : tag + variants.length ≤ 256) {body : Body variants} {version : UInt8} {payload : Bytes}
    (wrote : body.encodeArms tag = .ok (version :: payload)) :
    decodeArms tag variants version payload = .ok body := by
  induction body generalizing tag with
  | @this first rest a =>
      simp only [encodeArms] at wrote
      split at wrote
      next out written =>
        cases wrote
        have back := (exact_ first (by simp)).round_trip _ _ written
        simp [decodeArms, back]
      next => cases wrote
  | @next first rest body ih =>
      obtain ⟨_, split⟩ := encodeArms_tag wrote
      have bound := body.index_lt
      rw [List.length_cons] at room
      have other : version ≠ UInt8.ofNat tag := by
        rw [(List.cons.inj split).1, Ne, tag_inj (by rw [index]; omega) (by omega), index]
        omega
      have later := ih (fun p h => exact_ p (List.mem_cons_of_mem _ h)) (by omega) wrote
      simp [decodeArms, other, later]

theorem encodeArms_decodeArms (exact_ : ∀ p ∈ variants, p.Exact) {body : Body variants}
    {version : UInt8} {payload : Bytes}
    (parsed : decodeArms tag variants version payload = .ok body) :
    body.encodeArms tag = .ok (version :: payload) := by
  induction variants generalizing tag with
  | nil => cases parsed
  | cons first rest ih =>
      unfold decodeArms at parsed
      by_cases here : version = UInt8.ofNat tag
      · rw [if_pos here] at parsed
        split at parsed
        next a read =>
          cases parsed
          have back := (exact_ first (by simp)).canonical _ _ read
          simp [encodeArms, back, here]
        next => cases parsed
      · rw [if_neg here] at parsed
        split at parsed
        next body' later =>
          cases parsed
          exact ih (fun p h => exact_ p (List.mem_cons_of_mem _ h)) later
        next => cases parsed

theorem decodeArms_cases (room : tag + variants.length ≤ 256) {version : UInt8}
    (from_ : tag ≤ version.toNat) (payload : Bytes) :
    (tag + variants.length ≤ version.toNat ∧
      decodeArms tag variants version payload = .error (.unknownVersion version)) ∨
    ∃ p, variants[version.toNat - tag]? = some p ∧
      ((∃ detail, p.fromSlice payload = .error detail ∧
          decodeArms tag variants version payload = .error (.malformed version detail)) ∨
        ∃ a body, p.fromSlice payload = .ok a ∧
          decodeArms tag variants version payload = .ok body) := by
  induction variants generalizing tag with
  | nil => exact .inl ⟨from_, rfl⟩
  | cons first rest ih =>
      rw [List.length_cons] at room ⊢
      by_cases here : version = UInt8.ofNat tag
      · have at_ : version.toNat = tag := by
          rw [here]
          exact UInt8.toNat_ofNat_of_lt' (show tag < 256 by omega)
        right
        refine ⟨first, by rw [at_, Nat.sub_self]; rfl, ?_⟩
        unfold decodeArms
        rw [if_pos here]
        cases read : first.fromSlice payload with
        | error detail => exact .inl ⟨detail, rfl, by rw [here]⟩
        | ok a => exact .inr ⟨a, .this a, rfl, rfl⟩
      · have beyond : tag + 1 ≤ version.toNat := by
          have : version.toNat ≠ tag := by
            intro same
            apply here
            rw [← same, UInt8.ofNat_toNat]
          omega
        have entry : (first :: rest)[version.toNat - tag]? = rest[version.toNat - (tag + 1)]? := by
          have : version.toNat - tag = version.toNat - (tag + 1) + 1 := by omega
          rw [this, List.getElem?_cons_succ]
        unfold decodeArms
        rw [if_neg here, entry]
        rcases ih (by omega) beyond with ⟨past, answer⟩ | ⟨p, names, ⟨detail, read, answer⟩ |
          ⟨a, body, read, answer⟩⟩
        · exact .inl ⟨by omega, by rw [answer]⟩
        · exact .inr ⟨p, names, .inl ⟨detail, read, by rw [answer]⟩⟩
        · exact .inr ⟨p, names, .inr ⟨a, .next body, read, by rw [answer]⟩⟩

/-- Appended variants change nothing for the tags published before. -/
theorem decodeArms_widen (added : List Payload) {body : Body variants} {version : UInt8}
    {payload : Bytes} (parsed : decodeArms tag variants version payload = .ok body) :
    decodeArms tag (variants ++ added) version payload = .ok (body.widen added) := by
  induction variants generalizing tag with
  | nil => cases parsed
  | cons first rest ih =>
      show decodeArms tag (first :: (rest ++ added)) version payload = .ok (body.widen added)
      unfold decodeArms at parsed ⊢
      by_cases here : version = UInt8.ofNat tag
      · rw [if_pos here] at parsed ⊢
        split at parsed
        next a read =>
          cases parsed
          rfl
        next => cases parsed
      · rw [if_neg here] at parsed ⊢
        split at parsed
        next body' later =>
          cases parsed
          rw [ih later]
          rfl
        next => cases parsed

end Body

namespace VersionEnum

variable {schema : VersionEnum}

theorem fromBytes_toBytes (exact_ : ∀ p ∈ schema.variants, p.Exact) {body : Body schema.variants}
    {bytes : Bytes} (wrote : schema.toBytes body = .ok bytes) :
    schema.fromBytes bytes = .ok body := by
  obtain ⟨payload, split⟩ := Body.encodeArms_tag wrote
  rw [split] at wrote ⊢
  exact Body.decodeArms_encodeArms exact_ (by have := schema.tagged; omega) wrote

theorem toBytes_fromBytes (exact_ : ∀ p ∈ schema.variants, p.Exact) {body : Body schema.variants}
    {bytes : Bytes} (parsed : schema.fromBytes bytes = .ok body) :
    schema.toBytes body = .ok bytes := by
  cases bytes with
  | nil => cases parsed
  | cons version payload => exact Body.encodeArms_decodeArms exact_ parsed

/-- What a body of some bytes decodes to is decided by its tag and its payload. -/
theorem fromBytes_cases (schema : VersionEnum) (version : UInt8) (payload : Bytes) :
    (schema.variants.length ≤ version.toNat ∧
      schema.fromBytes (version :: payload) = .error (.unknownVersion version)) ∨
    ∃ p, schema.variants[version.toNat]? = some p ∧
      ((∃ detail, p.fromSlice payload = .error detail ∧
          schema.fromBytes (version :: payload) = .error (.malformed version detail)) ∨
        ∃ a body, p.fromSlice payload = .ok a ∧
          schema.fromBytes (version :: payload) = .ok body) := by
  have room : 0 + schema.variants.length ≤ 256 := by
    have := schema.tagged
    omega
  have cases_ := Body.decodeArms_cases room (Nat.zero_le version.toNat) payload
  simp only [Nat.zero_add, Nat.sub_zero] at cases_
  exact cases_

theorem fromBytes_unknownVersion {bytes : Bytes} {version : UInt8} :
    schema.fromBytes bytes = .error (.unknownVersion version) ↔
      ∃ payload, bytes = version :: payload ∧ schema.variants.length ≤ version.toNat := by
  constructor
  · intro answer
    cases bytes with
    | nil => cases answer
    | cons first payload =>
        rcases fromBytes_cases schema first payload with ⟨past, h⟩ | ⟨p, _, ⟨_, _, h⟩ | ⟨_, _, _, h⟩⟩
        · rw [h] at answer
          cases answer
          exact ⟨payload, rfl, past⟩
        · rw [h] at answer
          cases answer
        · rw [h] at answer
          cases answer
  · rintro ⟨payload, split, past⟩
    rw [split]
    rcases fromBytes_cases schema version payload with ⟨_, h⟩ | ⟨p, names, _⟩
    · exact h
    · rw [List.getElem?_eq_none past] at names
      cases names

theorem fromBytes_malformed {bytes : Bytes} {version : UInt8} {detail : String} :
    schema.fromBytes bytes = .error (.malformed version detail) ↔
      ∃ payload p, bytes = version :: payload ∧ schema.variants[version.toNat]? = some p ∧
        p.fromSlice payload = .error detail := by
  constructor
  · intro answer
    cases bytes with
    | nil => cases answer
    | cons first payload =>
        rcases fromBytes_cases schema first payload with ⟨_, h⟩ |
          ⟨p, names, ⟨detail', fails, h⟩ | ⟨_, _, _, h⟩⟩
        · rw [h] at answer
          cases answer
        · rw [h] at answer
          cases answer
          exact ⟨payload, p, rfl, names, fails⟩
        · rw [h] at answer
          cases answer
  · rintro ⟨payload, p, split, names, fails⟩
    rw [split]
    rcases fromBytes_cases schema version payload with ⟨past, _⟩ |
      ⟨p', names', ⟨detail', fails', h⟩ | ⟨_, _, reads, _⟩⟩
    · rw [List.getElem?_eq_none past] at names
      cases names
    · rw [names] at names'
      cases names'
      rw [fails] at fails'
      cases fails'
      exact h
    · rw [names] at names'
      cases names'
      rw [fails] at reads
      cases reads

/-- The derived codec round-trips and is canonical, rejects for exactly the stated reasons,
keeps variants apart by their declaration index, and gives every old body the same value
under an enum with versions appended. -/
theorem derived_codec_exact (schema : VersionEnum) (exact_ : ∀ p ∈ schema.variants, p.Exact) :
    (∀ body bytes, schema.toBytes body = .ok bytes → schema.fromBytes bytes = .ok body) ∧
    (∀ bytes body, schema.fromBytes bytes = .ok body → schema.toBytes body = .ok bytes) ∧
    (∀ bytes, schema.fromBytes bytes = .error .empty ↔ bytes = []) ∧
    (∀ bytes version, schema.fromBytes bytes = .error (.unknownVersion version) ↔
      ∃ payload, bytes = version :: payload ∧ schema.variants.length ≤ version.toNat) ∧
    (∀ bytes version detail, schema.fromBytes bytes = .error (.malformed version detail) ↔
      ∃ payload p, bytes = version :: payload ∧ schema.variants[version.toNat]? = some p ∧
        p.fromSlice payload = .error detail) ∧
    (∀ body bytes, schema.toBytes body = .ok bytes →
      ∃ payload, bytes = UInt8.ofNat body.index :: payload) ∧
    (∀ body body' bytes, schema.toBytes body = .ok bytes → schema.toBytes body' = .ok bytes →
      body.index = body'.index) ∧
    (∀ added room,
      (∀ bytes body, schema.fromBytes bytes = .ok body →
        (schema.append added room).fromBytes bytes = .ok (body.widen added)) ∧
      (∀ (body : Body (schema.append added room).variants) bytes,
        schema.variants.length ≤ body.index →
        (schema.append added room).toBytes body = .ok bytes →
        schema.fromBytes bytes = .error (.unknownVersion (UInt8.ofNat body.index)))) := by
  have leads : ∀ body bytes, schema.toBytes body = .ok bytes →
      ∃ payload, bytes = UInt8.ofNat body.index :: payload := by
    intro body bytes wrote
    obtain ⟨payload, split⟩ := Body.encodeArms_tag wrote
    rw [Nat.zero_add] at split
    exact ⟨payload, split⟩
  refine ⟨fun _ _ => fromBytes_toBytes exact_, fun _ _ => toBytes_fromBytes exact_, ?_,
    fun _ _ => fromBytes_unknownVersion, fun _ _ _ => fromBytes_malformed, leads, ?_, ?_⟩
  · intro bytes
    constructor
    · intro answer
      cases bytes with
      | nil => rfl
      | cons version payload =>
          rcases fromBytes_cases schema version payload with ⟨_, h⟩ | ⟨p, _, ⟨_, _, h⟩ | ⟨_, _, _, h⟩⟩
          · rw [h] at answer
            cases answer
          · rw [h] at answer
            cases answer
          · rw [h] at answer
            cases answer
    · intro none_
      rw [none_]
      rfl
  · intro body body' bytes wrote wrote'
    have first := fromBytes_toBytes exact_ wrote
    have second := fromBytes_toBytes exact_ wrote'
    rw [Except.ok.inj (first.symm.trans second)]
  · intro added room
    constructor
    · intro bytes body parsed
      cases bytes with
      | nil => cases parsed
      | cons version payload => exact Body.decodeArms_widen added parsed
    · intro body bytes new wrote
      obtain ⟨payload, split⟩ := Body.encodeArms_tag wrote
      rw [Nat.zero_add] at split
      have bound : body.index < 256 := Nat.lt_of_lt_of_le body.index_lt room
      rw [fromBytes_unknownVersion]
      refine ⟨payload, split, ?_⟩
      rw [UInt8.toNat_ofNat_of_lt' bound]
      exact new

end VersionEnum

/-! ## A two-version enum -/

/-- A payload over an exact format. -/
def Payload.ofFormat {α : Type} (F : Borsh.Format α) : Payload where
  carrier := α
  toWriter a :=
    match F.write a with
    | .ok bytes => .ok bytes
    | .error _ => .error "length does not fit"
  fromSlice bytes :=
    match F.fromSlice bytes with
    | .ok a => .ok a
    | .error _ => .error "unexpected input"

theorem Payload.ofFormat_exact {α : Type} (F : Borsh.Format α) : (Payload.ofFormat F).Exact where
  round_trip := by
    intro a bytes wrote
    simp only [ofFormat] at wrote ⊢
    split at wrote
    next out written =>
      cases wrote
      rw [F.fromSlice_write written]
    next => cases wrote
  canonical := by
    intro a bytes parsed
    simp only [ofFormat] at parsed ⊢
    split at parsed
    next a' read =>
      cases parsed
      rw [F.write_fromSlice read]
    next => cases parsed

def stubSchema : VersionEnum where
  variants := [.ofFormat .u32, .ofFormat .bytes]
  published := nofun
  tagged := by decide

theorem VersionEnum.derived_codec_exact_stub :
    stubSchema.fromBytes [1, 2, 0, 0, 0, 7, 8] = .ok (.next (.this [7, 8])) ∧
      ∀ room, (stubSchema.append [.ofFormat .string] room).fromBytes [1, 2, 0, 0, 0, 7, 8] =
        .ok ((Body.next (.this [7, 8]) : Body stubSchema.variants).widen [.ofFormat .string]) := by
  have exact_ : ∀ p ∈ stubSchema.variants, p.Exact := by
    intro p member
    rcases List.mem_cons.mp member with rfl | member
    · exact Payload.ofFormat_exact _
    · rw [List.mem_singleton.mp member]
      exact Payload.ofFormat_exact _
  have all := VersionEnum.derived_codec_exact stubSchema exact_
  have parsed : stubSchema.fromBytes [1, 2, 0, 0, 0, 7, 8] = .ok (.next (.this [7, 8])) := by
    apply all.1
    rfl
  exact ⟨parsed, fun room => (all.2.2.2.2.2.2.2 _ room).1 _ _ parsed⟩

end Videre.Sdk
