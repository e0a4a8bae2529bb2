import Videre.Sdk.Types

/-! # The stores a keeper runs over

The commitment set, the gates, the retrier and the submission journal belong to
the host SDK. A run relies on four facts about them and on nothing else: one
journal write changes the marker of its own key only and leaves the marker it
names, the pending list is the journal's reservations, no key is pending twice,
and the stores other than the journal leave every marker alone. Those four are
the laws of `KeeperStores`.

The submission key rests on two facts about the digest's hex rendering: its
length is fixed and it is injective.
-/

namespace Videre.Sdk

inductive Marker
  | reserved (nextEligible : UInt64) (body : Bytes)
  | committed
  deriving DecidableEq, Repr

/-- The marker without its payload, as `Journal::mark` reads it. -/
inductive Mark
  | reserved
  | committed
  deriving DecidableEq, Repr

def Marker.mark : Marker → Mark
  | .reserved _ _ => .reserved
  | .committed => .committed

/-- One entry of the pending list. -/
structure Reservation where
  key : String
  nextEligible : UInt64
  body : Bytes
  deriving DecidableEq, Repr

/-- The four journal writes. -/
inductive JournalWrite
  | reserve (key : String) (body : Bytes)
  | commit (key : String)
  | release (key : String)
  | park (key : String) (body : Bytes) (nextEligible : UInt64)
  deriving DecidableEq, Repr

def JournalWrite.key : JournalWrite → String
  | .reserve key _ | .commit key | .release key | .park key _ _ => key

/-- The marker a write leaves under its key, `fresh` being the eligibility a reservation
starts with. -/
def JournalWrite.leaves (fresh : UInt64) : JournalWrite → Option Marker
  | .reserve _ body => some (.reserved fresh body)
  | .commit _ => some .committed
  | .release _ => none
  | .park _ body nextEligible => some (.reserved nextEligible body)

/-- A commitment's key in the commitment set. -/
structure CommitmentRef where
  key : String
  deriving DecidableEq, Repr

/-- The stores over one local store of type `S`. -/
class KeeperStores (S : Type) where
  /-- A write to the local store outside the submission journal. -/
  Edit : Type
  edit : Edit → S → S
  marker : S → String → Option Marker
  /-- The eligibility a fresh reservation is written with. -/
  fresh : UInt64
  write : JournalWrite → S → S
  pending : S → List Reservation
  list : S → List String
  get : S → CommitmentRef → Option Bytes
  isReady : S → CommitmentRef → UInt64 → UInt64 → Bool
  apply : CommitmentRef → RetryAction → Tick → S → S
  clearRefusal : CommitmentRef → S → S
  marker_write : ∀ (w : JournalWrite) (s : S) (key : String),
    marker (write w s) key = if key = w.key then w.leaves fresh else marker s key
  mem_pending : ∀ (s : S) (r : Reservation),
    r ∈ pending s ↔ marker s r.key = some (.reserved r.nextEligible r.body)
  pending_nodup : ∀ s : S, ((pending s).map Reservation.key).Nodup
  marker_edit : ∀ (e : Edit) (s : S) (key : String), marker (edit e s) key = marker s key
  marker_apply : ∀ (c : CommitmentRef) (a : RetryAction) (t : Tick) (s : S) (key : String),
    marker (apply c a t s) key = marker s key
  marker_clearRefusal : ∀ (c : CommitmentRef) (s : S) (key : String),
    marker (clearRefusal c s) key = marker s key

attribute [simp] KeeperStores.marker_edit KeeperStores.marker_apply
  KeeperStores.marker_clearRefusal

theorem marker_write_self {S : Type} [KeeperStores S] (jw : JournalWrite) (s : S) :
    KeeperStores.marker (KeeperStores.write jw s) jw.key = jw.leaves (KeeperStores.fresh S) := by
  rw [KeeperStores.marker_write, if_pos rfl]

theorem marker_write_other {S : Type} [KeeperStores S] {jw : JournalWrite} {s : S} {key : String}
    (other : key ≠ jw.key) :
    KeeperStores.marker (KeeperStores.write jw s) key = KeeperStores.marker s key := by
  rw [KeeperStores.marker_write, if_neg other]

/-- The pure functions of the host SDK a run calls: keccak-256 and its prefixed hex
rendering under a submission key, and the parser of commitment keys. -/
class NexumSdk where
  parse : String → Option CommitmentRef
  Hash : Type
  keccak256 : Bytes → Hash
  encodePrefixed : Hash → String
  encodePrefixed_length : ∀ h, (encodePrefixed h).length = 66
  encodePrefixed_injective : Function.Injective encodePrefixed

/-- Deterministic pre-submit journal key: the venue id and the digest of the body as a
fixed-length suffix. -/
def submissionKey [NexumSdk] (venue : VenueId) (body : Bytes) : String :=
  venue.id ++ ":" ++ NexumSdk.encodePrefixed (NexumSdk.keccak256 body)

/-- A key is read back from the end, where the digest has its one length, whatever the venue
id contains. -/
theorem submissionKey_parts [NexumSdk] {v w : VenueId} {a b : Bytes}
    (same : submissionKey v a = submissionKey w b) :
    v = w ∧ NexumSdk.keccak256 a = NexumSdk.keccak256 b := by
  have lists : v.id.toList ++ ":".toList ++
        (NexumSdk.encodePrefixed (NexumSdk.keccak256 a)).toList =
      w.id.toList ++ ":".toList ++
        (NexumSdk.encodePrefixed (NexumSdk.keccak256 b)).toList := by
    have h := congrArg String.toList same
    simpa only [submissionKey, String.toList_append] using h
  have suffixes : (NexumSdk.encodePrefixed (NexumSdk.keccak256 a)).toList.length =
      (NexumSdk.encodePrefixed (NexumSdk.keccak256 b)).toList.length := by
    simp only [String.length_toList, NexumSdk.encodePrefixed_length]
  obtain ⟨front, digests⟩ := List.append_inj' lists suffixes
  have ids : v.id.toList = w.id.toList := List.append_cancel_right front
  constructor
  · cases v
    cases w
    exact congrArg VenueId.mk (String.toList_inj.mp ids)
  · exact NexumSdk.encodePrefixed_injective (String.toList_inj.mp digests)

theorem submissionKey_venue [NexumSdk] {v w : VenueId} {a b : Bytes}
    (same : submissionKey v a = submissionKey w b) : v = w :=
  (submissionKey_parts same).1

end Videre.Sdk
