import Videre.Sdk.Host
import Mathlib.Data.List.AList

/-! # A store in memory

The laws of `KeeperStores` and of the submission key hold of a store of association
lists and of a table of digests, so what is proved from them is about runs that
exist. A lifetime of such a host is computed from the inputs of its calls.
-/

namespace Videre.Sdk

open Interaction

structure MemStore where
  journal : AList fun _ : String => Marker
  commitments : AList fun _ : String => Bytes
  nextBlock : AList fun _ : String => UInt64
  nextEpoch : AList fun _ : String => UInt64
  refused : AList fun _ : String => UInt64

namespace MemStore

def empty : MemStore :=
  ⟨∅, ∅, ∅, ∅, ∅⟩

/-- A write outside the journal. -/
inductive Edit
  | put (c : CommitmentRef) (params : Bytes)
  | remove (c : CommitmentRef)
  | setNextBlock (c : CommitmentRef) (block : UInt64)
  | setNextEpoch (c : CommitmentRef) (epochS : UInt64)

def edit (s : MemStore) : Edit → MemStore
  | .put c params => { s with commitments := s.commitments.insert c.key params }
  | .remove c =>
      { s with
        commitments := s.commitments.erase c.key
        nextBlock := s.nextBlock.erase c.key
        nextEpoch := s.nextEpoch.erase c.key
        refused := s.refused.erase c.key }
  | .setNextBlock c block => { s with nextBlock := s.nextBlock.insert c.key block }
  | .setNextEpoch c epochS => { s with nextEpoch := s.nextEpoch.insert c.key epochS }

def write (s : MemStore) : JournalWrite → MemStore
  | .reserve key body => { s with journal := s.journal.insert key (.reserved 0 body) }
  | .commit key => { s with journal := s.journal.insert key .committed }
  | .release key => { s with journal := s.journal.erase key }
  | .park key body nextEligible =>
      { s with journal := s.journal.insert key (.reserved nextEligible body) }

def reservation? : (Sigma fun _ : String => Marker) → Option Reservation
  | ⟨key, .reserved nextEligible body⟩ => some ⟨key, nextEligible, body⟩
  | ⟨_, .committed⟩ => none

def pending (s : MemStore) : List Reservation :=
  s.journal.entries.filterMap reservation?

def isReady (s : MemStore) (c : CommitmentRef) (block epochS : UInt64) : Bool :=
  (s.nextBlock.lookup c.key).all (· ≤ block) && (s.nextEpoch.lookup c.key).all (· ≤ epochS)

def apply (s : MemStore) (c : CommitmentRef) (tick : Tick) : RetryAction → MemStore
  | .tryNextBlock => s
  | .backoff seconds => s.edit (.setNextEpoch c (saturatingAdd tick.epochS seconds))
  | .drop => s.edit (.remove c)

/-- A store with one commitment and an empty journal. -/
def single : MemStore :=
  empty.edit (.put ⟨"commitment:0x00:0x00"⟩ [0])

theorem reservation?_eq_some {e : Sigma fun _ : String => Marker} {r : Reservation} :
    reservation? e = some r ↔ e = ⟨r.key, .reserved r.nextEligible r.body⟩ := by
  obtain ⟨key, marker⟩ := e
  obtain ⟨key', nextEligible', body'⟩ := r
  cases marker with
  | reserved nextEligible body => simp [reservation?]
  | committed => simp [reservation?]

theorem mem_pending (s : MemStore) (r : Reservation) :
    r ∈ s.pending ↔ s.journal.lookup r.key = some (.reserved r.nextEligible r.body) := by
  unfold pending
  rw [List.mem_filterMap, ← Option.mem_def, AList.mem_lookup_iff]
  constructor
  · rintro ⟨e, he, same⟩
    rw [reservation?_eq_some] at same
    exact same ▸ he
  · intro h
    exact ⟨_, h, reservation?_eq_some.mpr rfl⟩

theorem pending_keys : ∀ entries : List (Sigma fun _ : String => Marker),
    ((entries.filterMap reservation?).map Reservation.key).Sublist entries.keys
  | [] => .slnil
  | ⟨key, .reserved _ _⟩ :: rest => (pending_keys rest).cons_cons key
  | ⟨key, .committed⟩ :: rest => (pending_keys rest).cons key

theorem pending_nodup (s : MemStore) : (s.pending.map Reservation.key).Nodup :=
  (pending_keys s.journal.entries).nodup s.journal.nodupKeys

theorem lookup_write (jw : JournalWrite) (s : MemStore) (key : String) :
    (s.write jw).journal.lookup key =
      if key = jw.key then jw.leaves 0 else s.journal.lookup key := by
  by_cases same : key = jw.key
  · rw [if_pos same, same]
    cases jw with
    | release key' => exact AList.lookup_erase _ _
    | _ => exact AList.lookup_insert _
  · rw [if_neg same]
    cases jw with
    | release key' => exact AList.lookup_erase_ne same
    | _ => exact AList.lookup_insert_ne same

theorem edit_journal (s : MemStore) (e : Edit) : (s.edit e).journal = s.journal := by
  cases e <;> rfl

theorem apply_journal (s : MemStore) (c : CommitmentRef) (tick : Tick) (action : RetryAction) :
    (s.apply c tick action).journal = s.journal := by
  cases action with
  | tryNextBlock => rfl
  | backoff seconds => exact edit_journal s _
  | drop => exact edit_journal s _

instance : KeeperStores MemStore where
  Edit := Edit
  edit e s := s.edit e
  marker s key := s.journal.lookup key
  fresh := 0
  write jw s := s.write jw
  pending := pending
  list s := s.commitments.keys
  get s c := s.commitments.lookup c.key
  isReady := isReady
  apply c action tick s := s.apply c tick action
  clearRefusal c s := { s with refused := s.refused.erase c.key }
  marker_write := lookup_write
  mem_pending := mem_pending
  pending_nodup := pending_nodup
  marker_edit e s key := by rw [edit_journal]
  marker_apply c action tick s key := by rw [apply_journal]
  marker_clearRefusal _ _ _ := rfl

end MemStore

/-- Thirty-two bytes, as hex digits. -/
abbrev Digest := { digits : List (Fin 16) // digits.length = 64 }

namespace Digest

def ofNat (n : Nat) : Digest :=
  ⟨(List.range 64).reverse.map fun i => Fin.ofNat 16 (n / 16 ^ i), by simp⟩

def hexDigit (d : Fin 16) : Char :=
  Nat.digitChar d

theorem hexDigit_injective : Function.Injective hexDigit := by
  unfold Function.Injective
  decide

def encodePrefixed (digest : Digest) : String :=
  String.ofList ('0' :: 'x' :: digest.val.map hexDigit)

theorem encodePrefixed_injective : Function.Injective encodePrefixed := by
  intro a b same
  have lists := String.ofList_inj.mp same
  simp only [List.cons.injEq, true_and] at lists
  exact Subtype.ext (List.map_injective_iff.mpr hexDigit_injective lists)

/-- The keccak-256 digests of the bodies `body`, `one` and `two`. -/
def keccak256 (body : Bytes) : Digest :=
  if body = [98, 111, 100, 121] then
    ofNat 0x512227571b4b801d3bbe8f01e3b651e6c4462eb9780ee5b9fb9ea4fb6899a5c4
  else if body = [111, 110, 101] then
    ofNat 0x23dc111d7c3ad1df9806ce1e8eb4f55f57dba117339c545e7593d1f6c3b02662
  else if body = [116, 119, 111] then
    ofNat 0x332c39dcd398ea34a48b871898d589f55fc4c7bce00562fb670c972e7e1b0720
  else
    ofNat 0

end Digest

namespace MemStore

scoped instance : NexumSdk where
  parse key := if "commitment:".toList.isPrefixOf key.toList then some ⟨key⟩ else none
  Hash := Digest
  keccak256 := Digest.keccak256
  encodePrefixed := Digest.encodePrefixed
  encodePrefixed_length digest := by
    rw [Digest.encodePrefixed, String.length_ofList, List.length_cons, List.length_cons,
      List.length_map, digest.property]
  encodePrefixed_injective := Digest.encodePrefixed_injective

end MemStore

open scoped MemStore

def anyRely : Rely Op (World MemStore) (Input MemStore.Edit) := fun _ _ _ => True

def anyCall : Call → World MemStore → Prop := fun _ _ => True

instance : ∀ o i w, Decidable (anyRely o i w) := fun _ _ _ => inferInstanceAs (Decidable True)

instance : ∀ c w, Decidable (anyCall c w) := fun _ _ => inferInstanceAs (Decidable True)

def stubKeeper : Keeper := { venue := ⟨"stub"⟩ }

/-- One commitment, an empty journal and nothing recorded. -/
def stubWorld : World MemStore := ⟨MemStore.single, []⟩

def stubTick : Tick := ⟨1, 100, 1000⟩

def stubBody : Bytes := [98, 111, 100, 121]

def acceptedSweep : List (Input MemStore.Edit) :=
  [.ok, .ok, .ok, .ok, .polled (.submit stubBody) [], .ok, .ok, .sent true,
    .answered (.ok (.accepted [165, 90])), .ok, .ok]

/-- A sweep torn with its POST out. -/
def strandedSweep : List (Input MemStore.Edit) :=
  [.ok, .ok, .ok, .ok, .polled (.submit stubBody) [], .ok, .ok, .sent false]

/-- A sweep that polls the commitment for the same order again. -/
def duplicateSweep : List (Input MemStore.Edit) :=
  [.ok, .ok, .ok, .ok, .polled (.submit stubBody) [], .ok]

/-- Whether a sweep on these inputs returns a report, and a world, of this kind. -/
def sweeps (R : Rely Op (World MemStore) (Input MemStore.Edit)) [∀ o i w, Decidable (R o i w)]
    (k : Keeper) (tick : Tick) (inputs : List (Input MemStore.Edit)) (w : World MemStore)
    (test : RunReport → World MemStore → Bool) : Bool :=
  match returned (machine MemStore) R (k.run tick).run inputs w with
  | some (.ok report, w') => test report w'
  | _ => false

theorem Exec.of_sweeps {R : Rely Op (World MemStore) (Input MemStore.Edit)}
    [∀ o i w, Decidable (R o i w)] {k : Keeper} {tick : Tick}
    {inputs : List (Input MemStore.Edit)} {w : World MemStore}
    {test : RunReport → World MemStore → Bool} (passed : sweeps R k tick inputs w test = true) :
    ∃ report w', Exec (machine MemStore) R (k.run tick).run w (.done (.ok report)) w' ∧
      test report w' = true := by
  unfold sweeps at passed
  split at passed
  next report w' ran => exact ⟨report, w', Exec.of_returned ran, passed⟩
  next => simp at passed

end Videre.Sdk
