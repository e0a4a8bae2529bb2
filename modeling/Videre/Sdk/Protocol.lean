import Videre.Sdk.Calculus
import Mathlib.Data.List.Nodup
import Mathlib.Logic.Relation

/-! # The journal protocol

What one run may do to the journal and to the venue, as a step relation. Every
guard looks at the run's last event, at the marker under the key concerned, or at
the work list the run started from; nothing refers to the program. The code only
takes these steps, whatever the environment answers and wherever the run is torn,
so a property of the journal is proved by one case a step. A run that returns
leaves nothing half done and nothing of its share out.
-/

namespace Videre.Sdk

open Interaction Relation

def Event.key? : Event → Option String
  | .polled _ _ => none
  | .posted _ _ key _ _ | .answered _ _ key _ _ => some key
  | .wrote _ w => some w.key

def Event.venue? : Event → Option VenueId
  | .polled _ _ => none
  | .posted _ venue _ _ _ | .answered _ venue _ _ _ | .wrote venue _ => some venue

def Event.surfaced? : Event → Option UnsignedTx
  | .answered _ _ _ _ (.ok (.requiresSigning tx)) => some tx
  | _ => none

def surfaced (es : List Event) : List UnsignedTx :=
  es.filterMap Event.surfaced?

theorem surfaced_append (es es' : List Event) :
    surfaced (es ++ es') = surfaced es ++ surfaced es' :=
  List.filterMap_append

@[simp] theorem surfaced_polled (c : CommitmentRef) (outcome : Outcome) :
    surfaced [.polled c outcome] = [] := rfl

@[simp] theorem surfaced_posted (pass : Pass) (venue : VenueId) (key : String) (body : Bytes)
    (placed : Bool) : surfaced [.posted pass venue key body placed] = [] := rfl

@[simp] theorem surfaced_wrote (venue : VenueId) (jw : JournalWrite) :
    surfaced [.wrote venue jw] = [] := rfl

/-- Whether an answer makes its pass release the reservation. -/
def releases (policy : FaultPolicy) : Pass → SubmitResult → Bool
  | _, .ok (.accepted _) => false
  | _, .ok (.requiresSigning _) => true
  | .reconcile, .error fault => policy.isTerminal fault
  | .commitments, .error _ => true

/-- The write an answer calls for. -/
def owed (policy : FaultPolicy) (tick : Tick) (key : String) (body : Bytes) (pass : Pass)
    (result : SubmitResult) : Option JournalWrite :=
  if releases policy pass result then
    some (.release key)
  else
    match result with
    | .ok _ => some (.commit key)
    | .error (.rateLimited (some ms)) =>
        some (.park key body (saturatingAdd tick.epochS (divCeil ms 1000)))
    | .error _ => none

theorem owed_cases {policy : FaultPolicy} {tick : Tick} {key : String} {body : Bytes} {pass : Pass}
    {result : SubmitResult} {jw : JournalWrite}
    (owes : owed policy tick key body pass result = some jw) :
    (jw = .release key ∧ releases policy pass result = true) ∨
      (jw = .commit key ∧ ∃ receipt, result = .ok (.accepted receipt)) ∨
      ∃ nextEligible, jw = .park key body nextEligible := by
  unfold owed at owes
  by_cases released : releases policy pass result = true
  · rw [if_pos released] at owes
    exact .inl ⟨(Option.some.inj owes).symm, released⟩
  rw [if_neg released] at owes
  cases result with
  | ok outcome =>
      cases outcome with
      | accepted receipt => exact .inr (.inl ⟨(Option.some.inj owes).symm, receipt, rfl⟩)
      | requiresSigning tx => cases pass <;> simp [releases] at released
  | error fault =>
      split at owes
      next => exact .inr (.inl ⟨(Option.some.inj owes).symm, by simp_all⟩)
      next => exact .inr (.inr ⟨_, (Option.some.inj owes).symm⟩)
      next => simp at owes

theorem owed_key {policy : FaultPolicy} {tick : Tick} {key : String} {body : Bytes} {pass : Pass}
    {result : SubmitResult} {jw : JournalWrite}
    (owes : owed policy tick key body pass result = some jw) : jw.key = key := by
  rcases owed_cases owes with ⟨rfl, _⟩ | ⟨rfl, _⟩ | ⟨_, rfl⟩ <;> rfl

variable {S : Type} [KeeperStores S]

/-- Whether a reservation is past its backoff at a tick. -/
def Reservation.eligible (tick : Tick) (r : Reservation) : Bool :=
  ! decide (tick.epochS < r.nextEligible)

/-- The reservations a pass resolves: the eligible ones, in pending order, up to the budget. -/
def share (s : S) (tick : Tick) (maxPerTick : Nat) : List Reservation :=
  ((KeeperStores.pending s).filter (Reservation.eligible tick)).take maxPerTick

def since (w₀ w : World S) : List Event :=
  w.log.drop w₀.log.length

omit [KeeperStores S] in
theorem since_of_log {w₀ w : World S} {es : List Event} (log : w.log = w₀.log ++ es) :
    since w₀ w = es := by
  rw [since, log, List.drop_left]

omit [KeeperStores S] in
theorem since_start (w₀ : World S) : since w₀ w₀ = [] :=
  since_of_log (List.append_nil _).symm

omit [KeeperStores S] in
/-- A log that extends the one at `w₀` and is appended to extends it still. -/
theorem since_later {w₀ w w' : World S} {es : List Event} (log : w.log = w₀.log ++ since w₀ w)
    (grown : w'.log = w.log ++ es) :
    since w₀ w' = since w₀ w ++ es ∧ w'.log = w₀.log ++ since w₀ w' := by
  have whole : w'.log = w₀.log ++ (since w₀ w ++ es) := by
    rw [grown, ← List.append_assoc, ← log]
  have split := since_of_log whole
  exact ⟨split, split ▸ whole⟩

section Guards

variable [NexumSdk] (R : Rely Op (World S) (Input (KeeperStores.Edit S))) (k : Keeper)
  (tick : Tick) (w₀ : World S)

/-- Whether a run may leave it at this event: no POST is due and no write is owed, but for a
commit that faulted in the commitment loop. -/
def Event.Rests (s : S) : Event → Prop
  | .polled _ (.submit body) => KeeperStores.marker s (submissionKey k.venue body) ≠ none
  | .posted _ _ _ _ _ | .wrote _ (.reserve _ _) => False
  | .answered pass _ key body result =>
      owed k.faultPolicy tick key body pass result = none ∨
        ∃ receipt f v, pass = .commitments ∧ result = .ok (.accepted receipt) ∧
          R (.write k.venue (.commit key)) (.fault f) v
  | _ => True

def AtRest (w : World S) : Prop :=
  ∀ e, (since w₀ w).getLast? = some e → e.Rests R k tick w.store

/-- Whether a run is past its reconcile pass: each reservation of its share was concerned. -/
def Swept (w : World S) : Prop :=
  ∀ r ∈ share w₀.store tick k.maxPerTick, ∃ e ∈ since w₀ w, e.key? = some r.key

inductive Step : World S → World S → Prop
  /-- A write outside the journal. -/
  | store {w : World S} (s : S)
      (same : ∀ key, KeeperStores.marker s key = KeeperStores.marker w.store key) :
      Step w { w with store := s }
  | poll {w : World S} {c : CommitmentRef} {params : Bytes} {outcome : Outcome}
      {edits : List (KeeperStores.Edit S)} (rests : AtRest R k tick w₀ w)
      (swept : Swept k tick w₀ w)
      (rely : R (.poll c params tick) (.polled outcome edits) w) :
      Step w ((w.edited edits).record (.polled c outcome))
  | reserve {w : World S} {c : CommitmentRef} {body : Bytes}
      (asked : (since w₀ w).getLast? = some (.polled c (.submit body)))
      (unmarked : KeeperStores.marker w.store (submissionKey k.venue body) = none) :
      Step w (w.write k.venue (.reserve (submissionKey k.venue body) body))
  | post {w : World S} {key : String} {body : Bytes} {placed : Bool}
      (reserved : (since w₀ w).getLast? = some (.wrote k.venue (.reserve key body)))
      (own : key = submissionKey k.venue body)
      (rely : R (.post .commitments k.venue key body) (.sent placed) w) :
      Step w (w.record (.posted .commitments k.venue key body placed))
  | repost {w : World S} {r : Reservation} {placed : Bool}
      (listed : r ∈ share w₀.store tick k.maxPerTick)
      (untouched : ∀ e ∈ since w₀ w, e.key? ≠ some r.key)
      (rests : AtRest R k tick w₀ w)
      (rely : R (.post .reconcile k.venue r.key r.body) (.sent placed) w) :
      Step w (w.record (.posted .reconcile k.venue r.key r.body placed))
  | answer {w : World S} {pass : Pass} {key : String} {body : Bytes} {placed : Bool}
      {result : SubmitResult}
      (posted : (since w₀ w).getLast? = some (.posted pass k.venue key body placed))
      (rely : R (.reply pass k.venue key body) (.answered result) w) :
      Step w (w.record (.answered pass k.venue key body result))
  | settle {w : World S} {pass : Pass} {key : String} {body : Bytes} {result : SubmitResult}
      {jw : JournalWrite}
      (answered : (since w₀ w).getLast? = some (.answered pass k.venue key body result))
      (owes : owed k.faultPolicy tick key body pass result = some jw) :
      Step w (w.write k.venue jw)

/-- The worlds a run started in `w₀` may come to. -/
abbrev Path : World S → Prop :=
  ReflTransGen (Step R k tick w₀) w₀

end Guards

/-- The share of the reconcile loop: what lies before the budget among the eligible. -/
theorem mem_share {s : S} {tick : Tick} {before rest : List Reservation} {r : Reservation}
    {maxPerTick : Nat}
    (split : KeeperStores.pending s = before ++ r :: rest)
    (eligible : r.eligible tick = true)
    (room : (before.filter (Reservation.eligible tick)).length < maxPerTick) :
    r ∈ share s tick maxPerTick := by
  rw [share, split, List.filter_append, List.filter_cons_of_pos eligible,
    List.take_append, List.mem_append]
  right
  obtain ⟨n, hn⟩ : ∃ n, maxPerTick -
      (before.filter (Reservation.eligible tick)).length = n + 1 :=
    ⟨_, (Nat.sub_add_cancel (by omega : 1 ≤ _)).symm⟩
  rw [hn, List.take_succ_cons]
  exact List.mem_cons_self

/-- A pass that stops before a reservation has its share behind it. -/
theorem share_behind {s : S} {tick : Tick} {before rest : List Reservation} {maxPerTick : Nat}
    (split : KeeperStores.pending s = before ++ rest)
    (spent : rest = [] ∨ maxPerTick ≤ (before.filter (Reservation.eligible tick)).length)
    {r : Reservation} (listed : r ∈ share s tick maxPerTick) :
    r ∈ before.filter (Reservation.eligible tick) := by
  rw [share, split, List.filter_append] at listed
  rcases spent with none_left | exhausted
  · rw [none_left, List.filter_nil, List.append_nil] at listed
    exact List.mem_of_mem_take listed
  · rw [List.take_append_of_le_length exhausted] at listed
    exact List.mem_of_mem_take listed

theorem marker_of_share {s : S} {tick : Tick} {r : Reservation} {maxPerTick : Nat}
    (listed : r ∈ share s tick maxPerTick) :
    KeeperStores.marker s r.key = some (.reserved r.nextEligible r.body) := by
  have pending : r ∈ KeeperStores.pending s :=
    List.mem_of_mem_filter (List.mem_of_mem_take listed)
  exact (KeeperStores.mem_pending s r).mp pending

theorem share_keys (s : S) (tick : Tick) (budget : Nat) :
    ((share s tick budget).map Reservation.key).Nodup := by
  have part : (share s tick budget).Sublist (KeeperStores.pending s) :=
    (List.take_sublist _ _).trans List.filter_sublist
  exact (part.map Reservation.key).nodup (KeeperStores.pending_nodup s)

theorem pending_inj {s : S} {r r' : Reservation} (listed : r ∈ KeeperStores.pending s)
    (listed' : r' ∈ KeeperStores.pending s) (same : r.key = r'.key) : r = r' :=
  List.inj_on_of_nodup_map (KeeperStores.pending_nodup s) listed listed' same

theorem share_inj {s : S} {tick : Tick} {budget : Nat} {r r' : Reservation}
    (listed : r ∈ share s tick budget) (listed' : r' ∈ share s tick budget)
    (same : r.key = r'.key) : r = r' :=
  List.inj_on_of_nodup_map (share_keys s tick budget) listed listed' same

theorem Swept.mono {k : Keeper} {tick : Tick} {w₀ w w' : World S} {es : List Event}
    (swept : Swept k tick w₀ w)
    (more : since w₀ w' = since w₀ w ++ es) : Swept k tick w₀ w' := by
  intro r listed
  obtain ⟨e, he, concerns⟩ := swept r listed
  exact ⟨e, more ▸ List.mem_append_left es he, concerns⟩

section Paths

variable [NexumSdk] {R : Rely Op (World S) (Input (KeeperStores.Edit S))} {k : Keeper}
  {tick : Tick} {w₀ w w' : World S}

theorem Step.stutter : Step R k tick w₀ w w :=
  .store w.store fun _ => rfl

/-- What a step may do, whichever it is: append events and change the keys they concern. -/
theorem Step.effect (step : Step R k tick w₀ w w') :
    ∃ es, w'.log = w.log ++ es ∧ ∀ key, (∀ e ∈ es, e.key? ≠ some key) →
      KeeperStores.marker w'.store key = KeeperStores.marker w.store key := by
  have wrote : ∀ jw : JournalWrite, ∃ es, (w.write k.venue jw).log = w.log ++ es ∧
      ∀ key, (∀ e ∈ es, e.key? ≠ some key) →
        KeeperStores.marker (w.write k.venue jw).store key =
          KeeperStores.marker w.store key := by
    intro jw
    refine ⟨[.wrote k.venue jw], rfl, ?_⟩
    intro key other
    have distinct : key ≠ jw.key := fun same =>
      other _ List.mem_cons_self (congrArg some same.symm)
    exact marker_write_other distinct
  cases step with
  | store s same => exact ⟨[], by simp, fun key _ => same key⟩
  | poll rests swept rely => exact ⟨_, rfl, fun key _ => World.edited_marker _ _ _⟩
  | reserve asked unmarked => exact wrote _
  | post reserved own rely => exact ⟨_, rfl, fun _ _ => rfl⟩
  | repost listed untouched rests rely => exact ⟨_, rfl, fun _ _ => rfl⟩
  | answer posted rely => exact ⟨_, rfl, fun _ _ => rfl⟩
  | settle answered owes => exact wrote _

theorem Path.log_append (path : Path R k tick w₀ w) : w.log = w₀.log ++ since w₀ w := by
  induction path with
  | refl => rw [since_start, List.append_nil]
  | tail _ step ih =>
      obtain ⟨new, grown, -⟩ := step.effect
      exact (since_later ih grown).2

theorem Path.since_append (path : Path R k tick w₀ w) {es : List Event}
    (new : w'.log = w.log ++ es) : since w₀ w' = since w₀ w ++ es :=
  (since_later path.log_append new).1

theorem Path.since_record (path : Path R k tick w₀ w) (e : Event) :
    since w₀ (w.record e) = since w₀ w ++ [e] :=
  path.since_append rfl

theorem Path.since_write (path : Path R k tick w₀ w) (jw : JournalWrite) :
    since w₀ (w.write k.venue jw) = since w₀ w ++ [.wrote k.venue jw] :=
  path.since_append rfl

theorem Path.surfaced_record (path : Path R k tick w₀ w) (e : Event) :
    surfaced (since w₀ (w.record e)) = surfaced (since w₀ w) ++ surfaced [e] := by
  rw [path.since_record, surfaced_append]

theorem Path.surfaced_write (path : Path R k tick w₀ w) (jw : JournalWrite) :
    surfaced (since w₀ (w.write k.venue jw)) = surfaced (since w₀ w) := by
  rw [path.since_write, surfaced_append, surfaced_wrote, List.append_nil]

theorem Path.last_record (path : Path R k tick w₀ w) (e : Event) :
    (since w₀ (w.record e)).getLast? = some e := by
  rw [path.since_record, List.getLast?_concat]

theorem Path.last_write (path : Path R k tick w₀ w) (jw : JournalWrite) :
    (since w₀ (w.write k.venue jw)).getLast? = some (.wrote k.venue jw) :=
  path.last_record (.wrote k.venue jw)

theorem Path.grows (path : Path R k tick w₀ w) (later : ReflTransGen (Step R k tick w₀) w w') :
    ∃ es, since w₀ w' = since w₀ w ++ es := by
  induction later with
  | refl => exact ⟨[], (List.append_nil _).symm⟩
  | tail before step ih =>
      obtain ⟨es, hes⟩ := ih
      obtain ⟨new, hnew, -⟩ := step.effect
      have reached : Path R k tick w₀ _ := path.trans before
      exact ⟨es ++ new, by rw [reached.since_append hnew, hes, List.append_assoc]⟩

theorem atRest_start : AtRest R k tick w₀ w₀ := by
  intro e last
  simp [since] at last

theorem AtRest.of_store {s : S} (rests : AtRest R k tick w₀ w)
    (same : ∀ key, KeeperStores.marker s key = KeeperStores.marker w.store key) :
    AtRest R k tick w₀ { w with store := s } := by
  intro e last
  have before := rests e last
  unfold Event.Rests at before ⊢
  split at before <;> simp_all

theorem Path.rests_last (path : Path R k tick w₀ w) {e : Event}
    (rests : e.Rests R k tick w.store) : AtRest R k tick w₀ (w.record e) := by
  intro e' last
  rw [path.last_record] at last
  exact Option.some.inj last ▸ rests

/-- A commit that faulted in the commitment loop leaves the run at rest. -/
theorem Path.rests_faulted (path : Path R k tick w₀ w) {key : String} {body receipt : Bytes}
    {f : Fault} {v : World S} (rely : R (.write k.venue (.commit key)) (.fault f) v) :
    AtRest R k tick w₀
      (w.record (.answered .commitments k.venue key body (.ok (.accepted receipt)))) :=
  path.rests_last (Or.inr ⟨receipt, f, v, rfl, rfl, rely⟩)

theorem Path.rests_settled (path : Path R k tick w₀ w) {jw : JournalWrite}
    (settled : ∀ key body, jw ≠ .reserve key body) :
    AtRest R k tick w₀ (w.write k.venue jw) := by
  intro e last
  rw [path.last_write] at last
  cases last
  cases jw with
  | reserve key body => exact absurd rfl (settled key body)
  | _ => trivial

end Paths

end Videre.Sdk
