import Videre.Interaction.Transcript
import Videre.Sdk.Faultless
import Videre.Sdk.MemStore

/-! # Every commitment is counted once

A visit has one fate, and its report is the report before it with that fate counted.
A commitment the retrier acted on is counted by the read that follows: retried when
it is still in the set, dropped when it is not. Where that read faults the count
follows the action.
-/

namespace Videre.Sdk

open Interaction

inductive Fate
  | skipped
  | gated
  | submitted
  | duplicate
  | owned
  | unsigned (tx : UnsignedTx)
  | retried
  | dropped
  deriving DecidableEq

namespace Fate

def count (report : RunReport) : Fate → RunReport
  | skipped => { report with skipped := report.skipped + 1 }
  | gated => { report with gated := report.gated + 1 }
  | submitted =>
      { report with polled := report.polled + 1, submitted := report.submitted + 1 }
  | duplicate =>
      { report with polled := report.polled + 1, duplicates := report.duplicates + 1 }
  | owned | retried =>
      { report with polled := report.polled + 1, retried := report.retried + 1 }
  | unsigned tx =>
      { report with polled := report.polled + 1, unsigned := report.unsigned ++ [tx] }
  | dropped => { report with polled := report.polled + 1, dropped := report.dropped + 1 }

def bucketed : Fate → Bool
  | retried | dropped => true
  | _ => false

end Fate

def Op.applies : Op → Bool
  | .retrier (.apply _ _ _) => true
  | _ => false

/-- The keys a report accounts for as listed, and as polled. -/
def RunReport.listed (report : RunReport) : Nat :=
  report.gated + report.skipped + report.polled

def RunReport.disposed (report : RunReport) : Nat :=
  report.submitted + report.duplicates + report.retried + report.dropped +
    (report.unsigned.length - report.reconciledUnsigned)

/-- Every polled key has one disposition, and the transactions include the reconcile pass's. -/
structure RunReport.Balanced (report : RunReport) : Prop where
  within : report.reconciledUnsigned ≤ report.unsigned.length
  disposed : report.polled = report.disposed

/-- The report a sweep starts its visits with. -/
def RunReport.ofPass (rec_ : ReconcileReport) : RunReport :=
  { reconciledCommitted := rec_.committed
    reconciledReleased := rec_.released
    reconciledPending := rec_.pending
    reconciledGated := rec_.gated
    reconciledUnsigned := rec_.unsigned.length
    unsigned := rec_.unsigned }

theorem RunReport.ofPass_balanced (rec_ : ReconcileReport) : (RunReport.ofPass rec_).Balanced where
  within := Nat.le_refl _
  disposed := by simp [RunReport.ofPass, RunReport.disposed]

theorem Fate.count_listed (fate : Fate) (report : RunReport) :
    (fate.count report).listed = report.listed + 1 := by
  cases fate <;> simp only [Fate.count, RunReport.listed] <;> omega

theorem RunReport.Balanced.count {report : RunReport} (balanced : report.Balanced) (fate : Fate) :
    (fate.count report).Balanced := by
  obtain ⟨within, disposed⟩ := balanced
  unfold RunReport.disposed at disposed
  cases fate <;> constructor <;>
    simp only [Fate.count, RunReport.disposed, List.length_append, List.length_singleton] <;> omega

section Visits

variable {S : Type} [KeeperStores S] {R : Rely Op (World S) (Input (KeeperStores.Edit S))}
  {k : Keeper} {tick : Tick} {w w' : World S} {report report' : RunReport}

abbrev Transcript (S : Type) [KeeperStores S] :=
  List (Moment Op (World S) (Input (KeeperStores.Edit S)))

variable {transcript : Transcript S}

/-- What the bucketing read makes of a commitment: whether it found it in the set, or what the
action says where it faulted. -/
def found (c : CommitmentRef) (action : RetryAction) (i : Input (KeeperStores.Edit S))
    (w : World S) : Bool :=
  if i.faults then action != .drop else (KeeperStores.get w.store c).isSome

/-- The transcript ends in a retry action on the commitment of `key` and in the read of that
commitment right after it, which makes `present` of it. -/
def Buckets [NexumSdk] (tick : Tick) (key : String) (transcript : Transcript S)
    (present : Bool) : Prop :=
  ∃ c action earlier before i after, NexumSdk.parse key = some c ∧
    transcript = earlier ++
      [⟨.retrier (.apply c action tick), .ok, before⟩, ⟨.read (.get c), i, after⟩] ∧
    after.store = KeeperStores.apply c action tick before.store ∧ found c action i after = present

/-- The report with a commitment the retrier acted on counted. -/
def RunReport.bucket (report : RunReport) (present : Bool) : RunReport :=
  if present then { report with retried := report.retried + 1 }
  else { report with dropped := report.dropped + 1 }

theorem bucket_counts {present : Bool}
    (traced : Traced (machine S) R (if present then pure { report with retried := report.retried + 1 }
      else pure { report with dropped := report.dropped + 1 } : KeeperM RunReport).run w transcript
      (.done (.ok report')) w') : transcript = [] ∧ report' = report.bucket present := by
  cases present with
  | false =>
      obtain ⟨none_left, same, -⟩ := traced.of_done
      exact ⟨none_left, Except.ok.inj same⟩
  | true =>
      obtain ⟨none_left, same, -⟩ := traced.of_done
      exact ⟨none_left, Except.ok.inj same⟩

theorem settle_counts {c : CommitmentRef} {action : RetryAction}
    (traced : Traced (machine S) R (Keeper.settle c tick action report).run w transcript
      (.done (.ok report')) w') :
    ∃ i after, transcript =
        [⟨.retrier (.apply c action tick), .ok, w⟩, ⟨.read (.get c), i, after⟩] ∧
      after.store = KeeperStores.apply c action tick w.store ∧
      report' = report.bucket (found c action i after) := by
  obtain ⟨first, second, _, w₁, split, applied, next⟩ := traced.of_bind_ok
  obtain ⟨i, first_eq, moves⟩ := Traced.of_perform applied
  cases i <;> simp only [machine, stepOp, reduceCtorEq, Option.some.injEq, Prod.mk.injEq] at moves
  case torn f landed => cases moves.1
  case ok =>
    obtain ⟨-, rfl⟩ := moves
    obtain ⟨third, rest, row, w₂, split', read, counted⟩ := next.of_bind_ok
    obtain ⟨i, third_eq, moves⟩ := Traced.of_perform read.of_lift
    have counts : rest = [] ∧ report' = report.bucket
        (found c action i { w with store := KeeperStores.apply c action tick w.store }) := by
      cases i <;>
        simp only [machine, stepOp, reduceCtorEq, Option.some.injEq, Prod.mk.injEq] at moves
      case ok =>
        obtain ⟨rfl, -⟩ := moves
        exact bucket_counts counted
      case fault f =>
        obtain ⟨rfl, -⟩ := moves
        exact bucket_counts counted
    refine ⟨i, { w with store := KeeperStores.apply c action tick w.store }, ?_, rfl, counts.2⟩
    rw [split, first_eq, split', third_eq, counts.1]
    rfl

variable [NexumSdk]

/-- The submit arm makes no retry action, and a fate it settles itself is no bucketing. -/
theorem submitArm_counts (c : CommitmentRef) (body : Bytes) :
    Along (fun o => o.applies = false)
      (fun out => ∀ after, out = .ok (.inl after) →
        ∃ fate : Fate, fate.bucketed = false ∧ after = fate.count report)
      (k.submitArm c { report with polled := report.polled + 1 } body).run := by
  unfold Keeper.submitArm
  refine Along.bindExcept nofun ⟨rfl, ?_⟩
  rintro _ mark -
  split
  · rintro _ ⟨⟩
    exact ⟨.duplicate, rfl, rfl⟩
  · rintro _ ⟨⟩
    exact ⟨.owned, rfl, rfl⟩
  · refine Along.bindExcept nofun ⟨rfl, ?_⟩
    rintro _ _ -
    refine Along.bindExcept nofun ⟨rfl, fun _ => ⟨rfl, ?_⟩⟩
    rintro result _ ⟨⟩
    split
    · refine Along.bindExcept nofun ⟨rfl, ?_⟩
      rintro _ _ -
      refine Along.bindExcept nofun ⟨rfl, ?_⟩
      rintro _ _ - _ ⟨⟩
      exact ⟨.submitted, rfl, rfl⟩
    · refine Along.bindExcept nofun ⟨rfl, ?_⟩
      rintro _ _ - _ ⟨⟩
      exact ⟨.unsigned _, rfl, rfl⟩
    · refine Along.bindExcept nofun ⟨rfl, ?_⟩
      rintro _ _ - _ ⟨⟩

/-- A visit counts one fate; the transcript says whether the retrier acted, and how the read
after it came out. -/
def Fate.Shown (fate : Fate) (tick : Tick) (key : String) (transcript : Transcript S) : Prop :=
  match fate with
  | .retried => Buckets tick key transcript true
  | .dropped => Buckets tick key transcript false
  | _ => ∀ m ∈ transcript, m.op.applies = false

theorem settle_shown {key : String} {c : CommitmentRef} {action : RetryAction}
    (parsed : NexumSdk.parse key = some c) (earlier : Transcript S)
    (traced : Traced (machine S) R
      (Keeper.settle c tick action { report with polled := report.polled + 1 }).run w transcript
      (.done (.ok report')) w') :
    ∃ fate : Fate, report' = fate.count report ∧ fate.Shown tick key (earlier ++ transcript) := by
  obtain ⟨i, after, split, applied, counted⟩ := settle_counts traced
  cases present : found c action i after with
  | false =>
      rw [present] at counted
      exact ⟨.dropped, counted, c, action, earlier, w, i, after, parsed, by rw [split], applied,
        present⟩
  | true =>
      rw [present] at counted
      exact ⟨.retried, counted, c, action, earlier, w, i, after, parsed, by rw [split], applied,
        present⟩

theorem Fate.shown_of_silent {fate : Fate} {key : String} (silent : fate.bucketed = false)
    (ops : ∀ m ∈ transcript, m.op.applies = false) : fate.Shown tick key transcript := by
  cases fate with
  | retried => cases silent
  | dropped => cases silent
  | _ => exact ops

theorem visit_counts {key : String}
    (traced : Traced (machine S) R (k.visit tick report key).run w transcript
      (.done (.ok report')) w') :
    ∃ fate : Fate, report' = fate.count report ∧ fate.Shown tick key transcript := by
  unfold Keeper.visit at traced
  cases parsed : NexumSdk.parse key with
  | none =>
      rw [parsed] at traced
      obtain ⟨rfl, same, -⟩ := traced.of_done
      exact ⟨.skipped, Except.ok.inj same, List.forall_mem_nil _⟩
  | some c =>
      rw [parsed] at traced
      obtain ⟨asked, second, ready, w₁, rfl, gate, traced⟩ := traced.of_bind_ok
      obtain ⟨_, rfl, _⟩ := Traced.of_perform gate
      cases ready with
      | false =>
          obtain ⟨rfl, same, -⟩ := traced.of_done
          exact ⟨.gated, Except.ok.inj same, by simp [Fate.Shown, Op.applies]⟩
      | true =>
          obtain ⟨fetched, third, row, w₂, rfl, fetch, traced⟩ := traced.of_bind_ok
          obtain ⟨_, rfl, _⟩ := Traced.of_perform fetch
          cases row with
          | none =>
              obtain ⟨rfl, same, -⟩ := traced.of_done
              exact ⟨.skipped, Except.ok.inj same, by simp [Fate.Shown, Op.applies]⟩
          | some params =>
              obtain ⟨polls, rest, outcome, w₃, rfl, poll, traced⟩ := traced.of_bind_ok
              obtain ⟨_, rfl, _⟩ := Traced.of_perform poll.of_lift
              cases outcome with
              | submit body =>
                  obtain ⟨arm, tail, fate, w₄, rfl, ran, traced⟩ := traced.of_bind_ok
                  obtain ⟨ops, settles⟩ := (submitArm_counts c body).traced ran
                  cases fate with
                  | inl after =>
                      obtain ⟨rfl, same, -⟩ := traced.of_done
                      cases same
                      obtain ⟨fate, silent, counted⟩ := settles _ rfl
                      exact ⟨fate, counted, Fate.shown_of_silent silent
                        (by simpa [Op.applies] using ops)⟩
                  | inr action => exact settle_shown parsed (_ :: _ :: _ :: arm) traced
              | waitBlock => exact settle_shown parsed [_, _, _] traced
              | backoff seconds => exact settle_shown parsed [_, _, _] traced
              | drop => exact settle_shown parsed [_, _, _] traced

/-- What the counters of one visit say of the retrier's effect. -/
structure Accounts (tick : Tick)
    (v : Turn String RunReport Op (World S) (Input (KeeperStores.Edit S))) : Prop where
  dropped : v.after.dropped = v.before.dropped + 1 → Buckets tick v.item v.transcript false
  retried : v.after.retried = v.before.retried + 1 →
    Buckets tick v.item v.transcript true ∨ ∀ m ∈ v.transcript, m.op.applies = false

theorem Fate.accounts {fate : Fate} {key : String} (counted : report' = fate.count report)
    (shown : fate.Shown tick key transcript) :
    Accounts tick ⟨key, report, transcript, report'⟩ := by
  subst counted
  constructor
  · intro one_more
    cases fate with
    | dropped => exact shown
    | _ => simp [Fate.count] at one_more
  · intro one_more
    cases fate with
    | retried => exact .inl shown
    | owned => exact .inr shown
    | _ => simp [Fate.count] at one_more

/-- A sweep that returns a report lists the commitments once and visits each listed key once, in
order. Every key is counted as gated, skipped or polled, and every polled one under one
disposition. A commitment counted as dropped is absent right after its retry action, and one
counted as retried through a retry action is present, where the read that buckets it did not
fault; where it did, the count follows the action. -/
theorem run_accounts
    (traced : Traced (machine S) R (k.run tick).run w transcript (.done (.ok report)) w') :
    ∃ pass rec_ listing visits,
      transcript = pass ++ ⟨.read .list, .ok, listing⟩ :: visits.flatMap Turn.transcript ∧
      Traced (machine S) R (reconcile k.venue tick k.maxPerTick k.faultPolicy).run w pass
        (.done (.ok rec_)) listing ∧
      visits.map Turn.item = KeeperStores.list listing.store ∧
      Turns (machine S) R (k.visit tick) (.ofPass rec_) listing visits report w' ∧
      (KeeperStores.list listing.store).length = report.gated + report.skipped + report.polled ∧
      report.reconciledUnsigned ≤ report.unsigned.length ∧
      report.polled = report.submitted + report.duplicates + report.retried + report.dropped +
        (report.unsigned.length - report.reconciledUnsigned) ∧
      ∀ v ∈ visits, Accounts tick v := by
  obtain ⟨pass, second, rec_, w₁, split, passed, traced⟩ := traced.of_bind_ok
  obtain ⟨lists, rest, keys, listing, split', list, traced⟩ := traced.of_bind_ok
  obtain ⟨i, lists_eq, moves⟩ := Traced.of_perform list
  obtain ⟨visits, turns, items, rest_eq⟩ := traced.of_foldlM
  cases i <;> simp only [machine, stepOp, reduceCtorEq, Option.some.injEq, Prod.mk.injEq] at moves
  case fault f => cases moves.1
  case ok =>
    obtain ⟨same, rfl⟩ := moves
    cases same
    have tally := turns.keep
      (fun past report => report.listed = past.length ∧ report.Balanced ∧
        ∀ v ∈ past, Accounts tick v) ?_ [] ?_
    · obtain ⟨listed, ⟨within, disposed⟩, accounts⟩ := tally
      refine ⟨pass, rec_, _, visits, ?_, passed, items, turns, ?_, within, disposed, accounts⟩
      · rw [split, split', lists_eq, rest_eq]
        rfl
      · have visited := congrArg List.length items
        rw [List.length_map] at visited
        exact visited.symm.trans listed.symm
    · rintro past key before after transcript s s' turn ⟨listed, balanced, accounts⟩
      obtain ⟨fate, counted, shown⟩ := visit_counts turn
      refine ⟨?_, counted ▸ balanced.count fate, ?_⟩
      · rw [List.length_append, List.length_singleton, ← listed, counted]
        exact fate.count_listed before
      · intro v member
        rcases List.mem_append.mp member with old | new
        · exact accounts v old
        · rw [List.mem_singleton.mp new]
          exact Fate.accounts counted shown
    · exact ⟨rfl, RunReport.ofPass_balanced rec_, List.forall_mem_nil _⟩

end Visits

open scoped MemStore

def stubCommitment : CommitmentRef := ⟨"commitment:0x00:0x00"⟩

/-- The poll has retired the commitment, and asked to wait. -/
def retiredWorld : World MemStore :=
  (stubWorld.edited [MemStore.Edit.remove stubCommitment]).record (.polled stubCommitment .waitBlock)

/-- The retrier has set the commitment's gate; the commitment is not in the set. -/
def waitedWorld : World MemStore :=
  { retiredWorld with
    store := KeeperStores.apply stubCommitment .tryNextBlock stubTick retiredWorld.store }

/-- A sweep up to the read that buckets the retired commitment. -/
def retiringSweep : Transcript MemStore :=
  [⟨.read .pending, .ok, stubWorld⟩, ⟨.read .list, .ok, stubWorld⟩,
    ⟨.read (.isReady stubCommitment 100 1000), .ok, stubWorld⟩,
    ⟨.read (.get stubCommitment), .ok, stubWorld⟩,
    ⟨.poll stubCommitment [0] stubTick, .polled .waitBlock [.remove stubCommitment], stubWorld⟩]

def bucketing (read : Input MemStore.Edit) : Transcript MemStore :=
  [⟨.retrier (.apply stubCommitment .tryNextBlock stubTick), .ok, retiredWorld⟩,
    ⟨.read (.get stubCommitment), read, waitedWorld⟩]

/-- The read finds the commitment gone: it is counted as dropped. -/
theorem retired_dropped : Traced (machine MemStore) anyRely (stubKeeper.run stubTick).run stubWorld
    (retiringSweep ++ bucketing .ok) (.done (.ok { polled := 1, dropped := 1 })) waitedWorld := by
  iterate 7 apply Traced.step trivial rfl
  exact .refl _ _

theorem run_accounts_stub : ∃ (pass : Transcript MemStore) (listing : World MemStore)
    (visits : List (Turn String RunReport Op (World MemStore) (Input MemStore.Edit))),
    retiringSweep ++ bucketing .ok =
      pass ++ ⟨.read .list, .ok, listing⟩ :: visits.flatMap Turn.transcript ∧
    ∀ v ∈ visits, Accounts stubTick v := by
  obtain ⟨pass, _, listing, visits, split, _, _, _, _, _, _, accounts⟩ := run_accounts retired_dropped
  exact ⟨pass, listing, visits, split, accounts⟩

/-- A commitment counted as retried is gone right after its retry action: the poll retired it,
and the read that would have found it gone faulted. -/
theorem retried_though_absent :
    Traced (machine MemStore) anyRely (stubKeeper.run stubTick).run stubWorld
      (retiringSweep ++ bucketing (.fault .timeout))
      (.done (.ok { polled := 1, retried := 1 })) waitedWorld ∧
    KeeperStores.get waitedWorld.store stubCommitment = none := by
  constructor
  · iterate 7 apply Traced.step trivial rfl
    exact .refl _ _
  · decide

end Videre.Sdk
