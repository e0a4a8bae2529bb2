import Videre.Queueing.Rounds
import Videre.Sdk.Pass
import Mathlib.Data.List.Sort
import Mathlib.Data.String.Basic

/-! # Passes over one backlog

Consecutive passes at one epoch serve the eligible reservations in rounds: a pass
starts again at the head of the pending list, and an answer that leaves its
reservation eligible keeps it there, ahead of the reservations no pass has come to.
-/

namespace Videre.Sdk

open Interaction Queueing

def Reservation.order (r : Reservation) : String × Bytes :=
  (r.key, r.body)

/-- Whether an answer leaves a reservation eligible at the epoch it was given at. -/
def lingers (epochS : UInt64) : SubmitResult → Bool
  | .error .timeout | .error (.unavailable _) | .error (.rateLimited none) => true
  | .error (.rateLimited (some ms)) => saturatingAdd epochS (divCeil ms 1000) == epochS
  | _ => false

def Event.answer? : Event → Option SubmitResult
  | .answered _ _ _ _ result => some result
  | _ => none

/-- The pending list is in key order. -/
def KeyOrdered (S : Type) [KeeperStores S] : Prop :=
  ∀ s : S, (KeeperStores.pending s).Pairwise fun r r' => r.key < r'.key

section Queue

variable {S : Type} [KeeperStores S]

def queueAt (epochS : UInt64) (s : S) : List (String × Bytes) :=
  ((KeeperStores.pending s).filter fun r => ! decide (epochS < r.nextEligible)).map
    Reservation.order

theorem mem_queueAt {epochS : UInt64} {s : S} {key : String} {body : Bytes} :
    (key, body) ∈ queueAt epochS s ↔
      ∃ n, KeeperStores.marker s key = some (.reserved n body) ∧ n ≤ epochS := by
  unfold queueAt
  simp only [List.mem_map, List.mem_filter, KeeperStores.mem_pending, Reservation.order,
    Prod.mk.injEq, Bool.not_eq_eq_eq_not, Bool.not_true, decide_eq_false_iff_not, UInt64.not_lt]
  constructor
  · rintro ⟨r, ⟨held, eligible⟩, rfl, rfl⟩
    exact ⟨r.nextEligible, held, eligible⟩
  · rintro ⟨n, held, eligible⟩
    exact ⟨⟨key, n, body⟩, ⟨held, eligible⟩, rfl, rfl⟩

theorem queueAt_keys (epochS : UInt64) (s : S) : ((queueAt epochS s).map Prod.fst).Nodup := by
  have part := (List.filter_sublist (l := KeeperStores.pending s)
    (p := fun r => ! decide (epochS < r.nextEligible))).map Reservation.key
  unfold queueAt
  rw [List.map_map]
  exact part.nodup (KeeperStores.pending_nodup s)

theorem queueAt_ordered (ordered : KeyOrdered S) (epochS : UInt64) (s : S) :
    (queueAt epochS s).Pairwise fun o o' => o.1 < o'.1 := by
  unfold queueAt
  rw [List.pairwise_map]
  exact (ordered s).sublist List.filter_sublist

/-- Two lists in key order with the same orders are one list. -/
theorem eq_of_ordered {os os' : List (String × Bytes)}
    (ordered : os.Pairwise fun o o' => o.1 < o'.1) (ordered' : os'.Pairwise fun o o' => o.1 < o'.1)
    (same : ∀ key body, (key, body) ∈ os ↔ (key, body) ∈ os') : os = os' := by
  have irrefl : Std.Irrefl fun o o' : String × Bytes => o.1 < o'.1 := ⟨fun o => lt_irrefl o.1⟩
  have antisymm : Std.Antisymm fun o o' : String × Bytes => o.1 < o'.1 :=
    ⟨fun o o' before after => absurd before (lt_asymm after)⟩
  exact ordered.eq_of_mem_iff ordered' fun o => same o.1 o.2

theorem share_orders (s : S) (tick : Tick) (budget : Nat) :
    (share s tick budget).map Reservation.order = (queueAt tick.epochS s).take budget :=
  List.map_take

end Queue

/-- An eligible reservation is eligible after its resubmit exactly when the answer lingers. -/
theorem resolution_lingers {tick : Tick} {r : Reservation} (eligible : r.nextEligible ≤ tick.epochS)
    (result : SubmitResult) (body : Bytes) :
    (∃ n, r.resolution defaultFaultPolicy tick result = some (.reserved n body) ∧
      n ≤ tick.epochS) ↔ lingers tick.epochS result = true ∧ r.body = body := by
  cases result with
  | ok outcome => cases outcome <;> simp [Reservation.resolution, lingers]
  | error fault =>
      cases fault with
      | rateLimited hint =>
          cases hint with
          | none => simp [Reservation.resolution, defaultFaultPolicy, retryAction, lingers, eligible]
          | some ms =>
              have later := le_saturatingAdd tick.epochS (divCeil ms 1000)
              have reached : saturatingAdd tick.epochS (divCeil ms 1000) ≤ tick.epochS ↔
                  saturatingAdd tick.epochS (divCeil ms 1000) = tick.epochS :=
                ⟨fun past => UInt64.le_antisymm past later, UInt64.le_of_eq⟩
              simp [Reservation.resolution, defaultFaultPolicy, retryAction, lingers,
                ← toNat_park, reached, and_comm]
      | _ => simp [Reservation.resolution, defaultFaultPolicy, retryAction, lingers, eligible]

section Pass

variable {S : Type} [KeeperStores S] {R : Rely Op (World S) (Input (KeeperStores.Edit S))}
  {venue : VenueId} {tick : Tick} {budget : Nat}

theorem key_of_order {done : List Resubmit} {key : String} {body : Bytes}
    (listed : (key, body) ∈ done.map fun v => v.reservation.order) :
    key ∈ done.map Resubmit.key := by
  obtain ⟨v, member, same⟩ := List.mem_map.mp listed
  have own : v.key = key := congrArg Prod.fst same
  exact own ▸ List.mem_map_of_mem member

/-- A key listed once stands for one order. -/
theorem mem_orders_filter {done : List Resubmit} (distinct : (done.map Resubmit.key).Nodup)
    {v : Resubmit} (listed : v ∈ done) {stays : Resubmit → Bool} {body : Bytes} :
    (v.key, body) ∈ (done.filter stays).map (fun v => v.reservation.order) ↔
      stays v = true ∧ v.reservation.body = body := by
  constructor
  · intro member
    obtain ⟨v', kept, same⟩ := List.mem_map.mp member
    obtain ⟨listed', stayed⟩ := List.mem_filter.mp kept
    have own : v'.key = v.key := congrArg Prod.fst same
    have one : v' = v := List.inj_on_of_nodup_map distinct listed' listed own
    rw [one] at same stayed
    exact ⟨stayed, congrArg Prod.snd same⟩
  · rintro ⟨stayed, own⟩
    exact List.mem_map.mpr ⟨v, List.mem_filter.mpr ⟨listed, stayed⟩, Prod.ext rfl own⟩

/-- A resubmitted order is queued after the pass exactly when its answer lingers. -/
theorem Settles.served {done : List Resubmit} {w t : World S}
    (settles : Settles defaultFaultPolicy tick done w t) {v : Resubmit} (listed : v ∈ done)
    (eligible : v.reservation.nextEligible ≤ tick.epochS) {body : Bytes} :
    (v.key, body) ∈ queueAt tick.epochS t.store ↔
      lingers tick.epochS v.result = true ∧ v.reservation.body = body := by
  rw [mem_queueAt, settles.resolved v listed, resolution_lingers eligible]

/-- Every other order is queued as before. -/
theorem Settles.passedOver {done : List Resubmit} {w t : World S}
    (settles : Settles defaultFaultPolicy tick done w t) {key : String}
    (other : key ∉ done.map Resubmit.key) {body : Bytes} :
    (key, body) ∈ queueAt tick.epochS t.store ↔ (key, body) ∈ queueAt tick.epochS w.store := by
  rw [mem_queueAt, mem_queueAt, settles.spared key other]

/-- A pass is a round: it serves the head of the queue, and what stays of it keeps its place. -/
theorem pass_serves (ordered : KeyOrdered S) {w t : World S} {report : ReconcileReport}
    (run : Exec (machine S) R (reconcile venue tick budget defaultFaultPolicy).run w
      (.done (.ok report)) t) :
    ∃ called : List Resubmit,
      called.map (fun v => v.reservation.order) = (queueAt tick.epochS w.store).take budget ∧
      queueAt tick.epochS t.store =
        (called.filter fun v => lingers tick.epochS v.result).map (fun v => v.reservation.order) ++
          (queueAt tick.epochS w.store).drop budget ∧
      t = w.resolved venue tick defaultFaultPolicy called := by
  obtain ⟨called, _, _, settles, reports⟩ := reconcile_effect run
  obtain ⟨all, -, resolved⟩ := reports report rfl
  have settles : Settles defaultFaultPolicy tick called w t := settles
  have head : called.map (fun v => v.reservation.order) =
      (queueAt tick.epochS w.store).take budget := by
    rw [← share_orders, ← all, List.map_map]
    rfl
  refine ⟨called, head, ?_, resolved⟩
  have split := List.take_append_drop budget (queueAt tick.epochS w.store)
  have keys := queueAt_keys tick.epochS w.store
  have order := queueAt_ordered ordered tick.epochS w.store
  rw [← split, ← head] at keys order
  have stays := (List.filter_sublist (l := called)
    (p := fun v => lingers tick.epochS v.result)).map fun v => v.reservation.order
  apply eq_of_ordered (queueAt_ordered ordered tick.epochS t.store)
    (order.sublist (stays.append (List.Sublist.refl _)))
  intro key body
  rw [List.map_append, List.nodup_append, List.map_map] at keys
  rw [List.mem_append]
  by_cases resubmitted : key ∈ called.map Resubmit.key
  · obtain ⟨v, listed, rfl⟩ := List.mem_map.mp resubmitted
    have eligible : v.reservation.nextEligible ≤ tick.epochS := by
      have shared : v.reservation ∈ share w.store tick budget := all ▸ List.mem_map_of_mem listed
      have test := (List.mem_filter.mp (List.mem_of_mem_take shared)).2
      simpa [Reservation.eligible] using test
    have behind : (v.key, body) ∉ (queueAt tick.epochS w.store).drop budget := by
      intro later
      exact keys.2.2 v.key (List.mem_map_of_mem listed) v.key (List.mem_map_of_mem later) rfl
    rw [settles.served listed eligible, mem_orders_filter keys.1 listed]
    simp only [behind, or_false]
  · have untouched : (key, body) ∉
        (called.filter fun v => lingers tick.epochS v.result).map fun v => v.reservation.order :=
      fun stayed => resubmitted (key_of_order (stays.subset stayed))
    have ahead : (key, body) ∉ (queueAt tick.epochS w.store).take budget := by
      rw [← head]
      exact fun served => resubmitted (key_of_order served)
    rw [settles.passedOver resubmitted, ← split, List.mem_append]
    simp only [ahead, untouched, false_or, split]

def Resubmitted (venue : VenueId) (es : List Event) (order : String × Bytes) : Prop :=
  ∃ placed, .posted .reconcile venue order.1 order.2 placed ∈ es

theorem answers_of_resolved {policy : FaultPolicy} (called : List Resubmit) :
    (called.flatMap fun v => v.calls venue ++
      (v.owes policy tick).toList.map (Event.wrote venue)).filterMap Event.answer? =
      called.map Resubmit.result := by
  induction called with
  | nil => rfl
  | cons v rest ih =>
      rw [List.flatMap_cons, List.filterMap_append, ih, List.map_cons]
      cases v.owes policy tick <;> rfl

theorem resubmitted_of_resolved {policy : FaultPolicy} (called : List Resubmit)
    (order : String × Bytes) :
    Resubmitted venue (called.flatMap fun v => v.calls venue ++
      (v.owes policy tick).toList.map (Event.wrote venue)) order ↔
      order ∈ called.map fun v => v.reservation.order := by
  unfold Resubmitted
  simp only [List.mem_flatMap, List.mem_map]
  constructor
  · rintro ⟨placed, v, listed, posted⟩
    refine ⟨v, listed, ?_⟩
    cases owes : v.owes policy tick <;>
      (simp only [owes, Resubmit.calls, Option.toList, List.map_nil, List.map_cons,
        List.append_nil, List.cons_append, List.nil_append, List.mem_cons, List.not_mem_nil,
        Event.posted.injEq, reduceCtorEq, or_false, true_and] at posted
       exact Prod.ext posted.1.symm posted.2.1.symm)
  · rintro ⟨v, listed, rfl⟩
    refine ⟨v.placed, v, listed, List.mem_append_left _ ?_⟩
    exact List.mem_cons_self

end Pass

section Passes

variable {S : Type} [KeeperStores S]

/-- Passes one after the other at ticks of one epoch, over a store that does not fault. The list
holds the answers of each. -/
inductive Passes (R : Rely Op (World S) (Input (KeeperStores.Edit S))) (venue : VenueId)
    (epochS : UInt64) (budget : Nat) (w₀ : World S) : List (List SubmitResult) → World S → Prop
  | start : Passes R venue epochS budget w₀ [] w₀
  | pass {rounds : List (List SubmitResult)} {w t : World S} {tick : Tick}
      {out : Except Fault ReconcileReport} (before : Passes R venue epochS budget w₀ rounds w)
      (now : tick.epochS = epochS)
      (run : Exec (machine S) (Faultless R) (reconcile venue tick budget defaultFaultPolicy).run w
        (.done out) t) :
      Passes R venue epochS budget w₀ (rounds ++ [(since w t).filterMap Event.answer?]) t

variable {R : Rely Op (World S) (Input (KeeperStores.Edit S))} {venue : VenueId}
  {epochS : UInt64} {budget : Nat} {w₀ w : World S} {rounds : List (List SubmitResult)}

/-- Passes serve the queue in rounds: a pass serves what it resubmits, and what it has an answer
for that lingers stays. -/
theorem Passes.serve (ordered : KeyOrdered S)
    (passes : Passes R venue epochS budget w₀ rounds w) :
    ∃ past : List (Round (String × Bytes)),
      Rounds budget (queueAt epochS w₀.store) past (queueAt epochS w.store) ∧
      past.map (fun round => round.stayed.length) =
        rounds.map (List.countP (lingers epochS)) ∧
      (∀ order, (∃ round ∈ past, order ∈ round.served) ↔
        Resubmitted venue (since w₀ w) order) ∧
      w.log = w₀.log ++ since w₀ w := by
  induction passes with
  | start => exact ⟨[], .start, rfl, by simp [Resubmitted, since], by simp [since]⟩
  | @pass rounds w t tick out before now run ih =>
      obtain ⟨past, queue, kept, served, log⟩ := ih
      obtain ⟨report, rfl⟩ := (Succeeds.reconcile venue tick budget _ w).returns run
      obtain ⟨called, head, next, resolved⟩ := pass_serves ordered run
      rw [now] at head next
      have new : since w t = called.flatMap fun v => v.calls venue ++
          (v.owes defaultFaultPolicy tick).toList.map (Event.wrote venue) := by
        rw [resolved, since_of_log (resolved_log called w)]
      have grown : t.log = w.log ++ since w t := by
        rw [new, resolved, resolved_log]
      obtain ⟨grown', log'⟩ := since_later log grown
      have stays := (List.filter_sublist (l := called)
        (p := fun v => lingers epochS v.result)).map fun v => v.reservation.order
      rw [head] at stays
      refine ⟨_, next ▸ queue.serve stays, ?_, ?_, log'⟩
      · rw [List.map_append, List.map_append, kept, new, answers_of_resolved]
        simp [List.countP_eq_length_filter, List.filter_map, Function.comp_def]
      · intro order
        have split : Resubmitted venue (since w₀ w ++ since w t) order ↔
            Resubmitted venue (since w₀ w) order ∨ Resubmitted venue (since w t) order := by
          simp only [Resubmitted, List.mem_append, exists_or]
        rw [grown', split, ← served, new, resubmitted_of_resolved, head]
        simp only [List.mem_append, List.mem_singleton, or_and_right, exists_or, exists_eq_left]

/-- After any number of passes every reservation of the backlog has been resubmitted exactly when
the calls of all passes make up for the backlog and for the answers before the last pass that
left their reservation eligible. -/
theorem budget_covers_iff (ordered : KeyOrdered S)
    (passes : Passes R venue epochS budget w₀ rounds w)
    (eligible : ∀ r ∈ KeeperStores.pending w₀.store, r.nextEligible ≤ epochS) :
    (∀ r ∈ KeeperStores.pending w₀.store, Resubmitted venue (since w₀ w) (r.key, r.body)) ↔
      (KeeperStores.pending w₀.store).length +
        rounds.dropLast.flatten.countP (lingers epochS) ≤ rounds.length * budget := by
  obtain ⟨past, queue, kept, served, -⟩ := passes.serve ordered
  have whole : queueAt epochS w₀.store = (KeeperStores.pending w₀.store).map Reservation.order := by
    unfold queueAt
    rw [List.filter_eq_self.mpr]
    intro r listed
    simpa using eligible r listed
  have nodup : (queueAt epochS w₀.store).Nodup := (queueAt_keys epochS w₀.store).of_map _
  have covered := queue.covered_iff nodup
  have places : lost past.dropLast = rounds.dropLast.flatten.countP (lingers epochS) := by
    rw [lost, List.countP_flatten, List.map_dropLast, List.map_dropLast, kept]
  have count : past.length = rounds.length := by
    have lengths := congrArg List.length kept
    simpa using lengths
  rw [places, count, whole, List.length_map] at covered
  rw [← covered]
  simp only [List.forall_mem_map, served]
  exact Iff.rfl

end Passes

/-- A store seen through a pending list sorted by key. -/
structure Sorted (S : Type) where
  store : S

section Sorted

variable {S : Type} [KeeperStores S]

def Sorted.pending (s : Sorted S) : List Reservation :=
  (KeeperStores.pending s.store).insertionSort fun r r' => r.key ≤ r'.key

instance : KeeperStores (Sorted S) where
  Edit := KeeperStores.Edit S
  edit e s := ⟨KeeperStores.edit e s.store⟩
  marker s := KeeperStores.marker s.store
  fresh := KeeperStores.fresh S
  write jw s := ⟨KeeperStores.write jw s.store⟩
  pending := Sorted.pending
  list s := KeeperStores.list s.store
  get s := KeeperStores.get s.store
  isReady s := KeeperStores.isReady s.store
  apply c action tick s := ⟨KeeperStores.apply c action tick s.store⟩
  clearRefusal c s := ⟨KeeperStores.clearRefusal c s.store⟩
  marker_write jw s := KeeperStores.marker_write jw s.store
  mem_pending s r := (List.mem_insertionSort _).trans (KeeperStores.mem_pending s.store r)
  pending_nodup s :=
    (((List.perm_insertionSort _ _).map Reservation.key).nodup_iff).mpr
      (KeeperStores.pending_nodup s.store)
  marker_edit e s := KeeperStores.marker_edit e s.store
  marker_apply c action tick s := KeeperStores.marker_apply c action tick s.store
  marker_clearRefusal c s := KeeperStores.marker_clearRefusal c s.store

theorem keyOrdered_sorted : KeyOrdered (Sorted S) := by
  intro s
  have total : Std.Total fun r r' : Reservation => r.key ≤ r'.key :=
    ⟨fun r r' => le_total r.key r'.key⟩
  have trans : IsTrans Reservation fun r r' => r.key ≤ r'.key :=
    ⟨fun _ _ _ before after => before.trans after⟩
  have sorted : (KeeperStores.pending s).Pairwise fun r r' => r.key ≤ r'.key :=
    List.pairwise_insertionSort _ _
  have distinct : (KeeperStores.pending s).Pairwise fun r r' => r.key ≠ r'.key :=
    List.pairwise_map.mp (KeeperStores.pending_nodup s)
  exact (sorted.and distinct).imp fun before => lt_of_le_of_ne before.1 before.2

end Sorted

open scoped MemStore

abbrev anyInput : Rely Op (World (Sorted MemStore)) (Input MemStore.Edit) := fun _ _ _ => True

def twoStranded : World (Sorted MemStore) :=
  ((⟨⟨MemStore.single⟩, []⟩ : World (Sorted MemStore)).write stubKeeper.venue
      (.reserve (submissionKey stubKeeper.venue [111, 110, 101]) [111, 110, 101])).write
    stubKeeper.venue (.reserve (submissionKey stubKeeper.venue [116, 119, 111]) [116, 119, 111])

/-- A pass with a budget of one call, on the answer to that call. -/
def onePass (inputs : List (Input MemStore.Edit)) (w : World (Sorted MemStore)) :
    Option (Except Fault ReconcileReport × World (Sorted MemStore)) :=
  returned (machine (Sorted MemStore)) (Faultless anyInput)
    (reconcile stubKeeper.venue stubTick 1 defaultFaultPolicy).run inputs w

/-- Two passes with a budget of one call, and what they leave. -/
def twoPasses (first second : List (Input MemStore.Edit)) : Option (World (Sorted MemStore)) :=
  match onePass first twoStranded with
  | some (_, w) => (onePass second w).map Prod.snd
  | none => none

theorem passes_of_two {first second : List (Input MemStore.Edit)} {t : World (Sorted MemStore)}
    (ran : twoPasses first second = some t) : ∃ rounds, rounds.length = 2 ∧
      Passes anyInput stubKeeper.venue stubTick.epochS 1 twoStranded rounds t := by
  unfold twoPasses at ran
  split at ran
  next out w one =>
    obtain ⟨⟨out', t'⟩, two, rfl⟩ := Option.map_eq_some_iff.mp ran
    have before : Passes anyInput stubKeeper.venue stubTick.epochS 1 twoStranded _ w :=
      .pass .start rfl (Exec.of_returned one)
    exact ⟨_, rfl, before.pass rfl (Exec.of_returned two)⟩
  next => cases ran

theorem twoStranded_eligible :
    ∀ r ∈ KeeperStores.pending twoStranded.store, r.nextEligible ≤ stubTick.epochS := by decide

/-- The second order is resubmitted when the first is accepted. -/
theorem budget_covers_iff_stub : ∃ rounds t,
    Passes anyInput stubKeeper.venue stubTick.epochS 1 twoStranded rounds t ∧
    ((∀ r ∈ KeeperStores.pending twoStranded.store,
        Resubmitted stubKeeper.venue (since twoStranded t) (r.key, r.body)) ↔
      2 + rounds.dropLast.flatten.countP (lingers stubTick.epochS) ≤ rounds.length) := by
  have ran : (twoPasses [.ok, .sent true, .answered (.ok (.accepted [165])), .ok]
      [.ok, .sent true, .answered (.ok (.accepted [90])), .ok]).isSome = true := by decide
  obtain ⟨t, ran⟩ := Option.isSome_iff_exists.mp ran
  obtain ⟨rounds, two, passes⟩ := passes_of_two ran
  have covers := budget_covers_iff keyOrdered_sorted passes twoStranded_eligible
  have backlog : (KeeperStores.pending twoStranded.store).length = 2 := by decide
  rw [backlog, Nat.mul_one] at covers
  exact ⟨rounds, t, passes, covers⟩

/-- Two passes for two orders, one call each: the venue times out, and both calls are for the
order at the head. -/
theorem order_starved : ∃ rounds t,
    Passes anyInput stubKeeper.venue stubTick.epochS 1 twoStranded rounds t ∧
    rounds.length = (KeeperStores.pending twoStranded.store).length ∧
    (∀ r ∈ KeeperStores.pending twoStranded.store, r.nextEligible ≤ stubTick.epochS) ∧
    ¬ ∀ r ∈ KeeperStores.pending twoStranded.store,
      Resubmitted stubKeeper.venue (since twoStranded t) (r.key, r.body) := by
  have ran : (twoPasses [.ok, .sent false, .answered (.error .timeout)]
      [.ok, .sent false, .answered (.error .timeout)]).map (fun t =>
        (since twoStranded t).all fun e =>
          e.key? != some (submissionKey stubKeeper.venue [116, 119, 111])) = some true := by decide
  obtain ⟨t, ran, silent⟩ := Option.map_eq_some_iff.mp ran
  obtain ⟨rounds, two, passes⟩ := passes_of_two ran
  refine ⟨rounds, t, passes, two, twoStranded_eligible, ?_⟩
  intro covered
  have listed : ⟨submissionKey stubKeeper.venue [116, 119, 111], 0, [116, 119, 111]⟩ ∈
      KeeperStores.pending twoStranded.store := by decide
  obtain ⟨placed, posted⟩ := covered _ listed
  have other := List.all_eq_true.mp silent _ posted
  simp [Event.key?] at other

end Videre.Sdk
