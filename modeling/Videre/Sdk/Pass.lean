import Videre.Sdk.Faultless
import Videre.Sdk.Protocol
import Videre.Sdk.MemStore

/-! # What a reconcile pass does

A pass resubmits a prefix of its share, in pending order, and its final world is a
fold over the resubmits: the venue call, then the write its answer calls for. The
prefix is the whole share unless a store call faults; a write that faults at one
resubmit leaves that reservation and every later one alone.
-/

namespace Videre.Sdk

open Interaction

/-- One resubmit of a pass: the reservation, whether the POST was placed, the answer. -/
structure Resubmit where
  reservation : Reservation
  placed : Bool
  result : SubmitResult
  deriving DecidableEq

namespace Resubmit

def key (v : Resubmit) : String := v.reservation.key

def calls (venue : VenueId) (v : Resubmit) : List Event :=
  [.posted .reconcile venue v.key v.reservation.body v.placed,
    .answered .reconcile venue v.key v.reservation.body v.result]

def owes (policy : FaultPolicy) (tick : Tick) (v : Resubmit) : Option JournalWrite :=
  owed policy tick v.key v.reservation.body .reconcile v.result

end Resubmit

/-- The epoch from which a reservation parked on a hint of `ms` milliseconds is eligible. -/
def parkedUntil (tick : Tick) (ms : UInt64) : Nat :=
  min (tick.epochS.toNat + (ms.toNat + 999) / 1000) (UInt64.size - 1)

theorem toNat_park (tick : Tick) (ms : UInt64) :
    (saturatingAdd tick.epochS (divCeil ms 1000)).toNat = parkedUntil tick ms := by
  rw [toNat_saturatingAdd, toNat_divCeil_seconds, parkedUntil]

/-- The marker the answer to its resubmit leaves a reservation with. -/
def Reservation.resolution (policy : FaultPolicy) (tick : Tick) (r : Reservation) :
    SubmitResult → Option Marker
  | .ok (.accepted _) => some .committed
  | .ok (.requiresSigning _) => none
  | .error fault =>
      if policy.isTerminal fault then none
      else
        match fault with
        | .rateLimited (some ms) => some (.reserved (UInt64.ofNat (parkedUntil tick ms)) r.body)
        | _ => some (.reserved r.nextEligible r.body)

def ReconcileReport.handled (report : ReconcileReport) : Nat :=
  report.committed + report.released + report.pending + report.unsigned.length

section Worlds

variable {S : Type}

def World.called (w : World S) (venue : VenueId) (v : Resubmit) : World S :=
  (w.record (.posted .reconcile venue v.key v.reservation.body v.placed)).record
    (.answered .reconcile venue v.key v.reservation.body v.result)

@[simp] theorem World.called_store (w : World S) (venue : VenueId) (v : Resubmit) :
    (w.called venue v).store = w.store := rfl

@[simp] theorem World.called_log (w : World S) (venue : VenueId) (v : Resubmit) :
    (w.called venue v).log = w.log ++ v.calls venue := by
  simp [World.called, Resubmit.calls]

variable [KeeperStores S]

def World.landed (w : World S) (venue : VenueId) : Option JournalWrite → World S
  | none => w
  | some jw => w.write venue jw

def World.resolve (venue : VenueId) (tick : Tick) (policy : FaultPolicy) (w : World S)
    (v : Resubmit) : World S :=
  (w.called venue v).landed venue (v.owes policy tick)

def World.resolved (w : World S) (venue : VenueId) (tick : Tick) (policy : FaultPolicy)
    (done : List Resubmit) : World S :=
  done.foldl (World.resolve venue tick policy) w

end Worlds

section Loop

variable {S : Type} [KeeperStores S] {R : Rely Op (World S) (Input (KeeperStores.Edit S))}
  {venue : VenueId} {tick : Tick} {budget : Nat} {policy : FaultPolicy}

/-- What the loop does with the part `todo` of its share still to come: it resolves a prefix
of it, which is all of it unless a write faulted. -/
def Resolves (venue : VenueId) (tick : Tick) (policy : FaultPolicy) (todo : List Reservation)
    (report : ReconcileReport) (w : World S) (out : Except Fault ReconcileReport)
    (t : World S) : Prop :=
  ∃ done, match out with
    | .ok report' => todo = done.map Resubmit.reservation ∧
        t = w.resolved venue tick policy done ∧ report'.handled = report.handled + done.length
    | .error _ => ∃ (last : Resubmit) (rest : List Reservation),
        todo = done.map Resubmit.reservation ++ last.reservation :: rest ∧
        t = (w.resolved venue tick policy done).called venue last

/-- An arm makes the write its answer calls for, and counts the reservation once. -/
theorem dispose_resolves (v : Resubmit) (report : ReconcileReport) (w : World S) :
    Keeps (machine S) R (fun _ _ => True)
      (fun out t => match out with
        | .ok report' => t = w.landed venue (v.owes policy tick) ∧
            report'.handled = report.handled + 1
        | .error _ => t = w)
      (dispose venue tick policy v.reservation report v.result).run w := by
  obtain ⟨r, placed, result⟩ := v
  have wrote : ∀ {jw : JournalWrite} {report' : ReconcileReport},
      owed policy tick r.key r.body .reconcile result = some jw →
      report'.handled = report.handled + 1 →
      Keeps (machine S) R (fun _ _ => True)
        (fun out t => match out with
          | .ok report' => t = w.landed venue (owed policy tick r.key r.body .reconcile result) ∧
              report'.handled = report.handled + 1
          | .error _ => t = w)
        (KeeperM.write venue jw >>= fun _ => pure report').run w := by
    intro jw report' owes counted
    refine Keeps.bindExcept (keeps_write trivial ?_ ?_)
    · intro _
      rw [owes]
      exact ⟨trivial, rfl, counted⟩
    · intro f _
      exact rfl
  have left : ∀ {report' : ReconcileReport},
      owed policy tick r.key r.body .reconcile result = none →
      report'.handled = report.handled + 1 →
      Keeps (machine S) R (fun _ _ => True)
        (fun out t => match out with
          | .ok report' => t = w.landed venue (owed policy tick r.key r.body .reconcile result) ∧
              report'.handled = report.handled + 1
          | .error _ => t = w)
        (pure report' : KeeperM ReconcileReport).run w := by
    intro report' owes counted
    show w = w.landed venue _ ∧ _
    rw [owes]
    exact ⟨rfl, counted⟩
  show Keeps _ _ _ _ (dispose venue tick policy r report result).run w
  cases result with
  | ok outcome =>
      cases outcome with
      | accepted receipt =>
          apply wrote rfl
          simp only [ReconcileReport.handled]
          omega
      | requiresSigning tx =>
          apply wrote rfl
          simp only [ReconcileReport.handled, List.length_append, List.length_singleton]
          omega
  | error fault =>
      change Keeps _ _ _ _ (ExceptT.run (if policy.isTerminal fault then _ else _)) w
      have pending : ReconcileReport.handled { report with pending := report.pending + 1 } =
          report.handled + 1 := by
        simp only [ReconcileReport.handled]
        omega
      by_cases terminal : policy.isTerminal fault = true
      · rw [if_pos terminal]
        apply wrote (by simp [owed, releases, terminal])
        simp only [ReconcileReport.handled]
        omega
      · rw [if_neg terminal]
        have kept : releases policy .reconcile (.error fault) ≠ true := terminal
        cases fault with
        | rateLimited hint =>
            cases hint with
            | none => exact left (if_neg kept) pending
            | some ms => exact wrote (if_neg kept) pending
        | _ => exact left (if_neg kept) pending

theorem reconcileLoop_resolves (rest : List Reservation) : ∀ (spent : Nat)
    (report : ReconcileReport) (w : World S),
    Keeps (machine S) R (fun _ _ => True)
      (Resolves venue tick policy
        ((rest.filter (Reservation.eligible tick)).take (budget - spent)) report w)
      (reconcileLoop venue tick budget policy rest spent report).run w := by
  induction rest with
  | nil =>
      intro spent report w
      exact ⟨[], by simp, rfl, rfl⟩
  | cons r rest ih =>
      intro spent report w
      unfold reconcileLoop
      by_cases gated : tick.epochS < r.nextEligible
      · have skipped : (r :: rest).filter (Reservation.eligible tick) =
            rest.filter (Reservation.eligible tick) := by
          simp [Reservation.eligible, gated]
        rw [if_pos gated, skipped]
        exact ih spent { report with gated := report.gated + 1 } w
      have eligible : (r :: rest).filter (Reservation.eligible tick) =
          r :: rest.filter (Reservation.eligible tick) := by
        simp [Reservation.eligible, gated]
      rw [if_neg gated, eligible]
      by_cases exhausted : budget ≤ spent
      · have empty : budget - spent = 0 := by omega
        rw [if_pos exhausted, empty, List.take_zero]
        exact ⟨[], rfl, rfl, rfl⟩
      have room : budget - spent = (budget - (spent + 1)) + 1 := by omega
      rw [if_neg exhausted, room, List.take_succ_cons]
      refine Keeps.bindExcept (keeps_submit (fun _ _ => trivial) ?_)
      intro placed result _ _
      let v : Resubmit := ⟨r, placed, result⟩
      refine ⟨trivial, Keeps.bindExcept ((dispose_resolves v report (w.called venue v)).mono ?_)⟩
      intro disposed t _ post
      cases disposed with
      | error f => exact ⟨[], v, _, rfl, post⟩
      | ok report' =>
          obtain ⟨same, counted⟩ := post
          rw [show t = World.resolve venue tick policy w v from same]
          refine (ih (spent + 1) report' _).mono ?_
          intro out t' _ later
          obtain ⟨done, later⟩ := later
          refine ⟨v :: done, ?_⟩
          cases out with
          | ok report'' =>
              obtain ⟨all, final, tallied⟩ := later
              refine ⟨by rw [all]; rfl, final, ?_⟩
              rw [List.length_cons, tallied, counted]
              omega
          | error f =>
              obtain ⟨last, left, split, final⟩ := later
              exact ⟨last, left, by rw [split]; rfl, final⟩

end Loop

/-! ## What the fold leaves -/

def Event.isCall : Event → Bool
  | .posted _ _ _ _ _ | .answered _ _ _ _ _ => true
  | _ => false

section Effect

variable {S : Type} [KeeperStores S] {venue : VenueId} {tick : Tick} {policy : FaultPolicy}
  {w : World S}

/-- A pass's effect on the store: every reservation it resolved has the marker its answer
calls for, and nothing else has changed, in the journal or outside it. -/
structure Settles (policy : FaultPolicy) (tick : Tick) (done : List Resubmit) (w t : World S) :
    Prop where
  resolved : ∀ v ∈ done,
    KeeperStores.marker t.store v.key = v.reservation.resolution policy tick v.result
  spared : ∀ key, key ∉ done.map Resubmit.key →
    KeeperStores.marker t.store key = KeeperStores.marker w.store key
  outside : ∀ {α : Type} (view : S → α),
    (∀ jw s, view (KeeperStores.write jw s) = view s) → view t.store = view w.store

theorem marker_resolve_self {v : Resubmit}
    (held : KeeperStores.marker w.store v.key =
      some (.reserved v.reservation.nextEligible v.reservation.body)) :
    KeeperStores.marker (w.resolve venue tick policy v).store v.key =
      v.reservation.resolution policy tick v.result := by
  have kept : v.owes policy tick = none →
      KeeperStores.marker (w.resolve venue tick policy v).store v.key =
        some (.reserved v.reservation.nextEligible v.reservation.body) := by
    intro owes
    rw [World.resolve, owes]
    exact held
  have wrote : ∀ jw, v.owes policy tick = some jw → v.key = jw.key →
      KeeperStores.marker (w.resolve venue tick policy v).store v.key =
        jw.leaves (KeeperStores.fresh S) := by
    intro jw owes same
    rw [World.resolve, owes, same]
    exact marker_write_self jw _
  obtain ⟨r, placed, result⟩ := v
  cases result with
  | ok outcome => cases outcome <;> exact wrote _ rfl rfl
  | error fault =>
      by_cases terminal : policy.isTerminal fault = true
      · rw [wrote (.release r.key) (by simp [Resubmit.owes, Resubmit.key, owed, releases, terminal])
          rfl]
        simp [Reservation.resolution, JournalWrite.leaves, terminal]
      · have kept' : releases policy .reconcile (.error fault) ≠ true := terminal
        cases fault with
        | rateLimited hint =>
            cases hint with
            | none =>
                rw [kept (if_neg kept')]
                simp [Reservation.resolution, terminal]
            | some ms =>
                rw [wrote _ (if_neg kept') rfl]
                simp [Reservation.resolution, terminal, JournalWrite.leaves, ← toNat_park]
        | _ =>
            rw [kept (if_neg kept')]
            simp [Reservation.resolution, terminal]

theorem marker_resolve_other {v : Resubmit} {key : String} (other : key ≠ v.key) :
    KeeperStores.marker (w.resolve venue tick policy v).store key =
      KeeperStores.marker w.store key := by
  unfold World.resolve
  cases owes : v.owes policy tick with
  | none => rfl
  | some jw =>
      have same : jw.key = v.key := owed_key owes
      exact marker_write_other (same ▸ other)

theorem outside_resolve {α : Type} {view : S → α} {v : Resubmit}
    (outside : ∀ jw s, view (KeeperStores.write jw s) = view s) :
    view (w.resolve venue tick policy v).store = view w.store := by
  unfold World.resolve
  cases v.owes policy tick with
  | none => rfl
  | some jw => exact outside jw _

theorem resolved_log (done : List Resubmit) (w : World S) :
    (w.resolved venue tick policy done).log = w.log ++ done.flatMap fun v =>
      v.calls venue ++ (v.owes policy tick).toList.map (Event.wrote venue) := by
  induction done generalizing w with
  | nil => simp [World.resolved]
  | cons v rest ih =>
      have first : (w.resolve venue tick policy v).log = w.log ++
          (v.calls venue ++ (v.owes policy tick).toList.map (Event.wrote venue)) := by
        unfold World.resolve
        cases v.owes policy tick with
        | none => simp [World.landed]
        | some jw => simp [World.landed]
      show ((w.resolve venue tick policy v).resolved venue tick policy rest).log = _
      rw [ih, first, List.append_assoc, List.flatMap_cons]

/-- The venue calls among the events of some resubmits. -/
theorem calls_of_resolved (done : List Resubmit) :
    (done.flatMap fun v => v.calls venue ++
      (v.owes policy tick).toList.map (Event.wrote venue)).filter Event.isCall =
      done.flatMap (Resubmit.calls venue) := by
  induction done with
  | nil => rfl
  | cons v rest ih =>
      rw [List.flatMap_cons, List.filter_append, ih, List.flatMap_cons]
      cases v.owes policy tick <;> rfl

theorem settles_resolved (done : List Resubmit) : ∀ w : World S,
    (done.map Resubmit.key).Nodup →
    (∀ v ∈ done, KeeperStores.marker w.store v.key =
      some (.reserved v.reservation.nextEligible v.reservation.body)) →
    Settles policy tick done w (w.resolved venue tick policy done) := by
  induction done with
  | nil => exact fun w _ _ => ⟨by simp, fun _ _ => rfl, fun _ _ => rfl⟩
  | cons v rest ih =>
      intro w nodup held
      obtain ⟨fresh, nodup⟩ := List.nodup_cons.mp nodup
      have others : ∀ v' ∈ rest, v'.key ≠ v.key := by
        intro v' listed same
        exact fresh (same ▸ List.mem_map_of_mem listed)
      have later := ih (w.resolve venue tick policy v) nodup (by
        intro v' listed
        rw [marker_resolve_other (others v' listed)]
        exact held v' (List.mem_cons_of_mem v listed))
      refine ⟨?_, ?_, ?_⟩
      · intro v' listed
        rcases List.mem_cons.mp listed with rfl | listed
        · exact (later.spared v'.key fresh).trans
            (marker_resolve_self (held v' List.mem_cons_self))
        · exact later.resolved v' listed
      · intro key absent
        rw [List.map_cons, List.mem_cons, not_or] at absent
        exact (later.spared key absent.2).trans (marker_resolve_other absent.1)
      · intro α view outside
        exact (later.outside view outside).trans (outside_resolve outside)

end Effect

/-! ## The pass -/

section Pass

variable {S : Type} [KeeperStores S] {R : Rely Op (World S) (Input (KeeperStores.Edit S))}
  {venue : VenueId} {tick : Tick} {budget : Nat} {policy : FaultPolicy}

theorem settles_share {w : World S} {done : List Resubmit} {left : List Reservation}
    (split : share w.store tick budget = done.map Resubmit.reservation ++ left) :
    Settles policy tick done w (w.resolved venue tick policy done) := by
  apply settles_resolved done w
  · have nodup := share_keys w.store tick budget
    rw [split, List.map_append, List.map_map] at nodup
    exact (List.nodup_append.mp nodup).1
  · intro v listed
    have shared : v.reservation ∈ share w.store tick budget := by
      rw [split]
      exact List.mem_append_left _ (List.mem_map_of_mem listed)
    exact marker_of_share shared

theorem Settles.reservation {w t : World S} {done : List Resubmit}
    (settles : Settles policy tick done w t)
    (listed : ∀ v ∈ done, v.reservation ∈ KeeperStores.pending w.store) {r : Reservation}
    (pending : r ∈ KeeperStores.pending w.store) (absent : r ∉ done.map Resubmit.reservation) :
    KeeperStores.marker t.store r.key = some (.reserved r.nextEligible r.body) := by
  rw [settles.spared r.key]
  · exact (KeeperStores.mem_pending w.store r).mp pending
  · intro same
    obtain ⟨v, resubmitted, key⟩ := List.mem_map.mp same
    have one : v.reservation = r := pending_inj (listed v resubmitted) pending key
    exact absent (one ▸ List.mem_map_of_mem resubmitted)

theorem Settles.committed {w t : World S} {done : List Resubmit}
    (settles : Settles policy tick done w t)
    (listed : ∀ v ∈ done, v.reservation ∈ KeeperStores.pending w.store) {key : String}
    (final : KeeperStores.marker w.store key = some .committed) :
    KeeperStores.marker t.store key = some .committed := by
  rw [settles.spared key, final]
  intro same
  obtain ⟨v, resubmitted, own⟩ := List.mem_map.mp same
  have held := (KeeperStores.mem_pending w.store v.reservation).mp (listed v resubmitted)
  rw [show v.reservation.key = key from own, final] at held
  cases held

theorem reconcile_resolves (w : World S) :
    Keeps (machine S) R (fun _ _ => True)
      (fun out t => (∃ f, out = .error f ∧ t = w) ∨
        Resolves venue tick policy (share w.store tick budget) {} w out t)
      (reconcile venue tick budget policy).run w := by
  refine Keeps.bindExcept (keeps_read (q := .pending) trivial ?_ ?_)
  · intro _
    refine (reconcileLoop_resolves (KeeperStores.pending w.store) 0 {} w).mono ?_
    intro out t _ resolves
    exact .inr resolves
  · intro f _
    exact .inl ⟨f, rfl, rfl⟩

/-- The resubmits of a pass and those of them whose write has landed: all of them, or all but
the last when the pass returns a fault. -/
theorem reconcile_effect {w t : World S} {out : Except Fault ReconcileReport}
    (run : Exec (machine S) R (reconcile venue tick budget policy).run w (.done out) t) :
    ∃ called : List Resubmit,
      called.map Resubmit.reservation = (share w.store tick budget).take called.length ∧
      (since w t).filter Event.isCall = called.flatMap (Resubmit.calls venue) ∧
      Settles policy tick (if out.isOk then called else called.dropLast) w t ∧
      ∀ report, out = .ok report →
        called.map Resubmit.reservation = share w.store tick budget ∧
        report.handled = called.length ∧
        t = w.resolved venue tick policy called := by
  rcases (reconcile_resolves w).returns run with ⟨f, rfl, rfl⟩ | ⟨done, resolves⟩
  · refine ⟨[], by simp, by simp [since], ?_, nofun⟩
    exact ⟨by simp [Except.isOk, Except.toBool], fun _ _ => rfl, fun _ _ => rfl⟩
  · cases out with
    | ok report =>
        obtain ⟨all, rfl, handled⟩ := resolves
        have count : done.length = (share w.store tick budget).length := by
          rw [all, List.length_map]
        refine ⟨done, ?_, ?_, settles_share (all.trans (List.append_nil _).symm), ?_⟩
        · rw [count, List.take_length, all]
        · rw [since_of_log (resolved_log done w), calls_of_resolved]
        · intro report' same
          cases same
          refine ⟨all.symm, ?_, rfl⟩
          rw [handled]
          exact Nat.zero_add _
    | error f =>
        obtain ⟨last, rest, split, rfl⟩ := resolves
        have settles : Settles policy tick done w (w.resolved venue tick policy done) :=
          settles_share split
        refine ⟨done ++ [last], ?_, ?_, ?_, nofun⟩
        · have count : (done ++ [last]).length = (done.map Resubmit.reservation).length + 1 := by
            simp
          rw [count, split, List.take_length_add_append, List.map_append]
          rfl
        · have log := World.called_log (w.resolved venue tick policy done) venue last
          rw [resolved_log, List.append_assoc] at log
          rw [since_of_log log, List.filter_append, calls_of_resolved, List.flatMap_append]
          simp [Resubmit.calls, Event.isCall]
        · have landed : (if Except.isOk (.error f : Except Fault ReconcileReport) then
              done ++ [last] else (done ++ [last]).dropLast) = done := by
            simp [Except.isOk, Except.toBool]
          rw [landed]
          exact ⟨settles.resolved, settles.spared, settles.outside⟩

/-- A pass makes the venue calls of a prefix of its share and of nothing else, and its effect on
the store is that of the resubmits whose write has landed. It returns a report when it has
called for the whole share; when it returns a fault, the last call's reservation is as it was. -/
theorem pass_resolves_share {w t : World S} {out : Except Fault ReconcileReport}
    (run : Exec (machine S) R (reconcile venue tick budget policy).run w (.done out) t) :
    ((∀ o i v, R o i v → i.faults = false) → ∃ report, out = .ok report) ∧
      ∃ called settled : List Resubmit,
        called.map Resubmit.reservation = (share w.store tick budget).take called.length ∧
        (since w t).filter Event.isCall = called.flatMap (Resubmit.calls venue) ∧
        Settles policy tick settled w t ∧
        (∀ r ∈ KeeperStores.pending w.store, r ∉ settled.map Resubmit.reservation →
          KeeperStores.marker t.store r.key = some (.reserved r.nextEligible r.body)) ∧
        (∀ key, KeeperStores.marker w.store key = some .committed →
          KeeperStores.marker t.store key = some .committed) ∧
        match out with
        | .ok report => settled = called ∧ called.length = (share w.store tick budget).length ∧
            report.committed + report.released + report.pending + report.unsigned.length =
              called.length
        | .error _ => settled = called.dropLast := by
  constructor
  · intro faultless
    have quiet : Exec (machine S) (Faultless R) (reconcile venue tick budget policy).run w
        (.done out) t := run.mono fun o i v rely => ⟨rely, faultless o i v rely⟩
    exact (Succeeds.reconcile venue tick budget policy w).returns quiet
  obtain ⟨called, part, calls, settles, reports⟩ := reconcile_effect run
  have pending : ∀ v ∈ called, v.reservation ∈ KeeperStores.pending w.store := by
    intro v listed
    have taken : v.reservation ∈ (share w.store tick budget).take called.length :=
      part ▸ List.mem_map_of_mem listed
    exact List.mem_of_mem_filter (List.mem_of_mem_take (List.mem_of_mem_take taken))
  cases out with
  | ok report =>
      obtain ⟨all, handled, -⟩ := reports report rfl
      have count : called.length = (share w.store tick budget).length := by
        rw [← all, List.length_map]
      exact ⟨called, called, part, calls, settles, fun _ => settles.reservation pending,
        fun _ => settles.committed pending, rfl, count, handled⟩
  | error f =>
      have before : ∀ v ∈ called.dropLast, v.reservation ∈ KeeperStores.pending w.store :=
        fun v listed => pending v ((List.dropLast_sublist called).subset listed)
      exact ⟨called, called.dropLast, part, calls, settles, fun _ => settles.reservation before,
        fun _ => settles.committed before, rfl⟩

end Pass

open scoped MemStore

def backlogWorld : World MemStore :=
  ((stubWorld.write stubKeeper.venue (.reserve (submissionKey stubKeeper.venue [111, 110, 101])
      [111, 110, 101])).write stubKeeper.venue
    (.reserve (submissionKey stubKeeper.venue [116, 119, 111]) [116, 119, 111])).write
    stubKeeper.venue (.park (submissionKey stubKeeper.venue stubBody) stubBody 2000)

def passed (R : Rely Op (World MemStore) (Input MemStore.Edit)) [∀ o i w, Decidable (R o i w)]
    (k : Keeper) (tick : Tick) (inputs : List (Input MemStore.Edit)) (w : World MemStore) :
    Option (Except Fault ReconcileReport × World MemStore) :=
  returned (machine MemStore) R (reconcile k.venue tick k.maxPerTick k.faultPolicy).run inputs w

/-- The first resubmit is throttled for a second and a half; the commit of the second faults. -/
theorem pass_resolves_share_stub : ∃ (called settled : List Resubmit) (t : World MemStore),
    called.length = 2 ∧ called.map Resubmit.reservation =
      (share backlogWorld.store stubTick stubKeeper.maxPerTick).take called.length ∧
    settled = called.dropLast ∧
    Settles stubKeeper.faultPolicy stubTick settled backlogWorld t := by
  have ran : (passed anyRely stubKeeper stubTick [.ok, .sent true,
      .answered (.error (.rateLimited (some 1500))), .ok, .sent true,
      .answered (.ok (.accepted [165, 90])), .fault .timeout] backlogWorld).map (fun p =>
        (p.1, (since backlogWorld p.2).countP Event.isCall)) =
      some (.error .timeout, 4) := by decide
  obtain ⟨⟨out, t⟩, run, same⟩ := Option.map_eq_some_iff.mp ran
  obtain ⟨rfl, count⟩ := Prod.mk.inj same
  obtain ⟨-, called, settled, part, calls, settles, -, -, dropped⟩ :=
    pass_resolves_share (Exec.of_returned run)
  refine ⟨called, settled, t, ?_, part, dropped, settles⟩
  have each : (called.flatMap (Resubmit.calls stubKeeper.venue)).length = 2 * called.length := by
    rw [List.length_flatMap]
    simp [Resubmit.calls, Nat.mul_comm]
  rw [← calls, ← List.countP_eq_length_filter, count] at each
  omega

end Videre.Sdk
