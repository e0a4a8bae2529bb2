import Videre.Sdk.Disposition
import Videre.Sdk.Once
import Videre.Sdk.Recovery

/-! # A parked order waits

A rate limit's hint parks a reservation until an epoch. Both submitting loops leave
it alone until a tick reaches that epoch: the reconcile pass by the eligibility it
reads, the commitment loop by the marker, whatever the polls ask for, however the
clock moves below that epoch and wherever a tick is torn.
-/

namespace Videre.Sdk

open Interaction Relation

theorem park_epoch (tick : Tick) (ms : UInt64) :
    saturatingAdd tick.epochS (divCeil ms 1000) = UInt64.ofNat (parkedUntil tick ms) := by
  rw [← toNat_park, UInt64.ofNat_toNat]

theorem parkedUntil_lt (tick : Tick) (ms : UInt64) : parkedUntil tick ms < UInt64.size := by
  unfold parkedUntil
  have size : UInt64.size = 2 ^ 64 := rfl
  omega

/-- The answer to a resubmit that parks its reservation. -/
def hinted (venue : VenueId) (key : String) (body : Bytes) (ms : UInt64) : Event :=
  .answered .reconcile venue key body (.error (.rateLimited (some ms)))

section Waiting

variable {S : Type} [KeeperStores S] [NexumSdk]
  {R R' : Rely Op (World S) (Input (KeeperStores.Edit S))} {k : Keeper} {tick : Tick}
  {w₀ w w' : World S} {key : String} {body : Bytes} {n : UInt64}

/-- A run at a tick before the eligibility of a reservation leaves its key alone. -/
theorem Path.waits (path : Path R k tick w₀ w)
    (held : KeeperStores.marker w₀.store key = some (.reserved n body))
    (early : tick.epochS < n) : ∀ e ∈ since w₀ w, e.key? ≠ some key := by
  induction path with
  | refl => simp [since_start]
  | @tail v v' path step ih =>
      have path : Path R k tick w₀ v := path
      rcases step.moves with ⟨same, _⟩ | ⟨e, records⟩
      · have silent : since w₀ v' = since w₀ v := by rw [since, since, same]
        rw [silent]
        exact ih
      · rw [path.since_append records.log]
        refine untouched_concat ih fun concerns => ?_
        rcases records.opens key concerns with unmarked | ⟨last, b, ends, under⟩ | ⟨r, listed, own, _⟩
        · rw [path.frame ih, held] at unmarked
          cases unmarked
        · exact ih last (List.mem_of_getLast? ends) (Event.key_of_under under)
        · have marked := marker_of_share listed
          rw [own, held] at marked
          cases marked
          have eligible := (List.mem_filter.mp (List.mem_of_mem_take listed)).2
          simp [Reservation.eligible, early] at eligible

/-- An answer of the reconcile pass that owes a write is followed by it. -/
theorem Step.settles (step : Step R k tick w₀ w w') {result : SubmitResult} {jw : JournalWrite}
    (last : (since w₀ w).getLast? = some (.answered .reconcile k.venue key body result))
    (owes : owed k.faultPolicy tick key body .reconcile result = some jw) :
    w'.log = w.log ∨ w' = w.write k.venue jw := by
  have busy : ¬ AtRest R k tick w₀ w := by
    intro rests
    rcases rests _ last with none_owed | ⟨_, _, _, other, _⟩
    · rw [owes] at none_owed
      cases none_owed
    · cases other
  cases step with
  | store s same => exact .inl rfl
  | poll rests swept rely => exact absurd rests busy
  | reserve asked unmarked =>
      rw [last] at asked
      cases asked
  | post reserved own rely =>
      rw [last] at reserved
      cases reserved
  | repost listed untouched rests rely => exact absurd rests busy
  | answer posted rely =>
      rw [last] at posted
      cases posted
  | settle answered owes' =>
      rw [last] at answered
      cases answered
      rw [owes] at owes'
      cases owes'
      exact .inr rfl

/-- After the answer with the hint, the park write is due; after the park, the key is left
alone for the rest of the run. -/
theorem Path.parking (path : Path R k tick w₀ w) {ms : UInt64} {before rest : List Event}
    (retried : k.faultPolicy.isTerminal (.rateLimited (some ms)) = false)
    (split : since w₀ w = before ++ hinted k.venue key body ms :: rest) :
    rest = [] ∨ ∃ tail,
      rest = .wrote k.venue (.park key body (UInt64.ofNat (parkedUntil tick ms))) :: tail ∧
        (∀ e ∈ tail, e.key? ≠ some key) ∧ KeeperStores.marker w.store key =
          some (.reserved (UInt64.ofNat (parkedUntil tick ms)) body) := by
  have owes : owed k.faultPolicy tick key body .reconcile (.error (.rateLimited (some ms))) =
      some (.park key body (UInt64.ofNat (parkedUntil tick ms))) := by
    simp [owed, releases, retried, park_epoch]
  induction path generalizing rest with
  | refl => simp [since_start] at split
  | @tail v v' path step ih =>
      have path : Path R k tick w₀ v := path
      rcases step.moves with ⟨same, kept⟩ | ⟨e, records⟩
      · have silent : since w₀ v' = since w₀ v := by rw [since, since, same]
        rcases ih (silent ▸ split) with due | ⟨tail, parked, untouched, marked⟩
        · exact .inl due
        · exact .inr ⟨tail, parked, untouched, (kept key).trans marked⟩
      · rw [path.since_append records.log] at split
        rcases split_concat split with ⟨now, _, _⟩ | ⟨rest', grown, earlier⟩
        · exact .inl now
        right
        rcases ih earlier with due | ⟨tail, parked, untouched, marked⟩
        · subst due
          have last : (since w₀ v).getLast? = some (hinted k.venue key body ms) := by
            rw [earlier, List.getLast?_concat]
          rcases step.settles last owes with none_written | written
          · rw [records.log] at none_written
            simp at none_written
          · subst written
            have wrote : Event.wrote k.venue (.park key body _) = e :=
              List.singleton_inj.mp (List.append_cancel_left records.log)
            exact ⟨[], by rw [grown, ← wrote, List.nil_append], List.forall_mem_nil _,
              marker_write_self (.park key body (UInt64.ofNat (parkedUntil tick ms))) v.store⟩
        · have other : e.key? ≠ some key := by
            intro concerns
            rcases records.opens key concerns with
              unmarked | ⟨last, b, ends, under⟩ | ⟨r, _, _, fresh⟩
            · rw [marked] at unmarked
              cases unmarked
            · rw [earlier, parked, List.append_cons, List.getLast?_append_cons] at ends
              rcases List.mem_cons.mp (List.mem_of_getLast? ends) with rfl | later
              · cases under
              · exact untouched last later (Event.key_of_under under)
            · exact fresh (hinted k.venue key body ms) (by simp [earlier]) rfl
          exact ⟨tail ++ [e], by rw [grown, parked, List.cons_append],
            untouched_concat untouched other, (records.same key other).trans marked⟩

/-- The calls at ticks before an epoch, of any keeper over the store. -/
def Before (epochS : Nat) (c : Call) (_ : World S) : Prop :=
  c.tick.epochS.toNat < epochS

instance (epochS : Nat) : ∀ c (w : World S), Decidable (Before epochS c w) := fun _ _ =>
  inferInstanceAs (Decidable (_ < epochS))

/-- Calls before the epoch a reservation waits for never concern its key. -/
theorem Reaches.waits {h : Host S} (reach : Reaches R (Before n.toNat) (Host.idle w) h)
    (held : KeeperStores.marker w.store key = some (.reserved n body)) :
    KeeperStores.marker h.world.store key = some (.reserved n body) ∧
      ∀ e ∈ since w h.world, e.key? ≠ some key := by
  have kept : KeeperStores.marker h.world.store key = some (.reserved n body) ∧
      h.world.log = w.log ++ since w h.world ∧ ∀ e ∈ since w h.world, e.key? ≠ some key := by
    apply reach.by_calls (I := fun v => KeeperStores.marker v.store key = some (.reserved n body) ∧
      v.log = w.log ++ since w v ∧ ∀ e ∈ since w v, e.key? ≠ some key)
    · simp [held, since_start]
    · rintro v edits ⟨marked, log, quiet⟩
      exact ⟨(v.edited_marker edits key).trans marked, log, quiet⟩
    · rintro c w₁ v early ⟨marked, log, quiet⟩ path
      have waits := path.waits marked (UInt64.lt_iff_toNat_lt.mpr early)
      obtain ⟨grown, log'⟩ := since_later log path.log_append
      refine ⟨(path.frame waits).trans marked, log', ?_⟩
      intro e recorded
      rw [grown] at recorded
      rcases List.mem_append.mp recorded with old | new
      · exact quiet e old
      · exact waits e new
  exact ⟨kept.1, kept.2.2⟩

/-- A call that has returned its report is not at a park write. -/
theorem Exec.past_park {c : Call} {q : Program Op Op.Ans (Except Fault c.Report)} {ms : UInt64}
    (run : Exec (machine S) R c.program.run w₀ q w)
    (retried : c.keeper.faultPolicy.isTerminal (.rateLimited (some ms)) = false)
    {report : c.Report} (returned : q = .done (.ok report)) :
    (since w₀ w).getLast? ≠ some (hinted c.keeper.venue key body ms) := by
  have rests : AtRest R c.keeper c.tick w₀ w := by
    subst returned
    cases c with
    | run keeper tick => exact ((run_keeps.returns run) report rfl).1
    | reconcile keeper tick => exact ((reconcile_keeps.returns run) report rfl).1
  intro last
  rcases rests _ last with none_owed | ⟨_, _, _, other, _⟩
  · simp [owed, releases, retried] at none_owed
  · cases other

/-- A reservation whose resubmit was answered with a hint is parked with its body, and no call
before its epoch submits it again; from that epoch on it is eligible. The call that parks it may
itself be torn, past the park write, and so may every later one. -/
theorem parked_order_waits {c : Call} {q : Program Op Op.Ans (Except Fault c.Report)}
    {ms : UInt64} {before rest : List Event} {h : Host S}
    (run : Exec (machine S) R c.program.run w₀ q w)
    (retried : c.keeper.faultPolicy.isTerminal (.rateLimited (some ms)) = false)
    (answered : since w₀ w = before ++ hinted c.keeper.venue key body ms :: rest)
    (past : rest ≠ [] ∨ ∃ report, q = .done (.ok report))
    (later : Reaches R' (Before (parkedUntil c.tick ms)) (Host.idle w) h) :
    (∃ n, ⟨key, n, body⟩ ∈ KeeperStores.pending w₀.store) ∧
      (∀ pass venue b placed, .posted pass venue key b placed ∉ rest) ∧
      (∀ pass venue b placed, .posted pass venue key b placed ∉ since w h.world) ∧
      ∃ n, ⟨key, n, body⟩ ∈ KeeperStores.pending h.world.store ∧
        ∀ t : Tick, Reservation.eligible t ⟨key, n, body⟩ = true ↔
          parkedUntil c.tick ms ≤ t.epochS.toNat := by
  have path : Path R c.keeper c.tick w₀ w := (call_keeps.exec run).1
  have resubmitted : hinted c.keeper.venue key body ms ∈ since w₀ w := by simp [answered]
  obtain ⟨r, listed, own, original⟩ := path.shared resubmitted rfl
  have found : r ∈ KeeperStores.pending w₀.store :=
    List.mem_of_mem_filter (List.mem_of_mem_take listed)
  have epoch : (UInt64.ofNat (parkedUntil c.tick ms)).toNat = parkedUntil c.tick ms :=
    UInt64.toNat_ofNat_of_lt (parkedUntil_lt c.tick ms)
  rcases path.parking retried answered with due | ⟨tail, parked, untouched, marked⟩
  · rcases past with past | ⟨report, returned⟩
    · exact absurd due past
    · have last : (since w₀ w).getLast? = some (hinted c.keeper.venue key body ms) := by
        rw [answered, due, List.getLast?_concat]
      exact absurd last (Exec.past_park run retried returned)
  · rw [← epoch] at later
    obtain ⟨waiting, quiet⟩ := later.waits marked
    refine ⟨⟨r.nextEligible, ?_⟩, ?_, ?_, UInt64.ofNat (parkedUntil c.tick ms), ?_, ?_⟩
    · rw [← own, ← original]
      exact found
    · intro pass venue b placed posted
      rw [parked] at posted
      rcases List.mem_cons.mp posted with other | after
      · cases other
      · exact untouched _ after rfl
    · intro pass venue b placed posted
      exact quiet _ posted rfl
    · exact (KeeperStores.mem_pending _ _).mpr waiting
    · intro t
      simp only [Reservation.eligible, Bool.not_eq_true', decide_eq_false_iff_not,
        UInt64.not_lt, UInt64.le_iff_toNat_le, epoch]

end Waiting

open scoped MemStore

/-- A sweep whose resubmit is throttled for two seconds, and whose poll asks for the same
order. -/
def throttledSweep : List (Input MemStore.Edit) :=
  [.ok, .sent false, .answered (.error (.rateLimited (some 2000))), .ok, .ok, .ok, .ok,
    .polled (.submit stubBody) [], .ok]

/-- A sweep a second later, its poll asking for the order again. -/
def earlySweeps : List (Call × List (Input MemStore.Edit)) :=
  [(.run stubKeeper ⟨1, 101, 1001⟩, [.ok, .ok, .ok, .ok, .polled (.submit stubBody) [], .ok])]

theorem parked_order_waits_stub : ∃ w w' : World MemStore,
    w'.log.length = w.log.length + 1 ∧ (∀ pass venue b placed,
      .posted pass venue stubReservation.key b placed ∉ since w w') ∧
    ∃ n, ⟨stubReservation.key, n, stubBody⟩ ∈ KeeperStores.pending w'.store ∧
      ∀ t : Tick, Reservation.eligible t ⟨stubReservation.key, n, stubBody⟩ = true ↔
        1002 ≤ t.epochS.toNat := by
  have swept : sweeps anyRely stubKeeper stubTick throttledSweep stubStranded (fun _ w =>
      since stubStranded w ==
        [.posted .reconcile stubKeeper.venue stubReservation.key stubBody false] ++
        hinted stubKeeper.venue stubReservation.key stubBody 2000 ::
          [.wrote stubKeeper.venue (.park stubReservation.key stubBody 1002),
            .polled ⟨"commitment:0x00:0x00"⟩ (.submit stubBody)] &&
      ((lifetime anyRely (Before 1002) earlySweeps w).isSome &&
        (lived anyRely (Before 1002) earlySweeps w).log.length == w.log.length + 1)) =
      true := by
    decide
  obtain ⟨report, w, run, test⟩ := Exec.of_sweeps swept
  obtain ⟨answered, early⟩ := Bool.and_eq_true_iff.mp test
  obtain ⟨fits, longer⟩ := Bool.and_eq_true_iff.mp early
  have epoch : parkedUntil (Call.run stubKeeper stubTick).tick 2000 = 1002 := by decide
  have later : Reaches anyRely (Before (parkedUntil (Call.run stubKeeper stubTick).tick 2000))
      (Host.idle w) (Host.idle (lived anyRely (Before 1002) earlySweeps w)) := by
    rw [epoch]
    exact Reaches.lived (fun _ _ _ before => before) fits
  have waits := parked_order_waits (c := .run stubKeeper stubTick) run rfl
    (eq_of_beq answered) (.inl nofun) later
  rw [epoch] at waits
  exact ⟨w, _, eq_of_beq longer, waits.2.2⟩

end Videre.Sdk
