import Videre.Sdk.Protocol

/-! # The code keeps to the protocol

Function by function, from the arms of the reconcile loop up to a whole run: each
operation is one protocol step, and a call that returns leaves the run at rest,
with the transactions of its report those its answers handed back.
-/

namespace Videre.Sdk

open Interaction Relation

variable {S : Type} [KeeperStores S] [NexumSdk]
  {R : Rely Op (World S) (Input (KeeperStores.Edit S))} {k : Keeper} {tick : Tick}
  {w₀ w : World S}

/-- A call that returns leaves its run at rest and past the reconcile pass, and reports the
transactions its answers handed back. -/
def Returned (R : Rely Op (World S) (Input (KeeperStores.Edit S))) (k : Keeper) (tick : Tick)
    (w₀ : World S) {α : Type} (unsigned : α → List UnsignedTx) (out : Except Fault α)
    (t : World S) : Prop :=
  ∀ report, out = .ok report → AtRest R k tick w₀ t ∧ Swept k tick w₀ t ∧
    unsigned report = surfaced (since w₀ t)

/-- An arm that returns leaves the run at rest, having written under one key only. -/
def DisposedOf (R : Rely Op (World S) (Input (KeeperStores.Edit S))) (k : Keeper) (tick : Tick)
    (w₀ w : World S) (key : String) (unsigned : List UnsignedTx)
    (out : Except Fault ReconcileReport) (t : World S) : Prop :=
  ∀ report, out = .ok report → AtRest R k tick w₀ t ∧
    (∃ es, since w₀ t = since w₀ w ++ es ∧ surfaced es = [] ∧ ∀ e ∈ es, e.key? = some key) ∧
    report.unsigned = unsigned

/-- The arms of the reconcile loop make the write the answer calls for, and no other. -/
theorem dispose_keeps {r : Reservation} {report : ReconcileReport} {result : SubmitResult}
    (path : Path R k tick w₀ w)
    (last : (since w₀ w).getLast? = some (.answered .reconcile k.venue r.key r.body result)) :
    Keeps (machine S) R (Step R k tick w₀)
      (DisposedOf R k tick w₀ w r.key (report.unsigned ++
        surfaced [.answered .reconcile k.venue r.key r.body result]))
      (dispose k.venue tick k.faultPolicy r report result).run w := by
  have wrote : ∀ {jw : JournalWrite} {report' : ReconcileReport},
      owed k.faultPolicy tick r.key r.body .reconcile result = some jw →
      report'.unsigned = report.unsigned ++
        surfaced [.answered .reconcile k.venue r.key r.body result] →
      Keeps (machine S) R (Step R k tick w₀)
        (DisposedOf R k tick w₀ w r.key (report.unsigned ++
          surfaced [.answered .reconcile k.venue r.key r.body result]))
        (KeeperM.write k.venue jw >>= fun _ => pure report').run w := by
    intro jw report' owes unsigned
    refine Keeps.bindExcept (keeps_write .stutter ?_ ?_)
    · intro _
      refine ⟨.settle last owes, ?_⟩
      intro _ same
      cases same
      have settled : ∀ key body, jw ≠ .reserve key body := by
        intro key body reserve
        rcases owed_cases owes with ⟨other, _⟩ | ⟨other, _⟩ | ⟨_, other⟩ <;>
          simp [reserve] at other
      refine ⟨path.rests_settled settled, ⟨_, path.since_write jw, rfl, ?_⟩, unsigned⟩
      intro e he
      rw [List.mem_singleton.mp he]
      exact congrArg some (owed_key owes)
    · intro f _ _ same
      simp at same
  have left : ∀ {report' : ReconcileReport},
      owed k.faultPolicy tick r.key r.body .reconcile result = none →
      report'.unsigned = report.unsigned ++
        surfaced [.answered .reconcile k.venue r.key r.body result] →
      Keeps (machine S) R (Step R k tick w₀)
        (DisposedOf R k tick w₀ w r.key (report.unsigned ++
          surfaced [.answered .reconcile k.venue r.key r.body result]))
        (pure report' : KeeperM ReconcileReport).run w := by
    intro report' owes unsigned _ same
    cases same
    refine ⟨?_, ⟨[], by simp, rfl, by simp⟩, unsigned⟩
    intro e last'
    rw [last] at last'
    cases last'
    exact .inl owes
  cases result with
  | ok outcome =>
      cases outcome with
      | accepted receipt => exact wrote rfl (List.append_nil _).symm
      | requiresSigning tx => exact wrote rfl rfl
  | error fault =>
      change Keeps _ _ _ _ (ExceptT.run (if k.faultPolicy.isTerminal fault then _ else _)) w
      by_cases terminal : k.faultPolicy.isTerminal fault = true
      · rw [if_pos terminal]
        exact wrote (by simp [owed, releases, terminal]) (List.append_nil _).symm
      · rw [if_neg terminal]
        have kept : releases k.faultPolicy .reconcile (.error fault) ≠ true := terminal
        cases fault with
        | rateLimited hint =>
            cases hint with
            | none => exact left (if_neg kept) (List.append_nil _).symm
            | some ms => exact wrote (if_neg kept) (List.append_nil _).symm
        | _ => exact left (if_neg kept) (List.append_nil _).symm

/-- The loop between two reservations: `before` is the part of the pending list it has behind
it, and every event so far concerns that part. -/
structure Sweeping (R : Rely Op (World S) (Input (KeeperStores.Edit S))) (k : Keeper) (tick : Tick)
    (w₀ : World S) (before rest : List Reservation) (spent : Nat) (report : ReconcileReport)
    (w : World S) : Prop where
  split : KeeperStores.pending w₀.store = before ++ rest
  counted : spent = (before.filter (Reservation.eligible tick)).length
  path : Path R k tick w₀ w
  rests : AtRest R k tick w₀ w
  ahead : ∀ e ∈ since w₀ w, ∀ r ∈ rest, e.key? ≠ some r.key
  behind : ∀ r ∈ before.filter (Reservation.eligible tick), ∃ e ∈ since w₀ w, e.key? = some r.key
  unsigned : report.unsigned = surfaced (since w₀ w)

section Sweeping

variable {before rest : List Reservation} {r : Reservation} {spent : Nat} {report : ReconcileReport}

theorem sweeping_start : Sweeping R k tick w₀ [] (KeeperStores.pending w₀.store) 0 {} w₀ := by
  have start : since w₀ w₀ = [] := since_start w₀
  exact ⟨rfl, rfl, ReflTransGen.refl, atRest_start, by simp [start], by simp, by
    simp [start, surfaced]⟩

theorem Sweeping.over (sweeping : Sweeping R k tick w₀ before rest spent report w)
    (done : rest = [] ∨ k.maxPerTick ≤ spent) :
    Returned R k tick w₀ ReconcileReport.unsigned (.ok report) w := by
  intro _ same
  cases same
  have swept : Swept k tick w₀ w := fun r listed =>
    sweeping.behind r (share_behind sweeping.split (sweeping.counted ▸ done) listed)
  exact ⟨sweeping.rests, swept, sweeping.unsigned⟩

theorem Sweeping.advanced (sweeping : Sweeping R k tick w₀ before (r :: rest) spent report w) :
    KeeperStores.pending w₀.store = (before ++ [r]) ++ rest := by
  rw [sweeping.split, List.append_assoc, List.singleton_append]

theorem Sweeping.distinct (sweeping : Sweeping R k tick w₀ before (r :: rest) spent report w) :
    ∀ r' ∈ rest, r.key ≠ r'.key := by
  have nodup := KeeperStores.pending_nodup w₀.store
  rw [sweeping.split, List.map_append, List.map_cons] at nodup
  have tail := (List.nodup_cons.mp (List.nodup_append.mp nodup).2.1).1
  intro r' hr' same
  exact tail (same ▸ List.mem_map_of_mem hr')

theorem Sweeping.skip (sweeping : Sweeping R k tick w₀ before (r :: rest) spent report w)
    (gated : tick.epochS < r.nextEligible) :
    Sweeping R k tick w₀ (before ++ [r]) rest spent { report with gated := report.gated + 1 } w := by
  have skipped : (before ++ [r]).filter (Reservation.eligible tick) =
      before.filter (Reservation.eligible tick) := by
    simp [Reservation.eligible, gated]
  exact ⟨sweeping.advanced, skipped ▸ sweeping.counted, sweeping.path, sweeping.rests,
    fun e he r' hr' => sweeping.ahead e he r' (List.mem_cons_of_mem r hr'),
    skipped ▸ sweeping.behind, sweeping.unsigned⟩

theorem Sweeping.posts (sweeping : Sweeping R k tick w₀ before (r :: rest) spent report w)
    (eligible : r.eligible tick = true) (room : spent < k.maxPerTick) (placed : Bool)
    (rely : R (.post .reconcile k.venue r.key r.body) (.sent placed) w) :
    Step R k tick w₀ w (w.record (.posted .reconcile k.venue r.key r.body placed)) :=
  .repost (mem_share sweeping.split eligible (sweeping.counted ▸ room))
    (fun e he => sweeping.ahead e he r List.mem_cons_self) sweeping.rests rely

/-- What an arm logs concerns its own reservation, so the ones ahead stay untouched. -/
theorem Sweeping.serve (sweeping : Sweeping R k tick w₀ before (r :: rest) spent report w)
    (eligible : r.eligible tick = true) {report' : ReconcileReport} {t : World S}
    {placed : Bool} {result : SubmitResult} {es : List Event} (path : Path R k tick w₀ t)
    (rests : AtRest R k tick w₀ t)
    (grown : since w₀ t = since w₀ w ++ [.posted .reconcile k.venue r.key r.body placed] ++
      [.answered .reconcile k.venue r.key r.body result] ++ es)
    (silent : surfaced es = []) (own : ∀ e ∈ es, e.key? = some r.key)
    (unsigned : report'.unsigned = report.unsigned ++
      surfaced [.answered .reconcile k.venue r.key r.body result]) :
    Sweeping R k tick w₀ (before ++ [r]) rest (spent + 1) report' t := by
  have resolved : (before ++ [r]).filter (Reservation.eligible tick) =
      before.filter (Reservation.eligible tick) ++ [r] := by
    simp [eligible]
  refine ⟨sweeping.advanced, ?_, path, rests, ?_, ?_, ?_⟩
  · rw [resolved, List.length_append, List.length_singleton, sweeping.counted]
  · intro e he r' hr' same
    rw [grown] at he
    have concerns : e ∈ since w₀ w ∨ e.key? = some r.key := by
      simp only [List.append_assoc, List.mem_append, List.mem_cons, List.not_mem_nil,
        or_false] at he
      rcases he with old | rfl | rfl | new
      · exact .inl old
      · exact .inr rfl
      · exact .inr rfl
      · exact .inr (own e new)
    rcases concerns with old | mine
    · exact sweeping.ahead e old r' (List.mem_cons_of_mem r hr') same
    · exact sweeping.distinct r' hr' (Option.some.inj (mine.symm.trans same))
  · intro r' hr'
    rw [resolved, List.mem_append, List.mem_singleton] at hr'
    rw [grown]
    rcases hr' with old | rfl
    · obtain ⟨e, he, concerns⟩ := sweeping.behind r' old
      exact ⟨e, by simp [he], concerns⟩
    · exact ⟨.posted .reconcile k.venue r'.key r'.body placed, by simp, rfl⟩
  · rw [unsigned, grown, surfaced_append, surfaced_append, surfaced_append, silent,
      sweeping.unsigned]
    simp [surfaced, Event.surfaced?]

end Sweeping

theorem reconcileLoop_keeps (rest : List Reservation) : ∀ (before : List Reservation)
    (spent : Nat) (report : ReconcileReport) (w : World S),
    Sweeping R k tick w₀ before rest spent report w →
    Keeps (machine S) R (Step R k tick w₀)
      (Returned R k tick w₀ ReconcileReport.unsigned)
      (reconcileLoop k.venue tick k.maxPerTick k.faultPolicy rest spent report).run w := by
  induction rest with
  | nil =>
      intro before spent report w sweeping
      exact sweeping.over (.inl rfl)
  | cons r rest ih =>
      intro before spent report w sweeping
      unfold reconcileLoop
      by_cases gated : tick.epochS < r.nextEligible
      · rw [if_pos gated]
        exact ih _ _ _ _ (sweeping.skip gated)
      have eligible : r.eligible tick = true := by simp [Reservation.eligible, gated]
      rw [if_neg gated]
      by_cases exhausted : k.maxPerTick ≤ spent
      · rw [if_pos exhausted]
        exact sweeping.over (.inr exhausted)
      have posted := sweeping.posts eligible (Nat.lt_of_not_le exhausted)
      rw [if_neg exhausted]
      refine Keeps.bindExcept (keeps_submit posted ?_)
      intro placed result relyPost relyReply
      have path := sweeping.path
      have sent : Path R k tick w₀ _ := path.tail (posted placed relyPost)
      have answer : Step R k tick w₀ _ _ := .answer (path.last_record _) relyReply
      have answered : Path R k tick w₀ _ := sent.tail answer
      refine ⟨answer, Keeps.bindExcept
        ((dispose_keeps answered (sent.last_record _)).mono ?_)⟩
      intro outcome t disposed post
      cases outcome with
      | error f =>
          intro _ same
          simp at same
      | ok report' =>
          obtain ⟨rests, ⟨es, grown, silent, own⟩, unsigned⟩ := post report' rfl
          rw [sent.since_record, path.since_record] at grown
          exact ih _ _ _ _ (sweeping.serve eligible (answered.trans disposed) rests grown silent
            own unsigned)

theorem reconcile_keeps :
    Keeps (machine S) R (Step R k tick w₀)
      (Returned R k tick w₀ ReconcileReport.unsigned)
      (reconcile k.venue tick k.maxPerTick k.faultPolicy).run w₀ := by
  refine Keeps.bindExcept (keeps_read .stutter ?_ ?_)
  · intro _
    exact reconcileLoop_keeps _ [] 0 {} w₀ sweeping_start
  · intro f _ _ same
    simp at same

theorem clearRefusal_keeps {c : CommitmentRef} {report : RunReport}
    (rests : AtRest R k tick w₀ w) (unsigned : report.unsigned = surfaced (since w₀ w)) :
    Keeps (machine S) R (Step R k tick w₀)
      (fun out t => ∀ fate, out = .ok fate → AtRest R k tick w₀ t ∧
        (fate.elim RunReport.unsigned fun _ => report.unsigned) = surfaced (since w₀ t))
      (KeeperM.attempt (KeeperM.clearRefusal c) >>= fun _ =>
        pure (.inl report) : KeeperM (RunReport ⊕ RetryAction)).run w := by
  refine Keeps.bindExcept (Keeps.lift (keeps_retrier ?_ ?_))
  · intro _
    refine ⟨.store _ (marker_perform (.clearRefusal c) w.store), ?_⟩
    intro _ same
    cases same
    exact ⟨rests.of_store (marker_perform (.clearRefusal c) w.store), unsigned⟩
  · intro f landed _
    refine ⟨.store _ (marker_applyEdits landed w.store), ?_⟩
    intro _ same
    cases same
    exact ⟨rests.of_store (marker_applyEdits landed w.store), unsigned⟩

theorem submitArm_keeps {c : CommitmentRef} {report : RunReport} {body : Bytes}
    (path : Path R k tick w₀ w)
    (asked : (since w₀ w).getLast? = some (.polled c (.submit body)))
    (unsigned : report.unsigned = surfaced (since w₀ w)) :
    Keeps (machine S) R (Step R k tick w₀)
      (fun out t => ∀ fate, out = .ok fate → AtRest R k tick w₀ t ∧
        (fate.elim RunReport.unsigned fun _ => report.unsigned) = surfaced (since w₀ t))
      (k.submitArm c report body).run w := by
  refine Keeps.bindExcept (keeps_read .stutter ?_ (by simp))
  intro _
  cases held : KeeperStores.marker w.store (submissionKey k.venue body) with
  | some marker =>
      have rests : AtRest R k tick w₀ w := by
        intro e last
        rw [asked] at last
        cases last
        show KeeperStores.marker w.store (submissionKey k.venue body) ≠ none
        simp [held]
      cases marker with
      | reserved nextEligible stored =>
          simp only [Query.eval, held, Option.map_some, Marker.mark]
          intro _ same
          cases same
          exact ⟨rests, unsigned⟩
      | committed =>
          simp only [Query.eval, held, Option.map_some, Marker.mark]
          intro _ same
          cases same
          exact ⟨rests, unsigned⟩
  | none =>
      simp only [Query.eval, held, Option.map_none]
      refine Keeps.bindExcept (keeps_write .stutter ?_ (by simp))
      intro _
      have reserve : Step R k tick w₀ _ _ := .reserve asked held
      have reserved : Path R k tick w₀ _ := path.tail reserve
      have posted : ∀ placed, R (.post .commitments k.venue (submissionKey k.venue body) body)
          (.sent placed) (w.write k.venue (.reserve (submissionKey k.venue body) body)) →
          Step R k tick w₀ (w.write k.venue (.reserve (submissionKey k.venue body) body))
            ((w.write k.venue (.reserve (submissionKey k.venue body) body)).record
              (.posted .commitments k.venue (submissionKey k.venue body) body placed)) :=
        fun _ rely => .post (path.last_write _) rfl rely
      refine ⟨reserve, Keeps.bindExcept (keeps_submit posted ?_)⟩
      intro placed result relyPost relyReply
      have sent : Path R k tick w₀ _ := reserved.tail (posted placed relyPost)
      have answer : Step R k tick w₀ _ _ := .answer (reserved.last_record _) relyReply
      have answered : Path R k tick w₀ _ := sent.tail answer
      have last := sent.last_record
        (.answered .commitments k.venue (submissionKey k.venue body) body result)
      have accrued := sent.surfaced_record
        (.answered .commitments k.venue (submissionKey k.venue body) body result)
      rw [reserved.surfaced_record, path.surfaced_write, surfaced_posted, List.append_nil,
        ← unsigned] at accrued
      refine ⟨answer, ?_⟩
      cases result with
      | ok outcome =>
          cases outcome with
          | accepted receipt =>
              have unsigned' := accrued.trans (List.append_nil _)
              refine Keeps.bindExcept (Keeps.lift (keeps_write .stutter ?_ ?_))
              · intro _
                refine ⟨.settle last rfl, clearRefusal_keeps (answered.rests_settled (by simp)) ?_⟩
                exact ((answered.surfaced_write _).trans unsigned').symm
              · intro f rely
                exact clearRefusal_keeps (sent.rests_faulted rely) unsigned'.symm
          | requiresSigning tx =>
              refine Keeps.bindExcept (keeps_write .stutter ?_ (by simp))
              intro _
              refine ⟨.settle last rfl, ?_⟩
              intro _ same
              cases same
              refine ⟨answered.rests_settled (by simp), ?_⟩
              exact ((answered.surfaced_write _).trans accrued).symm
      | error fault =>
          refine Keeps.bindExcept (keeps_write .stutter ?_ (by simp))
          intro _
          refine ⟨.settle last rfl, ?_⟩
          intro _ same
          cases same
          refine ⟨answered.rests_settled (by simp), ?_⟩
          exact ((answered.surfaced_write _).trans (accrued.trans (List.append_nil _))).symm

theorem settle_keeps {c : CommitmentRef} {action : RetryAction} {report : RunReport}
    (rests : AtRest R k tick w₀ w) (unsigned : report.unsigned = surfaced (since w₀ w)) :
    Keeps (machine S) R (Step R k tick w₀)
      (fun out t => ∀ report', out = .ok report' → AtRest R k tick w₀ t ∧
        report'.unsigned = surfaced (since w₀ t))
      (Keeper.settle c tick action report).run w := by
  have bucketed : ∀ (v : World S) (present : Bool), AtRest R k tick w₀ v →
      report.unsigned = surfaced (since w₀ v) →
      Keeps (machine S) R (Step R k tick w₀)
        (fun out t => ∀ report', out = .ok report' → AtRest R k tick w₀ t ∧
          report'.unsigned = surfaced (since w₀ t))
        (if present then pure { report with retried := report.retried + 1 }
          else pure { report with dropped := report.dropped + 1 } : KeeperM RunReport).run v := by
    intro v present rests' unsigned'
    cases present <;>
      (intro _ same
       cases same
       exact ⟨rests', unsigned'⟩)
  refine Keeps.bindExcept (keeps_retrier ?_ ?_)
  · intro _
    refine ⟨.store _ (marker_perform (.apply c action tick) w.store), ?_⟩
    have applied := rests.of_store (marker_perform (.apply c action tick) w.store)
    refine Keeps.bindExcept (Keeps.lift (keeps_read .stutter ?_ ?_))
    · intro _
      exact bucketed _ _ applied unsigned
    · intro f _
      exact bucketed _ _ applied unsigned
  · intro f landed _
    exact ⟨.store _ (marker_applyEdits landed w.store), by simp⟩

theorem visit_keeps {report : RunReport} {key : String} (path : Path R k tick w₀ w)
    (rests : AtRest R k tick w₀ w) (swept : Swept k tick w₀ w)
    (unsigned : report.unsigned = surfaced (since w₀ w)) :
    Keeps (machine S) R (Step R k tick w₀)
      (fun out t => ∀ report', out = .ok report' → AtRest R k tick w₀ t ∧
        report'.unsigned = surfaced (since w₀ t)) (k.visit tick report key).run w := by
  have untouched : ∀ report' : RunReport, report'.unsigned = report.unsigned →
      Keeps (machine S) R (Step R k tick w₀)
        (fun out t => ∀ report', out = .ok report' → AtRest R k tick w₀ t ∧
          report'.unsigned = surfaced (since w₀ t)) (pure report' : KeeperM RunReport).run w := by
    intro report' kept _ same
    cases same
    exact ⟨rests, kept.trans unsigned⟩
  unfold Keeper.visit
  cases NexumSdk.parse key with
  | none => exact untouched _ rfl
  | some c =>
      refine Keeps.bindExcept (keeps_read .stutter ?_ (by simp))
      intro _
      dsimp only
      split
      · exact untouched _ rfl
      refine Keeps.bindExcept (keeps_read .stutter ?_ (by simp))
      intro _
      dsimp only
      split
      · exact untouched _ rfl
      refine Keeps.bindExcept (keeps_poll ?_)
      intro outcome edits rely
      have polled : Step R k tick w₀ _ _ := .poll rests swept rely
      have edited : Path R k tick w₀ (w.edited edits) :=
        path.tail (.store _ (marker_applyEdits edits w.store))
      have asked := edited.last_record (.polled c outcome)
      have unsigned' : report.unsigned =
          surfaced (since w₀ ((w.edited edits).record (.polled c outcome))) := by
        rw [edited.since_record, surfaced_append]
        exact unsigned.trans (List.append_nil _).symm
      refine ⟨polled, ?_⟩
      cases outcome with
      | submit body =>
          refine Keeps.bindExcept ((submitArm_keeps (path.tail polled) asked ?_).mono ?_)
          · exact unsigned'
          intro fate v _ post
          cases fate with
          | error f => simp
          | ok fate =>
              obtain ⟨rests', accrued⟩ := post fate rfl
              cases fate with
              | inl report' =>
                  intro _ same
                  cases same
                  exact ⟨rests', accrued⟩
              | inr action => exact settle_keeps rests' accrued
      | waitBlock => exact settle_keeps (edited.rests_last trivial) unsigned'
      | backoff seconds => exact settle_keeps (edited.rests_last trivial) unsigned'
      | drop => exact settle_keeps (edited.rests_last trivial) unsigned'

theorem run_keeps :
    Keeps (machine S) R (Step R k tick w₀) (Returned R k tick w₀ RunReport.unsigned)
      (k.run tick).run w₀ := by
  refine Keeps.bindExcept (reconcile_keeps.mono ?_)
  intro reconciled w reconciling post
  cases reconciled with
  | error f => simp [Returned]
  | ok rec_ =>
      obtain ⟨rests, swept, unsigned⟩ := post rec_ rfl
      refine Keeps.bindExcept (keeps_read .stutter ?_ (by simp [Returned]))
      intro _
      refine Keeps.foldlM (fun _ report v => Path R k tick w₀ v ∧ AtRest R k tick w₀ v ∧
        Swept k tick w₀ v ∧ report.unsigned = surfaced (since w₀ v)) ?_ ?_ _ _ w
        ⟨reconciling, rests, swept, unsigned⟩
      · intro key rest report v loop
        obtain ⟨path, rests', swept', unsigned'⟩ := loop
        refine (visit_keeps path rests' swept' unsigned').mono ?_
        intro out t visiting accrued
        cases out with
        | error f => simp [Returned]
        | ok report' =>
            obtain ⟨es, grown⟩ := path.grows visiting
            obtain ⟨rests'', unsigned''⟩ := accrued report' rfl
            exact ⟨path.trans visiting, rests'', swept'.mono grown, unsigned''⟩
      · intro report v loop _ same
        cases same
        exact loop.2

end Videre.Sdk
