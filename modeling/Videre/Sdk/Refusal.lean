import Videre.Sdk.Commitments
import Videre.Sdk.Journal
import Videre.Sdk.MemStore
import Videre.Sdk.Once

/-! # A refusal is final

An order the venue has refused for good is remembered by the store alone: no reservation
holds it, and no commitment produces it. The submit path sees to both. The reconcile
pass releases the reservation and knows no commitment, so an order it was refused is
submitted again if a commitment still asks for it; and an order filed under two keys
outlives the refusal of one.
-/

namespace Videre.Sdk

open Interaction Relation

def RefusalFinal (k : Keeper) (es : List Event) : Prop :=
  ∀ past pass key body placed later, es = past ++ .posted pass k.venue key body placed :: later →
    ∀ path, ¬ Refused k path body past

theorem RefusalFinal.concat {k : Keeper} {es : List Event} {e : Event} (final : RefusalFinal k es)
    (new : ∀ pass key body placed, e = .posted pass k.venue key body placed →
      ∀ path, ¬ Refused k path body es) : RefusalFinal k (es ++ [e]) := by
  intro past pass key body placed later split
  rcases split_concat split with ⟨-, rfl, rfl⟩ | ⟨rest, -, earlier⟩
  · exact new pass key body placed rfl
  · exact final past pass key body placed rest earlier

/-- Either path releases what it is refused for good. -/
theorem refusal_releases {k : Keeper}
    (plain : ∀ f, k.faultPolicy.isTerminal f = (k.faultPolicy.action f == .drop)) (pass : Pass)
    {fault : VenueFault} (drop : k.faultPolicy.action fault = .drop) :
    releases k.faultPolicy pass (.error fault) = true := by
  cases pass with
  | reconcile => simp [releases, plain, drop]
  | commitments => rfl

section Refusal

variable {S : Type} [KeeperStores S] [NexumSdk]

/-- Whether a step brings a refused order back: a poll asks for an order refused on the reconcile
path while its key has no marker, or an order is refused for good while a reservation under
another key holds it. -/
def revives (k : Keeper) (w₀ : World S) : Op → Input (KeeperStores.Edit S) → World S → Bool
  | .poll _ _ _, .polled (.submit body) _, w =>
      decide (Refused k .reconcile body (since w₀ w)) &&
        (KeeperStores.marker w.store (submissionKey k.venue body)).isNone
  | .reply _ _ key body, .answered (.error fault), w =>
      k.faultPolicy.action fault == .drop &&
        (KeeperStores.pending w.store).any fun r => r.body == body && r.key != key
  | _, _, _ => false

/-- The same environment, no step of which brings a refused order back. -/
def Unrevived (R : Rely Op (World S) (Input (KeeperStores.Edit S))) (k : Keeper) (w₀ : World S) :
    Rely Op (World S) (Input (KeeperStores.Edit S)) :=
  fun o i w => R o i w ∧ revives k w₀ o i w = false

instance (R : Rely Op (World S) (Input (KeeperStores.Edit S))) [∀ o i w, Decidable (R o i w)]
    (k : Keeper) (w₀ : World S) : ∀ o i w, Decidable (Unrevived R k w₀ o i w) :=
  fun o i w => inferInstanceAs (Decidable (R o i w ∧ revives k w₀ o i w = false))

def Sweep (R : Rely Op (World S) (Input (KeeperStores.Edit S))) (k : Keeper) (w w' : World S) :
    Prop :=
  ∃ tick out, Exec (machine S) (Faultless R) (k.run tick).run w (.done out) w'

variable {R : Rely Op (World S) (Input (KeeperStores.Edit S))} {k : Keeper} {tick : Tick}
  {w₀ w₁ w w' : World S}

theorem Unrevived.marked {c : CommitmentRef} {params body : Bytes}
    {edits : List (KeeperStores.Edit S)}
    (rely : Unrevived R k w₀ (.poll c params tick) (.polled (.submit body) edits) w)
    (refused : Refused k .reconcile body (since w₀ w)) :
    KeeperStores.marker w.store (submissionKey k.venue body) ≠ none := by
  have kept := rely.2
  simpa [revives, refused, Option.isSome_iff_ne_none] using kept

theorem Unrevived.alone {pass : Pass} {venue : VenueId} {key : String} {body : Bytes}
    {fault : VenueFault}
    (rely : Unrevived R k w₀ (.reply pass venue key body) (.answered (.error fault)) w)
    (drop : k.faultPolicy.action fault = .drop) :
    ∀ r ∈ KeeperStores.pending w.store, r.body = body → r.key = key := by
  have kept := rely.2
  simpa [revives, drop] using kept

/-- What a sweep begun in `w₁` keeps: an order refused since `w₀` has not been POSTed again, is
held by no reservation, or only by the one whose release is due, and is not asked for while it has
no marker. -/
structure Shut (k : Keeper) (w₀ w₁ w : World S) : Prop where
  log : w.log = w₀.log ++ since w₀ w
  final : RefusalFinal k (since w₀ w)
  held : ∀ path body, Refused k path body (since w₀ w) →
    (∀ key n, KeeperStores.marker w.store key ≠ some (.reserved n body)) ∨
    ∃ pass key fault,
      (since w₁ w).getLast? = some (.answered pass k.venue key body (.error fault)) ∧
      k.faultPolicy.action fault = .drop ∧
      ∀ key' n, KeeperStores.marker w.store key' = some (.reserved n body) → key' = key
  asked : ∀ c path body, (since w₁ w).getLast? = some (.polled c (.submit body)) →
    Refused k path body (since w₀ w) →
    KeeperStores.marker w.store (submissionKey k.venue body) ≠ none

/-- A run is not at rest while a refusal's release is due. -/
theorem AtRest.not_refused
    (plain : ∀ f, k.faultPolicy.isTerminal f = (k.faultPolicy.action f == .drop))
    (rests : AtRest R k tick w₁ w) {pass : Pass} {key : String} {body : Bytes} {fault : VenueFault}
    (drop : k.faultPolicy.action fault = .drop) :
    (since w₁ w).getLast? ≠ some (.answered pass k.venue key body (.error fault)) := by
  intro last
  rcases rests _ last with unowed | ⟨receipt, f, v, -, accepted, -⟩
  · simp [owed, refusal_releases plain pass drop] at unowed
  · cases accepted

/-- With no release due, no reservation holds a refused order. -/
theorem Shut.free (shut : Shut k w₀ w₁ w) {path : Pass} {body : Bytes}
    (refused : Refused k path body (since w₀ w))
    (settled : ∀ pass key fault, k.faultPolicy.action fault = .drop →
      (since w₁ w).getLast? ≠ some (.answered pass k.venue key body (.error fault)))
    (key : String) (n : UInt64) :
    KeeperStores.marker w.store key ≠ some (.reserved n body) := by
  rcases shut.held path body refused with free | ⟨pass, key', fault, last, drop, -⟩
  · exact free key n
  · exact absurd last (settled pass key' fault drop)

theorem Shut.record (shut : Shut k w₀ w₁ w) {e : Event} (grown : w'.log = w.log ++ [e])
    (same : ∀ key, KeeperStores.marker w'.store key = KeeperStores.marker w.store key)
    (quiet : ∀ path body, e.refuses k path body = false)
    (settled : ∀ pass key body fault, k.faultPolicy.action fault = .drop →
      (since w₁ w).getLast? ≠ some (.answered pass k.venue key body (.error fault)))
    (new : ∀ pass key body placed, e = .posted pass k.venue key body placed →
      ∀ path, ¬ Refused k path body (since w₀ w))
    (unasked : ∀ c path body, (since w₁ w').getLast? = some (.polled c (.submit body)) →
      Refused k path body (since w₀ w) →
      KeeperStores.marker w.store (submissionKey k.venue body) ≠ none) :
    Shut k w₀ w₁ w' := by
  obtain ⟨split, log⟩ := since_later shut.log grown
  have before : ∀ {path body}, Refused k path body (since w₀ w') →
      Refused k path body (since w₀ w) := by
    intro path body refused
    rw [split] at refused
    rcases refused.of_concat with old | fresh
    · exact old
    · rw [quiet] at fresh
      cases fresh
  refine ⟨log, ?_, ?_, ?_⟩
  · rw [split]
    exact shut.final.concat new
  · intro path body refused
    refine .inl fun key n => ?_
    rw [same]
    exact shut.free (before refused) (fun pass key' fault => settled pass key' body fault) key n
  · intro c path body last refused
    rw [same]
    exact unasked c path body last (before refused)

/-- A journal write by which no refused order becomes RESERVED. -/
theorem Shut.write (shut : Shut k w₀ w₁ w) (path₁ : Path R k tick w₁ w) {jw : JournalWrite}
    (free : ∀ path body, Refused k path body (since w₀ w) →
      (∀ n, jw.leaves (KeeperStores.fresh S) ≠ some (.reserved n body)) ∧
      ∀ key n, key ≠ jw.key → KeeperStores.marker w.store key ≠ some (.reserved n body)) :
    Shut k w₀ w₁ (w.write k.venue jw) := by
  obtain ⟨split, log⟩ := since_later shut.log (World.write_log w k.venue jw)
  have before : ∀ {path body}, Refused k path body (since w₀ (w.write k.venue jw)) →
      Refused k path body (since w₀ w) := by
    intro path body refused
    rw [split] at refused
    rcases refused.of_concat with old | fresh
    · exact old
    · cases fresh
  refine ⟨log, ?_, ?_, ?_⟩
  · rw [split]
    exact shut.final.concat nofun
  · intro path body refused
    obtain ⟨written, others⟩ := free path body (before refused)
    refine .inl fun key n => ?_
    by_cases same : key = jw.key
    · rw [same, World.write_store, marker_write_self]
      exact written n
    · rw [World.write_store, marker_write_other same]
      exact others key n same
  · intro c path body last _
    rw [path₁.last_write] at last
    cases last

/-- An answer, given while no other reservation holds the order if it refuses it for good. -/
theorem Shut.answer (shut : Shut k w₀ w₁ w) (path₁ : Path R k tick w₁ w) {pass : Pass}
    {key : String} {body : Bytes} {placed : Bool} {result : SubmitResult}
    (posted : (since w₁ w).getLast? = some (.posted pass k.venue key body placed))
    (alone : ∀ fault, result = .error fault → k.faultPolicy.action fault = .drop →
      ∀ r ∈ KeeperStores.pending w.store, r.body = body → r.key = key) :
    Shut k w₀ w₁ (w.record (.answered pass k.venue key body result)) := by
  obtain ⟨split, log⟩ := since_later shut.log
    (World.record_log w (.answered pass k.venue key body result))
  refine ⟨log, ?_, ?_, ?_⟩
  · rw [split]
    exact shut.final.concat nofun
  · intro path body' refused
    rw [split] at refused
    rcases refused.of_concat with old | new
    · refine .inl (shut.free old ?_)
      intro pass' key' fault _ last
      rw [posted] at last
      cases last
    · obtain ⟨key', fault, same, drop⟩ := refuses_iff.mp new
      cases same
      refine .inr ⟨_, _, _, path₁.last_record _, drop, ?_⟩
      intro other n reserved
      have listed : ⟨other, n, body⟩ ∈ KeeperStores.pending w.store :=
        (KeeperStores.mem_pending _ _).mpr reserved
      exact alone fault rfl drop _ listed rfl
  · intro c path body' last _
    rw [path₁.last_record] at last
    cases last

/-- A POST of a reservation, with no release due. -/
theorem Shut.posted (shut : Shut k w₀ w₁ w) (path₁ : Path R k tick w₁ w) {pass : Pass}
    {key : String} {body : Bytes} {placed : Bool} {n : UInt64}
    (held : KeeperStores.marker w.store key = some (.reserved n body))
    (settled : ∀ pass key' body' fault, k.faultPolicy.action fault = .drop →
      (since w₁ w).getLast? ≠ some (.answered pass k.venue key' body' (.error fault))) :
    Shut k w₀ w₁ (w.record (.posted pass k.venue key body placed)) := by
  refine shut.record rfl (fun _ => rfl) (fun _ _ => rfl) settled ?_ ?_
  · intro pass' key' body' placed' same path' refused
    cases same
    exact shut.free refused (fun pass key' fault => settled pass key' body fault) key n held
  · intro c path' body' last _
    rw [path₁.last_record] at last
    cases last

/-- The write owed for an answer. -/
theorem Shut.settle (plain : ∀ f, k.faultPolicy.isTerminal f = (k.faultPolicy.action f == .drop))
    (shut : Shut k w₀ w₁ w) (path₁ : Path R k tick w₁ w) {pass : Pass} {key : String} {body : Bytes}
    {result : SubmitResult} {jw : JournalWrite}
    (answered : (since w₁ w).getLast? = some (.answered pass k.venue key body result))
    (owes : owed k.faultPolicy tick key body pass result = some jw) :
    Shut k w₀ w₁ (w.write k.venue jw) := by
  obtain ⟨n, reserved⟩ := path₁.reserved answered rfl
  have own : jw.key = key := owed_key owes
  apply shut.write path₁
  intro path' body' refused
  rcases shut.held path' body' refused with free | ⟨pass', key', fault, last, drop, only⟩
  · -- The order written is RESERVED, so it is another's refusal.
    have other : body ≠ body' := by
      rintro rfl
      exact free key n reserved
    refine ⟨?_, fun key n _ => free key n⟩
    intro n' same
    rcases owed_cases owes with ⟨rfl, -⟩ | ⟨rfl, -⟩ | ⟨next, rfl⟩
    · cases same
    · cases same
    · exact other (by cases same; rfl)
  · rw [answered] at last
    cases last
    have release : jw = .release key := by
      simpa [owed, refusal_releases plain pass drop] using owes.symm
    refine ⟨by simp [release, JournalWrite.leaves], ?_⟩
    intro other n' distinct same
    exact distinct (own ▸ only other n' same)

theorem Step.shut
    (plain : ∀ f, k.faultPolicy.isTerminal f = (k.faultPolicy.action f == .drop))
    (step : Step (Faultless (Unrevived R k w₀)) k tick w₁ w w')
    (path : Path (Faultless (Unrevived R k w₀)) k tick w₁ w) (asks : AsksNew k w₀ w w')
    (shut : Shut k w₀ w₁ w) : Shut k w₀ w₁ w' := by
  cases step with
  | store s same =>
      refine ⟨shut.log, shut.final, ?_, ?_⟩
      · intro path body refused
        simp only [same]
        exact shut.held path body refused
      · intro c path body last refused
        simp only [same]
        exact shut.asked c path body last refused
  | @poll c params outcome edits rests swept rely =>
      refine shut.record rfl (fun _ => World.edited_marker _ _ _) (fun _ _ => rfl)
        (fun _ _ _ _ drop => rests.not_refused plain drop) (by intros; contradiction) ?_
      intro c' path' body last refused
      have edited : Path (Faultless (Unrevived R k w₀)) k tick w₁ (w.edited edits) :=
        path.tail (.store _ (marker_applyEdits edits w.store))
      rw [edited.last_record] at last
      cases last
      cases path' with
      | reconcile => exact rely.1.marked refused
      | commitments => exact absurd refused (asks c body rfl)
  | @reserve c body asked unmarked =>
      apply shut.write path
      intro path' body' refused
      have unrefused : body ≠ body' := by
        rintro rfl
        exact shut.asked c path' body asked refused unmarked
      refine ⟨?_, fun key n _ => shut.free refused ?_ key n⟩
      · intro n same
        exact unrefused (by cases same; rfl)
      · intro pass key' fault _ last
        rw [asked] at last
        cases last
  | @post key body placed reserved own rely =>
      obtain ⟨n, held⟩ := path.reserved reserved rfl
      apply shut.posted path held
      intro pass key' body' fault _ last
      rw [reserved] at last
      cases last
  | @repost r placed listed untouched rests rely =>
      have held := (path.frame untouched).trans (marker_of_share listed)
      exact shut.posted path held fun _ _ _ _ drop => rests.not_refused plain drop
  | @answer pass key body placed result posted rely =>
      apply shut.answer path posted
      rintro fault rfl drop
      exact rely.1.alone drop
  | settle answered owes => exact shut.settle plain path answered owes

structure Closed (R : Rely Op (World S) (Input (KeeperStores.Edit S))) (k : Keeper)
    (w₀ w : World S) : Prop where
  final : RefusalFinal k (since w₀ w)
  free : ∀ path body, Refused k path body (since w₀ w) → ∀ key n,
    KeeperStores.marker w.store key ≠ some (.reserved n body)
  gone : GoneBut R k none w₀ w

omit [NexumSdk] in
theorem Closed.start : Closed R k w₀ w₀ := by
  have empty := since_start w₀
  have unrefused : ∀ {path body}, ¬ Refused k path body (since w₀ w₀) := by
    intro path body refused
    rw [empty] at refused
    obtain ⟨e, listed, _⟩ := refused
    cases listed
  refine ⟨?_, fun path body refused => (unrefused refused).elim, by simp [empty],
    fun body c refused => (unrefused refused).elim⟩
  intro past pass key body placed later split
  rw [empty] at split
  simp at split

section Runs

variable (laws : CommitmentLaws S) (steady : SteadyPoller R)
  (plain : ∀ f, k.faultPolicy.isTerminal f = (k.faultPolicy.action f == .drop))

include laws steady plain

/-- A sweep in progress, and the sweep it will have been. -/
theorem Closed.sweep {q : Program Op Op.Ans (Except Fault RunReport)}
    (closed : Closed (Unrevived R k w₀) k w₀ w₁)
    (run : Exec (machine S) (Faultless (Unrevived R k w₀)) (k.run tick).run w₁ q w) :
    RefusalFinal k (since w₀ w) ∧ ∀ out, q = .done out → Closed (Unrevived R k w₀) k w₀ w := by
  have steady' : SteadyPoller (Unrevived R k w₀) := steady.mono fun _ _ _ rely => rely.1
  obtain ⟨steps, ends⟩ := (run_keeps.both (run_gone laws steady' closed.gone)).exec run
  have start : Shut k w₀ w₁ w₁ := by
    refine ⟨closed.gone.log, closed.final,
      fun path body refused => .inl (closed.free path body refused), ?_⟩
    intro c path body last
    rw [since_start] at last
    cases last
  have shut : Path (Faultless (Unrevived R k w₀)) k tick w₁ w ∧ Shut k w₀ w₁ w := by
    clear ends run
    induction steps with
    | refl => exact ⟨.refl, start⟩
    | tail _ step ih => exact ⟨ih.1.tail step.1, step.1.shut plain ih.1 step.2 ih.2⟩
  refine ⟨shut.2.final, ?_⟩
  rintro out rfl
  obtain ⟨returned, gone⟩ := ends
  obtain ⟨report, reported⟩ := run_reports run
  have rests := (returned report reported).1
  exact ⟨shut.2.final, fun path body refused =>
    shut.2.free refused fun _ _ _ drop => rests.not_refused plain drop, gone⟩

/-- In every run of sweeps over a store that does not fault whose steps bring no refused order
back, an order the venue has refused for good is never submitted again. -/
theorem refusal_final {q : Program Op Op.Ans (Except Fault RunReport)}
    (sweeps : ReflTransGen (Sweep (Unrevived R k w₀) k) w₀ w)
    (run : Exec (machine S) (Faultless (Unrevived R k w₀)) (k.run tick).run w q w') :
    RefusalFinal k (since w₀ w') := by
  have closed : Closed (Unrevived R k w₀) k w₀ w := by
    clear run
    induction sweeps with
    | refl => exact Closed.start
    | tail _ sweep ih =>
        obtain ⟨tick, out, run⟩ := sweep
        exact (ih.sweep laws steady plain run).2 out rfl
  exact (closed.sweep laws steady plain run).1

end Runs

end Refusal

open scoped MemStore

theorem commitmentLaws_memStore : CommitmentLaws MemStore where
  dropped _ _ _ := AList.lookup_erase _ _
  apply c c' action _ s absent := by
    cases action with
    | drop =>
        show (s.commitments.erase c'.key).lookup c.key = none
        by_cases same : c.key = c'.key
        · rw [same]
          exact AList.lookup_erase _ _
        · rw [AList.lookup_erase_ne same]
          exact absent
    | tryNextBlock => exact absent
    | backoff seconds => exact absent
  write _ jw _ absent := by cases jw <;> exact absent
  clearRefusal _ _ _ absent := absent

/-- The one commitment gives every order, and the poller does not write. -/
def stubSource (o : Op) (i : Input MemStore.Edit) (_ : World MemStore) : Bool :=
  match o, i with
  | .poll c _ _, .polled (.submit _) edits =>
      c == ⟨"commitment:0x00:0x00"⟩ && edits.isEmpty
  | .poll _ _ _, .polled _ edits => edits.isEmpty
  | _, _ => true

abbrev stubRely : Rely Op (World MemStore) (Input MemStore.Edit) := fun o i w => stubSource o i w = true

theorem stubRely_steady : SteadyPoller stubRely := by
  have silent : ∀ {c params tick outcome edits w},
      stubRely (.poll c params tick) (.polled outcome edits) w → edits = [] := by
    intro c params tick outcome edits w rely
    cases outcome <;> simp_all [stubRely, stubSource]
  refine ⟨silent, ?_⟩
  rintro c c' body ⟨_, _, _, _, first⟩ ⟨_, _, _, _, second⟩
  simp only [stubRely, stubSource, Bool.and_eq_true, beq_iff_eq] at first second
  rw [first.1, second.1]

theorem stubKeeper_plain (f : VenueFault) :
    stubKeeper.faultPolicy.isTerminal f = (stubKeeper.faultPolicy.action f == .drop) := rfl

/-- A sweep whose own submit is denied: the commitment is dropped. -/
def deniedSweep : List (Input MemStore.Edit) :=
  [.ok, .ok, .ok, .ok, .polled (.submit stubBody) [], .ok, .ok, .sent true,
    .answered (.error (.denied "guard")), .ok, .ok, .ok]

/-- The sweep after it finds nothing to poll. -/
theorem refusal_final_stub : ∃ w w' : World MemStore,
    Refused stubKeeper .commitments stubBody (since stubWorld w) ∧
      RefusalFinal stubKeeper (since stubWorld w') := by
  have denied : sweeps (Faultless (Unrevived stubRely stubKeeper stubWorld)) stubKeeper stubTick
      deniedSweep stubWorld (fun _ w =>
        decide (Refused stubKeeper .commitments stubBody (since stubWorld w)) &&
        sweeps (Faultless (Unrevived stubRely stubKeeper stubWorld)) stubKeeper stubTick
          [.ok, .ok] w fun _ _ => true) = true := by decide
  obtain ⟨report, w, run, test⟩ := Exec.of_sweeps denied
  obtain ⟨refused, idle⟩ := Bool.and_eq_true_iff.mp test
  obtain ⟨_, w', run', -⟩ := Exec.of_sweeps idle
  have sweeps : ReflTransGen (Sweep (Unrevived stubRely stubKeeper stubWorld) stubKeeper)
      stubWorld w := .single ⟨stubTick, _, run⟩
  exact ⟨w, w', of_decide_eq_true refused, refusal_final commitmentLaws_memStore stubRely_steady
    stubKeeper_plain sweeps run'⟩

/-- The reconcile pass is denied a stranded order, and releases it; the commitment asks for the
order again within the tick. -/
theorem refused_submitted_again : ∃ (report : RunReport) (w : World MemStore),
    CommitmentLaws MemStore ∧ SteadyPoller stubRely ∧
    Exec (machine MemStore) (Faultless stubRely) (stubKeeper.run stubTick).run strandedWorld
      (.done (.ok report)) w ∧
    ¬ RefusalFinal stubKeeper (since strandedWorld w) := by
  have passed : sweeps (Faultless stubRely) stubKeeper stubTick
      ([.ok, .sent true, .answered (.error (.denied "guard")), .ok, .ok, .ok, .ok,
        .polled (.submit stubBody) [], .ok, .ok, .sent true,
        .answered (.error (.denied "guard")), .ok, .ok, .ok]) strandedWorld
      (fun _ w => decide (
        Refused stubKeeper .reconcile stubBody ((since strandedWorld w).take 5) ∧
        (since strandedWorld w)[5]? = some (.posted .commitments stubKeeper.venue
          (submissionKey stubKeeper.venue stubBody) stubBody true))) = true := by decide
  obtain ⟨report, w, run, test⟩ := Exec.of_sweeps passed
  obtain ⟨refused, posted⟩ := of_decide_eq_true test
  refine ⟨report, w, commitmentLaws_memStore, stubRely_steady, run, ?_⟩
  intro final
  obtain ⟨inside, at_⟩ := List.getElem?_eq_some_iff.mp posted
  have split : since strandedWorld w = (since strandedWorld w).take 5 ++
      .posted .commitments stubKeeper.venue (submissionKey stubKeeper.venue stubBody) stubBody
        true :: (since strandedWorld w).drop 6 := by
    rw [← at_, ← List.drop_eq_getElem_cons inside, List.take_append_drop]
  exact final _ _ _ _ _ _ split _ refused

end Videre.Sdk
