import Videre.Sdk.Calculus

/-! # A store that does not fault

Errors come from the store only, so over a store that does not fault a call that
runs to its end returns its report.
-/

namespace Videre.Sdk

open Interaction

def Input.faults {Edit : Type} : Input Edit → Bool
  | .fault _ | .torn _ _ => true
  | _ => false

variable {S : Type} [KeeperStores S]

/-- The same environment, its store never faulting. -/
def Faultless (R : Rely Op (World S) (Input (KeeperStores.Edit S))) :
    Rely Op (World S) (Input (KeeperStores.Edit S)) :=
  fun o i w => R o i w ∧ i.faults = false

instance (R : Rely Op (World S) (Input (KeeperStores.Edit S))) [∀ o i w, Decidable (R o i w)] :
    ∀ o i w, Decidable (Faultless R o i w) :=
  fun o i w => inferInstanceAs (Decidable (R o i w ∧ i.faults = false))

section Rules

variable {R : Rely Op (World S) (Input (KeeperStores.Edit S))} {G : World S → World S → Prop}
  {w : World S}

theorem faultless_read {q : Query} {Q : Except Fault q.Ans → World S → Prop} (stutter : G w w)
    (ok : Q (.ok (q.eval w.store)) w) :
    Keeps (machine S) (Faultless R) G Q (Program.perform (Op.read q)) w :=
  keeps_read stutter (fun _ => ok) (by simp [Faultless, Input.faults])

theorem faultless_write {venue : VenueId} {jw : JournalWrite}
    {Q : Except Fault Unit → World S → Prop} (stutter : G w w) (moves : G w (w.write venue jw))
    (ok : Q (.ok ()) (w.write venue jw)) :
    Keeps (machine S) (Faultless R) G Q (KeeperM.write venue jw).run w :=
  keeps_write stutter (fun _ => ⟨moves, ok⟩) (by simp [Faultless, Input.faults])

theorem faultless_retrier {call : RetrierCall} {Q : Except Fault Unit → World S → Prop}
    (moves : G w { w with store := call.perform w.store })
    (ok : Q (.ok ()) { w with store := call.perform w.store }) :
    Keeps (machine S) (Faultless R) G Q (Program.perform (Op.retrier call)) w :=
  keeps_retrier (fun _ => ⟨moves, ok⟩) (by simp [Faultless, Input.faults])

end Rules

def Succeeds (R : Rely Op (World S) (Input (KeeperStores.Edit S))) {α : Type} (x : KeeperM α) :
    Prop :=
  ∀ w, Keeps (machine S) (Faultless R) (fun _ _ => True) (fun out _ => ∃ a, out = .ok a) x.run w

namespace Succeeds

variable {R : Rely Op (World S) (Input (KeeperStores.Edit S))} {α β : Type}

theorem pure (a : α) : Succeeds R (Pure.pure a : KeeperM α) :=
  fun _ => ⟨a, rfl⟩

theorem bind {x : KeeperM α} {f : α → KeeperM β} (first : Succeeds R x)
    (second : ∀ a, Succeeds R (f a)) : Succeeds R (x >>= f) := by
  intro w
  refine Keeps.bindExcept ((first w).mono ?_)
  rintro _ t _ ⟨a, rfl⟩
  exact second a t

theorem attempt {x : KeeperM α} (succeeds : Succeeds R x) : Succeeds R (KeeperM.attempt x) :=
  fun w => Keeps.lift ((succeeds w).mono fun out _ _ _ => ⟨out, rfl⟩)

theorem read (q : Query) :
    Succeeds R (ExceptT.mk (Program.perform (Op.read q)) : KeeperM q.Ans) :=
  fun _ => keeps_read trivial (fun _ => ⟨_, rfl⟩) (by simp [Faultless, Input.faults])

theorem write (venue : VenueId) (jw : JournalWrite) : Succeeds R (KeeperM.write venue jw) :=
  fun _ => keeps_write trivial (fun _ => ⟨trivial, _, rfl⟩) (by simp [Faultless, Input.faults])

theorem retrier (call : RetrierCall) :
    Succeeds R (ExceptT.mk (Program.perform (Op.retrier call)) : KeeperM Unit) :=
  fun _ => keeps_retrier (fun _ => ⟨trivial, _, rfl⟩) (by simp [Faultless, Input.faults])

theorem poll (c : CommitmentRef) (params : Bytes) (tick : Tick) :
    Succeeds R (KeeperM.poll c params tick) :=
  fun _ => keeps_poll fun _ _ _ => ⟨trivial, _, rfl⟩

theorem submit (pass : Pass) (venue : VenueId) (key : String) (body : Bytes) :
    Succeeds R (KeeperM.submit pass venue key body) :=
  fun _ => keeps_submit (fun _ _ => trivial) fun _ _ _ _ => ⟨trivial, _, rfl⟩

theorem dispose (venue : VenueId) (tick : Tick) (policy : FaultPolicy) (r : Reservation)
    (report : ReconcileReport) (result : SubmitResult) :
    Succeeds R (Sdk.dispose venue tick policy r report result) := by
  unfold Sdk.dispose
  split
  · exact (write _ _).bind fun _ => pure _
  · exact (write _ _).bind fun _ => pure _
  · split
    · exact (write _ _).bind fun _ => pure _
    · split
      · exact (write _ _).bind fun _ => pure _
      · exact pure _

theorem reconcileLoop (venue : VenueId) (tick : Tick) (maxPerTick : Nat) (policy : FaultPolicy)
    (rest : List Reservation) : ∀ spent report,
    Succeeds R (Sdk.reconcileLoop venue tick maxPerTick policy rest spent report) := by
  induction rest with
  | nil => exact fun _ report => pure report
  | cons r rest ih =>
      intro spent report
      unfold Sdk.reconcileLoop
      split
      · exact ih _ _
      · split
        · exact pure _
        · exact (submit _ _ _ _).bind fun result =>
            (dispose venue tick policy r report result).bind fun report => ih _ report

theorem reconcile (venue : VenueId) (tick : Tick) (maxPerTick : Nat) (policy : FaultPolicy) :
    Succeeds R (Sdk.reconcile venue tick maxPerTick policy) :=
  (read .pending).bind fun reservations => reconcileLoop venue tick maxPerTick policy reservations 0 {}

theorem settle (c : CommitmentRef) (tick : Tick) (action : RetryAction) (report : RunReport) :
    Succeeds R (Keeper.settle c tick action report) := by
  refine (retrier _).bind fun _ => (read (.get c)).attempt.bind fun row => ?_
  intro w
  cases row with
  | ok params => cases params <;> exact ⟨_, rfl⟩
  | error f => cases action <;> exact ⟨_, rfl⟩

variable [NexumSdk] (keeper : Keeper)

theorem submitArm (c : CommitmentRef) (report : RunReport) (body : Bytes) :
    Succeeds R (keeper.submitArm c report body) := by
  unfold Keeper.submitArm
  refine (read (.mark _)).bind fun mark => ?_
  split
  · exact pure _
  · exact pure _
  · refine (write _ _).bind fun _ => (submit _ _ _ _).bind fun result => ?_
    split
    · exact (write _ _).attempt.bind fun _ => (retrier _).attempt.bind fun _ => pure _
    · exact (write _ _).bind fun _ => pure _
    · exact (write _ _).bind fun _ => pure _

theorem visit (tick : Tick) (report : RunReport) (key : String) :
    Succeeds R (keeper.visit tick report key) := by
  unfold Keeper.visit
  split
  · exact pure _
  · refine (read (.isReady _ _ _)).bind fun ready => ?_
    split
    · exact pure _
    · refine (read (.get _)).bind fun params => ?_
      split
      · exact pure _
      · refine (poll _ _ _).bind fun outcome => ?_
        split
        · refine (submitArm keeper _ _ _).bind fun fate => ?_
          cases fate with
          | inl report' => exact pure _
          | inr action => exact settle _ tick action _
        · exact settle _ tick .tryNextBlock _
        · exact settle _ tick (.backoff _) _
        · exact settle _ tick .drop _

theorem run (tick : Tick) : Succeeds R (keeper.run tick) := by
  refine (reconcile _ _ _ _).bind fun rec_ => (read .list).bind fun keys => ?_
  intro w
  refine Keeps.foldlM (fun _ _ _ => True) ?_ (fun report _ _ => ⟨report, rfl⟩) _ _ w trivial
  intro key rest report v _
  refine (visit keeper tick report key v).mono ?_
  rintro _ t _ ⟨report', rfl⟩
  trivial

end Succeeds

/-- Over a faultless store a sweep that runs to its end reports. -/
theorem run_reports [NexumSdk] {R : Rely Op (World S) (Input (KeeperStores.Edit S))} {k : Keeper}
    {tick : Tick} {w w' : World S} {out : Except Fault RunReport}
    (run : Exec (machine S) (Faultless R) (k.run tick).run w (.done out) w') :
    ∃ report, out = .ok report :=
  (Succeeds.run k tick w).returns run

end Videre.Sdk
