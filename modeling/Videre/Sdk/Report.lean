import Videre.Sdk.MemStore
import Videre.Sdk.Protocol

/-! # Reports tell what happened

The counters of a report are kept by the code as it goes, arm by arm. A report that a
sweep or a pass returns agrees with the log: each counter that is about the venue is
the number of answers of that kind on that path, and the transactions to sign are the
ones the venue handed back, in order.
-/

namespace Videre.Sdk

open Interaction

/-- An answer on a path, of a kind. -/
def Event.answersOn (pass : Pass) (kind : SubmitResult → Bool) : Event → Bool
  | .answered pass' _ _ _ result => pass' == pass && kind result
  | _ => false

def Event.polls : Event → Bool
  | .polled _ _ => true
  | _ => false

def Event.silent : Event → Bool
  | .polled _ _ | .answered _ _ _ _ _ => false
  | _ => true

def accepted : SubmitResult → Bool
  | .ok (.accepted _) => true
  | _ => false

def refusedForGood (policy : FaultPolicy) : SubmitResult → Bool
  | .error fault => policy.isTerminal fault
  | _ => false

def refusedForNow (policy : FaultPolicy) : SubmitResult → Bool
  | .error fault => !policy.isTerminal fault
  | _ => false

/-- The number of answers on a path, of a kind. -/
def answers (pass : Pass) (kind : SubmitResult → Bool) (es : List Event) : Nat :=
  es.countP (Event.answersOn pass kind)

/-- The transactions the answers on a path handed back. -/
def surfacedBy (pass : Pass) (es : List Event) : List UnsignedTx :=
  surfaced (es.filter (Event.answersOn pass fun _ => true))

structure ReconcileReport.Tells (policy : FaultPolicy) (es : List Event)
    (report : ReconcileReport) : Prop where
  committed : report.committed = answers .reconcile accepted es
  released : report.released = answers .reconcile (refusedForGood policy) es
  pending : report.pending = answers .reconcile (refusedForNow policy) es
  unsigned : report.unsigned = surfaced es
  alone : ∀ e ∈ es, e.silent = true ∨ e.answersOn .reconcile (fun _ => true) = true

structure RunReport.Tells (policy : FaultPolicy) (es : List Event) (report : RunReport) : Prop where
  polled : report.polled = es.countP Event.polls
  submitted : report.submitted = answers .commitments accepted es
  unsigned : report.unsigned = surfaced es
  reconciledCommitted : report.reconciledCommitted = answers .reconcile accepted es
  reconciledReleased : report.reconciledReleased = answers .reconcile (refusedForGood policy) es
  reconciledPending : report.reconciledPending = answers .reconcile (refusedForNow policy) es
  reconciledUnsigned : report.reconciledUnsigned = (surfacedBy .reconcile es).length

section Counting

variable {policy : FaultPolicy} {es : List Event} {e : Event} {pass : Pass}
  {kind : SubmitResult → Bool}

theorem answers_concat : answers pass kind (es ++ [e]) =
    answers pass kind es + if e.answersOn pass kind then 1 else 0 := by
  rw [answers, List.countP_append, List.countP_singleton]
  rfl

theorem surfacedBy_concat : surfacedBy pass (es ++ [e]) =
    surfacedBy pass es ++ if e.answersOn pass fun _ => true then surfaced [e] else [] := by
  unfold surfacedBy
  rw [List.filter_append, surfaced_append]
  cases h : e.answersOn pass fun _ => true <;> simp [h, surfaced]

theorem Event.answersOn_of_silent (silent : e.silent = true) : e.answersOn pass kind = false := by
  cases e with
  | answered pass venue key body result => cases silent
  | _ => rfl

theorem Event.polls_of_silent (silent : e.silent = true) : e.polls = false := by
  cases e with
  | polled c outcome => cases silent
  | _ => rfl

theorem surfaced_of_silent (silent : e.silent = true) : surfaced [e] = [] := by
  cases e with
  | answered pass venue key body result => cases silent
  | _ => rfl

theorem ReconcileReport.Tells.start : ReconcileReport.Tells policy [] {} :=
  ⟨rfl, rfl, rfl, rfl, List.forall_mem_nil _⟩

theorem ReconcileReport.Tells.quiet {report : ReconcileReport} (tells : report.Tells policy es)
    (silent : e.silent = true) : report.Tells policy (es ++ [e]) := by
  constructor
  · rw [answers_concat, Event.answersOn_of_silent silent, tells.committed]
    rfl
  · rw [answers_concat, Event.answersOn_of_silent silent, tells.released]
    rfl
  · rw [answers_concat, Event.answersOn_of_silent silent, tells.pending]
    rfl
  · rw [surfaced_append, surfaced_of_silent silent, List.append_nil, tells.unsigned]
  · intro e' member
    rcases List.mem_append.mp member with old | new
    · exact tells.alone e' old
    · rw [List.mem_singleton.mp new]
      exact .inl silent

theorem RunReport.Tells.quiet {report : RunReport} (tells : report.Tells policy es)
    (silent : e.silent = true) : report.Tells policy (es ++ [e]) := by
  constructor
  · rw [List.countP_append, List.countP_singleton, Event.polls_of_silent silent, tells.polled]
    rfl
  · rw [answers_concat, Event.answersOn_of_silent silent, tells.submitted]
    rfl
  · rw [surfaced_append, surfaced_of_silent silent, List.append_nil, tells.unsigned]
  · rw [answers_concat, Event.answersOn_of_silent silent, tells.reconciledCommitted]
    rfl
  · rw [answers_concat, Event.answersOn_of_silent silent, tells.reconciledReleased]
    rfl
  · rw [answers_concat, Event.answersOn_of_silent silent, tells.reconciledPending]
    rfl
  · rw [surfacedBy_concat, Event.answersOn_of_silent silent, tells.reconciledUnsigned]
    simp

theorem ReconcileReport.Tells.answer {report report' : ReconcileReport} {venue : VenueId}
    {key : String} {body : Bytes} {result : SubmitResult} (tells : report.Tells policy es)
    (committed : report'.committed = report.committed + if accepted result then 1 else 0)
    (released : report'.released = report.released + if refusedForGood policy result then 1 else 0)
    (pending : report'.pending = report.pending + if refusedForNow policy result then 1 else 0)
    (unsigned : report'.unsigned =
      report.unsigned ++ surfaced [.answered .reconcile venue key body result]) :
    report'.Tells policy (es ++ [.answered .reconcile venue key body result]) := by
  have counts : ∀ kind : SubmitResult → Bool,
      (Event.answered .reconcile venue key body result).answersOn .reconcile kind = kind result := by
    intro kind
    simp [Event.answersOn]
  constructor
  · rw [answers_concat, counts, committed, tells.committed]
  · rw [answers_concat, counts, released, tells.released]
  · rw [answers_concat, counts, pending, tells.pending]
  · rw [surfaced_append, unsigned, tells.unsigned]
  · intro e member
    rcases List.mem_append.mp member with old | new
    · exact tells.alone e old
    · rw [List.mem_singleton.mp new]
      exact .inr (counts _)

theorem ReconcileReport.Tells.sweep {rec_ : ReconcileReport} (tells : rec_.Tells policy es) :
    RunReport.Tells policy es
      { reconciledCommitted := rec_.committed
        reconciledReleased := rec_.released
        reconciledPending := rec_.pending
        reconciledGated := rec_.gated
        reconciledUnsigned := rec_.unsigned.length
        unsigned := rec_.unsigned } := by
  have unpolled : es.countP Event.polls = 0 := by
    rw [List.countP_eq_zero]
    intro e member polls
    cases e with
    | polled c outcome => rcases tells.alone _ member with h | h <;> cases h
    | _ => cases polls
  have unsubmitted : answers .commitments accepted es = 0 := by
    rw [answers, List.countP_eq_zero]
    intro e member counted
    cases e with
    | answered pass venue key body result =>
        rcases tells.alone _ member with h | h
        · cases h
        · simp only [Event.answersOn, Bool.and_true, Bool.and_eq_true, beq_iff_eq] at h counted
          rw [h] at counted
          cases counted.1
    | _ => cases counted
  have whole : surfacedBy .reconcile es = surfaced es := by
    unfold surfacedBy surfaced
    rw [List.filterMap_filter]
    apply List.filterMap_congr
    intro e member
    rcases tells.alone e member with h | h
    · cases e with
      | answered pass venue key body result => cases h
      | _ => rfl
    · rw [if_pos h]
  constructor
  · exact unpolled.symm
  · exact unsubmitted.symm
  · exact tells.unsigned
  · exact tells.committed
  · exact tells.released
  · exact tells.pending
  · rw [whole, tells.unsigned]

theorem RunReport.Tells.poll {report : RunReport} (tells : report.Tells policy es)
    (c : CommitmentRef) (outcome : Outcome) :
    RunReport.Tells policy (es ++ [.polled c outcome])
      { report with polled := report.polled + 1 } := by
  constructor
  · rw [List.countP_append, ← tells.polled]
    rfl
  · rw [answers_concat, ← tells.submitted]
    rfl
  · rw [surfaced_append, surfaced_polled, List.append_nil, ← tells.unsigned]
  · rw [answers_concat, ← tells.reconciledCommitted]
    rfl
  · rw [answers_concat, ← tells.reconciledReleased]
    rfl
  · rw [answers_concat, ← tells.reconciledPending]
    rfl
  · rw [surfacedBy_concat, ← tells.reconciledUnsigned.symm]
    simp [Event.answersOn]

theorem RunReport.Tells.answer {report report' : RunReport} {venue : VenueId} {key : String}
    {body : Bytes} {result : SubmitResult} (tells : report.Tells policy es)
    (same : report' = { report with
      submitted := report.submitted + if accepted result then 1 else 0
      unsigned := report.unsigned ++ surfaced [.answered .commitments venue key body result] }) :
    report'.Tells policy (es ++ [.answered .commitments venue key body result]) := by
  subst same
  constructor
  · rw [List.countP_append, ← tells.polled]
    rfl
  · rw [answers_concat, ← tells.submitted]
    simp [Event.answersOn]
  · rw [surfaced_append, ← tells.unsigned]
  · rw [answers_concat, ← tells.reconciledCommitted]
    rfl
  · rw [answers_concat, ← tells.reconciledReleased]
    rfl
  · rw [answers_concat, ← tells.reconciledPending]
    rfl
  · rw [surfacedBy_concat, tells.reconciledUnsigned]
    simp [Event.answersOn]

end Counting

/-! ## The pass -/

section Pass

variable {S : Type} [KeeperStores S] {R : Rely Op (World S) (Input (KeeperStores.Edit S))}
  {k : Keeper} {tick : Tick} {policy : FaultPolicy} {venue : VenueId} {w₀ w : World S}
  {es : List Event}

/-- Any step at all. -/
def Free (_ _ : World S) : Prop := True

def PassTold (policy : FaultPolicy) (w₀ : World S) (out : Except Fault ReconcileReport)
    (w : World S) : Prop :=
  ∀ report, out = .ok report → ∃ es, w.log = w₀.log ++ es ∧ report.Tells policy es

omit [KeeperStores S] in
theorem log_record (log : w.log = w₀.log ++ es) (e : Event) :
    (w.record e).log = w₀.log ++ (es ++ [e]) := by
  rw [World.record_log, log, List.append_assoc]

theorem log_write (log : w.log = w₀.log ++ es) (venue : VenueId) (jw : JournalWrite) :
    (w.write venue jw).log = w₀.log ++ (es ++ [.wrote venue jw]) := by
  rw [World.write_log, log, List.append_assoc]

theorem dispose_tells {r : Reservation} {report : ReconcileReport} {result : SubmitResult}
    (log : w.log = w₀.log ++ es) (tells : report.Tells policy es) :
    Keeps (machine S) R Free (PassTold policy w₀)
      (dispose venue tick policy r report result).run
      (w.record (.answered .reconcile venue r.key r.body result)) := by
  have recorded := log_record log (.answered .reconcile venue r.key r.body result)
  have wrote : ∀ (jw : JournalWrite) (report' : ReconcileReport),
      report'.Tells policy (es ++ [.answered .reconcile venue r.key r.body result]) →
      Keeps (machine S) R Free (PassTold policy w₀)
        (KeeperM.write venue jw >>= fun _ => pure report').run
        (w.record (.answered .reconcile venue r.key r.body result)) := by
    intro jw report' told
    apply Keeps.bindExcept
    apply keeps_write trivial
    · intro _
      refine ⟨trivial, ?_⟩
      intro _ same
      cases same
      exact ⟨_, log_write recorded venue jw, told.quiet rfl⟩
    · intro f _ _ same
      cases same
  have left : ∀ report' : ReconcileReport,
      report'.Tells policy (es ++ [.answered .reconcile venue r.key r.body result]) →
      Keeps (machine S) R Free (PassTold policy w₀)
        (pure report' : KeeperM ReconcileReport).run
        (w.record (.answered .reconcile venue r.key r.body result)) := by
    intro report' told _ same
    cases same
    exact ⟨_, recorded, told⟩
  cases result with
  | ok outcome =>
      cases outcome with
      | accepted receipt => exact wrote _ _ (tells.answer rfl rfl rfl (List.append_nil _).symm)
      | requiresSigning tx => exact wrote _ _ (tells.answer rfl rfl rfl rfl)
  | error fault =>
      show Keeps _ _ _ _ (ExceptT.run (if policy.isTerminal fault then _ else _)) _
      by_cases terminal : policy.isTerminal fault = true
      · rw [if_pos terminal]
        apply wrote
        apply tells.answer rfl _ _ (List.append_nil _).symm
        · simp [refusedForGood, terminal]
        · simp [refusedForNow, terminal]
      · rw [if_neg terminal]
        have pending : ReconcileReport.Tells policy
            (es ++ [.answered .reconcile venue r.key r.body (.error fault)])
            { report with pending := report.pending + 1 } := by
          apply tells.answer rfl _ _ (List.append_nil _).symm
          · simp [refusedForGood, terminal]
          · simp [refusedForNow, terminal]
        cases fault with
        | rateLimited hint =>
            cases hint with
            | none => exact left _ pending
            | some ms => exact wrote _ _ pending
        | _ => exact left _ pending

theorem reconcileLoop_tells {maxPerTick : Nat} (rest : List Reservation) :
    ∀ (spent : Nat) (report : ReconcileReport) (es : List Event) (w : World S),
    w.log = w₀.log ++ es → report.Tells policy es →
    Keeps (machine S) R Free (PassTold policy w₀)
      (reconcileLoop venue tick maxPerTick policy rest spent report).run w := by
  induction rest with
  | nil =>
      intro spent report es w log tells _ same
      cases same
      exact ⟨es, log, tells⟩
  | cons r rest ih =>
      intro spent report es w log tells
      unfold reconcileLoop
      split
      · exact ih _ _ es w log ⟨tells.committed, tells.released, tells.pending, tells.unsigned,
          tells.alone⟩
      · split
        · intro _ same
          cases same
          exact ⟨es, log, tells⟩
        · apply Keeps.bindExcept
          apply keeps_submit (fun _ _ => trivial)
          intro placed result _ _
          refine ⟨trivial, Keeps.bindExcept ?_⟩
          have posted := log_record log (.posted .reconcile venue r.key r.body placed)
          apply (dispose_tells posted (tells.quiet rfl)).mono
          intro out t _ told
          cases out with
          | error f =>
              intro _ same
              cases same
          | ok report' =>
              obtain ⟨es', log', tells'⟩ := told report' rfl
              exact ih _ _ es' t log' tells'

theorem reconcile_tells {maxPerTick : Nat} :
    Keeps (machine S) R Free (PassTold policy w₀)
      (reconcile venue tick maxPerTick policy).run w₀ := by
  apply Keeps.bindExcept
  apply keeps_read trivial
  · intro _
    exact reconcileLoop_tells _ 0 {} [] w₀ (List.append_nil _).symm .start
  · intro f _ _ same
    cases same

end Pass

/-! ## The sweep -/

section Sweep

variable {S : Type} [KeeperStores S] [NexumSdk]
  {R : Rely Op (World S) (Input (KeeperStores.Edit S))} {k : Keeper} {tick : Tick}
  {policy : FaultPolicy} {w₀ w : World S} {es : List Event} {report : RunReport}

def SweepTold (policy : FaultPolicy) (w₀ : World S) (out : Except Fault RunReport)
    (w : World S) : Prop :=
  ∀ report, out = .ok report → ∃ es, w.log = w₀.log ++ es ∧ report.Tells policy es

/-- What the submit arm leaves: a report that tells, or the one it began with. -/
def ArmTold (policy : FaultPolicy) (w₀ : World S) (report : RunReport)
    (out : Except Fault (RunReport ⊕ RetryAction)) (w : World S) : Prop :=
  ∀ fate, out = .ok fate →
    ∃ es, w.log = w₀.log ++ es ∧ (fate.elim id fun _ => report).Tells policy es

omit [NexumSdk] in
theorem clearRefusal_tells {c : CommitmentRef} {report' : RunReport}
    (log : w.log = w₀.log ++ es) (tells : report'.Tells policy es) :
    Keeps (machine S) R Free (ArmTold policy w₀ report)
      (KeeperM.attempt (KeeperM.clearRefusal c) >>= fun _ =>
        pure (.inl report') : KeeperM (RunReport ⊕ RetryAction)).run w := by
  apply Keeps.bindExcept
  apply Keeps.lift
  apply keeps_retrier
  · intro _
    refine ⟨trivial, ?_⟩
    intro _ same
    cases same
    exact ⟨es, log, tells⟩
  · intro f landed _
    refine ⟨trivial, ?_⟩
    intro _ same
    cases same
    exact ⟨es, log, tells⟩

omit [NexumSdk] in
/-- What the arm leaves when its last write is journalled. -/
theorem wrote_tells {jw : JournalWrite} {fate : RunReport ⊕ RetryAction}
    (log : w.log = w₀.log ++ es) (tells : (fate.elim id fun _ => report).Tells policy es) :
    Keeps (machine S) R Free (ArmTold policy w₀ report)
      (KeeperM.write k.venue jw >>= fun _ =>
        pure fate : KeeperM (RunReport ⊕ RetryAction)).run w := by
  apply Keeps.bindExcept
  apply keeps_write trivial
  · intro _
    constructor
    · trivial
    · intro _ same
      cases same
      exact ⟨_, log_write log k.venue jw, tells.quiet rfl⟩
  · intro f _ _ same
    cases same

theorem submitArm_tells {c : CommitmentRef} {body : Bytes} (log : w.log = w₀.log ++ es)
    (tells : report.Tells policy es) :
    Keeps (machine S) R Free (ArmTold policy w₀ report) (k.submitArm c report body).run w := by
  apply Keeps.bindExcept
  apply keeps_read trivial
  · intro _
    dsimp only
    split
    · intro _ same
      cases same
      exact ⟨es, log, ⟨tells.polled, tells.submitted, tells.unsigned, tells.reconciledCommitted,
        tells.reconciledReleased, tells.reconciledPending, tells.reconciledUnsigned⟩⟩
    · intro _ same
      cases same
      exact ⟨es, log, ⟨tells.polled, tells.submitted, tells.unsigned, tells.reconciledCommitted,
        tells.reconciledReleased, tells.reconciledPending, tells.reconciledUnsigned⟩⟩
    · apply Keeps.bindExcept
      apply keeps_write trivial
      · intro _
        refine ⟨trivial, Keeps.bindExcept ?_⟩
        apply keeps_submit (fun _ _ => trivial)
        intro placed result _ _
        refine ⟨trivial, ?_⟩
        have reserved := log_write log k.venue (.reserve (submissionKey k.venue body) body)
        have posted := log_record reserved
          (.posted .commitments k.venue (submissionKey k.venue body) body placed)
        have answered := log_record posted
          (.answered .commitments k.venue (submissionKey k.venue body) body result)
        have quiet : report.Tells policy (es ++
            [.wrote k.venue (.reserve (submissionKey k.venue body) body)] ++
            [.posted .commitments k.venue (submissionKey k.venue body) body placed]) :=
          (tells.quiet rfl).quiet rfl
        cases result with
        | ok outcome =>
            cases outcome with
            | accepted receipt =>
                have told : RunReport.Tells policy
                    (_ ++ [.answered .commitments k.venue (submissionKey k.venue body) body
                      (.ok (.accepted receipt))])
                    { report with submitted := report.submitted + 1 } :=
                  quiet.answer (by simp [accepted, surfaced, Event.surfaced?])
                apply Keeps.bindExcept
                apply Keeps.lift
                apply keeps_write trivial
                · intro _
                  exact ⟨trivial, clearRefusal_tells (log_write answered _ _) (told.quiet rfl)⟩
                · intro f _
                  exact clearRefusal_tells answered told
            | requiresSigning tx => exact wrote_tells answered (quiet.answer rfl)
        | error fault =>
            apply wrote_tells answered
            apply quiet.answer
            show report = { report with unsigned := report.unsigned ++ [] }
            rw [List.append_nil]
      · intro f _ _ same
        cases same
  · intro f _ _ same
    cases same

omit [NexumSdk] in
theorem settle_tells {c : CommitmentRef} {action : RetryAction} (log : w.log = w₀.log ++ es)
    (tells : report.Tells policy es) :
    Keeps (machine S) R Free (SweepTold policy w₀) (Keeper.settle c tick action report).run w := by
  apply Keeps.bindExcept
  apply keeps_retrier
  · intro _
    refine ⟨trivial, Keeps.bindExcept (Keeps.lift ?_)⟩
    -- Either bucket is the report with a counter that no answer is about.
    have bucket : ∀ present : Bool, Keeps (machine S) R Free (SweepTold policy w₀)
        (if present then pure { report with retried := report.retried + 1 }
          else pure { report with dropped := report.dropped + 1 } : KeeperM RunReport).run
        { w with store := (RetrierCall.apply c action tick).perform w.store } := by
      intro present
      have kept : ∀ report' : RunReport, report'.Tells policy es →
          Keeps (machine S) R Free (SweepTold policy w₀) (pure report' : KeeperM RunReport).run
            { w with store := (RetrierCall.apply c action tick).perform w.store } := by
        intro report' told _ same
        cases same
        exact ⟨es, log, told⟩
      cases present with
      | true =>
          exact kept _ ⟨tells.polled, tells.submitted, tells.unsigned, tells.reconciledCommitted,
            tells.reconciledReleased, tells.reconciledPending, tells.reconciledUnsigned⟩
      | false =>
          exact kept _ ⟨tells.polled, tells.submitted, tells.unsigned, tells.reconciledCommitted,
            tells.reconciledReleased, tells.reconciledPending, tells.reconciledUnsigned⟩
    apply keeps_read trivial
    · intro _
      exact bucket _
    · intro f _
      exact bucket _
  · intro f landed _
    constructor
    · trivial
    · intro _ same
      cases same

theorem visit_tells {key : String} (log : w.log = w₀.log ++ es) (tells : report.Tells policy es) :
    Keeps (machine S) R Free (SweepTold policy w₀) (k.visit tick report key).run w := by
  have left : ∀ report' : RunReport, report'.Tells policy es →
      Keeps (machine S) R Free (SweepTold policy w₀) (pure report' : KeeperM RunReport).run w := by
    intro report' told _ same
    cases same
    exact ⟨es, log, told⟩
  have skipped : RunReport.Tells policy es { report with skipped := report.skipped + 1 } :=
    ⟨tells.polled, tells.submitted, tells.unsigned, tells.reconciledCommitted,
      tells.reconciledReleased, tells.reconciledPending, tells.reconciledUnsigned⟩
  unfold Keeper.visit
  split
  · exact left _ skipped
  next c _ =>
    apply Keeps.bindExcept
    apply keeps_read trivial
    · intro _
      dsimp only
      split
      · exact left _ ⟨tells.polled, tells.submitted, tells.unsigned, tells.reconciledCommitted,
          tells.reconciledReleased, tells.reconciledPending, tells.reconciledUnsigned⟩
      · apply Keeps.bindExcept
        apply keeps_read trivial
        · intro _
          dsimp only
          split
          · exact left _ skipped
          next params _ =>
            apply Keeps.bindExcept
            apply keeps_poll
            intro outcome edits _
            refine ⟨trivial, ?_⟩
            have polled : ((w.edited edits).record (.polled c outcome)).log =
                w₀.log ++ (es ++ [.polled c outcome]) :=
              log_record (w := w.edited edits) log _
            have told := tells.poll c outcome
            cases outcome with
            | submit body =>
                apply Keeps.bindExcept
                apply (submitArm_tells polled told).mono
                intro out v _ armed
                cases out with
                | error f =>
                    intro _ same
                    cases same
                | ok fate =>
                    obtain ⟨es', log', tells'⟩ := armed fate rfl
                    cases fate with
                    | inl report' =>
                        intro _ same
                        cases same
                        exact ⟨es', log', tells'⟩
                    | inr action => exact settle_tells log' tells'
            | waitBlock => exact settle_tells polled told
            | backoff seconds => exact settle_tells polled told
            | drop => exact settle_tells polled told
        · intro f _ _ same
          cases same
    · intro f _ _ same
      cases same

theorem run_tells : Keeps (machine S) R Free (SweepTold k.faultPolicy w₀) (k.run tick).run w₀ := by
  apply Keeps.bindExcept
  apply reconcile_tells.mono
  intro out w _ passed
  cases out with
  | error f =>
      intro _ same
      cases same
  | ok rec_ =>
      obtain ⟨es, log, tells⟩ := passed rec_ rfl
      apply Keeps.bindExcept
      apply keeps_read trivial
      · intro _
        apply Keeps.foldlM (fun _ report w => ∃ es, w.log = w₀.log ++ es ∧
          report.Tells k.faultPolicy es)
        · rintro key _ report v ⟨es, log, tells⟩
          apply (visit_tells log tells).mono
          intro out u _ told
          cases out with
          | error f =>
              intro _ same
              cases same
          | ok report' => exact told report' rfl
        · rintro report v told _ same
          cases same
          exact told
        · exact ⟨es, log, tells.sweep⟩
      · intro f _ _ same
        cases same

def Call.Tells : (call : Call) → List Event → call.Report → Prop
  | .run keeper _, es, report => RunReport.Tells keeper.faultPolicy es report
  | .reconcile keeper _, es, report => ReconcileReport.Tells keeper.faultPolicy es report

/-- The report of a sweep or of a pass, whatever the stores and the venue did in it, says
how many of the venue's answers on each path were of each kind, and hands up every
transaction they carried. -/
theorem report_tells {call : Call} {report : call.Report} {w w' : World S}
    (returned : Exec (machine S) R call.program.run w (.done (.ok report)) w') :
    ∃ es, w'.log = w.log ++ es ∧ call.Tells es report := by
  cases call with
  | run keeper tick =>
      have told : SweepTold keeper.faultPolicy w (.ok report) w' := run_tells.returns returned
      exact told report rfl
  | reconcile keeper tick =>
      have told : PassTold keeper.faultPolicy w (.ok report) w' := reconcile_tells.returns returned
      exact told report rfl

end Sweep

open scoped MemStore

theorem report_tells_accepted :
    ∃ (report : RunReport) (w : World MemStore) (es : List Event), report.submitted = 1 ∧
      w.log = stubWorld.log ++ es ∧ (Call.run stubKeeper stubTick).Tells es report := by
  have ran : sweeps anyRely stubKeeper stubTick acceptedSweep stubWorld
      (fun report _ => report.submitted == 1) = true := by decide
  obtain ⟨report, w, run, one⟩ := Exec.of_sweeps ran
  have told := @report_tells _ _ _ _ (.run stubKeeper stubTick) report stubWorld w run
  obtain ⟨es, log, tells⟩ := told
  exact ⟨report, w, es, beq_iff_eq.mp one, log, tells⟩

end Videre.Sdk
