import Videre.Sdk.Faultless
import Videre.Sdk.Protocol

/-! # Commitments across sweeps

The commitment whose order a sweep's own submit was refused for good is dropped before
the sweep polls again, and nothing a sweep does brings a commitment back. So no poll
asks for an order refused on that path, as long as one commitment at most produces it.
-/

namespace Videre.Sdk

open Interaction

/-- What a run relies on of the commitment set: a drop removes the commitment, and neither a
journal write nor a retrier call adds one. -/
structure CommitmentLaws (S : Type) [KeeperStores S] : Prop where
  dropped : ∀ (c : CommitmentRef) (tick : Tick) (s : S),
    KeeperStores.get (KeeperStores.apply c .drop tick s) c = none
  apply : ∀ (c c' : CommitmentRef) (action : RetryAction) (tick : Tick) (s : S),
    KeeperStores.get s c = none → KeeperStores.get (KeeperStores.apply c' action tick s) c = none
  write : ∀ (c : CommitmentRef) (jw : JournalWrite) (s : S),
    KeeperStores.get s c = none → KeeperStores.get (KeeperStores.write jw s) c = none
  clearRefusal : ∀ (c c' : CommitmentRef) (s : S),
    KeeperStores.get s c = none → KeeperStores.get (KeeperStores.clearRefusal c' s) c = none

section Poller

variable {S : Type} [KeeperStores S]

/-- Whether the poller may give an order for a commitment. -/
def Produces (R : Rely Op (World S) (Input (KeeperStores.Edit S))) (c : CommitmentRef)
    (body : Bytes) : Prop :=
  ∃ params tick edits w, R (.poll c params tick) (.polled (.submit body) edits) w

/-- A poller that does not write the store, with each order produced by one commitment at most. -/
structure SteadyPoller (R : Rely Op (World S) (Input (KeeperStores.Edit S))) : Prop where
  silent : ∀ {c params tick outcome edits w},
    R (.poll c params tick) (.polled outcome edits) w → edits = []
  single : ∀ {c c' body}, Produces R c body → Produces R c' body → c = c'

theorem SteadyPoller.mono {R R' : Rely Op (World S) (Input (KeeperStores.Edit S))}
    (steady : SteadyPoller R) (stronger : ∀ o i w, R' o i w → R o i w) : SteadyPoller R' := by
  have produces : ∀ {c body}, Produces R' c body → Produces R c body :=
    fun ⟨params, tick, edits, w, asks⟩ => ⟨params, tick, edits, w, stronger _ _ _ asks⟩
  exact ⟨fun rely => steady.silent (stronger _ _ _ rely),
    fun first second => steady.single (produces first) (produces second)⟩

end Poller

/-- Whether an event is an answer that refuses a body for good. -/
def Event.refuses (k : Keeper) (pass : Pass) (body : Bytes) : Event → Bool
  | .answered pass' venue _ body' (.error fault) =>
      pass' == pass && venue == k.venue && body' == body && k.faultPolicy.action fault == .drop
  | _ => false

/-- The venue has refused the body for good, asked on that path. -/
def Refused (k : Keeper) (pass : Pass) (body : Bytes) (es : List Event) : Prop :=
  ∃ e ∈ es, e.refuses k pass body = true

instance (k : Keeper) (pass : Pass) (body : Bytes) (es : List Event) :
    Decidable (Refused k pass body es) :=
  inferInstanceAs (Decidable (∃ e ∈ es, e.refuses k pass body = true))

theorem refuses_iff {k : Keeper} {pass : Pass} {body : Bytes} {e : Event} :
    e.refuses k pass body = true ↔ ∃ key fault,
      e = .answered pass k.venue key body (.error fault) ∧
        k.faultPolicy.action fault = .drop := by
  unfold Event.refuses
  split
  next pass' venue key body' fault =>
    simp only [Bool.and_eq_true, beq_iff_eq, Event.answered.injEq, Except.error.injEq]
    constructor
    · rintro ⟨⟨⟨rfl, rfl⟩, rfl⟩, drop⟩
      exact ⟨key, fault, ⟨rfl, rfl, rfl, rfl, rfl⟩, drop⟩
    · rintro ⟨_, _, ⟨rfl, rfl, rfl, rfl, rfl⟩, drop⟩
      exact ⟨⟨⟨rfl, rfl⟩, rfl⟩, drop⟩
  next other =>
    simp only [Bool.false_eq_true, false_iff]
    rintro ⟨key, fault, rfl, _⟩
    exact other _ _ _ _ _ rfl

theorem Refused.of_concat {k : Keeper} {pass : Pass} {body : Bytes} {es : List Event} {e : Event}
    (refused : Refused k pass body (es ++ [e])) :
    Refused k pass body es ∨ e.refuses k pass body = true := by
  obtain ⟨e', listed, refuses⟩ := refused
  rcases List.mem_append.mp listed with old | new
  · exact .inl ⟨e', old, refuses⟩
  · exact .inr (List.mem_singleton.mp new ▸ refuses)

section Gone

variable {S : Type} {k : Keeper} {w₀ w : World S}

/-- A step that polls does not ask for an order refused on the submit path. -/
def AsksNew (k : Keeper) (w₀ w w' : World S) : Prop :=
  ∀ c body, w'.log = w.log ++ [.polled c (.submit body)] →
    ¬ Refused k .commitments body (since w₀ w)

theorem AsksNew.same {w' : World S} (same : w'.log = w.log) : AsksNew k w₀ w w' := by
  intro c body grown
  rw [same] at grown
  simp at grown

theorem AsksNew.other {e : Event} {w' : World S} (grown : w'.log = w.log ++ [e])
    (other : ∀ c body, e ≠ .polled c (.submit body)) : AsksNew k w₀ w w' := by
  intro c body asked
  rw [grown] at asked
  exact absurd (List.singleton_inj.mp (List.append_cancel_left asked)) (other c body)

variable [KeeperStores S] {R : Rely Op (World S) (Input (KeeperStores.Edit S))}

/-- No commitment is left, but for one at most, that produces an order refused on the submit
path. -/
structure GoneBut (R : Rely Op (World S) (Input (KeeperStores.Edit S))) (k : Keeper)
    (except? : Option CommitmentRef) (w₀ w : World S) : Prop where
  log : w.log = w₀.log ++ since w₀ w
  gone : ∀ body c, Refused k .commitments body (since w₀ w) → Produces R c body →
    some c ≠ except? → KeeperStores.get w.store c = none

namespace GoneBut

variable {except? : Option CommitmentRef}

theorem step (left : GoneBut R k except? w₀ w) {w' : World S} {es : List Event}
    (grown : w'.log = w.log ++ es) (quiet : ∀ e ∈ es, ∀ body, e.refuses k .commitments body = false)
    (kept : ∀ c, KeeperStores.get w.store c = none → KeeperStores.get w'.store c = none) :
    GoneBut R k except? w₀ w' := by
  obtain ⟨split, log⟩ := since_later left.log grown
  refine ⟨log, ?_⟩
  intro body c refused produces other
  obtain ⟨e, listed, refuses⟩ := refused
  rw [split] at listed
  rcases List.mem_append.mp listed with old | new
  · exact kept c (left.gone body c ⟨e, old, refuses⟩ produces other)
  · rw [quiet e new body] at refuses
    cases refuses

theorem write (left : GoneBut R k except? w₀ w) (laws : CommitmentLaws S) (jw : JournalWrite) :
    GoneBut R k except? w₀ (w.write k.venue jw) := by
  refine left.step rfl ?_ fun c absent => laws.write c jw w.store absent
  intro e listed body
  rw [List.mem_singleton.mp listed]
  rfl

theorem record (left : GoneBut R k except? w₀ w) {e : Event}
    (quiet : ∀ body, e.refuses k .commitments body = false) :
    GoneBut R k except? w₀ (w.record e) := by
  refine left.step rfl ?_ fun _ absent => absent
  intro e' listed body
  rw [List.mem_singleton.mp listed]
  exact quiet body

theorem weaken (left : GoneBut R k none w₀ w) (c : CommitmentRef) :
    GoneBut R k (some c) w₀ w :=
  ⟨left.log, fun body c' refused produces _ => left.gone body c' refused produces (by simp)⟩

/-- A refusal leaves the one commitment that produces the refused order. -/
theorem refused (left : GoneBut R k none w₀ w) (steady : SteadyPoller R) {c : CommitmentRef}
    {key : String} {body : Bytes} {fault : VenueFault} (produces : Produces R c body) :
    GoneBut R k (some c) w₀
      (w.record (.answered .commitments k.venue key body (.error fault))) := by
  obtain ⟨split, log⟩ := since_later left.log (World.record_log w
    (.answered .commitments k.venue key body (.error fault)))
  refine ⟨log, ?_⟩
  intro body' c' refused produces' other
  rw [split] at refused
  rcases refused.of_concat with old | new
  · exact left.gone body' c' old produces' (by simp)
  · obtain ⟨_, _, same, _⟩ := refuses_iff.mp new
    cases same
    exact absurd (congrArg some (steady.single produces' produces)) other

/-- The drop of the one commitment left. -/
theorem drop (left : GoneBut R k (some c) w₀ w) (laws : CommitmentLaws S) (tick : Tick) :
    GoneBut R k none w₀ { w with store := KeeperStores.apply c .drop tick w.store } := by
  refine ⟨left.log, ?_⟩
  intro body c' refused produces _
  by_cases same : c' = c
  · rw [same]
    exact laws.dropped c tick w.store
  · exact laws.apply c' c .drop tick w.store
      (left.gone body c' refused produces fun one => same (Option.some.inj one))

end GoneBut

section Functions

variable {tick : Tick}

theorem dispose_gone (laws : CommitmentLaws S) {policy : FaultPolicy} {r : Reservation}
    {report : ReconcileReport} {result : SubmitResult} (left : GoneBut R k none w₀ w) :
    Keeps (machine S) (Faultless R) (AsksNew k w₀) (fun _ t => GoneBut R k none w₀ t)
      (dispose k.venue tick policy r report result).run w := by
  have wrote : ∀ (jw : JournalWrite) (report : ReconcileReport),
      Keeps (machine S) (Faultless R) (AsksNew k w₀) (fun _ t => GoneBut R k none w₀ t)
        (KeeperM.write k.venue jw >>= fun _ => pure report).run w :=
    fun jw report => Keeps.bindExcept (faultless_write (AsksNew.same rfl)
      (AsksNew.other rfl (by simp)) (left.write laws jw))
  unfold dispose
  split
  · exact wrote _ _
  · exact wrote _ _
  · split
    · exact wrote _ _
    · split
      · exact wrote _ _
      · exact left

theorem reconcileLoop_gone (laws : CommitmentLaws S) {maxPerTick : Nat} {policy : FaultPolicy}
    (rest : List Reservation) : ∀ spent report (w : World S), GoneBut R k none w₀ w →
    Keeps (machine S) (Faultless R) (AsksNew k w₀) (fun _ t => GoneBut R k none w₀ t)
      (reconcileLoop k.venue tick maxPerTick policy rest spent report).run w := by
  induction rest with
  | nil => exact fun _ _ _ left => left
  | cons r rest ih =>
      intro spent report w left
      unfold reconcileLoop
      split
      · exact ih _ _ w left
      · split
        · exact left
        · refine Keeps.bindExcept (keeps_submit (fun _ _ => AsksNew.other rfl (by simp)) ?_)
          intro placed result _ _
          refine ⟨AsksNew.other rfl (by simp), ?_⟩
          have posted := left.record (e := .posted .reconcile k.venue r.key r.body placed)
            fun _ => rfl
          have answered := posted.record
            (e := .answered .reconcile k.venue r.key r.body result) (by
              intro body
              cases result <;> simp [Event.refuses])
          refine Keeps.bindExcept ((dispose_gone laws answered).mono ?_)
          intro out t _ left'
          cases out with
          | ok report' => exact ih _ report' t left'
          | error f => exact left'

theorem reconcile_gone (laws : CommitmentLaws S) {maxPerTick : Nat} {policy : FaultPolicy}
    (left : GoneBut R k none w₀ w) :
    Keeps (machine S) (Faultless R) (AsksNew k w₀) (fun _ t => GoneBut R k none w₀ t)
      (reconcile k.venue tick maxPerTick policy).run w :=
  Keeps.bindExcept (faultless_read (AsksNew.same rfl) (reconcileLoop_gone laws _ 0 {} w left))

/-- A retry action is applied with one commitment at most left over from a refusal, and with none
unless it is a drop. -/
def GoneBefore (R : Rely Op (World S) (Input (KeeperStores.Edit S))) (k : Keeper)
    (c : CommitmentRef) (action : RetryAction) (w₀ w : World S) : Prop :=
  GoneBut R k (some c) w₀ w ∧ (action ≠ .drop → GoneBut R k none w₀ w)

theorem settle_gone (laws : CommitmentLaws S) {c : CommitmentRef} {action : RetryAction}
    {report : RunReport} (left : GoneBefore R k c action w₀ w) :
    Keeps (machine S) (Faultless R) (AsksNew k w₀) (fun _ t => GoneBut R k none w₀ t)
      (Keeper.settle c tick action report).run w := by
  have applied : GoneBut R k none w₀
      { w with store := KeeperStores.apply c action tick w.store } := by
    by_cases drop : action = .drop
    · rw [drop]
      exact left.1.drop laws tick
    · exact (left.2 drop).step (List.append_nil _).symm (by simp)
        fun c' absent => laws.apply c' c action tick w.store absent
  refine Keeps.bindExcept (faultless_retrier (AsksNew.same rfl) (Keeps.bindExcept
    (Keeps.lift (faultless_read (AsksNew.same rfl) ?_))))
  dsimp only
  split
  · exact applied
  · exact applied

variable [NexumSdk]

theorem submitArm_gone (laws : CommitmentLaws S) (steady : SteadyPoller R) {c : CommitmentRef}
    {report : RunReport} {body : Bytes} (left : GoneBut R k none w₀ w)
    (produces : Produces R c body) :
    Keeps (machine S) (Faultless R) (AsksNew k w₀)
      (fun out t => ∃ fate, out = .ok fate ∧ match fate with
        | .inl _ => GoneBut R k none w₀ t
        | .inr action => GoneBefore R k c action w₀ t)
      (k.submitArm c report body).run w := by
  refine Keeps.bindExcept (faultless_read (AsksNew.same rfl) ?_)
  dsimp only
  split
  · exact ⟨_, rfl, left⟩
  · exact ⟨_, rfl, left⟩
  · have reserved := left.write laws (.reserve (submissionKey k.venue body) body)
    refine Keeps.bindExcept (faultless_write (AsksNew.same rfl) (AsksNew.other rfl (by simp)) ?_)
    refine Keeps.bindExcept (keeps_submit (fun _ _ => AsksNew.other rfl (by simp)) ?_)
    intro placed result _ _
    refine ⟨AsksNew.other rfl (by simp), ?_⟩
    have posted := reserved.record
      (e := .posted .commitments k.venue (submissionKey k.venue body) body placed) fun _ => rfl
    cases result with
    | ok outcome =>
        have answered := posted.record
          (e := .answered .commitments k.venue (submissionKey k.venue body) body (.ok outcome))
          fun _ => rfl
        cases outcome with
        | accepted receipt =>
            have committed := answered.write laws (.commit (submissionKey k.venue body))
            refine Keeps.bindExcept (Keeps.lift (faultless_write (AsksNew.same rfl)
              (AsksNew.other rfl (by simp)) (Keeps.bindExcept (Keeps.lift
                (faultless_retrier (AsksNew.same rfl) ?_)))))
            exact ⟨_, rfl, committed.step (List.append_nil _).symm (by simp)
              fun c' absent => laws.clearRefusal c' c _ absent⟩
        | requiresSigning tx =>
            refine Keeps.bindExcept (faultless_write (AsksNew.same rfl)
              (AsksNew.other rfl (by simp)) ?_)
            exact ⟨_, rfl, answered.write laws _⟩
    | error fault =>
        refine Keeps.bindExcept (faultless_write (AsksNew.same rfl)
          (AsksNew.other rfl (by simp)) ?_)
        refine ⟨_, rfl, (posted.refused steady produces).write laws _, ?_⟩
        intro kept
        have quiet : ∀ body', Event.refuses k .commitments body' (.answered .commitments k.venue
            (submissionKey k.venue body) body (.error fault)) = false := by
          intro body'
          simp [Event.refuses, kept]
        exact (posted.record quiet).write laws _

theorem visit_gone (laws : CommitmentLaws S) (steady : SteadyPoller R) {report : RunReport}
    {key : String} (left : GoneBut R k none w₀ w) :
    Keeps (machine S) (Faultless R) (AsksNew k w₀) (fun _ t => GoneBut R k none w₀ t)
      (k.visit tick report key).run w := by
  unfold Keeper.visit
  cases NexumSdk.parse key with
  | none => exact left
  | some c =>
      refine Keeps.bindExcept (faultless_read (AsksNew.same rfl) ?_)
      dsimp only
      split
      · exact left
      refine Keeps.bindExcept (faultless_read (AsksNew.same rfl) ?_)
      dsimp only
      split
      · exact left
      next params held =>
        have present : KeeperStores.get w.store c = some params := held
        refine Keeps.bindExcept (keeps_poll ?_)
        intro outcome edits rely
        have silent := steady.silent rely.1
        have polled : GoneBut R k none w₀ ((w.edited edits).record (.polled c outcome)) := by
          rw [silent]
          exact left.record fun _ => rfl
        constructor
        · intro c' body asked refused
          have same := List.singleton_inj.mp (List.append_cancel_left asked)
          cases same
          have produces : Produces R c body := ⟨params, tick, edits, w, rely.1⟩
          have absent := left.gone body c refused produces (by simp)
          rw [present] at absent
          cases absent
        have settles : ∀ action, Keeps (machine S) (Faultless R) (AsksNew k w₀)
            (fun _ t => GoneBut R k none w₀ t)
            (Keeper.settle c tick action { report with polled := report.polled + 1 }).run
            ((w.edited edits).record (.polled c outcome)) :=
          fun action => settle_gone laws ⟨polled.weaken c, fun _ => polled⟩
        cases outcome with
        | submit body =>
            have produces : Produces R c body := ⟨params, tick, edits, w, rely.1⟩
            refine Keeps.bindExcept ((submitArm_gone laws steady polled produces).mono ?_)
            rintro _ v _ ⟨fate, rfl, post⟩
            cases fate with
            | inl report' => exact post
            | inr action => exact settle_gone laws post
        | waitBlock => exact settles _
        | backoff seconds => exact settles _
        | drop => exact settles _

/-- Over a faultless store a sweep asks for no order refused on the submit path, and leaves no
commitment that produces one. -/
theorem run_gone (laws : CommitmentLaws S) (steady : SteadyPoller R)
    (left : GoneBut R k none w₀ w) :
    Keeps (machine S) (Faultless R) (AsksNew k w₀) (fun _ t => GoneBut R k none w₀ t)
      (k.run tick).run w := by
  refine Keeps.bindExcept ((reconcile_gone laws left).mono ?_)
  intro out t _ left'
  cases out with
  | error f => exact left'
  | ok rec_ =>
      refine Keeps.bindExcept (faultless_read (AsksNew.same rfl) ?_)
      refine Keeps.foldlM (fun _ _ v => GoneBut R k none w₀ v) ?_ (fun _ _ left => left) _ _ t left'
      intro key rest report v left
      refine (visit_gone laws steady left).mono ?_
      intro out t _ left''
      cases out with
      | ok report' => exact left''
      | error f => exact left''

end Functions

end Gone

end Videre.Sdk
