import Videre.Native.Moves

/-! # How native adapters conduct themselves

What the log of a platform says of its native adapters, whatever is scheduled: each answer
is the one its adapter's code computes, a flaky venue dies only of a submit that read a
poisoned head, and each revival was made by a sweep of its own that read a healthy one.
-/

namespace Videre.Native

open Interaction Host

/-! ## Submits and sweeps under way -/

def Under (w : Platform) (id : Nat) (stage : Stage) : Prop :=
  ∃ i body head, w.awaiting id = some (i, .submit body) ∧ i.adapter = .flaky head ∧
    Came i id w.log (some stage)

section Submits

variable {P : Policy} {heads : ChainHead → String} {w w' : Platform}
  {label : Label Input HostEvent Call} {who : Option Nat} {events : List Event} {id : Nat}

theorem standing_turned (reach : Reachable P w.pool) (turned : Turned P w label w' who events)
    {o : Op} (stands : w.pool.standing id = some o) (dropped : label ≠ .drop id)
    (advanced : ∀ input, label ≠ .advance id input) : w'.pool.standing id = some o := by
  obtain ⟨rest, thread⟩ := Pool.of_standing stands
  obtain ⟨start, reach⟩ := reach
  have given := reach.numbered.thread id _ thread
  have kept : w'.pool.threads id = w.pool.threads id := by
    obtain ⟨call, rfl, after⟩ | ⟨id', i, o, rest, a, events, r, rfl, -, -, after⟩ |
      ⟨id', o, rest, events, r, rfl, -, -, after⟩ | ⟨event, rfl, after⟩ :=
        (venueRegistry P).step_cases turned.steps
    · rw [after]
      exact Function.update_of_ne (Nat.ne_of_lt given) ..
    · rw [after]
      apply Function.update_of_ne
      rintro rfl
      exact advanced i rfl
    · rw [after]
      apply Function.update_of_ne
      rintro rfl
      exact dropped rfl
    · rw [after]
  simp [Pool.standing, kept, thread, Program.next?]

theorem awaiting_of_standing {slot : Slot} {inv : Invocation}
    (stands : w.pool.standing id = some (.answer slot inv)) :
    w.awaiting id = (w.native? slot).map fun i => (i, inv) := by
  unfold Platform.awaiting
  rw [stands]

theorem awaiting_turned (founded : Founded P heads w) (turned : Turned P w label w' who events)
    {i : Installed} {inv : Invocation} (awaits : w.awaiting id = some (i, inv))
    (dropped : label ≠ .drop id) (advanced : ∀ input, label ≠ .advance id input) :
    w'.awaiting id = some (i, inv) := by
  have stands := (standing_of_awaiting awaits).1
  have later := standing_turned founded.reach turned stands dropped advanced
  rw [awaiting_of_standing stands] at awaits
  rw [awaiting_of_standing later, Platform.native?, turned.fields.2.2.1]
  exact awaits

theorem Under.turned (under : Under w id stage) (founded : Founded P heads w)
    (turned : Turned P w label w' who events) (foreign : who ≠ some id)
    (dropped : label ≠ .drop id) (advanced : ∀ input, label ≠ .advance id input) :
    Under w' id stage := by
  obtain ⟨i, body, head, awaits, flaky, came⟩ := under
  refine ⟨i, body, head, awaiting_turned founded turned awaits dropped advanced, flaky, ?_⟩
  rw [turned.fields.2.2.2.2.2]
  apply came.append
  rw [entries_logged]
  exact own_tagged_other id foreign events

theorem beside_leaves (beside : w.beside label = true) (turned : Turned P w label w' who events)
    {i : Installed} {inv : Invocation} {stage : Stage} (awaits : w.awaiting id = some (i, inv))
    (runs : w.submits id = some stage) :
    label ≠ .drop id ∧ ∀ input, label ≠ .advance id input := by
  constructor
  · rintro rfl
    have free : (w.submits id).isNone = true := beside
    rw [runs] at free
    cases free
  · rintro input rfl
    obtain ⟨rest, thread⟩ := Pool.of_standing (standing_of_awaiting awaits).1
    obtain ⟨_, hlabel, _⟩ | ⟨_, _, _, _, _, _, _, hlabel, thread', acts, _⟩ |
      ⟨_, _, _, _, _, hlabel, _⟩ | ⟨_, hlabel, _⟩ := (venueRegistry P).step_cases turned.steps
    · cases hlabel
    · cases hlabel
      rw [thread] at thread'
      cases thread'
      have acts : act P id (.answer i.slot inv) input w.pool.shared = some _ := acts
      cases input with
      | elapsed nanos => simp [act] at acts
      | verdict verdict => simp [act] at acts
      | reply reply =>
          have free : (w.awaiting id).isNone = true := beside
          rw [awaits] at free
          cases free
    · cases hlabel
    · cases hlabel

theorem Logs.foreign (logs : Logs w label who events) (dropped : label ≠ .drop id)
    (advanced : ∀ input, label ≠ .advance id input) : who ≠ some id := by
  rintro rfl
  cases logs with
  | quiet silent actor =>
      rcases actor id rfl with same | ⟨input, same⟩
      · exact dropped same
      · exact advanced input same
  | answered stands => exact advanced _ rfl

def Submitting (w : Platform) : Prop :=
  ∀ id stage, w.submits id = some stage → Under w id stage

theorem Under.see (under : Under w id stage) {h : Happening} (bare : h.entry? = none)
    {now : ChainHead → String} (submits : Nat → Option Stage) (sweeps : List Liveness) :
    Under ({ w with heads := now, submits := submits, sweeps := sweeps }.see h) id stage := by
  obtain ⟨i, body, head, awaits, flaky, came⟩ := under
  refine ⟨i, body, head, awaits, flaky, came.append ?_⟩
  simp [entries, bare]

theorem Under.host (under : Under w id stage) (founded : Founded P heads w) {event : HostEvent}
    (turned : Turned P w (.host event) w' none events) : Under w' id stage :=
  under.turned founded turned (by simp) (by simp) (by simp)

/-- What is installed stays the adapter of its slot. -/
theorem Under.install (under : Under w id stage) (i : Installed) :
    Under ({ w with flags := w.flags + 1, installed := w.installed ++ [i] }.see (.installed i))
      id stage := by
  obtain ⟨j, body, head, awaits, flaky, came⟩ := under
  refine ⟨j, body, head, ?_, flaky, came.append rfl⟩
  have stands := (standing_of_awaiting awaits).1
  rw [awaiting_of_standing stands] at awaits
  obtain ⟨k, found, same⟩ := Option.map_eq_some_iff.mp awaits
  have found : (w.installed.find? fun k => k.slot == j.slot) = some k := found
  simp only [Platform.awaiting, Platform.native?, Platform.see, stands, List.find?_append, found]
  exact congrArg some same

/-- A submit that read a poisoned head has marked its flag. -/
theorem Under.mark (under : Under w id (.read true)) (founded : Founded P heads w) {i : Installed}
    {inv : Invocation} (awaits : w.awaiting id = some (i, inv))
    (turned : Turned P w (.host (.markDead i.liveness)) w' none [.died i.liveness]) :
    Under w' id .marked := by
  obtain ⟨j, body, head, awaits', flaky, came⟩ := under
  rw [awaits] at awaits'
  cases awaits'
  refine ⟨i, body, head, awaiting_turned founded turned awaits (by simp) (by simp), flaky, ?_⟩
  obtain ⟨-, -, -, -, -, log⟩ := turned.fields
  cases came with
  | read before after split waits =>
      apply Came.marked before after [] _ ⟨waits, rfl⟩
      rw [log, split]
      simp

theorem Submitting.moves (submitting : Submitting w) (founded : Founded P heads w)
    (moves : Moves P w w') : Submitting w' := by
  cases moves with
  | beside beside turned logs =>
      intro id stage runs
      rw [turned.fields.2.2.2.1] at runs
      have under := submitting id stage runs
      obtain ⟨i, body, head, awaits, -⟩ := under
      obtain ⟨dropped, advanced⟩ := beside_leaves beside turned awaits runs
      exact (submitting id stage runs).turned founded turned (logs.foreign dropped advanced) dropped
        advanced
  | newLiveness => exact submitting
  | set head response =>
      intro id stage runs
      exact (submitting id stage runs).see rfl _ _
  | @registered i w₁ slot liveness turned slots =>
      intro id stage runs
      have runs : w₁.submits id = some stage := runs
      rw [turned.fields.2.2.2.1] at runs
      have under := ((submitting id stage runs).host founded turned).install i
      rw [turned.fields.1, turned.fields.2.2.1] at under
      exact under
  | @duplicate venue adapter w₁ turned =>
      intro id stage runs
      have runs : w₁.submits id = some stage := runs
      rw [turned.fields.2.2.2.1] at runs
      have under : Under w₁ id stage := (submitting id stage runs).host founded turned
      exact under
  | @read id' i body head awaits flaky fresh =>
      intro id stage runs
      have runs : Function.update w.submits id' _ id = some stage := runs
      by_cases same : id = id'
      · subst same
        rw [Function.update_self] at runs
        cases runs
        exact ⟨i, body, head, awaits, flaky, .read w.log [] rfl rfl⟩
      · rw [Function.update_of_ne same] at runs
        exact (submitting id stage runs).see rfl _ _
  | @mark id' i inv w₁ awaits stage' turned =>
      intro id stage runs
      have runs : Function.update w.submits id' (some .marked) id = some stage := runs
      by_cases same : id = id'
      · subst same
        rw [Function.update_self] at runs
        cases runs
        have under : Under w₁ id .marked := (submitting id _ stage').mark founded awaits turned
        exact under
      · rw [Function.update_of_ne same] at runs
        have under : Under w₁ id stage := (submitting id stage runs).host founded turned
        exact under
  | @answer id' i inv reply w₁ awaits replies turned =>
      intro id stage runs
      have runs : Function.update w.submits id' none id = some stage := runs
      by_cases same : id = id'
      · subst same
        rw [Function.update_self] at runs
        cases runs
      · rw [Function.update_of_ne same] at runs
        have other : id' ≠ id := fun h => same h.symm
        have under : Under w₁ id stage :=
          (submitting id stage runs).turned founded turned (by simpa using other) (by simp)
            (by simp [other])
        exact under
  | sweep member flaky =>
      intro id stage runs
      exact (submitting id stage runs).see rfl _ _
  | @revive liveness w₁ pending turned =>
      intro id stage runs
      have runs : w₁.submits id = some stage := runs
      rw [turned.fields.2.2.2.1] at runs
      have under : Under w₁ id stage := (submitting id stage runs).host founded turned
      exact under

end Submits

section Sweeps

variable {P : Policy} {heads : ChainHead → String} {w w' : Platform}
  {label : Label Input HostEvent Call} {who : Option Nat} {events : List Event}

/-- Each revival of a native adapter and each sweep about to revive it had a healthy reading of
its own. -/
def Sweeping (w : Platform) : Prop :=
  ∀ i ∈ w.installed, revivals i.liveness w.log + w.sweeps.count i.liveness =
    w.log.count (.swept i.liveness true)

theorem revivals_append (liveness : Liveness) (first second : List Happening) :
    revivals liveness (first ++ second) = revivals liveness first + revivals liveness second :=
  List.countP_append

theorem count_logged (liveness : Liveness) (events : List (Entry Event)) :
    (events.map Happening.logged).count (.swept liveness true) = 0 := by
  rw [List.count_eq_zero]
  intro member
  obtain ⟨e, -, same⟩ := List.mem_map.mp member
  cases same

theorem revivals_other {liveness : Liveness} {events : List (Entry Event)}
    (other : ∀ e ∈ events, e.what ≠ .revived liveness) :
    revivals liveness (events.map .logged) = 0 := by
  unfold revivals
  rw [List.countP_eq_zero]
  intro h member
  obtain ⟨e, here, rfl⟩ := List.mem_map.mp member
  simpa [Happening.entry?] using other e here

theorem Sweeping.turned (sweeping : Sweeping w) (turned : Turned P w label w' who events)
    (other : ∀ i ∈ w.installed, ∀ e ∈ events, e ≠ .revived i.liveness) : Sweeping w' := by
  obtain ⟨-, -, installed, -, sweeps, log⟩ := turned.fields
  intro i member
  rw [installed] at member
  have none_ : revivals i.liveness ((tagged who events).map .logged) = 0 := by
    apply revivals_other
    intro e here
    exact other i member e.what (mem_tagged.mp here).2
  rw [sweeps, log, revivals_append, List.count_append, count_logged, none_]
  exact sweeping i member

theorem Sweeping.see (sweeping : Sweeping w) {h : Happening} (bare : h.entry? = none)
    (other : ∀ l, h ≠ .swept l true) {now : ChainHead → String} (submits : Nat → Option Stage) :
    Sweeping ({ w with heads := now, submits := submits }.see h) := by
  intro i member
  show revivals i.liveness (w.log ++ [h]) + w.sweeps.count i.liveness =
    (w.log ++ [h]).count (.swept i.liveness true)
  rw [revivals_append, List.count_append, List.count_singleton]
  have aside : (h == .swept i.liveness true) = false := by simpa using other i.liveness
  have silent : revivals i.liveness [h] = 0 := by simp [revivals, bare]
  rw [aside, silent]
  exact sweeping i member

/-- A flag nobody had yet was neither marked nor swept. -/
theorem unmarked (founded : Founded P heads w) (due : Due w) :
    revivals w.flags w.log = 0 ∧ w.sweeps.count w.flags = 0 ∧
      w.log.count (.swept w.flags true) = 0 := by
  refine ⟨?_, ?_, ?_⟩
  · unfold revivals
    rw [List.countP_eq_zero]
    intro h member
    cases entry : h.entry? with
    | none => simp
    | some e =>
        have logged : e ∈ w.pool.log := by
          rw [← founded.entries]
          exact List.mem_filterMap.mpr ⟨h, member, entry⟩
        simp only [Option.any_some, decide_eq_true_eq]
        intro same
        exact Nat.lt_irrefl _ (founded.marks e logged w.flags (.inr same))
  · rw [List.count_eq_zero]
    intro pending
    obtain ⟨i, member, same, -⟩ := due _ pending
    have bound := (founded.bound i member).2
    rw [same] at bound
    exact Nat.lt_irrefl _ bound
  · rw [List.count_eq_zero]
    intro member
    exact Nat.lt_irrefl _ (founded.swept _ _ member)

theorem Sweeping.moves (sweeping : Sweeping w) (founded : Founded P heads w) (due : Due w)
    (moves : Moves P w w') : Sweeping w' := by
  cases moves with
  | beside beside turned logs =>
      apply sweeping.turned turned
      rintro i member e here rfl
      exact (beside_marks beside logs here (.inr rfl)).2 i member rfl
  | newLiveness => exact sweeping
  | set head response => exact sweeping.see rfl (by simp) _
  | @registered i w₁ slot liveness turned slots =>
      have before : Sweeping w₁ := sweeping.turned turned (by simp)
      obtain ⟨flags, -, installed, -, -, -⟩ := turned.fields
      intro j member
      have member : j ∈ w.installed ++ [i] := member
      show revivals j.liveness (w₁.log ++ [Happening.installed i]) + w₁.sweeps.count j.liveness =
        (w₁.log ++ [Happening.installed i]).count (Happening.swept j.liveness true)
      have silent : revivals j.liveness [.installed i] = 0 := rfl
      rw [revivals_append, List.count_append, silent]
      rcases List.mem_append.mp member with old | new
      · rw [← installed] at old
        exact before j old
      · rw [List.mem_singleton.mp new, liveness, ← flags]
        obtain ⟨revived, pending, swept⟩ :=
          unmarked (founded.turned turned (by simp)) (due.turned turned)
        rw [revived, pending, swept]
        rfl
  | @duplicate venue adapter w₁ turned =>
      have after : Sweeping w₁ := sweeping.turned turned (by simp)
      exact after
  | read awaits flaky fresh => exact sweeping.see rfl (by simp) _
  | @mark id i inv w₁ awaits stage turned =>
      have after : Sweeping w₁ := sweeping.turned turned (by simp)
      exact after
  | @answer id i inv reply w₁ awaits replies turned =>
      have after : Sweeping w₁ := sweeping.turned turned (by simp)
      exact after
  | @sweep i head member flaky =>
      intro j here
      show revivals j.liveness (w.log ++ [.swept i.liveness _]) + List.count j.liveness (ite _ _ _) =
        (w.log ++ [Happening.swept i.liveness _]).count (Happening.swept j.liveness true)
      have silent : ∀ healthy, revivals j.liveness [.swept i.liveness healthy] = 0 := fun _ => rfl
      rw [revivals_append, List.count_append, silent, List.count_singleton, Nat.add_zero]
      have old := sweeping j here
      cases Flaky.isPoisoned (w.heads head) with
      | true => simpa using old
      | false =>
          by_cases same : i.liveness = j.liveness
          · simp only [Bool.not_false, if_true, same, List.count_cons_self, beq_self_eq_true]
            omega
          · simp only [Bool.not_false, if_true, List.count_cons, beq_iff_eq, same, if_false,
              Happening.swept.injEq, false_and]
            exact old
  | @revive liveness w₁ pending turned =>
      obtain ⟨-, -, installed, -, sweeps, log⟩ := turned.fields
      intro j here
      have here : j ∈ w₁.installed := here
      rw [installed] at here
      show revivals j.liveness w₁.log + (w.sweeps.erase liveness).count j.liveness =
        w₁.log.count (.swept j.liveness true)
      rw [log, revivals_append, List.count_append, count_logged, List.count_erase]
      have old := sweeping j here
      by_cases same : liveness = j.liveness
      · have due : 0 < w.sweeps.count liveness := List.count_pos_iff.mpr pending
        have one : revivals j.liveness ((tagged none [.revived liveness]).map .logged) = 1 := by
          simp [revivals, Happening.entry?, same]
        rw [one]
        subst same
        simp only [beq_self_eq_true, if_true]
        omega
      · have none_ : revivals j.liveness ((tagged none [.revived liveness]).map .logged) = 0 := by
          simp [revivals, Happening.entry?, same]
        rw [none_]
        have apart : (liveness == j.liveness) = false := by simpa using same
        simp only [apart, Bool.false_eq_true, if_false]
        omega

end Sweeps

/-! ## The law is kept -/

section Lawfulness

variable {P : Policy} {heads : ChainHead → String} {w w' : Platform}

/-- A slot or a flag is one adapter's. -/
theorem Founded.unique (founded : Founded P heads w) {i j : Installed} (here : i ∈ w.installed)
    (there : j ∈ w.installed) (same : i.slot = j.slot ∨ i.liveness = j.liveness) : i = j := by
  by_contra apart
  rcases same with slot | liveness
  · have : Std.Symm fun i j : Installed => i.slot ≠ j.slot := ⟨fun _ _ distinct => distinct.symm⟩
    exact founded.slots.forall here there apart slot
  · have : Std.Symm fun i j : Installed => i.liveness ≠ j.liveness :=
      ⟨fun _ _ distinct => distinct.symm⟩
    exact founded.flags.forall here there apart liveness

theorem native_of_installed (founded : Founded P heads w) {i : Installed}
    (member : i ∈ w.installed) : w.native? i.slot = some i := by
  cases found : w.native? i.slot with
  | none =>
      have absent := List.find?_eq_none.mp found i member
      simp at absent
  | some j =>
      have same : j.slot = i.slot := by
        simpa using List.find?_some found
      rw [founded.unique (List.mem_of_find?_eq_some found) member (.inl same)]

/-- Beside the native adapters nothing is logged that they have a part in. -/
theorem extends_beside (founded : Founded P heads w) {label : Label Input HostEvent Call}
    {who : Option Nat} {events : List Event} (beside : w.beside label = true)
    (logs : Logs w label who events) :
    Extends (NativeLaw heads) w.log ((tagged who events).map .logged) := by
  have aside : ∀ e ∈ events, ∀ l, (e = .died l ∨ e = .revived l) →
      ∀ i, .installed i ∈ w.log → i.liveness ≠ l := by
    intro e member l marks i installed
    exact (beside_marks beside logs member marks).2 i ((founded.known i).mp installed)
  cases logs with
  | quiet silent actor =>
      apply extends_quiet
      intro e member
      exact silent e.what (mem_tagged.mp member).2
  | @answered id slot inv reply stands =>
      refine ⟨?_, trivial⟩
      intro i installed same
      have free : (w.awaiting id).isNone = true := beside
      rw [awaiting_of_standing stands, ← same,
        native_of_installed founded ((founded.known i).mp installed)] at free
      cases free
  | died liveness =>
      refine ⟨?_, trivial⟩
      intro i installed same
      exact absurd same (aside _ List.mem_cons_self liveness (.inl rfl) i installed)
  | revived liveness =>
      refine ⟨?_, trivial⟩
      intro i installed same
      exact absurd same (aside _ List.mem_cons_self liveness (.inr rfl) i installed)

/-- A slot that was resolved is one that was given out. -/
theorem resolved_bound (reach : Reachable P w.pool) {e : Entry Event} (member : e ∈ w.pool.log)
    {venue : VenueId} {slot : Slot} (resolves : e.what = .resolved venue (.ok slot)) :
    slot < w.pool.shared.slots := by
  obtain ⟨start, reach⟩ := reach
  have routes := routes_match reach
  obtain ⟨before, after, split⟩ := List.append_of_mem member
  have law := routes.lawful.at_split split
  unfold RouteLaw at law
  rw [resolves] at law
  obtain ⟨liveness, found, -⟩ := law
  obtain ⟨x, here, registers⟩ := installedAt_mem found
  apply routes.fresh x _ venue slot liveness registers
  rw [split]
  exact List.mem_append_left _ here

/-! What each event finds, when its move is made. -/

/-- A new adapter's slot was resolved for no one and its flag was never touched. -/
theorem law_installed (founded : Founded P heads w) {i : Installed}
    (slot : i.slot = w.pool.shared.slots) (liveness : i.liveness = w.flags) :
    NativeLaw heads (w.log ++ [.logged ⟨none, .registered i.venue i.slot i.liveness⟩])
      (.installed i) := by
  intro e member
  have logged : e ∈ w.pool.log ∨ e = ⟨none, .registered i.venue i.slot i.liveness⟩ := by
    rw [entries_append, founded.entries] at member
    rcases List.mem_append.mp member with old | new
    · exact .inl old
    · exact .inr (List.mem_singleton.mp new)
  rcases logged with old | rfl
  · refine ⟨?_, ?_, ?_⟩
    · intro venue resolves
      have bound := resolved_bound founded.reach old resolves
      rw [slot] at bound
      exact Nat.lt_irrefl _ bound
    · intro marks
      have bound := founded.marks e old _ (.inl marks)
      rw [liveness] at bound
      exact Nat.lt_irrefl _ bound
    · intro marks
      have bound := founded.marks e old _ (.inr marks)
      rw [liveness] at bound
      exact Nat.lt_irrefl _ bound
  · simp

theorem law_read (founded : Founded P heads w) {id : Nat} {i : Installed} {body : Bytes}
    {head : ChainHead} (awaits : w.awaiting id = some (i, .submit body))
    (flaky : i.adapter = .flaky head) :
    NativeLaw heads w.log (.read id i.slot (Flaky.isPoisoned (w.heads head))) := by
  refine ⟨i, head, (founded.known i).mpr (standing_of_awaiting awaits).2, rfl, flaky, ?_⟩
  rw [founded.reads]

/-- The flag is marked by a submit that read a poisoned head. -/
theorem law_died (founded : Founded P heads w) (submitting : Submitting w) {id : Nat}
    {i : Installed} {inv : Invocation} (awaits : w.awaiting id = some (i, inv))
    (stage : w.submits id = some (.read true)) :
    NativeLaw heads w.log (.logged ⟨none, .died i.liveness⟩) := by
  intro j installed same
  obtain ⟨k, body, head, awaits', flaky, came⟩ := submitting id _ stage
  rw [awaits] at awaits'
  cases awaits'
  rw [founded.unique ((founded.known j).mp installed) (standing_of_awaiting awaits).2 (.inr same)]
  exact ⟨id, head, flaky, came⟩

/-- The answer is the code's at the stage its submit came to. -/
theorem law_answered (founded : Founded P heads w) (submitting : Submitting w) {id : Nat}
    {i : Installed} {inv : Invocation} {reply : Reply} (awaits : w.awaiting id = some (i, inv))
    (replies : Platform.reply (w.submits id) i.adapter inv = some reply) :
    NativeLaw heads w.log (.logged ⟨some id, .answered i.slot inv reply⟩) := by
  intro j installed same
  rw [founded.unique ((founded.known j).mp installed) (standing_of_awaiting awaits).2 (.inl same)]
  refine ⟨id, w.submits id, rfl, ?_, replies⟩
  cases runs : w.submits id with
  | none => exact .entered
  | some stage =>
      obtain ⟨k, body, head, awaits', -, came⟩ := submitting id stage runs
      rw [awaits] at awaits'
      cases awaits'
      exact came

theorem law_swept (founded : Founded P heads w) {i : Installed} {head : ChainHead}
    (member : i ∈ w.installed) (flaky : i.adapter = .flaky head) :
    NativeLaw heads w.log (.swept i.liveness (!Flaky.isPoisoned (w.heads head))) := by
  refine ⟨i, head, (founded.known i).mpr member, rfl, flaky, ?_⟩
  rw [founded.reads]

/-- A revival is owed to a sweep that found the head healthy. -/
theorem law_revived (founded : Founded P heads w) (due : Due w) (sweeping : Sweeping w)
    {liveness : Liveness} (pending : liveness ∈ w.sweeps) :
    NativeLaw heads w.log (.logged ⟨none, .revived liveness⟩) := by
  intro j installed same
  have here := (founded.known j).mp installed
  obtain ⟨i, member, same', head, flaky⟩ := due _ pending
  rw [founded.unique here member (.inr (same.trans same'.symm))]
  refine ⟨⟨head, flaky⟩, ?_⟩
  have balance := sweeping i member
  rw [same'] at balance
  have owed : 0 < w.sweeps.count liveness := List.count_pos_iff.mpr pending
  omega

theorem lawful_moves (lawful : Lawful (NativeLaw heads) w.log) (founded : Founded P heads w)
    (due : Due w) (submitting : Submitting w) (sweeping : Sweeping w) (moves : Moves P w w') :
    Lawful (NativeLaw heads) w'.log := by
  cases moves with
  | beside beside turned logs =>
      rw [turned.fields.2.2.2.2.2]
      exact lawful.append (extends_beside founded beside logs)
  | newLiveness => exact lawful
  | set head response => exact lawful.append ⟨trivial, trivial⟩
  | @registered i w₁ slot liveness turned slots =>
      have before : Lawful (NativeLaw heads) w₁.log := by
        rw [turned.fields.2.2.2.2.2]
        exact lawful.append (extends_quiet (by simp [quiet]))
      apply before.append
      rw [turned.fields.2.2.2.2.2]
      exact ⟨law_installed founded slot liveness, trivial⟩
  | @duplicate venue adapter w₁ turned =>
      show Lawful (NativeLaw heads) w₁.log
      rw [turned.fields.2.2.2.2.2]
      exact lawful.append (extends_quiet (by simp [quiet]))
  | read awaits flaky fresh => exact lawful.append ⟨law_read founded awaits flaky, trivial⟩
  | @mark id i inv w₁ awaits stage turned =>
      show Lawful (NativeLaw heads) w₁.log
      rw [turned.fields.2.2.2.2.2]
      exact lawful.append ⟨law_died founded submitting awaits stage, trivial⟩
  | @answer id i inv reply w₁ awaits replies turned =>
      show Lawful (NativeLaw heads) w₁.log
      rw [turned.fields.2.2.2.2.2]
      exact lawful.append ⟨law_answered founded submitting awaits replies, trivial⟩
  | sweep member flaky => exact lawful.append ⟨law_swept founded member flaky, trivial⟩
  | @revive liveness w₁ pending turned =>
      show Lawful (NativeLaw heads) w₁.log
      rw [turned.fields.2.2.2.2.2]
      exact lawful.append ⟨law_revived founded due sweeping pending, trivial⟩

/-- The log of every platform reached keeps the law of its native adapters. -/
theorem native_lawful (reach : Platform.Reach P heads w) :
    Lawful (NativeLaw heads) w.log ∧ Submitting w ∧ Sweeping w := by
  induction reach with
  | start start =>
      refine ⟨lawful_nil, ?_, List.forall_mem_nil _⟩
      intro id stage runs
      cases runs
  | step before moves ih =>
      obtain ⟨lawful, submitting, sweeping⟩ := ih
      obtain ⟨founded, due⟩ := reach_founded before
      have moves := step_moves moves
      exact ⟨lawful_moves lawful founded due submitting sweeping moves,
        submitting.moves founded moves, sweeping.moves founded due moves⟩

end Lawfulness

end Videre.Native
