import Videre.Interaction.Guarantee
import Videre.Native.Conduct
import Videre.Worker.Guest

/-! # Modules on a platform

An engine delivers triggers to its modules, one at a time to each, and runs their handlers
beside everything else that happens on the platform. A handler waits for each call it
makes, so its calls came to their ends one before the other, and what it did is what its
code does on those outcomes.
-/

namespace Videre.Worker

open Interaction Sdk Client Native

/-! ## One module -/

/-- What a handler did in one operation. -/
inductive Mark
  | logged (level : Level) (message : String)
  /-- The import refused the venue's id. -/
  | refused (request : Request)
  | answered (id : Nat) (call : Host.Call) (outcome : Host.Outcome)

/-- What the engine puts into one operation. -/
inductive GuestInput
  | written
  | misnamed
  | landed (id : Nat) (outcome : Host.Outcome)

/-- The operations of a module; each leaves its mark. -/
def guest (module : String) : Machine GuestOp GuestOp.Ans (List Mark) GuestInput where
  step
    | .log level message, .written, marks => some ((), marks ++ [.logged level message])
    | .client _ request, .misnamed, marks =>
        some (.error .unknownVenue, marks ++ [.refused request])
    | .client venue request, .landed id outcome, marks =>
        (request.landed outcome).map fun result =>
          (result, marks ++ [.answered id (request.call module ⟨venue⟩) outcome])
    | _, _, _ => none

/-- A module by its namespace and its dispatch. -/
structure Component where
  module : String
  onTrigger : Trigger → Handler

/-- A handler under way, or one that ended. -/
structure Run where
  trigger : Trigger
  rest : Handler
  /-- The registry call it waits for. -/
  awaiting : Option Nat
  marks : List Mark

namespace Run

def start (component : Component) (trigger : Trigger) : Run :=
  ⟨trigger, component.onTrigger trigger, none, []⟩

def take (r : Run) (module : String) (input : GuestInput) : Option Run :=
  match r.rest with
  | .call o rest =>
      ((guest module).step o input r.marks).map fun (a, marks) =>
        { r with rest := rest a, awaiting := none, marks }
  | .done _ => none

/-- What the handler returned; one that was torn returned nothing. -/
def result? (r : Run) : Option (Except Fault Unit) :=
  match r.rest with
  | .done result => some result
  | .call _ _ => none

end Run

/-! ## The engine -/

/-- The platform whose registry is published for the modules, the handler each module runs,
and those that ended. -/
structure Engine where
  platform : Platform
  running : Nat → Option Run
  handled : List (Nat × Run)

inductive EngineLabel
  | platform (label : PlatformLabel)
  | deliver (k : Nat) (trigger : Trigger)
  | advance (k : Nat)
  /-- A handler that returned retires; any other is torn. -/
  | retire (k : Nat)

namespace Engine

def idle (start : Nat) (heads : ChainHead → String) : Engine :=
  ⟨Platform.idle start heads, fun _ => none, []⟩

def put (e : Engine) (k : Nat) (r : Run) : Engine :=
  { e with running := Function.update e.running k (some r) }

@[simp] theorem put_self (e : Engine) (k : Nat) (r : Run) : (e.put k r).running k = some r :=
  Function.update_self ..

theorem put_other (e : Engine) {k j : Nat} (r : Run) (other : j ≠ k) :
    (e.put k r).running j = e.running j :=
  Function.update_of_ne other ..

variable (P : Host.Policy) [NexumRuntime] (components : Nat → Component)

/-- The next operation of a handler: a line is written at once, a call is made on the
published registry, and an answer is taken when it is there. -/
def advance (e : Engine) (k : Nat) (r : Run) : Option Engine :=
  let module := (components k).module
  match r.rest with
  | .done _ => none
  | .call o _ =>
      match o, r.awaiting with
      | .log _ _, _ => (r.take module .written).map (e.put k)
      | .client venue request, none =>
          match Client.venueId venue with
          | .error _ => (r.take module .misnamed).map (e.put k)
          | .ok id =>
              let call := request.call module id
              (e.platform.step P (.registry (.spawn call))).map fun platform =>
                { e with platform }.put k { r with awaiting := some e.platform.pool.calls.length }
      | .client _ _, some id =>
          (Host.outcomeOf e.platform.pool id).bind fun outcome =>
            (r.take module (.landed id outcome)).map (e.put k)

def step (e : Engine) : EngineLabel → Option Engine
  | .platform label => (e.platform.step P label).map fun platform => { e with platform }
  | .deliver k trigger =>
      match e.running k with
      | none => some (e.put k (.start (components k) trigger))
      | some _ => none
  | .advance k => (e.running k).bind (e.advance P components k)
  | .retire k =>
      (e.running k).map fun r =>
        { e with
          running := Function.update e.running k none
          handled := e.handled ++ [(k, r)] }

inductive Reach (heads : ChainHead → String) : Engine → Prop
  | start (start : Nat) : Reach heads (idle start heads)
  | step {e e' : Engine} {label : EngineLabel} (before : Reach heads e)
      (moves : e.step P components label = some e') : Reach heads e'

def run : List EngineLabel → Engine → Option Engine
  | [], e => some e
  | label :: labels, e => (e.step P components label).bind (run labels)

variable {P components} in
theorem Reach.of_run {heads : ChainHead → String} {labels : List EngineLabel} {e e' : Engine}
    (before : Reach P components heads e) (ran : run P components labels e = some e') :
    Reach P components heads e' := by
  induction labels generalizing e with
  | nil =>
      cases ran
      exact before
  | cons label labels ih =>
      obtain ⟨u, moves, later⟩ := Option.bind_eq_some_iff.mp ran
      exact ih (before.step moves) later

end Engine

/-! ## What a handler relies on -/

section Follows

variable {P : Host.Policy} {heads : ChainHead → String} {w w' : Platform}

structure Outlives (w w' : Platform) : Prop where
  log : w.pool.log <+: w'.pool.log
  called : ∀ (id : Nat) (call : Host.Call),
    w.pool.calls[id]? = some call → w'.pool.calls[id]? = some call
  returned : ∀ (id : Nat) (outcome : Host.Outcome),
    w.pool.threads id = some (.done outcome) → w'.pool.threads id = some (.done outcome)

theorem pool_step {label : PlatformLabel} (moves : w.step P label = some w') :
    w'.pool = w.pool ∨ ∃ label, (Host.venueRegistry P).step w.pool label = some w'.pool := by
  cases step_moves moves with
  | newLiveness => exact .inl rfl
  | set => exact .inl rfl
  | read => exact .inl rfl
  | sweep => exact .inl rfl
  | beside _ turned _ => exact .inr ⟨_, turned.steps⟩
  | registered _ _ turned _ => exact .inr ⟨_, turned.steps⟩
  | duplicate turned => exact .inr ⟨_, turned.steps⟩
  | mark _ _ turned => exact .inr ⟨_, turned.steps⟩
  | answer _ _ turned => exact .inr ⟨_, turned.steps⟩
  | revive _ turned => exact .inr ⟨_, turned.steps⟩

theorem outlives_step (reach : Platform.Reach P heads w) {label : PlatformLabel}
    (moves : w.step P label = some w') : Outlives w w' := by
  obtain ⟨start, pool⟩ := (reach_founded reach).1.reach
  rcases pool_step moves with same | ⟨label', stepped⟩
  · constructor
    · rw [same]
    · rw [same]
      exact fun _ _ there => there
    · rw [same]
      exact fun _ _ there => there
  · constructor
    · obtain ⟨call, -, after⟩ | ⟨id, i, o, rest, a, events, r, -, -, -, after⟩ |
        ⟨id, o, rest, events, r, -, -, -, after⟩ | ⟨event, -, after⟩ :=
          (Host.venueRegistry P).step_cases stepped
      · rw [after]
      · rw [after]
        exact List.prefix_append _ _
      · rw [after]
        exact List.prefix_append _ _
      · rw [after]
        exact List.prefix_append _ _
    · intro id call made
      obtain ⟨new, calls⟩ := System.calls_step stepped
      have bound := (List.getElem?_eq_some_iff.mp made).choose
      rw [calls, List.getElem?_append_left bound]
      exact made
    · intro id outcome ended
      exact System.thread_done stepped pool.numbered ended

variable (P heads w) in
/-- Every call answered in `marks` had returned before the call `id` was made. -/
def Since (marks : List Mark) (id : Nat) : Prop :=
  ∀ id' call outcome, .answered id' call outcome ∈ marks →
    ∃ past, Platform.Reach P heads past ∧ past.pool.log <+: w.pool.log ∧
      past.pool.calls[id']? = some call ∧ past.pool.threads id' = some (.done outcome) ∧
      past.pool.calls.length ≤ id

theorem Since.outlives {marks : List Mark} {id : Nat} (since : Since P heads w marks id)
    (outlives : Outlives w w') : Since P heads w' marks id := by
  intro id' call outcome answered
  obtain ⟨past, reach, log, rest⟩ := since id' call outcome answered
  exact ⟨past, reach, log.trans outlives.log, rest⟩

variable [NexumRuntime]

variable (P heads w) in
def Answers (module : String) : Rely GuestOp (List Mark) GuestInput
  | .client venue _, .misnamed, _ => Client.venueId venue = .error .unknownVenue
  | .client venue request, .landed id outcome, marks =>
      Client.venueId venue = .ok ⟨venue⟩ ∧
        w.pool.calls[id]? = some (request.call module ⟨venue⟩) ∧
        w.pool.threads id = some (.done outcome) ∧ Since P heads w marks id
  | _, _, _ => True

theorem answers_outlives {module : String} (outlives : Outlives w w') (o : GuestOp)
    (input : GuestInput) (marks : List Mark) (answers : Answers P heads w module o input marks) :
    Answers P heads w' module o input marks := by
  cases o with
  | log => trivial
  | client venue request =>
      cases input with
      | written => trivial
      | misnamed => exact answers
      | landed id outcome =>
          obtain ⟨named, made, returned, since⟩ := answers
          exact ⟨named, outlives.called _ _ made, outlives.returned _ _ returned,
            since.outlives outlives⟩

variable (P heads w) in
/-- A handler has come where its code comes on what the engine put into it, and waits for
the call that stands next in it. -/
structure Follows (component : Component) (r : Run) : Prop where
  ran : Exec (guest component.module) (Answers P heads w component.module)
    (component.onTrigger r.trigger) [] r.rest r.marks
  awaits : ∀ id, r.awaiting = some id → ∃ venue request rest,
    r.rest = .call (.client venue request) rest ∧ Client.venueId venue = .ok ⟨venue⟩ ∧
      w.pool.calls[id]? = some (request.call component.module ⟨venue⟩) ∧
      Since P heads w r.marks id

variable {component : Component} {r r' : Run}

theorem Follows.outlives (follows : Follows P heads w component r) (outlives : Outlives w w') :
    Follows P heads w' component r := by
  constructor
  · exact follows.ran.mono (answers_outlives outlives)
  · intro id awaits
    obtain ⟨venue, request, rest, stands, named, made, since⟩ := follows.awaits id awaits
    exact ⟨venue, request, rest, stands, named, outlives.called _ _ made, since.outlives outlives⟩

theorem follows_start (component : Component) (trigger : Trigger) :
    Follows P heads w component (.start component trigger) := by
  constructor
  · exact .refl _ _
  · intro id awaits
    cases awaits

theorem Follows.take (follows : Follows P heads w component r) {input : GuestInput}
    (taken : r.take component.module input = some r')
    (answers : ∀ o rest, r.rest = .call o rest →
      Answers P heads w component.module o input r.marks) :
    Follows P heads w component r' := by
  unfold Run.take at taken
  split at taken
  next o rest stands =>
    obtain ⟨⟨a, marks⟩, stepped, rfl⟩ := Option.map_eq_some_iff.mp taken
    constructor
    · have here := follows.ran
      rw [stands] at here
      exact here.trans (.step (answers o rest stands) stepped (.refl _ _))
    · intro id awaits
      cases awaits
  next => cases taken

end Follows

/-! ## One call after another -/

section Calls

variable {P : Host.Policy} {heads : ChainHead → String} {w w' : Platform} [NexumRuntime]

theorem venueId_error {venue : String} {err : VenueError}
    (misnamed : Client.venueId venue = .error err) :
    Client.venueId venue = .error .unknownVenue := by
  unfold Client.venueId at misnamed ⊢
  split at misnamed
  next => cases misnamed
  next => rfl

theorem venueId_ok {venue : String} {id : Host.VenueId} (named : Client.venueId venue = .ok id) :
    id = ⟨venue⟩ := by
  unfold Client.venueId at named
  split at named
  next id' parsed =>
    cases named
    rw [← NexumRuntime.parse_asStr parsed]
  next => cases named

omit [NexumRuntime] in
theorem calls_of_spawn {call : Host.Call}
    (moves : w.step P (.registry (.spawn call)) = some w') :
    w'.pool.calls = w.pool.calls ++ [call] := by
  simp only [Platform.step, Platform.beside, if_true] at moves
  obtain ⟨pool, stepped, rfl⟩ := Option.map_eq_some_iff.mp moves
  cases stepped
  rfl

/-- Every call answered on the way was made on the registry and has returned. -/
theorem answered_returned {module : String} {p q : Handler} {marks marks' : List Mark}
    (ran : Exec (guest module) (Answers P heads w module) p marks q marks')
    (before : ∀ id call outcome, .answered id call outcome ∈ marks →
      w.pool.calls[id]? = some call ∧ w.pool.threads id = some (.done outcome)) :
    ∀ id call outcome, .answered id call outcome ∈ marks' →
      w.pool.calls[id]? = some call ∧ w.pool.threads id = some (.done outcome) := by
  induction ran with
  | refl => exact before
  | @step o rest input a marks marks' _ _ answers moves _ ih =>
      apply ih
      intro id call outcome member
      cases o with
      | log level message =>
          cases input with
          | written =>
              cases moves
              rcases List.mem_append.mp member with old | new
              · exact before id call outcome old
              · cases List.mem_singleton.mp new
          | misnamed => cases moves
          | landed => cases moves
      | client venue request =>
          cases input with
          | written => cases moves
          | misnamed =>
              cases moves
              rcases List.mem_append.mp member with old | new
              · exact before id call outcome old
              · cases List.mem_singleton.mp new
          | landed id' outcome' =>
              obtain ⟨result, -, same⟩ := Option.map_eq_some_iff.mp moves
              cases same
              rcases List.mem_append.mp member with old | new
              · exact before id call outcome old
              · cases List.mem_singleton.mp new
                exact ⟨answers.2.1, answers.2.2.1⟩

/-- What a handler was answered so far had returned before a call made now. -/
theorem since_now (reach : Platform.Reach P heads w) {module : String} {p q : Handler}
    {marks : List Mark} (ran : Exec (guest module) (Answers P heads w module) p [] q marks) :
    Since P heads w marks w.pool.calls.length := by
  intro id call outcome answered
  have none_ : ∀ id call outcome, Mark.answered id call outcome ∈ ([] : List Mark) →
      w.pool.calls[id]? = some call ∧ w.pool.threads id = some (.done outcome) := by
    intro id call outcome member
    cases member
  obtain ⟨made, returned⟩ := answered_returned ran none_ id call outcome answered
  exact ⟨w, reach, List.prefix_rfl, made, returned, Nat.le_refl _⟩

end Calls

/-! ## Every handler follows its code -/

section Engines

variable {P : Host.Policy} {heads : ChainHead → String} [NexumRuntime]
  {components : Nat → Component} {e e' : Engine}

variable (P heads components e) in
/-- Every handler under way or ended follows its code on the platform. -/
structure Conducted : Prop where
  reach : Platform.Reach P heads e.platform
  running : ∀ k r, e.running k = some r → Follows P heads e.platform (components k) r
  handled : ∀ k r, (k, r) ∈ e.handled → Follows P heads e.platform (components k) r

theorem Conducted.platform (conducted : Conducted P heads components e) {label : PlatformLabel}
    {platform : Platform} (moves : e.platform.step P label = some platform) :
    Conducted P heads components { e with platform } := by
  have outlives := outlives_step conducted.reach moves
  constructor
  · exact conducted.reach.step moves
  · intro k r runs
    exact (conducted.running k r runs).outlives outlives
  · intro k r ended
    exact (conducted.handled k r ended).outlives outlives

theorem Conducted.put (conducted : Conducted P heads components e) {k : Nat} {r : Run}
    (follows : Follows P heads e.platform (components k) r) :
    Conducted P heads components (e.put k r) := by
  constructor
  · exact conducted.reach
  · intro j s runs
    by_cases same : j = k
    · subst same
      rw [Engine.put_self] at runs
      cases runs
      exact follows
    · rw [Engine.put_other e r same] at runs
      exact conducted.running j s runs
  · exact conducted.handled

theorem Conducted.call (conducted : Conducted P heads components e) {k : Nat} {r : Run}
    {venue : String} {request : Request}
    {rest : Except VenueError request.Returns → Handler} {platform : Platform}
    (moves : e.platform.step P (.registry (.spawn (request.call (components k).module ⟨venue⟩))) =
      some platform)
    (runs : e.running k = some r) (stands : r.rest = .call (.client venue request) rest)
    (named : Client.venueId venue = .ok ⟨venue⟩) :
    Conducted P heads components
      ({ e with platform }.put k { r with awaiting := some e.platform.pool.calls.length }) := by
  have follows := conducted.running k r runs
  have outlives := outlives_step conducted.reach moves
  apply (conducted.platform moves).put
  constructor
  · exact follows.ran.mono (answers_outlives outlives)
  · intro id awaits
    cases awaits
    refine ⟨venue, request, rest, stands, named, ?_, ?_⟩
    · rw [calls_of_spawn moves, List.getElem?_concat_length]
    · exact (since_now conducted.reach follows.ran).outlives outlives

theorem conducted_advance (conducted : Conducted P heads components e) {k : Nat} {r : Run}
    (runs : e.running k = some r) (advances : e.advance P components k r = some e') :
    Conducted P heads components e' := by
  have follows := conducted.running k r runs
  cases stands : r.rest with
  | done result => simp [Engine.advance, stands] at advances
  | call o rest =>
      cases o with
      | log level message =>
          simp only [Engine.advance, stands] at advances
          obtain ⟨r', taken, rfl⟩ := Option.map_eq_some_iff.mp advances
          apply conducted.put
          apply follows.take taken
          intro o rest' there
          rw [stands] at there
          cases there
          trivial
      | client venue request =>
          cases awaits : r.awaiting with
          | none =>
              simp only [Engine.advance, stands, awaits] at advances
              split at advances
              next err misnamed =>
                obtain ⟨r', taken, rfl⟩ := Option.map_eq_some_iff.mp advances
                apply conducted.put
                apply follows.take taken
                intro o rest' there
                rw [stands] at there
                cases there
                exact venueId_error misnamed
              next id named =>
                obtain ⟨platform, moves, rfl⟩ := Option.map_eq_some_iff.mp advances
                obtain rfl := venueId_ok named
                have called := conducted.call moves runs stands named
                rw [stands] at called
                exact called
          | some id =>
              simp only [Engine.advance, stands, awaits] at advances
              obtain ⟨outcome, landed, advances⟩ := Option.bind_eq_some_iff.mp advances
              obtain ⟨r', taken, rfl⟩ := Option.map_eq_some_iff.mp advances
              apply conducted.put
              apply follows.take taken
              intro o rest' there
              obtain ⟨venue', request', rest'', stands', named, made, since⟩ :=
                follows.awaits id awaits
              rw [stands] at stands'
              cases stands'
              rw [stands] at there
              cases there
              exact ⟨named, made, Host.thread_of_outcomeOf landed, since⟩

theorem engine_conducted (reach : Engine.Reach P components heads e) :
    Conducted P heads components e := by
  induction reach with
  | start start =>
      constructor
      · exact .start start
      · intro k r runs
        cases runs
      · intro k r ended
        cases ended
  | @step e e' label before moves ih =>
      cases label with
      | platform label =>
          obtain ⟨platform, moved, rfl⟩ := Option.map_eq_some_iff.mp moves
          exact ih.platform moved
      | deliver k trigger =>
          simp only [Engine.step] at moves
          split at moves
          next =>
            cases moves
            exact ih.put (follows_start _ _)
          next => cases moves
      | advance k =>
          obtain ⟨r, runs, advances⟩ := Option.bind_eq_some_iff.mp moves
          exact conducted_advance ih runs advances
      | retire k =>
          obtain ⟨r, runs, rfl⟩ := Option.map_eq_some_iff.mp moves
          have follows := ih.running k r runs
          constructor
          · exact ih.reach
          · intro j s others
            by_cases same : j = k
            · subst same
              simp at others
            · simp only [Function.update_of_ne same] at others
              exact ih.running j s others
          · intro j s ended
            rcases List.mem_append.mp ended with old | new
            · exact ih.handled j s old
            · cases List.mem_singleton.mp new
              exact follows

end Engines

end Videre.Worker
