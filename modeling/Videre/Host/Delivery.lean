import Videre.Host.Completion
import Videre.Host.StatusPoll
import Videre.Host.Transitions
import Videre.Interaction.Clocked
import Videre.Queueing.Channel

/-! # Transitions on their way to a keeper

The platform opens one source: a task that polls the registry, and a bounded channel
whose other end is the engine's stream. Every update the registry records is in one
place, in the order of the log: with the poll under way, in the hands of the task,
queued, or streamed. A keeper's trigger arm recovers from the stream the updates
themselves.
-/

namespace Videre.Host

open Interaction Queueing

/-! ## The source -/

def statusChannelBuf : Nat := 64

def Registry.venueCount (r : Registry) : Nat :=
  r.adapters.keys.length

/-- Where the status-poll task stands between two awaits. -/
inductive StatusPollTask
  | sleeping
  | polling (id : Nat)
  | sending (updates : List Wire.IntentStatusUpdate)
  | returned

/-- The registry, the task, the channel and what the engine took from it. -/
structure StatusSource where
  pool : RegistryPool
  task : StatusPollTask
  channel : Channel ExtensionDelivery statusChannelBuf
  streamed : List ExtensionDelivery

/-- The source is opened only when a module demands the intent-status kind and a venue is
registered. -/
def openSources (demandedExtensionKinds : List String) (pool : RegistryPool) :
    Option StatusSource :=
  if intentStatusKind ∈ demandedExtensionKinds then
    if pool.shared.venueCount = 0 then none
    else some ⟨pool, .sleeping, .empty, []⟩
  else none

inductive SourceLabel
  | registry (label : Label Input HostEvent Call)
  | poll
  | collect
  | send
  | receive
  | close

namespace StatusSource

variable (P : Policy)

def step (s : StatusSource) : SourceLabel → Option StatusSource
  -- The task is the one caller that polls.
  | .registry (.spawn .pollStatusTransitions) => none
  | .registry label => do
      let pool ← (venueRegistry P).step s.pool label
      return { s with pool }
  | .poll =>
      match s.task with
      | .sleeping => do
          let pool ← (venueRegistry P).step s.pool (.spawn .pollStatusTransitions)
          return { s with pool, task := .polling s.pool.calls.length }
      | _ => none
  | .collect =>
      match s.task with
      | .polling id =>
          match outcomeOf s.pool id with
          | some (.polled updates) => some { s with task := .sending updates }
          | _ => none
      | _ => none
  | .send =>
      match s.task with
      | .sending [] => some { s with task := .sleeping }
      | .sending (update :: updates) =>
          match delivery update with
          | none => some { s with task := .sending updates }
          | some item =>
              match s.channel.send item with
              | some (.ok channel) => some { s with channel, task := .sending updates }
              | some (.error ()) => some { s with task := .returned }
              | none => none
      | _ => none
  | .receive => do
      let (item, channel) ← s.channel.recv
      return { s with channel, streamed := s.streamed ++ [item] }
  | .close => some { s with channel := s.channel.close }

variable {P} in
theorem step_registry (s : StatusSource) {label : Label Input HostEvent Call}
    (other : label ≠ .spawn .pollStatusTransitions) :
    s.step P (.registry label) =
      ((venueRegistry P).step s.pool label).map fun pool => { s with pool } := by
  cases label with
  | spawn call =>
      cases call with
      | pollStatusTransitions => exact absurd rfl other
      | _ => rfl
  | advance id input => cases h : (venueRegistry P).step s.pool (.advance id input) <;> simp [step, h]
  | drop id => cases h : (venueRegistry P).step s.pool (.drop id) <;> simp [step, h]
  | host event => rfl

def run : List SourceLabel → StatusSource → Option StatusSource
  | [], s => some s
  | label :: labels, s => do run labels (← step P s label)

/-- What a source opened on a registry that was never polled comes to. -/
inductive Reach : StatusSource → Prop
  | opened {demanded : List String} {p : RegistryPool} {s : StatusSource}
      (reach : Reachable P p) (unpolled : .pollStatusTransitions ∉ p.calls)
      (opens : openSources demanded p = some s) : Reach s
  | step {s t : StatusSource} {label : SourceLabel} (before : Reach s)
      (moves : s.step P label = some t) : Reach t

end StatusSource

/-! ## Only polls record updates -/

section Recording

variable {P : Policy}

theorem recorded_offWatch {events : List Event} (quiet : ∀ e ∈ events, e.onWatch = false) :
    recorded events = [] := by
  unfold recorded
  rw [List.filterMap_eq_nil_iff]
  intro e member
  have here := quiet e member
  cases e with
  | folded venue receipt status update => cases here
  | _ => rfl

theorem recorded_evictions (now : Nat) (watched : List WatchedIntent) :
    recorded (evictions now watched) = [] :=
  Listing.recorded ⟨onWatch_evictions _ _, unfolded_evictions _ _⟩

theorem act_recorded {id : Nat} {o : Op} {i : Input} {r r' : Registry} {a : o.Ans}
    {events : List Event} (acts : act P id o i r = some (a, events, r')) :
    recorded events = [] ∨
      ∃ venue receipt status, o = .recordPolledStatus venue receipt status := by
  obtain ⟨venue, receipt, _, rfl, _⟩ | ⟨rfl, _⟩ | ⟨venue, receipt, status, same, _⟩ | ⟨_, quiet⟩ :=
    act_watched acts
  · left
    obtain ⟨_, _, _, _, hevents⟩ := act_watch acts
    rw [hevents, recorded_append, recorded_evictions]
    split
    · rfl
    · rfl
  · left
    obtain ⟨_, hevents, _⟩ := act_snapshot acts
    rw [hevents, recorded_evictions]
  · exact .inr ⟨venue, receipt, status, same⟩
  · exact .inl (recorded_offWatch quiet)

def emitted (p : RegistryPool) : List Wire.IntentStatusUpdate :=
  recorded (p.log.map (·.what))

theorem emitted_append {p : RegistryPool} {log : List (Entry Event)} {who : Option Nat}
    {events : List Event} (grows : log = p.log ++ tagged who events) :
    recorded (log.map (·.what)) = emitted p ++ recorded events := by
  have plain : (tagged who events).map (·.what) = events := by
    simp [tagged, Function.comp_def]
  rw [grows, List.map_append, recorded_append, plain]
  rfl

/-- One step of the registry appends to the log, and updates only from a poll under way. -/
theorem step_emits {p q : RegistryPool} {start : Nat} {label : Label Input HostEvent Call}
    (reach : (venueRegistry P).Reach (Registry.new start) p)
    (moves : (venueRegistry P).step p label = some q) :
    ∃ who events, q.log = p.log ++ tagged who events ∧
      (recorded events = [] ∨ ∃ id, who = some id ∧
        p.calls[id]? = some .pollStatusTransitions ∧ p.standing id ≠ none) := by
  obtain ⟨call, -, rfl⟩ | ⟨id, i, o, rest, a, events, r, -, thread, acts, rfl⟩ |
    ⟨id, o, rest, events, r, -, thread, gone, rfl⟩ | ⟨event, -, rfl⟩ :=
      (venueRegistry P).step_cases moves
  · exact ⟨none, [], by simp, .inl rfl⟩
  · have acts : act P id o i p.shared = some (a, events, r) := acts
    rcases act_recorded acts with silent | ⟨venue, receipt, status, same⟩
    · exact ⟨some id, events, rfl, .inl silent⟩
    · subst same
      obtain ⟨call, made, point⟩ := tells_thread reach thread
      rw [point.folding venue receipt status rest rfl] at made
      refine ⟨some id, events, rfl, .inr ⟨id, rfl, made, ?_⟩⟩
      rw [Pool.standing, thread]
      exact Option.some_ne_none _
  · refine ⟨some id, events, rfl, .inl ?_⟩
    rcases abandon_cases id gone with ⟨_, _, hevents, _⟩ | ⟨_, _, _, hevents, _⟩
    · rw [hevents]
      rfl
    · rw [hevents]
      rfl
  · refine ⟨none, _, rfl, .inl (recorded_offWatch fun e member => ?_)⟩
    have onRoute := host_onRoute event p.shared e member
    cases e <;> first | rfl | cases onRoute

end Recording

/-! ## Where every update is -/

def StatusPollTask.awaited (task : StatusPollTask) (p : RegistryPool) :
    List Wire.IntentStatusUpdate :=
  match task with
  | .polling id => recorded (own id p.log)
  | _ => []

def StatusPollTask.unsent : StatusPollTask → List Wire.IntentStatusUpdate
  | .sending updates => updates
  | _ => []

/-- The task's poll is the only one under way, and every update recorded is awaited, unsent,
queued or streamed, in the order of the log and as long as the engine listens. -/
structure Flows (P : Policy) (s : StatusSource) : Prop where
  reach : Reachable P s.pool
  mine : ∀ id, s.task = .polling id → s.pool.calls[id]? = some .pollStatusTransitions
  alone : ∀ id : Nat, s.pool.calls[id]? = some .pollStatusTransitions →
    s.task = .polling id ∨ s.pool.standing id = none
  ended : s.task = .returned → s.channel.receiving = false
  split : ∃ collected sent, emitted s.pool = collected ++ s.task.awaited s.pool ∧
    s.channel.Carries sent s.streamed ∧ sent <+: collected.filterMap delivery ∧
    (s.channel.receiving = true →
      sent ++ s.task.unsent.filterMap delivery = collected.filterMap delivery)

section Flow

variable {P : Policy} {s t : StatusSource}

theorem flows_opened {demanded : List String} {p : RegistryPool} (reach : Reachable P p)
    (unpolled : .pollStatusTransitions ∉ p.calls) (opens : openSources demanded p = some s) :
    Flows P s := by
  unfold openSources at opens
  split_ifs at opens with wanted empty
  cases opens
  clear empty
  have none_recorded : emitted p = [] := by
    obtain ⟨start, reach⟩ := reach
    induction reach with
    | start => rfl
    | @step p q label before moves ih =>
        obtain ⟨new, calls⟩ := System.calls_step moves
        have earlier : .pollStatusTransitions ∉ p.calls := by
          intro member
          apply unpolled
          rw [calls]
          exact List.mem_append_left _ member
        obtain ⟨who, events, grows, silent | ⟨id, _, made, _⟩⟩ := step_emits before moves
        · show recorded (q.log.map (·.what)) = []
          rw [emitted_append grows, ih earlier, silent, List.append_nil]
        · exact absurd (List.mem_of_getElem? made) earlier
  constructor
  · exact reach
  · intro id polls
    cases polls
  · intro id made
    exact absurd (List.mem_of_getElem? made) unpolled
  · intro returned
    cases returned
  · exact ⟨[], [], none_recorded, .empty, List.prefix_rfl, fun _ => rfl⟩

/-- A step of the registry adds to the log what it adds to the poll under way. -/
theorem Flows.emits (flows : Flows P s) {q : RegistryPool} {label : Label Input HostEvent Call}
    (moves : (venueRegistry P).step s.pool label = some q) :
    ∃ new, emitted q = emitted s.pool ++ new ∧
      s.task.awaited q = s.task.awaited s.pool ++ new := by
  obtain ⟨start, reach⟩ := flows.reach
  obtain ⟨who, events, grows, only⟩ := step_emits reach moves
  refine ⟨recorded events, emitted_append grows, ?_⟩
  have polling : ∀ id, s.task = .polling id → recorded events = [] ∨ who = some id →
      recorded (own id q.log) = recorded (own id s.pool.log) ++ recorded events := by
    intro id _ mine
    rw [grows, own_append, recorded_append]
    by_cases same : who = some id
    · rw [same, own_tagged_self]
    · rw [own_tagged_other id same]
      rcases mine with silent | mine
      · rw [silent, recorded_nil]
      · exact absurd mine same
  rcases only with silent | ⟨id, rfl, made, stands⟩
  · cases task : s.task with
    | polling id => exact polling id task (.inl silent)
    | _ => rw [silent]; rfl
  · rcases flows.alone id made with task | ended
    · rw [task]
      exact polling id task (.inr rfl)
    · exact absurd ended stands

theorem Flows.registry (flows : Flows P s) {q : RegistryPool}
    {label : Label Input HostEvent Call} (other : label ≠ .spawn .pollStatusTransitions)
    (moves : (venueRegistry P).step s.pool label = some q) : Flows P { s with pool := q } := by
  obtain ⟨new, grows, hand⟩ := flows.emits moves
  obtain ⟨collected, sent, split, carries, early, whole⟩ := flows.split
  constructor
  · obtain ⟨start, reach⟩ := flows.reach
    exact ⟨start, reach.step moves⟩
  · intro id polls
    obtain ⟨later, calls⟩ := System.calls_step moves
    have made := flows.mine id polls
    show q.calls[id]? = some .pollStatusTransitions
    rw [calls, List.getElem?_append_left (List.getElem?_eq_some_iff.mp made).choose]
    exact made
  · intro id made
    rcases System.calls_at moves made with before | ⟨spawned, _⟩
    · rcases flows.alone id before with task | ended
      · exact .inl task
      · exact .inr (System.standing_none moves (List.getElem?_eq_some_iff.mp before).choose ended)
    · exact absurd spawned other
  · exact flows.ended
  · refine ⟨collected, sent, ?_, carries, early, whole⟩
    show emitted q = collected ++ s.task.awaited q
    rw [grows, hand, split, List.append_assoc]

theorem Flows.poll (flows : Flows P s) (sleeps : s.task = .sleeping) {q : RegistryPool}
    (moves : (venueRegistry P).step s.pool (.spawn .pollStatusTransitions) = some q) :
    Flows P { s with pool := q, task := .polling s.pool.calls.length } := by
  obtain ⟨collected, sent, split, carries, early, whole⟩ := flows.split
  obtain ⟨start, reach⟩ := flows.reach
  rw [sleeps] at split whole
  constructor
  · exact ⟨start, reach.step moves⟩
  · intro id polls
    cases polls
    cases moves
    exact List.getElem?_concat_length
  · intro id made
    rcases System.calls_at moves made with before | ⟨_, rfl⟩
    · rcases flows.alone id before with task | ended
      · rw [sleeps] at task
        cases task
      · exact .inr (System.standing_none moves (List.getElem?_eq_some_iff.mp before).choose ended)
    · exact .inl rfl
  · intro returned
    cases returned
  · refine ⟨collected, sent, ?_, carries, early, whole⟩
    cases moves
    have silent := reach.numbered.silent s.pool.calls.length (Nat.le_refl _)
    show emitted s.pool = collected ++ recorded (own s.pool.calls.length s.pool.log)
    rw [split, silent]
    rfl

theorem Flows.collect (flows : Flows P s) {id : Nat} (polls : s.task = .polling id)
    {updates : List Wire.IntentStatusUpdate} (returned : outcomeOf s.pool id = some (.polled updates)) :
    Flows P { s with task := .sending updates } := by
  obtain ⟨collected, sent, split, carries, early, whole⟩ := flows.split
  have thread := thread_of_outcomeOf returned
  have recorded_all : updates = recorded (own id s.pool.log) := by
    obtain ⟨start, reach⟩ := flows.reach
    obtain ⟨call, _, follows⟩ := follows_thread reach thread
    exact follows.at_point.polled updates rfl
  rw [polls] at split whole
  constructor
  · exact flows.reach
  · intro other task
    cases task
  · intro other made
    right
    rcases flows.alone other made with task | ended
    · rw [polls] at task
      cases task
      show s.pool.standing id = none
      rw [Pool.standing, thread]
      rfl
    · exact ended
  · intro task
    cases task
  · refine ⟨collected ++ updates, sent, ?_, carries, ?_, ?_⟩
    · show emitted s.pool = (collected ++ updates) ++ []
      rw [split, List.append_nil, recorded_all]
      rfl
    · rw [List.filterMap_append]
      exact early.trans (List.prefix_append _ _)
    · intro listens
      show sent ++ updates.filterMap delivery = _
      have all := whole listens
      simp only [StatusPollTask.unsent, List.filterMap_nil, List.append_nil] at all
      rw [List.filterMap_append, all]

theorem Flows.idle (flows : Flows P s) {updates : List Wire.IntentStatusUpdate}
    (sends : s.task = .sending updates) (id : Nat)
    (made : s.pool.calls[id]? = some .pollStatusTransitions) : s.pool.standing id = none := by
  rcases flows.alone id made with task | ended
  · rw [sends] at task
    cases task
  · exact ended

theorem Flows.rest (flows : Flows P s) (sends : s.task = .sending []) :
    Flows P { s with task := .sleeping } := by
  obtain ⟨collected, sent, split, carries, early, whole⟩ := flows.split
  rw [sends] at split whole
  constructor
  · exact flows.reach
  · intro id task
    cases task
  · exact fun id made => .inr (flows.idle sends id made)
  · intro task
    cases task
  · exact ⟨collected, sent, split, carries, early, whole⟩

theorem Flows.skip (flows : Flows P s) {update : Wire.IntentStatusUpdate}
    {updates : List Wire.IntentStatusUpdate} (sends : s.task = .sending (update :: updates))
    (fails : delivery update = none) : Flows P { s with task := .sending updates } := by
  obtain ⟨collected, sent, split, carries, early, whole⟩ := flows.split
  rw [sends] at split whole
  constructor
  · exact flows.reach
  · intro id task
    cases task
  · exact fun id made => .inr (flows.idle sends id made)
  · intro task
    cases task
  · refine ⟨collected, sent, split, carries, early, fun listens => ?_⟩
    have all := whole listens
    rw [StatusPollTask.unsent, List.filterMap_cons_none fails] at all
    exact all

theorem Flows.send (flows : Flows P s) {update : Wire.IntentStatusUpdate}
    {updates : List Wire.IntentStatusUpdate} (sends : s.task = .sending (update :: updates))
    {item : ExtensionDelivery} (delivers : delivery update = some item)
    {channel : Channel ExtensionDelivery statusChannelBuf}
    (sent : s.channel.send item = some (.ok channel)) :
    Flows P { s with channel, task := .sending updates } := by
  obtain ⟨collected, before, split, carries, early, whole⟩ := flows.split
  rw [sends] at split whole
  have all : (before ++ [item]) ++ updates.filterMap delivery = collected.filterMap delivery := by
    rcases Channel.send_cases sent with ⟨_, refused⟩ | ⟨listens, _⟩
    · cases refused
    · have all := whole listens
      rw [StatusPollTask.unsent, List.filterMap_cons_some delivers] at all
      rw [List.append_assoc, List.singleton_append, all]
  constructor
  · exact flows.reach
  · intro id task
    cases task
  · exact fun id made => .inr (flows.idle sends id made)
  · intro task
    cases task
  · exact ⟨collected, before ++ [item], split, carries.send sent, ⟨_, all⟩, fun _ => all⟩

theorem Flows.refused (flows : Flows P s) {update : Wire.IntentStatusUpdate}
    {updates : List Wire.IntentStatusUpdate} (sends : s.task = .sending (update :: updates))
    {item : ExtensionDelivery} (refused : s.channel.send item = some (.error ())) :
    Flows P { s with task := .returned } := by
  obtain ⟨collected, sent, split, carries, early, whole⟩ := flows.split
  have gone : s.channel.receiving = false := by
    rcases Channel.send_cases refused with ⟨gone, _⟩ | ⟨_, _, sent, _⟩
    · exact gone
    · cases sent
  rw [sends] at split
  constructor
  · exact flows.reach
  · intro id task
    cases task
  · exact fun id made => .inr (flows.idle sends id made)
  · exact fun _ => gone
  · refine ⟨collected, sent, split, carries, early, fun listens => ?_⟩
    rw [gone] at listens
    cases listens

theorem Flows.receive (flows : Flows P s) {item : ExtensionDelivery}
    {channel : Channel ExtensionDelivery statusChannelBuf}
    (takes : s.channel.recv = some (item, channel)) :
    Flows P { s with channel, streamed := s.streamed ++ [item] } := by
  obtain ⟨collected, sent, split, carries, early, whole⟩ := flows.split
  constructor
  · exact flows.reach
  · exact flows.mine
  · exact flows.alone
  · intro task
    have gone := flows.ended task
    rw [(Channel.recv_spec takes).2.1] at gone
    cases gone
  · refine ⟨collected, sent, split, carries.recv takes, early, fun _ => ?_⟩
    exact whole (Channel.recv_spec takes).2.1

theorem Flows.close (flows : Flows P s) : Flows P { s with channel := s.channel.close } := by
  obtain ⟨collected, sent, split, carries, early, whole⟩ := flows.split
  constructor
  · exact flows.reach
  · exact flows.mine
  · exact flows.alone
  · exact fun _ => rfl
  · refine ⟨collected, sent, split, carries.close, early, fun listens => ?_⟩
    cases listens

theorem Flows.step (flows : Flows P s) {label : SourceLabel}
    (moves : s.step P label = some t) : Flows P t := by
  cases label with
  | registry label =>
      have other : label ≠ .spawn .pollStatusTransitions := by
        intro polls
        subst polls
        cases moves
      rw [StatusSource.step_registry s other] at moves
      obtain ⟨q, moved, same⟩ := Option.map_eq_some_iff.mp moves
      cases same
      exact flows.registry other moved
  | poll =>
      simp only [StatusSource.step] at moves
      split at moves
      next sleeps =>
        obtain ⟨q, moved, same⟩ := Option.bind_eq_some_iff.mp moves
        cases same
        exact flows.poll sleeps moved
      next => cases moves
  | collect =>
      simp only [StatusSource.step] at moves
      split at moves
      next id polls =>
        split at moves
        next updates returned =>
          cases moves
          exact flows.collect polls returned
        next => cases moves
      next => cases moves
  | send =>
      simp only [StatusSource.step] at moves
      split at moves
      next sends =>
        cases moves
        exact flows.rest sends
      next update updates sends =>
        split at moves
        next fails =>
          cases moves
          exact flows.skip sends fails
        next item delivers =>
          split at moves
          next channel sent =>
            cases moves
            exact flows.send sends delivers sent
          next refused =>
            cases moves
            exact flows.refused sends refused
          next => cases moves
      next => cases moves
  | receive =>
      obtain ⟨taken, takes, same⟩ := Option.bind_eq_some_iff.mp moves
      obtain ⟨item, channel⟩ := taken
      cases same
      exact flows.receive takes
  | close =>
      cases moves
      exact flows.close

theorem flows_reach (reach : StatusSource.Reach P s) : Flows P s := by
  induction reach with
  | opened reach unpolled opens => exact flows_opened reach unpolled opens
  | step _ moves ih => exact ih.step moves

end Flow

/-! ## A keeper's end -/

/-- How an envelope error reads; `detail` is the codec's own text. -/
def EnvelopeError.display (detail : Borsh.ReadError → String) :
    Wire.IntentStatusUpdate.EnvelopeError → String
  | .empty => "empty intent-status envelope: missing the version tag"
  | .unknownVersion version => s!"unknown intent-status envelope version {version}"
  | .malformed version err =>
      s!"malformed version {version} intent-status envelope: {detail err}"

/-- The extension arm of a keeper's `on_trigger`, over what its handler reads and writes. -/
def onExtension {σ φ : Type} (invalidInput : String → φ) (detail : Borsh.ReadError → String)
    (onIntentStatus : Option (Wire.IntentStatusUpdate → σ → Except φ Unit × σ))
    (payload : ExtensionTrigger) (state : σ) : Except φ Unit × σ :=
  match onIntentStatus with
  | some handler =>
      match Sdk.intentStatusUpdate payload.extensionKind payload.payload with
      | some (.ok update) => handler update state
      | some (.error err) => (.error (invalidInput (EnvelopeError.display detail err)), state)
      | none => (.ok (), state)
  | none => (.ok (), state)

def Hands (item : ExtensionDelivery) (update : Wire.IntentStatusUpdate) : Prop :=
  ∀ {σ φ : Type} (invalidInput : String → φ) (detail : Borsh.ReadError → String)
    (handler : Wire.IntentStatusUpdate → σ → Except φ Unit × σ) (state : σ),
    onExtension invalidInput detail (some handler) item.trigger state = handler update state

theorem hands_delivery {update : Wire.IntentStatusUpdate} {item : ExtensionDelivery}
    (delivers : delivery update = some item) : Hands item update := by
  intro σ φ invalidInput detail handler state
  simp only [onExtension, delivery_recovers delivers]

def deliverable (update : Wire.IntentStatusUpdate) : Bool :=
  (delivery update).isSome

theorem hands_all (updates : List Wire.IntentStatusUpdate) :
    List.Forall₂ Hands (updates.filterMap delivery) (updates.filter deliverable) := by
  induction updates with
  | nil => exact .nil
  | cons update updates ih =>
      cases delivers : delivery update with
      | none =>
          rw [List.filterMap_cons_none delivers,
            List.filter_cons_of_neg (by simp [deliverable, delivers])]
          exact ih
      | some item =>
          rw [List.filterMap_cons_some delivers,
            List.filter_cons_of_pos (by simp [deliverable, delivers])]
          exact .cons (hands_delivery delivers) ih

/-! ## The source comes to rest -/

namespace StatusSource

variable {P : Policy}

theorem run_append {labels more : List SourceLabel} {s t u : StatusSource}
    (first : run P labels s = some t) (second : run P more t = some u) :
    run P (labels ++ more) s = some u := by
  induction labels generalizing s with
  | nil =>
      cases first
      exact second
  | cons label labels ih =>
      obtain ⟨r, moves, later⟩ := Option.bind_eq_some_iff.mp first
      rw [List.cons_append, run, moves]
      exact ih later

theorem run_one {label : SourceLabel} {s t : StatusSource} (moves : s.step P label = some t) :
    run P [label] s = some t := by
  simp only [run, moves, Option.bind_eq_bind, Option.bind_some]

theorem Reach.of_run {labels : List SourceLabel} {s t : StatusSource} (before : Reach P s)
    (ran : run P labels s = some t) : Reach P t := by
  induction labels generalizing s with
  | nil =>
      cases ran
      exact before
  | cons label labels ih =>
      obtain ⟨r, moves, later⟩ := Option.bind_eq_some_iff.mp ran
      exact ih (before.step moves) later

theorem run_registry {labels : Schedule} {s : StatusSource} {q : RegistryPool}
    (advances : ∀ label ∈ labels, ∃ id input, label = .advance id input)
    (ran : (venueRegistry P).run labels s.pool = some q) :
    run P (labels.map .registry) s = some { s with pool := q } := by
  induction labels generalizing s with
  | nil =>
      cases ran
      rfl
  | cons label labels ih =>
      obtain ⟨id, input, rfl⟩ := advances label List.mem_cons_self
      unfold System.run at ran
      split at ran
      next r moves =>
        have other : (Label.advance id input : Label Input HostEvent Call) ≠
            .spawn .pollStatusTransitions := by
          intro same
          cases same
        have here : s.step P (.registry (.advance id input)) = some { s with pool := r } := by
          rw [step_registry s other, moves]
          rfl
        rw [List.map_cons, run, here]
        exact ih (s := { s with pool := r })
          (fun label member => advances label (List.mem_cons_of_mem _ member)) ran
      next => cases ran

theorem takes_queue (queue : List ExtensionDelivery) {s : StatusSource}
    (queued : s.channel.queue = queue) (listens : s.channel.receiving = true) :
    ∃ labels t, run P labels s = some t ∧ t.pool = s.pool ∧ t.task = s.task ∧
      t.channel.queue = [] ∧ t.channel.receiving = true := by
  induction queue generalizing s with
  | nil => exact ⟨[], s, rfl, rfl, rfl, queued, listens⟩
  | cons item rest ih =>
      obtain ⟨channel, takes, left, still⟩ := Channel.recv_of_cons queued
      have here : s.step P .receive =
          some { s with channel, streamed := s.streamed ++ [item] } := by
        simp only [step, takes, Option.bind_eq_bind, Option.bind_some, pure]
      obtain ⟨labels, t, ran, pool, task, empty, there⟩ :=
        ih (s := { s with channel, streamed := s.streamed ++ [item] }) left (still.trans listens)
      exact ⟨[.receive] ++ labels, t, run_append (run_one here) ran, pool, task, empty, there⟩

theorem sends_one {update : Wire.IntentStatusUpdate} {updates : List Wire.IntentStatusUpdate}
    {s : StatusSource} (sends : s.task = .sending (update :: updates))
    (listens : s.channel.receiving = true) :
    ∃ labels t, run P labels s = some t ∧ t.pool = s.pool ∧ t.task = .sending updates ∧
      t.channel.receiving = true := by
  obtain ⟨labels, r, took, pool, task, empty, there⟩ := takes_queue (P := P) _ rfl listens
  rw [sends] at task
  cases delivers : delivery update with
  | none =>
      have here : r.step P .send = some { r with task := .sending updates } := by
        simp only [step, task, delivers]
      exact ⟨labels ++ [.send], { r with task := .sending updates }, run_append took (run_one here),
        pool, rfl, there⟩
  | some item =>
      have free : r.channel.queue.length < statusChannelBuf := by
        rw [empty]
        decide
      obtain ⟨channel, sent, _, still⟩ := Channel.send_of_free there free item
      have here : r.step P .send = some { r with channel, task := .sending updates } := by
        simp only [step, task, delivers, sent]
      exact ⟨labels ++ [.send], { r with channel, task := .sending updates },
        run_append took (run_one here), pool, rfl, still⟩

theorem sends_all (updates : List Wire.IntentStatusUpdate) {s : StatusSource}
    (sends : s.task = .sending updates) (listens : s.channel.receiving = true) :
    ∃ labels t, run P labels s = some t ∧ t.pool = s.pool ∧ t.task = .sleeping ∧
      t.channel.queue = [] ∧ t.channel.receiving = true := by
  induction updates generalizing s with
  | nil =>
      have here : s.step P .send = some { s with task := .sleeping } := by
        simp only [step, sends]
      obtain ⟨labels, t, took, pool, task, empty, there⟩ :=
        takes_queue (P := P) (s := { s with task := .sleeping }) _ rfl listens
      exact ⟨[.send] ++ labels, t, run_append (run_one here) took, pool, task, empty, there⟩
  | cons update updates ih =>
      obtain ⟨labels, r, sent, pool, task, there⟩ := sends_one (P := P) sends listens
      obtain ⟨more, t, ran, pool', rest⟩ := ih task there
      exact ⟨labels ++ more, t, run_append sent ran, pool'.trans pool, rest⟩

theorem collects {s : StatusSource} (flows : Flows P s) {id : Nat} (polls : s.task = .polling id)
    (undropped : s.pool.threads id ≠ none) (ended : s.pool.standing id = none) :
    ∃ updates, s.step P .collect = some { s with task := .sending updates } := by
  obtain ⟨t, thread⟩ := Option.ne_none_iff_exists'.mp undropped
  cases t with
  | call o rest =>
      rw [Pool.standing, thread] at ended
      cases ended
  | done outcome =>
      obtain ⟨start, reach⟩ := flows.reach
      obtain ⟨call, made, point⟩ := tells_thread reach thread
      rw [flows.mine id polls, Option.some.injEq] at made
      subst made
      have story := point.returned outcome rfl
      have returned : outcomeOf s.pool id = some outcome := by
        rw [outcomeOf, thread]
      generalize own id s.pool.log = past at story
      cases story with
      | unrouted e routes => cases routes
      | throttled slot routes spends => cases routes
      | @polled pairs listing trace updates pruned tour =>
          refine ⟨updates, ?_⟩
          simp only [step, polls, returned]

/-- Unless its poll was dropped, the task goes back to sleep with nothing queued. -/
theorem comes_to_rest {s : StatusSource} (before : Reach P s)
    (listens : s.channel.receiving = true)
    (undropped : ∀ id, s.task = .polling id → s.pool.threads id ≠ none) :
    ∃ labels t, run P labels s = some t ∧ t.task = .sleeping ∧ t.channel.queue = [] ∧
      t.channel.receiving = true ∧ emitted s.pool <+: emitted t.pool := by
  have flows := flows_reach before
  obtain ⟨start, reach⟩ := flows.reach
  obtain ⟨advances, q, only, ran, ended⟩ := calls_drain reach
  have drained : run P (advances.map .registry) s = some { s with pool := q } :=
    run_registry only ran
  have grows : emitted s.pool <+: emitted q := by
    obtain ⟨log, later⟩ := System.run_log ran
    unfold emitted
    rw [later, List.map_append, recorded_append]
    exact List.prefix_append _ _
  have flows' : Flows P { s with pool := q } := flows_reach (before.of_run drained)
  cases task : s.task with
  | sleeping => 
      obtain ⟨labels, t, took, pool, task', empty, there⟩ :=
        takes_queue (P := P) (s := { s with pool := q }) _ rfl listens
      refine ⟨advances.map .registry ++ labels, t, run_append drained took, ?_, empty, there, ?_⟩
      · exact task'.trans task
      · rw [pool]
        exact grows
  | polling id =>
      obtain ⟨updates, collected⟩ := collects flows' task
        (System.run_advances only ran (undropped id task)) (ended id)
      obtain ⟨labels, t, sent, pool, rest⟩ :=
        sends_all (P := P) updates (s := { s with pool := q, task := .sending updates }) rfl listens
      refine ⟨advances.map .registry ++ ([.collect] ++ labels), t,
        run_append drained (run_append (run_one collected) sent), rest.1, rest.2.1, rest.2.2, ?_⟩
      rw [pool]
      exact grows
  | sending updates =>
      obtain ⟨labels, t, sent, pool, rest⟩ :=
        sends_all (P := P) updates (s := { s with pool := q }) task listens
      refine ⟨advances.map .registry ++ labels, t, run_append drained sent, rest.1, rest.2.1,
        rest.2.2, ?_⟩
      rw [pool]
      exact grows
  | returned =>
      rw [flows.ended task] at listens
      cases listens

end StatusSource

/-- Where a source stands, the updates of a prefix of the log were handed to the keeper. -/
theorem Flows.heard {P : Policy} {s : StatusSource} (flows : Flows P s) :
    ∃ heard later, (emitted s.pool).filter deliverable = heard ++ later ∧
      List.Forall₂ Hands s.streamed heard ∧
      (s.channel.receiving = true → s.task = .sleeping → s.channel.queue = [] → later = []) := by
  obtain ⟨collected, sent, split, carries, early, whole⟩ := flows.split
  obtain ⟨more, streams⟩ := carries.before.trans early
  have hands := hands_all collected
  rw [← streams] at hands
  have first := List.forall₂_take s.streamed.length hands
  have after := List.forall₂_drop s.streamed.length hands
  rw [List.take_left] at first
  rw [List.drop_left] at after
  have same : collected.filter deliverable =
      (collected.filter deliverable).take s.streamed.length ++
        (collected.filter deliverable).drop s.streamed.length :=
    (List.take_append_drop _ _).symm
  refine ⟨(collected.filter deliverable).take s.streamed.length,
    (collected.filter deliverable).drop s.streamed.length ++
      (s.task.awaited s.pool).filter deliverable, ?_, first, ?_⟩
  · rw [split, List.filter_append, ← List.append_assoc, ← same]
  · intro listens sleeps empty
    have nothing : s.task.unsent = [] := by
      rw [sleeps]
      rfl
    have all := whole listens
    have taken := carries.whole listens
    rw [nothing, List.filterMap_nil, List.append_nil] at all
    rw [empty, List.append_nil] at taken
    have none_left : more = [] := by
      rw [← all, ← taken] at streams
      exact List.append_right_eq_self.mp streams
    rw [none_left] at after
    have dropped := List.forall₂_nil_left_iff.mp after
    rw [dropped, sleeps]
    rfl

/-- Whatever is called, answered, registered and killed meanwhile, the keeper's handler is
handed the updates the registry records, each once and in the order of the log, but for those
whose envelope does not encode. It has been handed all of them whenever the task sleeps and
nothing is queued, and as long as the engine listens and the poll under way is not dropped,
some continuation hands it every update recorded so far. -/
theorem statuses_reach_keeper {P : Policy} {s : StatusSource} (reach : StatusSource.Reach P s) :
    (∃ heard later, (emitted s.pool).filter deliverable = heard ++ later ∧
      List.Forall₂ Hands s.streamed heard ∧
      (s.channel.receiving = true → s.task = .sleeping → s.channel.queue = [] → later = [])) ∧
    (s.channel.receiving = true →
      (∀ id, s.task = .polling id → s.pool.threads id ≠ none) →
      ∃ labels t, StatusSource.run P labels s = some t ∧ emitted s.pool <+: emitted t.pool ∧
        List.Forall₂ Hands t.streamed ((emitted t.pool).filter deliverable)) := by
  refine ⟨(flows_reach reach).heard, fun listens undropped => ?_⟩
  obtain ⟨labels, t, ran, sleeps, empty, there, grows⟩ :=
    StatusSource.comes_to_rest reach listens undropped
  obtain ⟨heard, later, split, hands, rest⟩ := (flows_reach (reach.of_run ran)).heard
  rw [rest there sleeps empty, List.append_nil] at split
  exact ⟨labels, t, ran, grows, split ▸ hands⟩

/-- A receipt is watched before the platform opens its sources. -/
def observedReceipt : Schedule :=
  [.host (.register stubVenue 0 ∅), .spawn (.observe stubVenue [7]), .advance 0 (.elapsed 0),
    .advance 0 (.elapsed 0)]

/-- The task's poll hears that the intent is fulfilled, and its updates are collected. -/
def polledReceipt : List SourceLabel :=
  .poll :: ((.advance 1 (.elapsed 0) :: throughVisit 1 .fulfilled).map .registry ++ [.collect])

theorem statuses_reach_keeper_stub : ∃ s t : StatusSource,
    StatusSource.Reach oneCharge s ∧ s.streamed = [] ∧
    emitted s.pool = [⟨"cow", [7], [1, 2, 0, 0]⟩] ∧ emitted s.pool <+: emitted t.pool ∧
    List.Forall₂ Hands t.streamed ((emitted t.pool).filter deliverable) := by
  have ran : ((venueRegistry oneCharge).run observedReceipt (System.empty (Registry.new 0))).bind
      (fun p => (openSources ["intent-status"] p).bind fun opened =>
        (StatusSource.run oneCharge polledReceipt opened).map fun s =>
          (p.calls, emitted s.pool, s.streamed, s.channel.receiving, s.task)) =
      some ([.observe stubVenue [7]], [⟨"cow", [7], [1, 2, 0, 0]⟩], [], true,
        .sending [⟨"cow", [7], [1, 2, 0, 0]⟩]) := by
    rfl
  obtain ⟨p, reached, ran⟩ := Option.bind_eq_some_iff.mp ran
  obtain ⟨opened, opens, ran⟩ := Option.bind_eq_some_iff.mp ran
  obtain ⟨s, later, ends⟩ := Option.map_eq_some_iff.mp ran
  simp only [Prod.mk.injEq] at ends
  obtain ⟨calls, recorded, streamed, listens, task⟩ := ends
  have unpolled : .pollStatusTransitions ∉ p.calls := by
    rw [calls]
    decide
  have reach : StatusSource.Reach oneCharge s :=
    .of_run (.opened ⟨0, .of_run .start reached⟩ unpolled opens) later
  obtain ⟨labels, t, _, grows, hands⟩ := (statuses_reach_keeper reach).2 listens (by
    intro id polls
    rw [task] at polls
    cases polls)
  exact ⟨s, t, reach, streamed, recorded, grows, hands⟩

end Videre.Host
