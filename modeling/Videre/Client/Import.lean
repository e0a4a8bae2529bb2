import Videre.Client.Refusals
import Videre.Interaction.Progress

/-! # The client import

What a keeper module's `videre:venue/client` import does: every method goes to the
registry published for the process, under the module's own namespace, or is refused
as an unknown venue. The first registry published is the one all modules call for good.
-/

namespace Videre.Client

open Interaction Host

/-- The runtime's part of the import: which strings are module ids. An id is kept at its
wire spelling. -/
class NexumRuntime where
  parse : String → Option VenueId
  parse_asStr {id : String} {venue : VenueId} : parse id = some venue → venue.asStr = id

/-- The registries of one process, by allocation, and the slot the import reads. -/
structure Process where
  registries : Nat → RegistryPool
  published : Option Nat

structure Flight where
  registry : Nat
  id : Nat
  deriving DecidableEq, Repr

/-- Validate the wire venue id at the host import. -/
def venueId [NexumRuntime] (venue : String) : Except VenueError VenueId :=
  match NexumRuntime.parse venue with
  | some id => .ok id
  | none => .error .unknownVenue

namespace Process

/-- The first publish wins. -/
def publishRegistry (p : Process) (registry : Nat) : Process :=
  { p with published := p.published <|> some registry }

def registry (p : Process) : Except VenueError Nat :=
  match p.published with
  | some registry => .ok registry
  | none => .error .unknownVenue

def move (p : Process) (registry : Nat) (pool : RegistryPool) : Process :=
  { p with registries := Function.update p.registries registry pool }

@[simp] theorem move_self (p : Process) (registry : Nat) (pool : RegistryPool) :
    (p.move registry pool).registries registry = pool := Function.update_self ..

theorem move_other (p : Process) {registry other : Nat} (pool : RegistryPool)
    (distinct : other ≠ registry) : (p.move registry pool).registries other = p.registries other :=
  Function.update_of_ne distinct ..

theorem move_move (p : Process) (registry : Nat) (first last : RegistryPool) :
    (p.move registry first).move registry last = p.move registry last := by
  simp [move]

theorem move_same (p : Process) (registry : Nat) : p.move registry (p.registries registry) = p := by
  simp [move]

variable (P : Nat → Policy)

def spawn (p : Process) (registry : Nat) (call : Call) : Process :=
  let pool := p.registries registry
  p.move registry { pool with
    calls := pool.calls ++ [call]
    threads := Function.update pool.threads pool.calls.length
      (some (Call.code (P registry) call)) }

variable [NexumRuntime]

/-- One method of the import: the registry, then the venue id, then the call. -/
def dispatch (p : Process) (venue : String) (call : VenueId → Call) :
    Except VenueError Flight × Process :=
  match p.registry, Client.venueId venue with
  | .error e, _ | .ok _, .error e => (.error e, p)
  | .ok registry, .ok id =>
      (.ok ⟨registry, (p.registries registry).calls.length⟩, p.spawn P registry (call id))

def quote (p : Process) (module venue : String) (body : Bytes) :
    Except VenueError Flight × Process :=
  p.dispatch P venue fun id => .quote module id body

def submit (p : Process) (module venue : String) (body : Bytes) :
    Except VenueError Flight × Process :=
  p.dispatch P venue fun id => .submit module id body

def observe (p : Process) (venue : String) (receipt : Bytes) : Except VenueError Flight × Process :=
  p.dispatch P venue fun id => .observe id receipt

def status (p : Process) (venue : String) (receipt : Bytes) : Except VenueError Flight × Process :=
  p.dispatch P venue fun id => .status id receipt

def cancel (p : Process) (venue : String) (receipt : Bytes) : Except VenueError Flight × Process :=
  p.dispatch P venue fun id => .cancel id receipt

omit [NexumRuntime]

def landed (p : Process) (flight : Flight) : Option Outcome :=
  outcomeOf (p.registries flight.registry) flight.id

/-- What a process does beside its modules' imports: a registry schedules its calls, hears of
other callers and of its host, or is published. -/
inductive Turn
  | registry (registry : Nat) (label : Label Input HostEvent Call)
  | publish (registry : Nat)

def turn (p : Process) : Turn → Option Process
  | .registry registry label =>
      ((venueRegistry (P registry)).step (p.registries registry) label).map (p.move registry)
  | .publish registry => some (p.publishRegistry registry)

/-- Every registry is one its own calls, callers and host reach. -/
def Sound (p : Process) : Prop :=
  ∀ registry, Reachable (P registry) (p.registries registry)

/-! ## What stays -/

/-- What one process leaves to a later one: the slot, the calls and what they returned. -/
structure Grows (p q : Process) : Prop where
  published : ∀ r, p.published = some r → q.published = some r
  called : ∀ (flight : Flight) (call : Call),
    (p.registries flight.registry).calls[flight.id]? = some call →
      (q.registries flight.registry).calls[flight.id]? = some call
  landed : ∀ flight outcome, p.landed flight = some outcome → q.landed flight = some outcome

section Steps

variable {P} {p q : Process} {registry : Nat}

theorem landed_of_thread {flight : Flight} {outcome : Outcome}
    (thread : (p.registries flight.registry).threads flight.id = some (.done outcome)) :
    p.landed flight = some outcome := by
  simp [landed, outcomeOf, thread]

/-- A registry that takes a step keeps its calls and what they returned, and the others stay. -/
theorem step_registry (sound : p.Sound P) {label : Label Input HostEvent Call}
    {pool : RegistryPool}
    (moves : (venueRegistry (P registry)).step (p.registries registry) label = some pool) :
    (p.move registry pool).Sound P ∧ p.Grows (p.move registry pool) := by
  obtain ⟨start, reach⟩ := sound registry
  constructor
  · intro other
    by_cases same : other = registry
    · subst same
      rw [move_self]
      exact ⟨start, reach.step moves⟩
    · rw [move_other p pool same]
      exact sound other
  · constructor
    · exact fun _ there => there
    · intro flight call made
      by_cases same : flight.registry = registry
      · rw [same] at made ⊢
        obtain ⟨new, calls⟩ := System.calls_step moves
        have bound := (List.getElem?_eq_some_iff.mp made).choose
        rw [move_self, calls, List.getElem?_append_left bound]
        exact made
      · rw [move_other p pool same]
        exact made
    · intro flight outcome landed
      apply landed_of_thread
      have ended := thread_of_outcomeOf landed
      by_cases same : flight.registry = registry
      · rw [same] at ended ⊢
        rw [move_self]
        exact System.thread_done moves reach.numbered ended
      · rw [move_other p pool same]
        exact ended

theorem turn_grows (sound : p.Sound P) {t : Turn} (moves : p.turn P t = some q) :
    q.Sound P ∧ p.Grows q := by
  cases t with
  | registry registry label =>
      obtain ⟨pool, stepped, rfl⟩ := Option.map_eq_some_iff.mp moves
      exact step_registry sound stepped
  | publish registry =>
      cases moves
      refine ⟨sound, ?_, fun _ _ there => there, fun _ _ there => there⟩
      intro r there
      rw [publishRegistry, there]
      rfl

/-- An import is refused and changes nothing, or makes one new call on the published registry,
at the id it was given. -/
theorem dispatch_cases [NexumRuntime] (sound : p.Sound P) {venue : String} {call : VenueId → Call}
    {answer : Except VenueError Flight} (dispatched : p.dispatch P venue call = (answer, q)) :
    ((∃ e, answer = .error e) ∧ q = p) ∨
      ∃ flight, answer = .ok flight ∧ q.Sound P ∧ p.Grows q ∧
        p.published = some flight.registry ∧
        flight.id = (p.registries flight.registry).calls.length ∧
        (q.registries flight.registry).calls[flight.id]? = some (call ⟨venue⟩) ∧
        (q.registries flight.registry).threads flight.id =
          some (Call.code (P flight.registry) (call ⟨venue⟩)) := by
  unfold dispatch registry at dispatched
  cases slot : p.published with
  | none =>
      rw [slot] at dispatched
      cases dispatched
      exact .inl ⟨⟨_, rfl⟩, rfl⟩
  | some r =>
      rw [slot] at dispatched
      unfold Client.venueId at dispatched
      cases parsed : NexumRuntime.parse venue with
      | none =>
          rw [parsed] at dispatched
          cases dispatched
          exact .inl ⟨⟨_, rfl⟩, rfl⟩
      | some id =>
          rw [parsed] at dispatched
          cases dispatched
          have spelled : id = ⟨venue⟩ := by
            rw [← NexumRuntime.parse_asStr parsed]
          subst spelled
          have stepped : (venueRegistry (P r)).step (p.registries r) (.spawn (call ⟨venue⟩)) =
              some { p.registries r with
                calls := (p.registries r).calls ++ [call ⟨venue⟩]
                threads := Function.update (p.registries r).threads (p.registries r).calls.length
                  (some (Call.code (P r) (call ⟨venue⟩))) } := rfl
          obtain ⟨sound', grows⟩ := step_registry sound stepped
          refine .inr ⟨_, rfl, sound', grows, rfl, rfl, ?_, ?_⟩
          · rw [spawn, move_self, List.getElem?_concat_length]
          · rw [spawn, move_self]
            exact Function.update_self ..

end Steps

end Process

/-! ## The calls an importer has made -/

/-- What was made so far are calls on the published registry, each later than the one
before. -/
structure Tracked {α : Type*} (P : Nat → Policy) (flight : α → Flight) (call : α → Call)
    (p : Process) (made : List α) : Prop where
  sound : p.Sound P
  called : ∀ o ∈ made, p.published = some (flight o).registry ∧
    (p.registries (flight o).registry).calls[(flight o).id]? = some (call o)
  increasing : made.Pairwise fun a b => (flight a).id < (flight b).id

namespace Tracked

variable {α : Type*} {P : Nat → Policy} {flight : α → Flight} {call : α → Call} {p q : Process}
  {made : List α}

theorem grow (tracked : Tracked P flight call p made) (sound : q.Sound P) (grows : p.Grows q) :
    Tracked P flight call q made := by
  constructor
  · exact sound
  · intro o member
    obtain ⟨published, called⟩ := tracked.called o member
    exact ⟨grows.published _ published, grows.called _ _ called⟩
  · exact tracked.increasing

/-- A call is made on the published registry and gets an id no earlier one has. -/
theorem send (tracked : Tracked P flight call p made) {o : α} (sound : q.Sound P)
    (grows : p.Grows q) (published : p.published = some (flight o).registry)
    (fresh : (flight o).id = (p.registries (flight o).registry).calls.length)
    (called : (q.registries (flight o).registry).calls[(flight o).id]? = some (call o)) :
    Tracked P flight call q (made ++ [o]) := by
  constructor
  · exact sound
  · intro o' member
    rcases List.mem_append.mp member with old | new
    · exact (tracked.grow sound grows).called o' old
    · rw [List.mem_singleton.mp new]
      exact ⟨grows.published _ published, called⟩
  · rw [List.pairwise_append]
    refine ⟨tracked.increasing, List.pairwise_singleton _ _, ?_⟩
    intro a old b new
    rw [List.mem_singleton.mp new, fresh]
    obtain ⟨where_, made⟩ := tracked.called a old
    have same : (flight a).registry = (flight o).registry :=
      Option.some.inj (where_.symm.trans published)
    rw [same] at made
    exact (List.getElem?_eq_some_iff.mp made).choose

end Tracked

/-! ## A small process -/

namespace PlainIds

scoped instance : NexumRuntime where
  parse id := if id.toList.all Char.isAlphanum && id != "" then some ⟨id⟩ else none
  parse_asStr := by
    intro id venue parsed
    split at parsed
    next =>
      cases parsed
      rfl
    next => cases parsed

end PlainIds

/-- Registries as built, none of them published. -/
def stubProcess : Process :=
  ⟨fun _ => System.empty (Registry.new 0), none⟩

end Videre.Client
