import Videre.Client.Import
import Videre.Sdk.Journal
import Videre.Sdk.MemStore

/-! # A keeper over the registries

A keeper module's host beside the registries of its process. A POST of the keeper is a
submit through the import, and its reply is what that registry call returned; every
other operation is the keeper's own. Other modules, the status poll, the adapters and
the composition root act on the registries in between, and the keeper's call may be
torn at any operation, which leaves the registry call it made to itself.
-/

namespace Videre.Client

open Interaction Sdk

/-- A submit the keeper made on a registry, with the order it was made for. -/
structure Sent where
  flight : Flight
  venue : Sdk.VenueId
  key : String
  body : Bytes
  deriving DecidableEq, Repr

structure Session (S : Type) where
  process : Process
  host : Host S
  /-- What became of the last request of the call in progress. -/
  asked : Option (Except VenueError Flight)
  /-- The submits made so far. Recorded only. -/
  sent : List Sent

/-- One move of the keeper's host or of its process. -/
inductive SessionLabel (Edit : Type)
  | turn (t : Process.Turn)
  | start (call : Sdk.Call)
  | operate (input : Sdk.Input Edit)
  | stop
  | edit (edits : List Edit)

namespace Session

variable {S : Type}

def idle (process : Process) (s : S) : Session S :=
  ⟨process, Host.idle ⟨s, []⟩, none, []⟩

/-- The answer to the last request, in the keeper's words. -/
def replied (s : Session S) : Option SubmitResult :=
  match s.asked with
  | none => none
  | some (.error e) => some (.error (.ofVenueError e))
  | some (.ok flight) =>
      match s.process.landed flight with
      | some (.submitted result) => some (result.mapError VenueFault.ofVenueError)
      | _ => none

def admits {Edit : Type} (s : Session S) : Sdk.Op → Sdk.Input Edit → Bool
  | .reply _ _ _ _, .answered result => s.replied == some result
  | _, _ => true

variable (P : Nat → Host.Policy) (module : String) [NexumRuntime]

def request (s : Session S) : Sdk.Op → Session S
  | .post _ venue key body =>
      match s.process.submit P module venue.id body with
      | (.ok flight, process) =>
          { s with
            process := process
            asked := some (.ok flight)
            sent := s.sent ++ [⟨flight, venue, key, body⟩] }
      | (.error e, process) => { s with process := process, asked := some (.error e) }
  | _ => s

variable [KeeperStores S] [NexumSdk]

def step (s : Session S) : SessionLabel (KeeperStores.Edit S) → Option (Session S)
  | .turn t => (s.process.turn P t).map fun process => { s with process := process }
  | .start call =>
      match s.host.active with
      | none => some { s with host := ⟨s.host.world, some ⟨call, call.program.run⟩⟩, asked := none }
      | some _ => none
  | .operate input =>
      match s.host.active with
      | some ⟨call, .call o rest⟩ =>
          if s.admits o input then
            match (machine S).step o input s.host.world with
            | some (a, w) => some { s.request P module o with host := ⟨w, some ⟨call, rest a⟩⟩ }
            | none => none
          else none
      | _ => none
  | .stop => some { s with host := Host.idle s.host.world, asked := none }
  | .edit edits =>
      match s.host.active with
      | none => some { s with host := Host.idle (s.host.world.edited edits) }
      | some _ => none

/-- The sessions reached from a process whose registries are sound and a store with nothing
logged. -/
inductive Reach (s : S) : Session S → Prop
  | start {process : Process} (sound : process.Sound P) : Reach s (idle process s)
  | step {t u : Session S} {label : SessionLabel (KeeperStores.Edit S)} (before : Reach s t)
      (moves : t.step P module label = some u) : Reach s u

def run : List (SessionLabel (KeeperStores.Edit S)) → Session S → Option (Session S)
  | [], s => some s
  | label :: labels, s => (s.step P module label).bind (run labels)

variable {P module}

theorem Reach.of_run {s : S} {labels : List (SessionLabel (KeeperStores.Edit S))}
    {t u : Session S} (before : Reach P module s t) (ran : run P module labels t = some u) :
    Reach P module s u := by
  induction labels generalizing t with
  | nil =>
      cases ran
      exact before
  | cons label labels ih =>
      obtain ⟨v, moves, later⟩ := Option.bind_eq_some_iff.mp ran
      exact ih (before.step moves) later

end Session

end Videre.Client
