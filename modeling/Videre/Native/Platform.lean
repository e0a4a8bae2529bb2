import Videre.Client.Refusals
import Videre.Echo.Venue
import Videre.Flaky.Venue

/-! # Native venues

A registry with adapters of this repository behind some of its slots. What such an
adapter answers is what its code computes, and its flag is marked by its own code and
handle alone; other adapters, the callers and the guard stay with the environment. A
flaky submit reads its head, then marks its flag on a poisoned one, then answers, and
anything may happen in between.
-/

namespace Videre.Native

open Interaction Host

/-- One mock chain head, by allocation. -/
abbrev ChainHead := Nat

inductive Adapter
  | echo
  | flaky (head : ChainHead)
  deriving DecidableEq, Repr

/-- The body versions an adapter registers with; the flaky venue opts out of the handshake. -/
def Adapter.bodyVersions : Adapter → Finset UInt32
  | .echo => Echo.bodyVersions.toFinset
  | .flaky _ => ∅

structure Installed where
  slot : Slot
  liveness : Liveness
  venue : VenueId
  adapter : Adapter
  deriving DecidableEq, Repr

/-- How far a flaky submit has come. -/
inductive Stage
  | read (poisoned : Bool)
  | marked
  deriving DecidableEq

inductive Happening
  | logged (entry : Entry Event)
  | installed (i : Installed)
  | set (head : ChainHead) (response : String)
  /-- A submit reads the head of its adapter. -/
  | read (id : Nat) (slot : Slot) (poisoned : Bool)
  /-- A sweep reads the head. -/
  | swept (liveness : Liveness) (healthy : Bool)
  deriving DecidableEq

def Happening.entry? : Happening → Option (Entry Event)
  | .logged entry => some entry
  | _ => none

structure Platform where
  pool : RegistryPool
  /-- Liveness flags allocated so far. -/
  flags : Nat
  heads : ChainHead → String
  installed : List Installed
  /-- The flaky submits under way. -/
  submits : Nat → Option Stage
  /-- The sweeps that read a healthy head and are about to mark their flag alive. -/
  sweeps : List Liveness
  log : List Happening

inductive PlatformLabel
  | registry (label : Label Input HostEvent Call)
  | newLiveness
  | set (head : ChainHead) (response : String)
  | register (venue : VenueId) (adapter : Adapter)
  | read (id : Nat)
  | mark (id : Nat)
  | answer (id : Nat)
  | sweep (liveness : Liveness)
  | revive (liveness : Liveness)

namespace Platform

def idle (start : Nat) (heads : ChainHead → String) : Platform :=
  ⟨System.empty (Registry.new start), 0, heads, [], fun _ => none, [], []⟩

def native? (w : Platform) (slot : Slot) : Option Installed :=
  w.installed.find? fun i => i.slot == slot

def awaiting (w : Platform) (id : Nat) : Option (Installed × Invocation) :=
  match w.pool.standing id with
  | some (.answer slot inv) => (w.native? slot).map fun i => (i, inv)
  | _ => none

def reply (stage : Option Stage) : Adapter → Invocation → Option Reply
  | .echo, .deriveHeader body =>
      (Echo.Slice.of? body).map fun body => .header (Echo.deriveHeader body)
  | .echo, .quote body => (Echo.Slice.of? body).map fun body => .quotation (Echo.quote body)
  | .echo, .submit body => some (.outcome (Echo.submit body))
  | .echo, .status receipt => some (.status (Echo.status receipt))
  | .echo, .cancel receipt => some (.cancelled (Echo.cancel receipt))
  | .flaky _, .deriveHeader body => some (.header (Flaky.deriveHeader body))
  | .flaky _, .quote body => some (.quotation (Flaky.quote body))
  | .flaky _, .submit body =>
      match stage with
      | some (.read false) => some (.outcome (Flaky.submitNow false body))
      | some .marked => some (.outcome (Flaky.submitNow true body))
      | _ => none
  | .flaky _, .status receipt => some (.status (Flaky.status receipt))
  | .flaky _, .cancel receipt => some (.cancelled (Flaky.cancel receipt))

/-- What happens beside the native adapters: nobody answers in their place or holds their
flags, and a submit that read its head comes to its answer. -/
def beside (w : Platform) : Label Input HostEvent Call → Bool
  | .advance id (.reply _) => (w.awaiting id).isNone
  | .drop id => (w.submits id).isNone
  | .host (.register _ liveness _) | .host (.markDead liveness) | .host (.markAlive liveness) =>
      liveness < w.flags && w.installed.all fun i => i.liveness != liveness
  | _ => true

def grow (w : Platform) (pool : RegistryPool) : Platform :=
  { w with
    pool := pool
    log := w.log ++ (pool.log.drop w.pool.log.length).map .logged }

def see (w : Platform) (happening : Happening) : Platform :=
  { w with log := w.log ++ [happening] }

variable (P : Policy)

def turn (w : Platform) (label : Label Input HostEvent Call) : Option Platform :=
  ((venueRegistry P).step w.pool label).map w.grow

/-- `register` of either crate: a fresh flag, and a handle unless the id is taken. -/
def register (w : Platform) (venue : VenueId) (adapter : Adapter) : Option Platform :=
  let i : Installed := ⟨w.pool.shared.slots, w.flags, venue, adapter⟩
  (w.turn P (.host (.register venue w.flags adapter.bodyVersions))).map fun w' =>
    match w.pool.shared.register venue w.flags adapter.bodyVersions with
    | .ok _ =>
        { w' with flags := w.flags + 1, installed := w.installed ++ [i] }.see (.installed i)
    | .error _ => { w' with flags := w.flags + 1 }

def step (w : Platform) : PlatformLabel → Option Platform
  | .registry label =>
      if w.beside label then w.turn P label else none
  | .newLiveness => some { w with flags := w.flags + 1 }
  | .set head response =>
      some ({ w with heads := Function.update w.heads head response }.see (.set head response))
  | .register venue adapter => w.register P venue adapter
  | .read id =>
      match w.awaiting id, w.submits id with
      | some (⟨slot, _, _, .flaky head⟩, .submit _), none =>
          let poisoned := Flaky.isPoisoned (w.heads head)
          some ({ w with
            submits := Function.update w.submits id (some (.read poisoned)) }.see
              (.read id slot poisoned))
      | _, _ => none
  | .mark id =>
      match w.awaiting id, w.submits id with
      | some (i, _), some (.read true) =>
          (w.turn P (.host (.markDead i.liveness))).map fun w' =>
            { w' with submits := Function.update w.submits id (some .marked) }
      | _, _ => none
  | .answer id =>
      (w.awaiting id).bind fun (i, inv) =>
        (reply (w.submits id) i.adapter inv).bind fun reply =>
          (w.turn P (.advance id (.reply reply))).map fun w' =>
            { w' with submits := Function.update w.submits id none }
  | .sweep liveness =>
      match w.installed.find? fun i => i.liveness == liveness with
      | some ⟨_, _, _, .flaky head⟩ =>
          let healthy := !Flaky.isPoisoned (w.heads head)
          some ({ w with
            sweeps := if healthy then liveness :: w.sweeps else w.sweeps }.see
              (.swept liveness healthy))
      | _ => none
  | .revive liveness =>
      if liveness ∈ w.sweeps then
        (w.turn P (.host (.markAlive liveness))).map fun w' =>
          { w' with sweeps := w.sweeps.erase liveness }
      else none

inductive Reach (heads : ChainHead → String) : Platform → Prop
  | start (start : Nat) : Reach heads (idle start heads)
  | step {w w' : Platform} {label : PlatformLabel} (before : Reach heads w)
      (moves : w.step P label = some w') : Reach heads w'

def run : List PlatformLabel → Platform → Option Platform
  | [], w => some w
  | label :: labels, w => (w.step P label).bind (run labels)

variable {P} in
theorem Reach.of_run {heads : ChainHead → String} {labels : List PlatformLabel} {w w' : Platform}
    (before : Reach P heads w) (ran : run P labels w = some w') : Reach P heads w' := by
  induction labels generalizing w with
  | nil =>
      cases ran
      exact before
  | cons label labels ih =>
      obtain ⟨u, moves, later⟩ := Option.bind_eq_some_iff.mp ran
      exact ih (before.step moves) later

end Platform

end Videre.Native
