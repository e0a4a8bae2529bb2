import Mathlib.Data.List.AList
import Mathlib.Data.Finset.Basic
import Videre.Host.Policy
import Videre.Wire.StatusBody

/-! # The venue registry

The state behind the shared handle and the critical sections over it. Each
function reads the clock where the source does; a section that reads it twice
takes the time that passes in between.
-/

namespace Videre.Host

structure VenueId where
  asStr : String
  deriving DecidableEq, Repr

/-- One adapter behind its serialising mutex, by allocation. -/
abbrev Slot := Nat

/-- One shared liveness flag, by allocation. -/
abbrev Liveness := Nat

structure GuardContext where
  caller : String
  venue : VenueId
  header : IntentHeader
  deriving DecidableEq, Repr

inductive GuardVerdict
  | allow
  | deny (reason : String)
  deriving DecidableEq, Repr

/-- One installed venue. A dead entry stays installed. -/
structure InstalledVenue where
  slot : Slot
  liveness : Liveness
  bodyVersions : Finset UInt32
  deriving DecidableEq

structure WatchedIntent where
  venue : VenueId
  receipt : Bytes
  last : Option IntentStatus
  expiresAt : Option Nat
  deriving DecidableEq, Repr

def WatchedIntent.watches (venue : VenueId) (receipt : Bytes) (w : WatchedIntent) : Bool :=
  w.venue = venue && w.receipt = receipt

def WatchedIntent.unexpired (now : Nat) (w : WatchedIntent) : Bool :=
  match w.expiresAt with
  | none => true
  | some deadline => now < deadline

def isTerminal : IntentStatus → Bool
  | .fulfilled | .cancelled | .expired => true
  | .pending | .open => false

def lifecycle : IntentStatus → Wire.IntentStatus
  | .pending => .pending
  | .open => .open
  | .fulfilled => .fulfilled
  | .cancelled => .cancelled
  | .expired => .expired

def statusBody (status : IntentStatus) : Wire.StatusBody :=
  ⟨lifecycle status, none, none⟩

/-- Shared registry state, with the flags and the mutexes its entries point to. -/
structure Registry where
  now : Nat
  flags : Liveness → Flag
  adapters : AList fun _ : VenueId => InstalledVenue
  slots : Nat
  holder : Slot → Option Nat
  perCaller : String → List Nat
  watched : List WatchedIntent

/-- Two installed adapters claimed the same venue id. -/
structure DuplicateVenue where
  venue : VenueId
  deriving DecidableEq, Repr

/-- Drop charge timestamps that have aged out of the window. -/
def prune (now : Nat) (window : Duration) (history : List Nat) : List Nat :=
  history.dropWhile fun front => window.nanos < now - front

def pruneExpired (now : Nat) (watched : List WatchedIntent) : List WatchedIntent :=
  watched.filter (WatchedIntent.unexpired now)

namespace Registry

def new (now : Nat) : Registry where
  now := now
  flags := fun _ => none
  adapters := ∅
  slots := 0
  holder := fun _ => none
  perCaller := fun _ => []
  watched := []

def elapse (r : Registry) (nanos : Nat) : Registry :=
  { r with now := r.now + nanos }

/-- Rejects a duplicate id while the incumbent is alive; replaces a dead one. -/
def register (r : Registry) (venue : VenueId) (liveness : Liveness)
    (bodyVersions : Finset UInt32) : Except DuplicateVenue Registry :=
  if (r.adapters.lookup venue).any fun v => (r.flags v.liveness).isAlive then
    .error ⟨venue⟩
  else
    .ok { r with
      adapters := r.adapters.insert venue ⟨r.slots, liveness, bodyVersions⟩
      slots := r.slots + 1 }

/-- Uninstalled is `unknown-venue`, installed but dead is `unavailable`. -/
def resolve (r : Registry) (venue : VenueId) : Except VenueError Slot :=
  match r.adapters.lookup venue with
  | none => .error .unknownVenue
  | some installed =>
      if (r.flags installed.liveness).isAlive then .ok installed.slot
      else .error (.unavailable ("venue " ++ venue.asStr ++ " is dead pending restart"))

def markDead (r : Registry) (liveness : Liveness) : Registry :=
  { r with flags := Function.update r.flags liveness ((r.flags liveness).markDead r.now) }

def markAlive (r : Registry) (liveness : Liveness) : Registry :=
  { r with flags := Function.update r.flags liveness (r.flags liveness).markAlive }

variable (P : Policy)

/-- Whether `caller` has budget left in the window. Prunes but records nothing. -/
def quotaAdmits (r : Registry) (caller : String) : Bool × Registry :=
  let history := prune r.now P.quota.window (r.perCaller caller)
  (UInt32.ofNat history.length < P.quota.maxCharges,
    { r with perCaller := Function.update r.perCaller caller history })

/-- Record one charge against `caller`'s budget, `elapsed` after the prune. -/
def charge (r : Registry) (caller : String) (elapsed : Nat) : Registry :=
  let history := prune r.now P.quota.window (r.perCaller caller)
  let r := r.elapse elapsed
  { r with perCaller := Function.update r.perCaller caller (history ++ [r.now]) }

/-- Put a pair under watch, reporting whether admitted. Expired entries evict
first; at the cap the new watch is refused. -/
def watch (r : Registry) (venue : VenueId) (receipt : Bytes) (elapsed : Nat) : Bool × Registry :=
  let watched := pruneExpired r.now r.watched
  let r := r.elapse elapsed
  if watched.any (WatchedIntent.watches venue receipt) then (true, { r with watched })
  else if watched.length < P.watchLimit.maxEntries then
    let entry : WatchedIntent :=
      ⟨venue, receipt, none, Instant.checkedAdd P.horizon r.now P.watchLimit.grace⟩
    (true, { r with watched := watched ++ [entry] })
  else (false, { r with watched })

/-- The pairs one poll visits, after pruning. -/
def snapshot (r : Registry) : List (VenueId × Bytes) × Registry :=
  let watched := pruneExpired r.now r.watched
  (watched.map fun w => (w.venue, w.receipt), { r with watched })

/-- Fold one polled status into the watch entry, if it is still there. -/
def recordPolledStatus (r : Registry) (venue : VenueId) (receipt : Bytes)
    (status : IntentStatus) : Option Wire.IntentStatusUpdate × Registry :=
  match r.watched.findIdx? (WatchedIntent.watches venue receipt) with
  | none => (none, r)
  | some pos =>
      let expiresAt := Instant.checkedAdd P.horizon r.now P.watchLimit.grace
      let refreshed := r.watched.modify pos fun w => { w with expiresAt }
      if (r.watched[pos]?.bind (·.last)) = some status then
        (none, { r with watched := refreshed })
      else
        match (statusBody status).encode with
        | .ok body =>
            let watched :=
              if isTerminal status then r.watched.eraseIdx pos
              else r.watched.modify pos fun w => { w with last := some status, expiresAt }
            (some ⟨venue.asStr, receipt, body⟩, { r with watched })
        | .error _ => (none, { r with watched := refreshed })

end Registry

end Videre.Host
