import Videre.Wit.Types

/-! # The keeper's vocabulary

The faults and ticks a run works with, the retry vocabulary of the keeper
stores, and the policy that folds a venue's fault into a retry action. Epochs,
blocks and millisecond hints are `u64`, so the waiting-time arithmetic is the
machine's.
-/

namespace Videre.Sdk

/-- Venue identifier: opaque beyond equality. -/
structure VenueId where
  id : String
  deriving DecidableEq, Repr

/-- Owned mirror of the wire `venue-error`. -/
inductive VenueFault
  | unknownVenue
  | invalidBody (detail : String)
  | unsupported
  | denied (detail : String)
  | rateLimited (retryAfterMs : Option UInt64)
  | unavailable (detail : String)
  | timeout
  | invalidReceipt
  | receiptMismatch
  deriving DecidableEq, Repr

abbrev SubmitResult := Except VenueFault SubmitOutcome

/-- The SDK-neutral fault a store call returns. -/
inductive Fault
  | unsupported (detail : String)
  | unavailable (detail : String)
  | denied (detail : String)
  | rateLimited
  | timeout
  | invalidInput (detail : String)
  | internal (detail : String)
  deriving DecidableEq, Repr

/-- The clock reading one run works at. -/
structure Tick where
  chainId : UInt64
  block : UInt64
  epochS : UInt64
  deriving DecidableEq, Repr

inductive RetryAction
  | tryNextBlock
  | backoff (seconds : UInt64)
  | drop
  deriving DecidableEq, Repr

/-- What one poll asks the run to do with its commitment. -/
inductive Outcome
  | submit (body : Bytes)
  | waitBlock
  | backoff (seconds : UInt64)
  | drop
  deriving DecidableEq, Repr

def divCeil (a b : UInt64) : UInt64 :=
  if a % b = 0 then a / b else a / b + 1

def saturatingAdd (a b : UInt64) : UInt64 :=
  if a.toNat + b.toNat < UInt64.size then a + b else UInt64.ofNat (UInt64.size - 1)

theorem toNat_divCeil_seconds (ms : UInt64) :
    (divCeil ms 1000).toNat = (ms.toNat + 999) / 1000 := by
  have small := ms.toNat_lt
  have thousand : (1000 : UInt64).toNat = 1000 := rfl
  have rem : (ms % 1000).toNat = ms.toNat % 1000 := UInt64.toNat_mod ms 1000
  have quot : (ms / 1000).toNat = ms.toNat / 1000 := UInt64.toNat_div ms 1000
  unfold divCeil
  by_cases whole : ms % 1000 = 0
  · rw [whole] at rem
    have none_left : ms.toNat % 1000 = 0 := rem.symm
    rw [if_pos whole, quot]
    omega
  · have some_left : ms.toNat % 1000 ≠ 0 := by
      intro zero
      exact whole (UInt64.toNat_inj.mp (rem.trans zero))
    rw [if_neg whole, UInt64.toNat_add, quot]
    show (ms.toNat / 1000 + 1) % 2 ^ 64 = (ms.toNat + 999) / 1000
    omega

theorem toNat_saturatingAdd (a b : UInt64) :
    (saturatingAdd a b).toNat = min (a.toNat + b.toNat) (UInt64.size - 1) := by
  unfold saturatingAdd
  by_cases fits : a.toNat + b.toNat < UInt64.size
  · rw [if_pos fits, UInt64.toNat_add, Nat.mod_eq_of_lt fits]
    omega
  · have last : (UInt64.ofNat (UInt64.size - 1)).toNat = UInt64.size - 1 := by decide
    rw [if_neg fits, last]
    omega

theorem le_saturatingAdd (a b : UInt64) : a ≤ saturatingAdd a b := by
  have small := a.toNat_lt
  have size : UInt64.size = 2 ^ 64 := rfl
  rw [UInt64.le_iff_toNat_le, toNat_saturatingAdd]
  omega

/-- Fold a venue refusal into a retry action, conservatively: transient faults retry and
everything else removes the commitment. -/
def retryAction : VenueFault → RetryAction
  | .rateLimited (some ms) => .backoff (divCeil ms 1000)
  | .rateLimited none | .timeout | .unavailable _ => .tryNextBlock
  | .unknownVenue | .invalidBody _ | .unsupported | .denied _ | .invalidReceipt
  | .receiptMismatch => .drop

/-- How a venue's faults map to retry actions. `isTerminal` derives from `action` unless a
keeper overrides it. -/
structure FaultPolicy where
  action : VenueFault → RetryAction
  isTerminal : VenueFault → Bool := fun fault => action fault == .drop

def defaultFaultPolicy : FaultPolicy where
  action := retryAction

/-- Default reconcile budget: reservations one reconcile pass resolves. -/
def defaultReconcileBudget : Nat := 16

/-- A keeper without its source and its transport: what these answer is the
environment's part of a run. -/
structure Keeper where
  venue : VenueId
  maxPerTick : Nat := defaultReconcileBudget
  faultPolicy : FaultPolicy := defaultFaultPolicy

structure RunReport where
  polled : Nat := 0
  gated : Nat := 0
  skipped : Nat := 0
  submitted : Nat := 0
  duplicates : Nat := 0
  retried : Nat := 0
  dropped : Nat := 0
  reconciledCommitted : Nat := 0
  reconciledReleased : Nat := 0
  reconciledPending : Nat := 0
  reconciledGated : Nat := 0
  reconciledUnsigned : Nat := 0
  unsigned : List UnsignedTx := []
  deriving DecidableEq, Repr

structure ReconcileReport where
  committed : Nat := 0
  released : Nat := 0
  pending : Nat := 0
  gated : Nat := 0
  unsigned : List UnsignedTx := []
  deriving DecidableEq, Repr

end Videre.Sdk
