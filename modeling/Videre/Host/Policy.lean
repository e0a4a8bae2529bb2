import Videre.Wit.Types

/-! # Venue-routing policy types

Quota, watch bounds and the liveness flag. A clock reading and a duration are
counts of nanoseconds; the last reading a clock can name is the platform's.
-/

namespace Videre.Host

/-- `u64` seconds and less than a second of nanoseconds. -/
structure Duration where
  nanos : Nat
  bound : nanos < 2 ^ 64 * 10 ^ 9
  deriving DecidableEq, Repr

namespace Duration

def fromSecs (secs : UInt64) : Duration :=
  ⟨secs.toNat * 10 ^ 9, Nat.mul_lt_mul_of_pos_right secs.toNat_lt (by decide)⟩

def asSecs (d : Duration) : UInt64 :=
  UInt64.ofNat (d.nanos / 10 ^ 9)

def asMillis (d : Duration) : Nat :=
  d.nanos / 10 ^ 6

end Duration

def saturatingMul (a b : UInt64) : UInt64 :=
  UInt64.ofNat (min (a.toNat * b.toNat) (2 ^ 64 - 1))

/-- `none` past `horizon`, the last instant the clock can name. -/
def Instant.checkedAdd (horizon t : Nat) (d : Duration) : Option Nat :=
  if t + d.nanos ≤ horizon then some (t + d.nanos) else none

def windowMs (window : Duration) : UInt64 :=
  if window.asMillis < 2 ^ 64 then UInt64.ofNat window.asMillis else UInt64.ofNat (2 ^ 64 - 1)

def defaultQuotaMaxCharges : UInt32 := 256
def defaultQuotaWindow : Duration := .fromSecs 60
def defaultWatchMaxEntries : Nat := 1024
def defaultWatchExpiry : Duration := .fromSecs 86400
def watchGraceMultiplier : UInt64 := 2
def watchGraceMax : Duration := .fromSecs 86400

def deriveGrace (expiry : Duration) : Duration :=
  let scaled := saturatingMul expiry.asSecs watchGraceMultiplier
  let capped := if scaled < watchGraceMax.asSecs then scaled else watchGraceMax.asSecs
  .fromSecs capped

structure SubmitQuota where
  maxCharges : UInt32
  window : Duration
  deriving DecidableEq, Repr

def SubmitQuota.default : SubmitQuota :=
  ⟨defaultQuotaMaxCharges, defaultQuotaWindow⟩

structure WatchLimit where
  maxEntries : Nat
  expiry : Duration
  grace : Duration
  deriving DecidableEq, Repr

namespace WatchLimit

def withGrace (maxEntries : Nat) (expiry grace : Duration) : WatchLimit :=
  ⟨maxEntries, expiry, grace⟩

def new (maxEntries : Nat) (expiry : Duration) : WatchLimit :=
  withGrace maxEntries expiry (deriveGrace expiry)

def default : WatchLimit :=
  new defaultWatchMaxEntries defaultWatchExpiry

end WatchLimit

/-- The flag behind a liveness handle: when the venue died, while it is dead. -/
abbrev Flag := Option Nat

namespace Flag

def isAlive (flag : Flag) : Bool :=
  flag.isNone

/-- The first death instant stays. -/
def markDead (now : Nat) : Flag → Flag
  | none => some now
  | some diedAt => some diedAt

def markAlive (_ : Flag) : Flag :=
  none

@[simp] theorem isAlive_markDead (now : Nat) (flag : Flag) :
    (flag.markDead now).isAlive = false := by
  cases flag <;> rfl

@[simp] theorem isAlive_markAlive (flag : Flag) : flag.markAlive.isAlive = true := rfl

end Flag

/-- A quota that admits at least one submission and a watch set that holds at least one
receipt. -/
structure Policy where
  quota : SubmitQuota
  watchLimit : WatchLimit
  horizon : Nat
  admits : 1 ≤ quota.maxCharges.toNat
  holds : 1 ≤ watchLimit.maxEntries

structure VenueRegistryBuilder where
  quota : SubmitQuota
  watchLimit : WatchLimit

namespace VenueRegistryBuilder

def new (quota : SubmitQuota) : VenueRegistryBuilder :=
  ⟨quota, .default⟩

def withWatchLimit (builder : VenueRegistryBuilder) (watchLimit : WatchLimit) :
    VenueRegistryBuilder :=
  { builder with watchLimit }

theorem clamped_pos (n : UInt32) : 1 ≤ (max n 1).toNat := by
  show 1 ≤ (if n ≤ 1 then 1 else n).toNat
  by_cases small : n ≤ 1
  · rw [if_pos small]
    decide
  · rw [if_neg small]
    rw [UInt32.le_iff_toNat_le] at small
    have one : (1 : UInt32).toNat = 1 := rfl
    omega

/-- Zero bounds clamp to one; an explicit grace stays. -/
def build (builder : VenueRegistryBuilder) (horizon : Nat) : Policy where
  quota := ⟨max builder.quota.maxCharges 1, builder.quota.window⟩
  watchLimit :=
    .withGrace (max builder.watchLimit.maxEntries 1) builder.watchLimit.expiry
      builder.watchLimit.grace
  horizon := horizon
  admits := clamped_pos builder.quota.maxCharges
  holds := Nat.le_max_right _ _

end VenueRegistryBuilder

end Videre.Host
