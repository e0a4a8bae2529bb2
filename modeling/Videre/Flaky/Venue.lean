import Mathlib.Data.List.Infix
import Videre.Wit.Types

/-! # The flaky venue

An adapter that fails by design. On a poisoned chain head a submit marks the venue dead
and refuses; the handle's sweep marks it alive again once the head is healthy. Reading
the head and marking the flag are two steps, of a submit as of a sweep.
-/

namespace Videre.Flaky

/-- The chain-head response that detonates `submit`. -/
def poisonHead : String := "0xdead"

def healthyHead : String := "0x1"

def settlementChain : UInt64 := 1

/-- Whether a head reads the sentinel, anywhere in the response. -/
def isPoisoned (head : String) : Bool :=
  poisonHead.toList <:+: head.toList

def zeroNative : AssetAmount :=
  ⟨.native, []⟩

def deriveHeader (_ : Bytes) : Except VenueError IntentHeader :=
  .ok
    { gives := zeroNative
      wants := zeroNative
      settlement := ⟨settlementChain⟩
      authorisation := .eip1271 }

def quote (_ : Bytes) : Except VenueError Quotation :=
  .ok
    { gives := zeroNative
      wants := zeroNative
      fee := zeroNative
      validUntilMs := UInt64.ofNat (UInt64.size - 1) }

/-- What `submit_now` returns on a head it read; before a refusal it has marked the venue
dead. -/
def submitNow (poisoned : Bool) (body : Bytes) : Except VenueError SubmitOutcome :=
  if poisoned then .error (.unavailable "flaky-venue poison head") else .ok (.accepted body)

def status (_ : Bytes) : Except VenueError IntentStatus :=
  .ok .open

def cancel (_ : Bytes) : Except VenueError Unit :=
  .ok ()

end Videre.Flaky
