import Mathlib.Algebra.Group.Nat.Defs
import Mathlib.Data.List.Basic

/-! # The wire vocabulary

The `videre:value-flow` and `videre:types` packages both faces speak. Strings in
failures are opaque details; receipts, bodies and amounts are byte lists.
-/

namespace Videre

abbrev Bytes := List UInt8

inductive Asset
  | native
  | erc20 (token : Bytes)
  deriving DecidableEq, Repr

structure AssetAmount where
  asset : Asset
  amount : Bytes
  deriving DecidableEq, Repr

inductive AuthScheme
  | eip1271
  | eip712
  deriving DecidableEq, Repr

structure Settlement where
  chain : UInt64
  deriving DecidableEq, Repr

/-- Adapter-derived description of an intent body: what the guard runs on. -/
structure IntentHeader where
  gives : AssetAmount
  wants : AssetAmount
  settlement : Settlement
  authorisation : AuthScheme
  deriving DecidableEq, Repr

structure UnsignedTx where
  chain : UInt64
  «to» : Bytes
  value : Bytes
  data : Bytes
  deriving DecidableEq, Repr

/-- What a successful submit produced. -/
inductive SubmitOutcome
  | accepted (receipt : Bytes)
  | requiresSigning (tx : UnsignedTx)
  deriving DecidableEq, Repr

inductive IntentStatus
  | pending
  | open
  | fulfilled
  | cancelled
  | expired
  deriving DecidableEq, Repr

structure Quotation where
  gives : AssetAmount
  wants : AssetAmount
  fee : AssetAmount
  validUntilMs : UInt64
  deriving DecidableEq, Repr

structure RateLimit where
  retryAfterMs : Option UInt64
  deriving DecidableEq, Repr

inductive VenueError
  | unknownVenue
  | invalidBody (detail : String)
  | unsupported
  | denied (detail : String)
  | rateLimited (limit : RateLimit)
  | unavailable (detail : String)
  | timeout
  | invalidReceipt
  | receiptMismatch
  deriving DecidableEq, Repr

end Videre
