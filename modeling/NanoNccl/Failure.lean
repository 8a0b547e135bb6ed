import Mathlib.Data.String.Basic
import Mathlib.Logic.Function.Basic

/-!
# Failures the transport proxies report

Both transports describe an asynchronous failure by the proxy that met it, the step it was working
on and a reason, and format the three into one line of text. The error objects of the two
transports publish that text to any thread that asks.
-/

namespace NanoNccl

/-- Which proxy of a communicator a failure belongs to. -/
structure ProxyIdentity where
  /-- The rank whose slices the proxy carries. -/
  sourceRank : ℤ
  /-- The rank the slices go to. -/
  destinationRank : ℤ
  /-- The channel of the edge. -/
  channel : ℤ
  deriving DecidableEq, Repr

/-- The arguments of one `record_failure` call. -/
structure Failure where
  /-- The reporting proxy. -/
  identity : ProxyIdentity
  /-- The step the proxy was working on. -/
  step : ℕ
  /-- What went wrong. -/
  reason : String
  deriving DecidableEq, Repr

/-- The line `format_failure` streams together, for the transport named first. -/
def formatFailure (transport : String) (failure : Failure) : String :=
  transport ++ " proxy source=" ++ toString failure.identity.sourceRank ++
    " destination=" ++ toString failure.identity.destinationRank ++
    " channel=" ++ toString failure.identity.channel ++
    " step=" ++ toString failure.step ++ ": " ++ failure.reason

/-- Whatever a proxy reports, the formatted line is not empty. -/
theorem formatFailure_ne_empty (transport : String) (failure : Failure) :
    formatFailure transport failure ≠ "" := by
  simp [formatFailure, String.append_eq_empty_iff]

/-- A proxy that lost its connection. -/
def lostConnection : Failure where
  identity := { sourceRank := 0, destinationRank := 1, channel := 2 }
  step := 42
  reason := "connection lost"

/-- What a thread learns from one call of an error object. -/
inductive Observation (ι : Type*) where
  /-- `has_error()` returned this answer to the thread. -/
  | hasError (observer : ι) (answer : Bool)
  /-- `message()` returned this text to the thread. -/
  | message (observer : ι) (text : String)
  deriving DecidableEq, Repr

end NanoNccl
