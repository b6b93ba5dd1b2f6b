/-!
# Failures

Everything that can go wrong in a call, a run or an admission, each cause with the data its
message names, and the wording of the messages (`Failure.message`).

Causes fall into families: transport (`provider`, `http`, `io`), protocol (`illegalTransition`),
admission to a lane or past a breaker (`queueFull` to `probeLimit`), exhaustion (`exhausted`),
the caller's own cancellation, and mistakes in what was handed in.
-/

namespace TurnEngine

/-- Why a failed call is worth another try, on the same model or on another one. -/
inductive Reason where
  | rateLimit
  | serverError
  | timeout
  | modelUnavailable
  | contextOverflow
  | unknown
  deriving DecidableEq, Repr

/-- All reasons. -/
def Reason.all : List Reason :=
  [.rateLimit, .serverError, .timeout, .modelUnavailable, .contextOverflow, .unknown]

/-- The name of a reason in messages and on the wire. -/
def Reason.name : Reason → String
  | .rateLimit => "rate_limit"
  | .serverError => "server_error"
  | .timeout => "timeout"
  | .modelUnavailable => "model_unavailable"
  | .contextOverflow => "context_overflow"
  | .unknown => "unknown"

/-- One call, or one skipped call, of a fallback run. -/
structure Attempt where
  /-- The model the attempt was for. -/
  model : String
  success : Bool
  /-- What went wrong, for attempts that failed or were skipped. -/
  error : Option String
  durationMs : UInt64
  deriving DecidableEq, Repr

namespace Attempt

/-- An attempt that gave a value. -/
def succeeded (model : String) (durationMs : UInt64) : Attempt :=
  ⟨model, true, none, durationMs⟩

/-- An attempt that failed or was skipped. -/
def failed (model error : String) (durationMs : UInt64) : Attempt :=
  ⟨model, false, some error, durationMs⟩

end Attempt

/-- The kind of an input or output failure. -/
inductive IoKind where
  | timedOut
  | wouldBlock
  | connectionReset
  | notFound
  | permissionDenied
  | unexpectedEnd
  | other
  deriving DecidableEq, Repr

/-- What went wrong. -/
inductive Failure where
  /-- A provider refused or failed a request. -/
  | provider (status : Option UInt16) (text : String) (retryAfterMs : Option UInt64)
  /-- The transport failed before a provider answered. -/
  | http (text : String)
  /-- The stream asked for a step that its protocol forbids. -/
  | illegalTransition (source target : String)
  /-- The wait queue of a lane has no place left. -/
  | queueFull (key : String) (capacity : UInt64)
  /-- A wait for a lane took too long. -/
  | laneTimeout (key : String) (waitedMs : Nat)
  /-- The waiters of a lane were sent away. -/
  | laneCleared (key : String)
  /-- The circuit of a target is open and lets nothing through. -/
  | circuitOpen (key : String) (retryInMs : Nat)
  /-- A half-open circuit has all the probes in flight that it allows. -/
  | probeLimit (key : String) (limit : UInt32)
  /-- Every candidate of a fallback run failed or was skipped. -/
  | exhausted (attempts : List Attempt)
  /-- The caller's signal fired. -/
  | cancelled
  | tool (text : String)
  | config (text : String)
  | agent (text : String)
  | json (text : String)
  | io (kind : IoKind) (text : String)
  deriving DecidableEq, Repr

namespace Failure

/-- A provider failure with a status. -/
def ofStatus (status : UInt16) (text : String) : Failure :=
  .provider (some status) text none

/-- Whether this is the caller's own cancellation. -/
def isCancelled : Failure → Bool
  | .cancelled => true
  | _ => false

theorem isCancelled_iff {f : Failure} : f.isCancelled = true ↔ f = .cancelled := by
  cases f <;> simp [isCancelled]

/-- The status of a provider failure. -/
def status? : Failure → Option UInt16
  | .provider status _ _ => status
  | _ => none

/-- The least wait before another try that the provider asked for. -/
def retryAfterMs? : Failure → Option UInt64
  | .provider _ _ wait => wait
  | _ => none

/-- Whether a breaker turned the call away. -/
def isBreakerRejection : Failure → Bool
  | .circuitOpen .. => true
  | .probeLimit .. => true
  | _ => false

/-- The failed attempts of a run, each with its model. -/
def summary (attempts : List Attempt) : String :=
  if attempts.isEmpty then "no candidates"
  else
    let texts := (attempts.filter fun a => !a.success).map fun a =>
      a.model ++ ": " ++ a.error.getD "unknown error"
    "; ".intercalate texts

/-- The message of a failure. -/
def message : Failure → String
  | .provider (some status) text _ => s!"Provider error {status}: {text}"
  | .provider none text _ => s!"Provider error: {text}"
  | .http text => s!"HTTP error: {text}"
  | .illegalTransition source target =>
    s!"Protocol error: illegal transition {source} -> {target}"
  | .queueFull key capacity => s!"Lane '{key}' queue is full ({capacity} waiting)"
  | .laneTimeout key waitedMs => s!"Timed out after {waitedMs}ms waiting for lane '{key}'"
  | .laneCleared key => s!"Lane '{key}' waiters cleared"
  | .circuitOpen key retryInMs => s!"Circuit open for '{key}' (retry in {retryInMs}ms)"
  | .probeLimit key limit =>
    s!"Circuit '{key}' is half-open and its probe limit ({limit}) is reached"
  | .exhausted attempts => s!"All fallback candidates failed: {summary attempts}"
  | .cancelled => "Operation cancelled"
  | .tool text => s!"Tool error: {text}"
  | .config text => s!"Config error: {text}"
  | .agent text => s!"Agent error: {text}"
  | .json text => s!"JSON error: {text}"
  | .io _ text => s!"IO error: {text}"

end Failure

end TurnEngine
