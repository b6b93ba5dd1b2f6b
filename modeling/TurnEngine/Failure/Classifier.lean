import TurnEngine.Failure.Basic
import TurnEngine.Text.Occurrence

/-!
# Classifying failures

A classifier says why a failure is worth another try, or that it is not. The standard one looks
at the status of a provider failure first and at patterns in its message otherwise; patterns are
searched without regard to ASCII case, table by table, and the first table with an occurrence
decides.
-/

namespace TurnEngine

/-- Why a failure is worth another try; `none` if it is not. -/
abbrev Classifier := Failure → Option Reason

namespace Classifier

/-- Whether a failure has one of some reasons. -/
def finds (c : Classifier) (reasons : List Reason) (f : Failure) : Bool :=
  match c f with
  | some reason => reasons.contains reason
  | none => false

/-! ## Patterns -/

/-- The request does not fit the model's context window. -/
def contextPatterns : List String :=
  ["context length", "context_length", "context window", "maximum context", "too many tokens",
   "prompt is too long", "request too large"]

/-- The request would fail the same way again. -/
def refusalPatterns : List String :=
  ["unauthorized", "forbidden", "invalid api key", "invalid_api_key", "authentication",
   "permission denied", "invalid_request", "bad request"]

/-- The provider throttles. -/
def rateLimitPatterns : List String :=
  ["rate limit", "rate_limit", "too many requests", "quota"]

/-- The model is missing, overloaded or switched off. -/
def unavailablePatterns : List String :=
  ["overloaded", "model not found", "model_not_found", "no such model", "unavailable"]

/-- The call took too long. -/
def timeoutPatterns : List String :=
  ["timeout", "timed out", "deadline exceeded"]

/-- The provider or the way to it broke. -/
def serverPatterns : List String :=
  ["server error", "internal error", "bad gateway", "connection", "reset by peer", "broken pipe",
   "eof", "network", "temporar"]

/-- The characters of a message with ASCII letters in lower case. -/
def lowercase (text : String) : List Char :=
  text.toList.map Char.toLower

/-- Whether one of the patterns occurs in a text. -/
def mentions (patterns : List String) (text : List Char) : Bool :=
  patterns.any fun p => Text.occurs p.toList text

/-! ## The standard classifier -/

/-- The class of a failure with a status, given its message in lower case. -/
def ofStatus (status : UInt16) (text : List Char) : Option Reason :=
  if status = 401 || status = 403 then none
  else if status = 429 then some .rateLimit
  else if status = 408 || status = 504 then some .timeout
  else if status = 404 || status = 529 then some .modelUnavailable
  else if status = 503 && mentions unavailablePatterns text then some .modelUnavailable
  else if (status = 400 || status = 413 || status = 422) && mentions contextPatterns text then
    some .contextOverflow
  else if 500 ≤ status && status ≤ 599 then some .serverError
  else none

/-- The class of a message in lower case. -/
def ofText (text : List Char) : Option Reason :=
  if mentions contextPatterns text then some .contextOverflow
  else if mentions refusalPatterns text then none
  else if mentions (rateLimitPatterns ++ ["429"]) text then some .rateLimit
  else if mentions unavailablePatterns text then some .modelUnavailable
  else if mentions timeoutPatterns text then some .timeout
  else if mentions (serverPatterns ++ ["500", "502", "503"]) text then some .serverError
  else some .unknown

/-- Status first, message second. Only failures of a provider, the transport or input and output
have a class. -/
def standard : Classifier
  | .provider (some status) text _ => ofStatus status (lowercase text)
  | .provider none text _ => ofText (lowercase text)
  | .http text => ofText (lowercase text)
  | .io .timedOut _ => some .timeout
  | .io _ _ => some .serverError
  | _ => none

end Classifier

end TurnEngine
