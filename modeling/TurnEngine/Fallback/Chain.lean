import TurnEngine.Backoff
import TurnEngine.Breaker.Registry
import TurnEngine.Failure.Classifier
import TurnEngine.Model

/-!
# Fallback chains

A chain runs work against the models of a candidate list, strictly in order, until one gives a
value. Every candidate has a budget of attempts. The breaker of its provider is taken once, and all
attempts are made through it, also if the registry has another one for the provider by then. A
candidate that names no model or whose circuit is open is skipped. Only failures whose reason is
worth it move the chain on, every other failure is returned at once.

A run happens in a world `σ` that keeps time, holds the breakers and answers the work; while the
run waits, anything else may happen in that world. The course of a run is the list of its events:
the audit trail and the notices are read off it.
-/

namespace TurnEngine.Fallback

/-- The tuning of a chain. -/
structure Config where
  /-- Retries on one candidate before the next one. -/
  maxRetriesPerModel : UInt32 := 1
  /-- The delays between them; its own budget of retries does not count. -/
  backoff : Backoff := {}
  /-- The reasons worth another model. Another model does not shrink a request, so a context
  overflow is none of them unless asked for. -/
  fallbackOn : List Reason := [.rateLimit, .serverError, .timeout, .modelUnavailable]

/-- What is announced when a candidate is given up for the next one. -/
structure Notice where
  previousModel : String
  nextModel : String
  reason : Reason
  deriving DecidableEq, Repr

/-- An event of a run. -/
inductive Event where
  /-- The candidate at an index is looked at. -/
  | visit (index : Nat)
  /-- The work begins on a model. -/
  | call (model : Model)
  /-- An entry of the audit trail. -/
  | attempt (a : Attempt)
  /-- Listeners are told. -/
  | notice (n : Notice)
  deriving DecidableEq, Repr

/-- The audit trail of a course. -/
def trail (course : List Event) : List Attempt :=
  course.filterMap fun
    | .attempt a => some a
    | _ => none

/-- The notices of a course. -/
def notices (course : List Event) : List Notice :=
  course.filterMap fun
    | .notice n => some n
    | _ => none

/-- How a wait of the run went on: to its end, or not at all because the run was dropped. -/
inductive Waited (α : Type) where
  | back (a : α)
  | dropped
  deriving Repr

/-- The world of a run. -/
structure World (σ α : Type) where
  /-- The time in milliseconds. -/
  now : σ → Nat
  /-- Whether the signal has fired. -/
  cancelled : σ → Bool
  breakers : σ → Breaker.Registry
  setBreakers : Breaker.Registry → σ → σ
  /-- Does the work on a model. -/
  work : Model → σ → Waited (Except Failure α) × σ
  /-- Waits; `false` if the signal cut the wait short. -/
  sleep : Nat → σ → Waited Bool × σ

/-- What a chain runs with. -/
structure Chain where
  config : Config := {}
  resolve : String → Option Model
  classify : Classifier := Classifier.standard

/-- How a run ends. -/
inductive Ending (α : Type) where
  | value (a : α) (model : Model)
  | failed (f : Failure)
  | dropped
  deriving Repr

/-- How a candidate ends: with the run, or spent for a reason. -/
inductive Verdict (α : Type) where
  | ended (e : Ending α)
  | spent (reason : Reason)
  deriving Repr

namespace Chain

variable {σ α : Type}

/-- Attempts on one candidate. -/
def maxAttempts (c : Chain) : Nat :=
  min (c.config.maxRetriesPerModel.toNat + 1) 4294967295

/-- The announcement that a candidate is given up, if there is another one. -/
def advance (candidates : List String) (index : Nat) (previous : String) (reason : Reason) :
    List Event :=
  match candidates[index + 1]? with
  | some next => [.notice ⟨previous, next, reason⟩]
  | none => []

/-- The milliseconds since a moment. -/
def since (w : World σ α) (start : Nat) (s : σ) : UInt64 :=
  UInt64.ofNat (w.now s - start)

/-- One call through a breaker: the work's result, or why the breaker turned it away. -/
def callThrough (w : World σ α) (m : Model) (held : Breaker.Ref) (s : σ) :
    List Event × Waited (Except Failure α) × σ :=
  match (w.breakers s).requestAt (w.now s) held with
  | (r, .error f) => ([], .back (.error f), w.setBreakers r s)
  | (r, .ok pass) =>
    let (result, s) := w.work m (w.setBreakers r s)
    let outcome := match result with
      | .dropped => .dropped
      | .back result => Breaker.Outcome.ofResult result
    ([.call m], result, w.setBreakers ((w.breakers s).settle (w.now s) pass outcome) s)

/-- The attempts on one model through one breaker, `left` of them, the next one being retry `n` (0
is the first attempt). -/
def tryModel (c : Chain) (w : World σ α) (m : Model) (held : Breaker.Ref) :
    (left n : Nat) → σ → List Event × Verdict α × σ
  | 0, _, s => ([], .spent .unknown, s)
  | left + 1, n, s =>
    if w.cancelled s then ([], .ended (.failed .cancelled), s)
    else
      let start := w.now s
      let (calls, result, s) := callThrough w m held s
      match result with
      | .dropped => (calls, .ended .dropped, s)
      | .back (.ok a) =>
        (calls ++ [.attempt (.succeeded m.qualifiedName (since w start s))],
          .ended (.value a m), s)
      | .back (.error f) =>
        if f.isCancelled then (calls, .ended (.failed f), s)
        else
          let events := calls ++ [.attempt (.failed m.qualifiedName f.message (since w start s))]
          if f.isBreakerRejection then (events, .spent .modelUnavailable, s)
          else
            match c.classify f with
            | none => (events, .ended (.failed f), s)
            | some reason =>
              if c.config.fallbackOn.contains reason then
                if left = 0 then (events, .spent reason, s)
                else
                  let ms := c.config.backoff.delay 0 n (f.retryAfterMs?.map UInt64.toNat)
                  match w.sleep ms s with
                  | (.dropped, s) => (events, .ended .dropped, s)
                  | (.back false, s) => (events, .ended (.failed .cancelled), s)
                  | (.back true, s) =>
                    let (more, verdict, s) := c.tryModel w m held left (n + 1) s
                    (events ++ more, verdict, s)
              else (events, .ended (.failed f), s)

/-- One candidate: the name under which it is given up, and how it ends. -/
def tryCandidate (c : Chain) (w : World σ α) (reference : String) (s : σ) :
    List Event × String × Verdict α × σ :=
  match c.resolve reference with
  | none =>
    ([.attempt (.failed reference "unresolvable model reference" 0)], reference,
      .spent .modelUnavailable, s)
  | some m =>
    let name := m.qualifiedName
    let (r, held) := (w.breakers s).take m.provider
    let (r, circuit) := r.observeAt (w.now s) held
    let s := w.setBreakers r s
    if circuit = .tripped then
      ([.attempt (.failed name s!"circuit open for provider '{m.provider}'" 0)], name,
        .spent .modelUnavailable, s)
    else
      let (events, verdict, s) := c.tryModel w m held c.maxAttempts 0 s
      (events, name, verdict, s)

/-- The candidates from an index on, `rest` being those still to come and `done` the events so
far. -/
def runFrom (c : Chain) (w : World σ α) (candidates : List String) :
    (index : Nat) → (rest : List String) → (done : List Event) → σ → List Event × Ending α × σ
  | _, [], done, s => (done, .failed (.exhausted (trail done)), s)
  | index, reference :: rest, done, s =>
    if w.cancelled s then (done, .failed .cancelled, s)
    else
      let (events, name, verdict, s) := c.tryCandidate w reference s
      let done := done ++ .visit index :: events
      match verdict with
      | .ended e => (done, e, s)
      | .spent reason =>
        c.runFrom w candidates (index + 1) rest (done ++ advance candidates index name reason) s

/-- Runs work against the candidates: the course of events, the ending, and the world after it.
The audit trail of a success is the trail of the course. -/
def run (c : Chain) (w : World σ α) (candidates : List String) (s : σ) :
    List Event × Ending α × σ :=
  if candidates.isEmpty then ([], .failed (.config "no fallback candidates given"), s)
  else c.runFrom w candidates 0 candidates [] s

end Chain

end TurnEngine.Fallback
