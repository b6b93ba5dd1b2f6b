import TurnEngine.Run.Execution
import TurnEngine.Table

/-!
# Scripted backends

A backend that plays replies from a script, one for every stream that is asked for.
-/

namespace TurnEngine.Simulation

/-- The failure when a script has no reply left. -/
def noReplyLeft : Failure :=
  .agent "scripted backend has no reply left"

/-! ## Replies in turn -/

/-- A backend with one script for all models. -/
structure PlainBackend where
  replies : List (Except Failure (List StreamEvent))
  /-- The models asked for. -/
  models : List String := []

namespace PlainBackend

/-- Opens a stream. -/
def stream (b : PlainBackend) (model : String) :
    PlainBackend × Except Failure (List StreamEvent) :=
  match b.replies with
  | [] => ({ b with models := b.models ++ [model] }, .error noReplyLeft)
  | r :: rs => ({ replies := rs, models := b.models ++ [model] }, r)

/-- Opens streams for several models. -/
def streams (b : PlainBackend) :
    List String → PlainBackend × List (Except Failure (List StreamEvent))
  | [] => (b, [])
  | m :: ms =>
    let (b, r) := b.stream m
    let (b, rs) := b.streams ms
    (b, r :: rs)

end PlainBackend

/-! ## Replies in time -/

/-- An item of a scripted stream. -/
inductive Item where
  /-- It arrives after a delay. -/
  | arrives (afterMs : Nat) (item : Except Failure StreamEvent)
  /-- It never arrives. -/
  | never

/-- A scripted reply: how long the stream takes to open, and what becomes of it. -/
structure Reply where
  opensAfterMs : Nat := 0
  stream : Except Failure (List Item)

/-- A backend with a script for every model. -/
structure Backend where
  replies : Table (List Reply) := {}
  /-- Streams for which there was a reply. -/
  calls : Nat := 0
  /-- What was asked, latest first. -/
  requests : List Run.Request := []

namespace Backend

/-- Asks for a stream. -/
def ask (b : Backend) (r : Run.Request) : Backend × Reply :=
  let b := { b with requests := r :: b.requests }
  match b.replies.get? r.model with
  | some (reply :: rest) =>
    ({ b with replies := b.replies.insert r.model rest, calls := b.calls + 1 }, reply)
  | _ => (b, { stream := .error noReplyLeft })

/-- What a model was asked, in order. -/
def asked (b : Backend) (model : String) : List Run.Request :=
  (b.requests.filter fun r => r.model = model).reverse

/-- The models that were asked, each once. -/
def modelsAsked (b : Backend) : List String :=
  b.requests.foldr (fun r ms => if ms.contains r.model then ms else ms ++ [r.model]) []

end Backend

end TurnEngine.Simulation
