import TurnEngine.Json.Basic
import TurnEngine.Retry

/-!
# Scripted work

A simulation runs the engine in virtual time with scripts in place of the outside world. An `Act` is
one piece of scripted work: it may fire the caller's signal, takes a while, and has an outcome.
-/

namespace TurnEngine.Simulation

/-- One piece of scripted work. -/
structure Act where
  /-- It fires the caller's signal when it begins. -/
  firesSignal : Bool := false
  /-- How long it takes, in milliseconds. -/
  takesMs : Nat := 0
  outcome : Except Failure Json := .ok .null

namespace Act

/-- The act for the call with a number (the first is 0): the last act of a script is repeated. -/
def nth? (script : List Act) (n : Nat) : Option Act :=
  script[min n (script.length - 1)]?

/-- The signal after the act began. -/
def signalAfter (a : Act) (now : Nat) (s : Signal) : Signal :=
  if a.firesSignal then s.fire now else s

/-! ## A race against a signal -/

/-- How a race of an act against a signal ended. -/
structure Race where
  /-- Whether the act began. -/
  began : Bool
  wait : Signal.Wait
  deriving DecidableEq, Repr

/-- An act that is given up as soon as the signal fires; a signal that has fired keeps it from
beginning, and an act that takes no time is over before the signal is looked at again. -/
def race (a : Act) (now : Nat) (s : Signal) : Race :=
  if s.firedBy now then ⟨false, .cancelled now⟩
  else if a.takesMs = 0 then ⟨true, .elapsed now⟩
  else ⟨true, (a.signalAfter now s).sleep now a.takesMs⟩

/-! ## Retries -/

/-- One attempt of a retried act, which nothing interrupts. -/
def trial (script : List Act) (n start : Nat) (s : Signal) : Retry.Plan.Trial Json :=
  let a := (nth? script (n - 1)).getD {}
  ⟨a.outcome, Clock.after start a.takesMs, a.signalAfter start s⟩

/-- Retries a script under a plan, from the start of time. -/
def retry (plan : Retry.Plan) (script : List Act) (s : Signal) : Retry.Plan.Course Json :=
  plan.run (trial script) 0 s

end Act

end TurnEngine.Simulation
