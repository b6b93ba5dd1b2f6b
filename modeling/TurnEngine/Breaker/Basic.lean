import TurnEngine.Failure.Basic

/-!
# Circuit breakers

A breaker guards the calls to one target.

```text
closed   → open:     as many failures in a row as the threshold
open     → halfOpen: the reset timeout is over
halfOpen → closed:   a probe succeeds
halfOpen → open:     a probe fails
```

A call is let through with an admission, which carries the breaker's epoch; the epoch moves on
whenever the circuit opens or is reset. An outcome counts only if its admission is current: of the
same epoch, and a probe exactly when the circuit is half-open. What comes late cannot move the
breaker.
-/

namespace TurnEngine

/-- The state of a breaker as callers see it. -/
inductive Circuit where
  /-- Calls pass. -/
  | closed
  /-- Calls fail at once. -/
  | tripped
  /-- A few calls pass as probes. -/
  | halfOpen
  deriving DecidableEq, Repr

namespace Breaker

/-- The tuning of a breaker. -/
structure Config where
  /-- Failures in a row that open the circuit. -/
  failureThreshold : UInt32 := 5
  /-- How long the circuit stays open, in milliseconds. -/
  resetTimeoutMs : UInt64 := 30000
  /-- Probes in flight while the circuit is half-open. -/
  halfOpenMaxProbes : UInt32 := 1
  deriving DecidableEq, Repr

/-- The permission to make a call. -/
structure Admission where
  probe : Bool
  epoch : Nat
  deriving DecidableEq, Repr

/-- How an admitted call ended. -/
inductive Outcome where
  | success
  | failure
  /-- The caller cancelled it; it says nothing about the target. -/
  | cancelled
  /-- It was dropped before it ended. -/
  | dropped
  deriving DecidableEq, Repr

/-- The outcome of a call's result. -/
def Outcome.ofResult {α : Type} : Except Failure α → Outcome
  | .ok _ => .success
  | .error f => if f.isCancelled then .cancelled else .failure

end Breaker

/-- A circuit breaker. -/
structure Breaker where
  key : String
  config : Breaker.Config
  circuit : Circuit := .closed
  /-- Failures in a row. -/
  failures : Nat := 0
  /-- When the circuit opened, in milliseconds. -/
  openedAt : Option Nat := none
  /-- Probes in flight. -/
  probes : Nat := 0
  epoch : Nat := 0
  deriving DecidableEq, Repr

namespace Breaker

/-- The largest failure count. -/
def maxFailures : Nat := 4294967295

/-- How many probes may be in flight: at least one. -/
def probeLimit (b : Breaker) : UInt32 :=
  max 1 b.config.halfOpenMaxProbes

/-- How long the circuit has been open. -/
def openFor (b : Breaker) (now : Nat) : Option Nat :=
  b.openedAt.map (now - ·)

/-- An open circuit becomes half-open once its timeout is over. -/
def refresh (b : Breaker) (now : Nat) : Breaker :=
  if b.circuit = .tripped &&
      (b.openFor now).all fun elapsed => b.config.resetTimeoutMs.toNat ≤ elapsed then
    { b with circuit := .halfOpen, probes := 0 }
  else b

/-- The time left until an open circuit lets a probe through. -/
def retryIn (b : Breaker) (now : Nat) : Nat :=
  match b.openFor now with
  | none => 0
  | some elapsed => b.config.resetTimeoutMs.toNat - elapsed

/-- Asks for permission to make a call. -/
def request (b : Breaker) (now : Nat) : Breaker × Except Failure Admission :=
  let b := b.refresh now
  match b.circuit with
  | .closed => (b, .ok ⟨false, b.epoch⟩)
  | .tripped => (b, .error (.circuitOpen b.key (b.retryIn now)))
  | .halfOpen =>
    if b.probeLimit.toNat ≤ b.probes then (b, .error (.probeLimit b.key b.probeLimit))
    else ({ b with probes := b.probes + 1 }, .ok ⟨true, b.epoch⟩)

/-- Gives back the place of a probe; those of an earlier epoch are gone already. -/
def releaseProbe (b : Breaker) (a : Admission) : Breaker :=
  if a.probe && b.epoch = a.epoch then { b with probes := b.probes - 1 } else b

/-- Whether an outcome may still move the breaker. -/
def isCurrent (b : Breaker) (a : Admission) : Bool :=
  b.epoch = a.epoch &&
    match b.circuit with
    | .closed => !a.probe
    | .halfOpen => a.probe
    | .tripped => false

/-- Opens the circuit. -/
def trip (b : Breaker) (now : Nat) : Breaker :=
  { b with circuit := .tripped, openedAt := some now, epoch := b.epoch + 1 }

/-- A success closes the circuit. -/
def recordSuccess (b : Breaker) (a : Admission) : Breaker :=
  let b := b.releaseProbe a
  if b.isCurrent a then
    { b with circuit := .closed, failures := 0, openedAt := none, probes := 0 }
  else b

/-- A failure counts, and opens the circuit at the threshold or when a probe failed. -/
def recordFailure (b : Breaker) (now : Nat) (a : Admission) : Breaker :=
  let b := b.releaseProbe a
  if b.isCurrent a then
    let b := { b with failures := min (b.failures + 1) maxFailures }
    match b.circuit with
    | .halfOpen => { b.trip now with probes := 0 }
    | .closed => if b.config.failureThreshold.toNat ≤ b.failures then b.trip now else b
    | .tripped => b
  else b

/-- Tells the breaker how an admitted call ended. -/
def settle (b : Breaker) (now : Nat) (a : Admission) : Outcome → Breaker
  | .success => b.recordSuccess a
  | .failure => b.recordFailure now a
  | .cancelled => b.releaseProbe a
  | .dropped => b.releaseProbe a

/-- Closes the circuit and forgets what was counted. -/
def reset (b : Breaker) : Breaker :=
  { b with
    circuit := .closed
    failures := 0
    openedAt := none
    probes := 0
    epoch := b.epoch + 1 }

/-- The state as seen now; looking may turn an open circuit half-open. -/
def observe (b : Breaker) (now : Nat) : Breaker × Circuit :=
  let b := b.refresh now
  (b, b.circuit)

end Breaker

end TurnEngine
