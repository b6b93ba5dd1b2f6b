import TurnEngine.Clock
import TurnEngine.Breaker.Registry
import TurnEngine.Json.Basic

/-!
# Simulating breakers

Calls through a registry of breakers in virtual time. A call is made at once with a given outcome,
or it begins and is settled later under the name it was given.
-/

namespace TurnEngine.Simulation

/-- A call that was begun under a name. -/
inductive PendingCall where
  /-- It was let through and its outcome is open. -/
  | running (pass : Breaker.Pass)
  /-- It was turned away or aborted. -/
  | gone
  deriving DecidableEq, Repr

/-- A clock, a registry, and the calls that were begun and not settled. -/
structure TimedBreakers where
  now : Nat := 0
  registry : Breaker.Registry := {}
  calls : Table PendingCall := {}

/-- What is seen of a breaker. -/
structure BreakerView where
  key : String
  circuit : Circuit
  failures : Nat
  deriving DecidableEq, Repr

namespace TimedBreakers

/-- Makes a call whose outcome is known: what the caller gets, and whether the call was made. -/
def call (d : TimedBreakers) (key : String) (outcome : Except Failure Json) :
    TimedBreakers × Except Failure Json × Bool :=
  match d.registry.request d.now key with
  | (r, .error f) => ({ d with registry := r }, .error f, false)
  | (r, .ok pass) =>
    ({ d with registry := r.settle d.now pass (Breaker.Outcome.ofResult outcome) }, outcome, true)

/-- Begins a call; a call that is turned away ends at once. -/
def start (d : TimedBreakers) (key name : String) : TimedBreakers × Option Failure :=
  match d.registry.request d.now key with
  | (r, .error f) => ({ d with registry := r, calls := d.calls.insert name .gone }, some f)
  | (r, .ok pass) => ({ d with registry := r, calls := d.calls.insert name (.running pass) }, none)

/-- Settles a call: whether anybody still waited for it, or `none` if there is no such call. -/
def finish (d : TimedBreakers) (name : String) (outcome : Except Failure Json) :
    TimedBreakers × Option Bool :=
  match d.calls.get? name with
  | none => (d, none)
  | some .gone => ({ d with calls := d.calls.erase name }, some false)
  | some (.running pass) =>
    ({ d with
        registry := d.registry.settle d.now pass (Breaker.Outcome.ofResult outcome)
        calls := d.calls.erase name }, some true)

/-- Drops a call that is running; whether there was one. -/
def abort (d : TimedBreakers) (name : String) : TimedBreakers × Bool :=
  match d.calls.get? name with
  | some (.running pass) =>
    ({ d with
        registry := d.registry.settle d.now pass .dropped
        calls := d.calls.insert name .gone }, true)
  | _ => (d, false)

/-- Lets time pass. -/
def advance (d : TimedBreakers) (ms : Nat) : TimedBreakers :=
  { d with now := Clock.after d.now ms }

/-- Changes the registry. -/
def change (d : TimedBreakers) (f : Breaker.Registry → Breaker.Registry) : TimedBreakers :=
  { d with registry := f d.registry }

/-- The state of a key. -/
def state (d : TimedBreakers) (key : String) : TimedBreakers × Circuit :=
  let (r, c) := d.registry.observe d.now key
  ({ d with registry := r }, c)

/-- The breaker of a key, made if there is none. -/
def get (d : TimedBreakers) (key : String) : TimedBreakers × BreakerView :=
  let (b, circuit) := (d.registry.get key).observe d.now
  (d.change (·.put key b), ⟨b.key, circuit, b.failures⟩)

/-- Resets the breaker of a key, made if there is none. -/
def resetBreaker (d : TimedBreakers) (key : String) : TimedBreakers :=
  d.change fun r => r.put key (r.get key).reset

end TimedBreakers

end TurnEngine.Simulation
