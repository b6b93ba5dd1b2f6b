import TurnEngine.Breaker.Basic
import TurnEngine.Table

/-!
# Breaker registries

One breaker for every key, made when it is first asked for. Resetting all of them at once begins
a new era of fresh breakers. Who took a breaker before has it still, and so has a call that was let
through; the breakers of the eras that are over are kept for them.
-/

namespace TurnEngine.Breaker

/-- Breakers by key. -/
structure Registry where
  config : Config := {}
  breakers : Table Breaker := {}
  /-- The breakers of the eras that are over, the first era first. -/
  dropped : List (Table Breaker) := []

/-- Which breaker is meant: that of a key in an era. -/
structure Ref where
  key : String
  era : Nat
  deriving DecidableEq, Repr

/-- The permission to make a call on a key. -/
structure Pass where
  key : String
  era : Nat
  admission : Admission
  deriving DecidableEq, Repr

/-- The breaker that gave a pass. -/
def Pass.ref (p : Pass) : Ref := ⟨p.key, p.era⟩

namespace Registry

/-- How often all breakers were reset at once. -/
def era (r : Registry) : Nat := r.dropped.length

/-- The breaker of a key, a new one if there is none. -/
def get (r : Registry) (key : String) : Breaker :=
  (r.breakers.get? key).getD { key, config := r.config }

/-- Keeps a breaker under a key. -/
def put (r : Registry) (key : String) (b : Breaker) : Registry :=
  { r with breakers := r.breakers.insert key b }

/-! ## Breakers that somebody has -/

/-- The breaker of a key in the present era. -/
def ref (r : Registry) (key : String) : Ref := ⟨key, r.era⟩

/-- Takes the breaker of a key, made if there is none. -/
def take (r : Registry) (key : String) : Registry × Ref :=
  (r.put key (r.get key), r.ref key)

/-- The breakers of an era. -/
def breakersOf (r : Registry) (era : Nat) : Table Breaker :=
  if era = r.era then r.breakers else r.dropped.getD era {}

/-- The breaker that is meant, a new one if there is none. -/
def lookup (r : Registry) (ref : Ref) : Breaker :=
  ((r.breakersOf ref.era).get? ref.key).getD { key := ref.key, config := r.config }

/-- A breaker becomes another one. -/
def store (r : Registry) (ref : Ref) (b : Breaker) : Registry :=
  if ref.era = r.era then r.put ref.key b
  else { r with dropped := r.dropped.modify ref.era (·.insert ref.key b) }

/-- Asks a breaker for permission to make a call. -/
def requestAt (r : Registry) (now : Nat) (ref : Ref) : Registry × Except Failure Pass :=
  let (b, answer) := (r.lookup ref).request now
  (r.store ref b, answer.map fun a => ⟨ref.key, ref.era, a⟩)

/-- The state of a breaker. -/
def observeAt (r : Registry) (now : Nat) (ref : Ref) : Registry × Circuit :=
  let (b, circuit) := (r.lookup ref).observe now
  (r.store ref b, circuit)

/-- Tells a breaker how a call that it let through ended. -/
def settle (r : Registry) (now : Nat) (p : Pass) (o : Outcome) : Registry :=
  match (r.breakersOf p.era).get? p.key with
  | some b => r.store p.ref (b.settle now p.admission o)
  | none => r

/-! ## Keys -/

/-- Asks for permission to make a call on a key. -/
def request (r : Registry) (now : Nat) (key : String) : Registry × Except Failure Pass :=
  r.requestAt now (r.ref key)

/-- The state of a key; a key without a breaker is closed and stays without. -/
def observe (r : Registry) (now : Nat) (key : String) : Registry × Circuit :=
  match r.breakers.get? key with
  | some b =>
    let (b, circuit) := b.observe now
    (r.put key b, circuit)
  | none => (r, .closed)

/-- Resets the breaker of a key, if there is one. -/
def reset (r : Registry) (key : String) : Registry :=
  match r.breakers.get? key with
  | some b => r.put key b.reset
  | none => r

/-- Drops every breaker. -/
def resetAll (r : Registry) : Registry :=
  { r with breakers := {}, dropped := r.dropped ++ [r.breakers] }

end Registry

end TurnEngine.Breaker
