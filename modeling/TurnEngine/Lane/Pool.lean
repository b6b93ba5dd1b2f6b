import TurnEngine.Lane.Basic
import TurnEngine.Text.Quoted

/-!
# Pools

A pool is a registry of lanes together with the handles that it has given out. A handle stands for
one slot; it gives the slot back once, when it is released or dropped. All that callers do to lanes
goes through the operations of a pool.
-/

namespace TurnEngine.Lane

/-- The right to a slot. -/
structure Handle where
  number : Nat
  key : String
  /-- The generation of the slot. -/
  generation : Nat
  released : Bool := false
  deriving DecidableEq, Repr

/-- The text of a handle for diagnosis. -/
def Handle.debug (h : Handle) : String :=
  s!"LaneHandle \x7b key: {Text.quoted h.key}, generation: {h.generation}, " ++
    s!"released: {h.released} \x7d"

/-- A registry and the handles out. -/
structure Pool where
  registry : Registry := {}
  nextHandle : Nat := 0
  handles : List Handle := []

/-- An operation on a pool. -/
inductive Op where
  | acquire (key : String)
  | collect (ticket : Nat)
  | expire (ticket waitedMs : Nat)
  | abandon (ticket : Nat)
  | release (handle : Nat)
  | drop (handle : Nat)
  | resetGeneration
  | clearWaiters (key : String)
  | dispose
  deriving DecidableEq, Repr

/-- The answer of an operation. -/
inductive Reply where
  /-- A new handle. -/
  | handle (h : Handle)
  | failed (f : Failure)
  /-- A place in the queue. -/
  | ticket (t : Nat)
  | waiting
  | count (n : Nat)
  | nothing
  deriving DecidableEq, Repr

namespace Pool

/-- The handle with a number. -/
def handle? (h : Pool) (number : Nat) : Option Handle :=
  h.handles.find? fun x => x.number = number

/-- Gives out a handle for a slot. -/
def issue (h : Pool) (key : String) (generation : Nat) : Pool × Reply :=
  let handle : Handle := { number := h.nextHandle, key, generation }
  ({ h with nextHandle := h.nextHandle + 1, handles := h.handles ++ [handle] }, .handle handle)

/-- What a waiting caller found, with a handle for a grant. -/
def settle (h : Pool) (key : String) : Finding → Pool × Reply
  | .granted generation => h.issue key generation
  | .failed f => (h, .failed f)
  | .waiting => (h, .waiting)

/-- Gives back the slot of a handle, once. -/
def release (h : Pool) (number : Nat) : Pool :=
  match h.handle? number with
  | none => h
  | some x =>
    if x.released then h
    else
      { h with
        registry := h.registry.release x.key x.generation
        handles := h.handles.map fun y =>
          if y.number = number then { y with released := true } else y }

/-- The key that a waiting caller waits for. -/
def keyOf (h : Pool) (ticket : Nat) : String :=
  ((h.registry.caller? ticket).map (·.key)).getD ""

/-- Performs an operation. -/
def apply (h : Pool) : Op → Pool × Reply
  | .acquire key =>
    let (registry, answer) := h.registry.acquire key
    let h := { h with registry }
    match answer with
    | .granted generation => h.issue key generation
    | .refused f => (h, .failed f)
    | .queued t => (h, .ticket t)
  | .collect t =>
    let key := h.keyOf t
    let (registry, finding) := h.registry.collect t
    { h with registry }.settle key finding
  | .expire t waitedMs =>
    let key := h.keyOf t
    let (registry, finding) := h.registry.expire t waitedMs
    { h with registry }.settle key finding
  | .abandon t => ({ h with registry := h.registry.abandon t }, .nothing)
  | .release n => (h.release n, .nothing)
  | .drop n =>
    let h := h.release n
    ({ h with handles := h.handles.filter fun x => x.number ≠ n }, .nothing)
  | .resetGeneration =>
    let registry := h.registry.resetGeneration
    ({ h with registry }, .count registry.generation)
  | .clearWaiters key =>
    let (registry, n) := h.registry.clearWaiters key
    ({ h with registry }, .count n)
  | .dispose => ({ h with registry := h.registry.dispose }, .nothing)

end Pool

end TurnEngine.Lane
