import TurnEngine.Clock
import TurnEngine.Lane.Pool

/-!
# Simulating lanes

Callers of lanes in virtual time. Every caller has a name. The callers that have to wait look into
their boxes, in the order in which they came, before time passes and at the end of every step; a
handle can be used from the step after the one in which it was given out.
-/

namespace TurnEngine.Simulation

/-- A caller that waits. -/
structure Waiter where
  name : String
  ticket : Nat
  since : Nat
  deadline : Nat
  deriving DecidableEq, Repr

/-- How an acquisition ended: with a slot of a generation, or a failure. -/
abbrev Settlement := String × Except Failure Nat

/-- A clock, a pool, the callers that wait in order of arrival, and the handles by the names of
their callers. -/
structure TimedLanes where
  now : Nat := 0
  pool : Lane.Pool := {}
  waiters : List Waiter := []
  handles : Table Nat := {}
  /-- Handles given out in this step. -/
  fresh : List (String × Nat) := []
  /-- The keys that were asked for. -/
  keys : List String := []
  /-- What was settled in this step. -/
  settled : List Settlement := []

/-- One thing done to lanes. -/
inductive LaneOp where
  | acquire (name key : String) (timeoutMs : Option Nat)
  | release (name : String)
  | drop (name : String)
  | abort (name : String)
  | info (name : String)
  | advance (ms : Nat)
  | resetGeneration
  | clearWaiters (key : String)
  | dispose
  /-- Several things in one step; only where time passes do callers look into their boxes. -/
  | batch (ops : List LaneOp)
  deriving Inhabited

/-- What comes of one thing done to lanes. -/
inductive LaneAnswer where
  | nothing
  | yes (b : Bool)
  | count (n : Nat)
  | handle (h : Lane.Handle)
  | answers (as : List LaneAnswer)

namespace TimedLanes

/-- Takes down how a caller fared with the pool: it is settled unless it has to wait. -/
def record (d : TimedLanes) (name : String) : Lane.Reply → TimedLanes
  | .handle h =>
    { d with
      settled := d.settled ++ [(name, .ok h.generation)]
      fresh := d.fresh ++ [(name, h.number)] }
  | .failed f => { d with settled := d.settled ++ [(name, .error f)] }
  | _ => d

/-- A waiter does something with its ticket; if that settles it, it waits no more. -/
def useTicket (d : TimedLanes) (w : Waiter) (op : Lane.Op) : TimedLanes :=
  let (pool, reply) := d.pool.apply op
  let d := { d with pool }
  match reply with
  | .waiting => d
  | reply => { d with waiters := d.waiters.filter fun x => x.ticket ≠ w.ticket }.record w.name reply

/-- The time of a waiter is up. -/
def expire (d : TimedLanes) (w : Waiter) : TimedLanes :=
  d.useTicket w (.expire w.ticket (d.now - w.since))

/-- A caller asks for a slot. One that may not wait at all leaves the queue at once. -/
def acquire (d : TimedLanes) (name key : String) (timeoutMs : Option Nat) : TimedLanes :=
  let (pool, reply) := d.pool.apply (.acquire key)
  let d := { d with pool, keys := if d.keys.contains key then d.keys else d.keys ++ [key] }
  match reply with
  | .ticket t =>
    let ms := timeoutMs.getD pool.registry.config.waitTimeoutMs.toNat
    let w : Waiter := ⟨name, t, d.now, d.now + ms⟩
    let d := { d with waiters := d.waiters ++ [w] }
    if ms = 0 then d.expire w else d
  | reply => d.record name reply

/-- The waiter whose time is up first, if that is by a moment; of two, the one who came first. -/
def firstDue (ws : List Waiter) (by_ : Nat) : Option Waiter :=
  ws.foldl (fun best w =>
    if by_ < w.deadline then best
    else match best with
      | some b => if w.deadline < b.deadline then some w else best
      | none => some w) none

/-- All waiters look into their boxes, in order of arrival. -/
def lookIntoBoxes (d : TimedLanes) : TimedLanes :=
  d.waiters.foldl (fun d w => d.useTicket w (.collect w.ticket)) d

/-- Lets time pass up to a moment; at most `n` waiters run out of time. -/
def advanceTo (d : TimedLanes) (target : Nat) : (n : Nat) → TimedLanes
  | 0 => { d with now := target }
  | n + 1 =>
    match firstDue d.waiters target with
    | none => { d with now := target }
    | some w => ({ d with now := max d.now w.deadline }.expire w).advanceTo target n

/-- Sleeps; waiters with a letter in their box take it before. -/
def advance (d : TimedLanes) (ms : Nat) : TimedLanes :=
  let d := d.lookIntoBoxes
  d.advanceTo (Clock.after d.now ms) d.waiters.length

/-- Performs an operation of the pool. -/
def use (d : TimedLanes) (op : Lane.Op) : TimedLanes × Lane.Reply :=
  let (pool, reply) := d.pool.apply op
  ({ d with pool }, reply)

/-- The count in a reply. -/
def countOf : Lane.Reply → Nat
  | .count n => n
  | _ => 0

mutual

/-- Does one thing. -/
def perform (d : TimedLanes) : LaneOp → TimedLanes × LaneAnswer
  | .acquire name key timeoutMs => (d.acquire name key timeoutMs, .nothing)
  | .release name =>
    match d.handles.get? name with
    | none => (d, .nothing)
    | some n => ((d.use (.release n)).1, .yes true)
  | .drop name =>
    match d.handles.get? name with
    | none => (d, .yes false)
    | some n => ({ (d.use (.drop n)).1 with handles := d.handles.erase name }, .yes true)
  | .abort name =>
    match d.waiters.find? fun w => w.name = name with
    | none => (d, .yes false)
    | some w =>
      ({ (d.use (.abandon w.ticket)).1 with
          waiters := d.waiters.filter fun x => x.ticket ≠ w.ticket }, .yes true)
  | .info name =>
    match (d.handles.get? name).bind d.pool.handle? with
    | none => (d, .nothing)
    | some h => (d, .handle h)
  | .advance ms => (d.advance ms, .nothing)
  | .resetGeneration =>
    let (d, reply) := d.use .resetGeneration
    (d, .count (countOf reply))
  | .clearWaiters key =>
    let (d, reply) := d.use (.clearWaiters key)
    (d, .count (countOf reply))
  | .dispose => ((d.use .dispose).1, .nothing)
  | .batch ops =>
    let (d, as) := d.performAll ops
    (d, .answers as)

/-- Does several things. -/
def performAll (d : TimedLanes) : List LaneOp → TimedLanes × List LaneAnswer
  | [] => (d, [])
  | op :: ops =>
    let (d, a) := d.perform op
    let (d, as) := d.performAll ops
    (d, a :: as)

end

/-- One step: an operation, then all waiters look into their boxes. -/
def step (d : TimedLanes) (op : LaneOp) : TimedLanes × LaneAnswer :=
  let (d, answer) := { d with settled := [], fresh := [] }.perform op
  let d := d.lookIntoBoxes
  ({ d with handles := d.fresh.foldl (fun t h => t.insert h.1 h.2) d.handles }, answer)

/-- The occupancy and the queue of every key that was asked for, in ascending order of keys. -/
def lanes (d : TimedLanes) : List (String × Nat × Nat) :=
  (d.keys.mergeSort fun a b => !(b < a)).map fun k =>
    (k, d.pool.registry.occupancy k, d.pool.registry.queued k)

end TimedLanes

end TurnEngine.Simulation
