import TurnEngine.Failure.Basic
import TurnEngine.Table

/-!
# Lanes

A lane admits a bounded number of holders of its key at a time and lets a bounded number of callers
wait, first come, first served. A slot that becomes free goes straight to the oldest waiter: a
letter with the grant is put into the caller's box, and the slot counts as taken from then on. The
caller collects the letter later, or gives the slot back if it has gone away.

Every grant carries the registry's generation. Moving the generation on makes all slots given out
before worthless at once: they are not counted any more and releasing them does nothing.
-/

namespace TurnEngine.Lane

/-- The limits of every lane of a registry. -/
structure Config where
  /-- Holders at a time; zero counts as one. -/
  maxConcurrent : UInt64 := 1
  /-- Callers that may wait. -/
  maxQueue : UInt64 := 64
  /-- How long a caller waits unless it says otherwise, in milliseconds. -/
  waitTimeoutMs : UInt64 := 120000
  deriving DecidableEq, Repr

/-- What a waiting caller is told. -/
inductive Letter where
  /-- It holds a slot of this generation. -/
  | granted (generation : Nat)
  /-- The queue was cleared. -/
  | cleared
  deriving DecidableEq, Repr

/-- A caller that waits, or has a letter it did not collect yet. -/
structure Caller where
  ticket : Nat
  key : String
  letter : Option Letter := none
  deriving DecidableEq, Repr

/-- The slots taken on one key, and the tickets of the callers waiting, oldest first. -/
structure Slots where
  active : Nat := 0
  queue : List Nat := []
  deriving DecidableEq, Repr

/-- Whether nobody holds or waits. -/
def Slots.isIdle (s : Slots) : Bool :=
  s.active = 0 && s.queue.isEmpty

/-- The lanes of all keys; a key without an entry is idle. -/
structure Registry where
  config : Config := {}
  generation : Nat := 0
  nextTicket : Nat := 0
  lanes : Table Slots := {}
  callers : List Caller := []

/-- The answer to a caller that asks for a slot. -/
inductive Answer where
  | granted (generation : Nat)
  | refused (failure : Failure)
  | queued (ticket : Nat)
  deriving DecidableEq, Repr

/-- What a waiting caller finds. -/
inductive Finding where
  | granted (generation : Nat)
  | failed (failure : Failure)
  | waiting
  deriving DecidableEq, Repr

/-! ## Boxes -/

/-- Puts a letter into a caller's box. -/
def post (callers : List Caller) (ticket : Nat) (letter : Letter) : List Caller :=
  callers.map fun c => if c.ticket = ticket then { c with letter := some letter } else c

/-- Whether a caller is still there to receive a letter. -/
def isListening (callers : List Caller) (ticket : Nat) : Bool :=
  callers.any fun c => c.ticket = ticket

/-- Grants a slot to the oldest waiter that is still there: the queue and the boxes after it, or
nothing if nobody is. -/
def handOff (generation : Nat) (callers : List Caller) :
    List Nat → Option (List Nat × List Caller)
  | [] => none
  | t :: queue =>
    if isListening callers t then some (queue, post callers t (.granted generation))
    else handOff generation callers queue

/-- Grants free slots to the oldest waiters up to the limit. -/
def regrant (limit generation : Nat) (callers : List Caller) (active : Nat) :
    List Nat → Slots × List Caller
  | [] => (⟨active, []⟩, callers)
  | t :: queue =>
    if active < limit then
      if isListening callers t then
        regrant limit generation (post callers t (.granted generation)) (active + 1) queue
      else regrant limit generation callers active queue
    else (⟨active, t :: queue⟩, callers)

/-- Tells every waiter of a queue that it was cleared. -/
def rejectAll (callers : List Caller) (queue : List Nat) : List Caller :=
  queue.foldl (fun callers t => post callers t .cleared) callers

namespace Registry

/-- How many may hold a key at a time: at least one. -/
def limit (r : Registry) : Nat :=
  max 1 r.config.maxConcurrent.toNat

/-- The slots of a key. -/
def slots (r : Registry) (key : String) : Slots :=
  (r.lanes.get? key).getD {}

/-- Keeps the slots of a key; those of an idle key are not kept. -/
def put (r : Registry) (key : String) (s : Slots) : Registry :=
  { r with lanes := if s.isIdle then r.lanes.erase key else r.lanes.insert key s }

/-- The slots taken on a key. -/
def occupancy (r : Registry) (key : String) : Nat :=
  (r.slots key).active

/-- The callers waiting on a key. -/
def queued (r : Registry) (key : String) : Nat :=
  (r.slots key).queue.length

/-- The caller with a ticket. -/
def caller? (r : Registry) (ticket : Nat) : Option Caller :=
  r.callers.find? fun c => c.ticket = ticket

/-- Removes a caller with its box. -/
def dismiss (r : Registry) (ticket : Nat) : Registry :=
  { r with callers := r.callers.filter fun c => c.ticket ≠ ticket }

/-! ## Taking and giving back -/

/-- Asks for a slot: at once if one is free and nobody waits, otherwise in the queue. -/
def acquire (r : Registry) (key : String) : Registry × Answer :=
  let s := r.slots key
  if s.active < r.limit && s.queue.isEmpty then
    (r.put key { s with active := s.active + 1 }, .granted r.generation)
  else if r.config.maxQueue.toNat ≤ s.queue.length then
    (r, .refused (.queueFull key r.config.maxQueue))
  else
    let t := r.nextTicket
    let r := r.put key { s with queue := s.queue ++ [t] }
    ({ r with nextTicket := t + 1, callers := r.callers ++ [{ ticket := t, key }] }, .queued t)

/-- Gives a slot back: to the oldest waiter, or to the count. One of an earlier generation is
worth nothing. -/
def release (r : Registry) (key : String) (generation : Nat) : Registry :=
  if generation ≠ r.generation then r
  else
    match r.lanes.get? key with
    | none => r
    | some s =>
      match handOff generation r.callers s.queue with
      | some (queue, callers) => { r.put key { s with queue } with callers }
      | none => r.put key ⟨s.active - 1, []⟩

/-! ## Waiting -/

/-- Takes a ticket out of its queue; whether it was there. -/
def withdraw (r : Registry) (key : String) (ticket : Nat) : Registry × Bool :=
  let s := r.slots key
  if s.queue.contains ticket then (r.put key { s with queue := s.queue.erase ticket }, true)
  else (r, false)

/-- A waiting caller looks into its box. -/
def collect (r : Registry) (ticket : Nat) : Registry × Finding :=
  match r.caller? ticket with
  | none => (r, .waiting)
  | some c =>
    match c.letter with
    | some (.granted generation) => (r.dismiss ticket, .granted generation)
    | some .cleared => (r.dismiss ticket, .failed (.laneCleared c.key))
    | none =>
      if (r.slots c.key).queue.contains ticket then (r, .waiting)
      else (r.dismiss ticket, .failed (.laneCleared c.key))

/-- The time of a waiting caller is up: it leaves the queue, unless a letter is already there. -/
def expire (r : Registry) (ticket waitedMs : Nat) : Registry × Finding :=
  match r.caller? ticket with
  | none => (r, .waiting)
  | some c =>
    let (left, wasQueued) := r.withdraw c.key ticket
    if wasQueued then (left.dismiss ticket, .failed (.laneTimeout c.key waitedMs))
    else
      match c.letter with
      | some (.granted generation) => (r.dismiss ticket, .granted generation)
      | some .cleared => (r.dismiss ticket, .failed (.laneCleared c.key))
      | none => (r.dismiss ticket, .failed (.laneTimeout c.key waitedMs))

/-- A waiting caller goes away: it leaves the queue, or gives back the slot in its box. -/
def abandon (r : Registry) (ticket : Nat) : Registry :=
  match r.caller? ticket with
  | none => r
  | some c =>
    let (left, wasQueued) := r.withdraw c.key ticket
    if wasQueued then left.dismiss ticket
    else
      match c.letter with
      | some (.granted generation) => (r.dismiss ticket).release c.key generation
      | _ => r.dismiss ticket

/-! ## All at once -/

/-- Moves the generation on. No slot given out before counts any more; waiters get the slots. -/
def resetGeneration (r : Registry) : Registry :=
  let generation := r.generation + 1
  let (lanes, callers) := r.lanes.entries.foldl (fun (acc, callers) (key, s) =>
    let (s, callers) := regrant r.limit generation callers 0 s.queue
    (acc ++ [(key, s)], callers)) ([], r.callers)
  { r with
    generation
    callers
    lanes := (Table.mk lanes).filter fun _ s => !s.isIdle }

/-- Sends the waiters of a key away; how many there were. -/
def clearWaiters (r : Registry) (key : String) : Registry × Nat :=
  match r.lanes.get? key with
  | none => (r, 0)
  | some s =>
    ({ r.put key { s with queue := [] } with callers := rejectAll r.callers s.queue },
      s.queue.length)

/-- Sends all waiters away and moves the generation on; no lane is left. -/
def dispose (r : Registry) : Registry :=
  { r with
    generation := r.generation + 1
    lanes := {}
    callers := r.lanes.entries.foldl (fun callers e => rejectAll callers e.2.queue) r.callers }

end Registry

end TurnEngine.Lane
