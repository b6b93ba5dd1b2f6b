import TurnEngine.Listeners.Hub

/-!
# Listeners that act while they are called

A switchboard has numbered registries of listeners; cloned registries share one hub. A listener may
register and unregister listeners, emit again, or panic while it is called. Every emission uses the
callbacks that its hub had when it began, a nested one those at its own start. A panic ends its
callback and nothing else.

What a listener does depends on the event and on the moment at which it is called, which is how
much happened before, so that a listener may do something else at every call. Emissions inside
emissions are followed to a depth; what goes deeper has no outcome.
-/

namespace TurnEngine

mutual

/-- A listener of events `ε`: a name, and what it does at a moment on an event. -/
inductive Callback (ε : Type) where
  | mk (name : String) (reflexes : Nat → ε → List (Reflex ε))

/-- One thing a listener does while it is called. -/
inductive Reflex (ε : Type) where
  /-- Stops the callback. -/
  | panic
  /-- Gives up the first handle kept under a name. -/
  | unregister (name : String)
  /-- Registers a listener on the hub that is calling. -/
  | register (callback : Callback ε)
  /-- Emits on the hub that is calling. -/
  | emit (event : ε)

end

namespace Callback

variable {ε : Type}

instance : Inhabited (Callback ε) := ⟨.mk "" fun _ _ => []⟩

/-- The name of a listener. -/
def name : Callback ε → String
  | .mk name _ => name

/-- What a listener does at a moment on an event, up to its panic. -/
def reflexes : Callback ε → Nat → ε → List (Reflex ε)
  | .mk _ reflexes, moment, event => (reflexes moment event).takeWhile fun
    | .panic => false
    | _ => true

end Callback

/-- The right to unregister a listener. -/
structure ListenerHandle where
  /-- The listener's name. -/
  name : String
  /-- The hub it was registered on. -/
  hub : Nat
  /-- Its number there. -/
  entry : Nat
  deriving DecidableEq, Repr

/-- The text of a handle that can still unregister its listener; a kept handle always can. -/
def ListenerHandle.debug (_ : ListenerHandle) : String :=
  "ListenerHandle \x7b registered: true \x7d"

/-- Something that happened at a switchboard. An emission is known by the moment at which it
began. -/
inductive Incident (ε : Type) where
  /-- A listener was registered on a hub under a number. -/
  | registered (hub entry : Nat) (callback : Callback ε)
  /-- The handle of a listener was used up. -/
  | unregistered (hub entry : Nat)
  /-- An emission began. -/
  | begun (hub : Nat) (event : ε)
  /-- An emission called a listener. -/
  | called (emission entry : Nat) (callback : Callback ε) (event : ε)
  /-- An emission came to its end. -/
  | ended (emission : Nat)

/-- Registries, the handles kept, and what happened so far. -/
structure Switchboard (ε : Type) where
  hubs : List (Hub (Callback ε)) := [{}]
  /-- The hub of every registry, `none` for a registry that was dropped. -/
  registries : List (Option Nat) := [some 0]
  handles : List ListenerHandle := []
  /-- What happened, in order. -/
  log : List (Incident ε) := []

namespace Switchboard

variable {ε : Type}

/-- A hub by its index. -/
def hub (s : Switchboard ε) (i : Nat) : Hub (Callback ε) :=
  s.hubs[i]?.getD {}

/-- Puts a hub in the place of another one. -/
def setHub (s : Switchboard ε) (i : Nat) (h : Hub (Callback ε)) : Switchboard ε :=
  { s with hubs := s.hubs.set i h }

/-- The hub index of a registry that is still there. -/
def hubOf? (s : Switchboard ε) (registry : Nat) : Option Nat :=
  s.registries[registry]?.join

/-- Whether some registry of a hub is still there. -/
def live (s : Switchboard ε) (hub : Nat) : Bool :=
  s.registries.contains (some hub)

/-- Notes what happened. -/
def note (s : Switchboard ε) (x : Incident ε) : Switchboard ε :=
  { s with log := s.log ++ [x] }

/-- Registers a listener and keeps its handle. -/
def register (s : Switchboard ε) (hub : Nat) (callback : Callback ε) : Switchboard ε :=
  let (entry, h) := (s.hub hub).register callback
  let handle : ListenerHandle := ⟨callback.name, hub, entry⟩
  let s := { s with handles := s.handles ++ [handle] }
  (s.setHub hub h).note (.registered hub entry callback)

/-- Uses up a handle. The listener is removed from the hub if that is still there. -/
def giveUp (s : Switchboard ε) (handle : ListenerHandle) : Switchboard ε :=
  (if s.live handle.hub
    then s.setHub handle.hub ((s.hub handle.hub).unregister handle.entry)
    else s).note (.unregistered handle.hub handle.entry)

/-- Uses up the first handle kept under a name. -/
def unregister (s : Switchboard ε) (name : String) : Switchboard ε :=
  match s.handles.find? fun h => h.name = name with
  | none => s
  | some handle =>
    { s with handles := s.handles.eraseP fun h => h.name = name }.giveUp handle

/-- Forgets every handle kept under a name; the listeners stay registered. -/
def forget (s : Switchboard ε) (name : String) : Switchboard ε :=
  { s with handles := s.handles.filter fun h => h.name ≠ name }

/-! ## Emissions -/

section
variable (emit : Nat → ε → Switchboard ε → Option (Switchboard ε))

/-- Does one thing a listener does, given how to emit. -/
def perform (hub : Nat) (s : Switchboard ε) : Reflex ε → Option (Switchboard ε)
  | .panic => some s
  | .unregister name => some (s.unregister name)
  | .register callback => some (s.register hub callback)
  | .emit event => emit hub event s

/-- Calls a listener, which does what it does at this moment. -/
def call (hub emission : Nat) (event : ε) (entry : Nat) (c : Callback ε) (s : Switchboard ε) :
    Option (Switchboard ε) :=
  (c.reflexes s.log.length event).foldlM (perform emit hub)
    (s.note (.called emission entry c event))

end

/-- Emits an event on a hub, following nested emissions to a depth. -/
def emit : Nat → Nat → ε → Switchboard ε → Option (Switchboard ε)
  | 0, _, _, _ => none
  | depth + 1, hub, event, s =>
    ((s.hub hub).emitEach? (call (fun i e s => emit depth i e s) hub s.log.length event)
      (s.note (.begun hub event))).map fun t => t.note (.ended s.log.length)

/-! ## Registries -/

/-- Adds a registry that shares the hub of another one. -/
def clone (s : Switchboard ε) (registry : Nat) : Switchboard ε :=
  { s with registries := s.registries ++ [s.hubOf? registry] }

/-- Adds a registry with a hub of its own. -/
def fresh (s : Switchboard ε) : Switchboard ε :=
  { s with hubs := s.hubs ++ [{}], registries := s.registries ++ [some s.hubs.length] }

/-- Drops a registry. -/
def drop (s : Switchboard ε) (registry : Nat) : Switchboard ε :=
  { s with registries := s.registries.set registry none }

/-- What shows of every registry: how many listeners it has, `none` once it is dropped. -/
def sizes (s : Switchboard ε) : List (Option Nat) :=
  s.registries.map fun r => r.map fun i => (s.hub i).size

/-! ## Histories -/

/-- Something that is done with the registries and the handles. -/
inductive Act (ε : Type) where
  | register (registry : Nat) (callback : Callback ε)
  | unregister (name : String)
  | forget (name : String)
  | emit (registry : Nat) (event : ε)
  | clone (registry : Nat)
  | fresh
  | drop (registry : Nat)

/-- Does something, following nested emissions to a depth. With a registry that was dropped,
nothing can be done. -/
def act (depth : Nat) (s : Switchboard ε) : Act ε → Option (Switchboard ε)
  | .register registry callback =>
    some ((s.hubOf? registry).elim s fun hub => s.register hub callback)
  | .unregister name => some (s.unregister name)
  | .forget name => some (s.forget name)
  | .emit registry event => (s.hubOf? registry).elim (some s) fun hub => emit depth hub event s
  | .clone registry => some (s.clone registry)
  | .fresh => some s.fresh
  | .drop registry => some (s.drop registry)

/-- Does some things one after the other. -/
def run (depth : Nat) (acts : List (Act ε)) (s : Switchboard ε) : Option (Switchboard ε) :=
  acts.foldlM (act depth) s

end Switchboard

end TurnEngine
