/-!
# Listener hubs

A hub is an ordered list of registered callbacks. Registering gives a number under which the
callback can be removed again. An emission reaches the callbacks registered at its start, each
once and in order of registration, whatever they do to the hub meanwhile.
-/

namespace TurnEngine

/-- What a callback ends with that does not return. -/
inductive Panic where
  | panic
  deriving DecidableEq, Repr

/-- What a call of a callback leaves behind. A panic ends the call and goes no further. -/
def guarded {α : Type} : Except Panic Unit × α → α
  | (.ok (), a) => a
  | (.error .panic, a) => a

@[simp] theorem guarded_eq {α : Type} (call : Except Panic Unit × α) : guarded call = call.2 := by
  obtain ⟨_ | _, a⟩ := call <;> rfl

/-- Registered callbacks, oldest first, each under its own number. -/
structure Hub (κ : Type) where
  nextId : Nat := 0
  entries : List (Nat × κ) := []

namespace Hub

variable {κ σ : Type}

/-- The callbacks in order of registration. -/
def callbacks (h : Hub κ) : List κ :=
  h.entries.map (·.2)

/-- Adds a callback; gives its number. -/
def register (h : Hub κ) (callback : κ) : Nat × Hub κ :=
  (h.nextId, ⟨h.nextId + 1, h.entries ++ [(h.nextId, callback)]⟩)

/-- Removes the callback with a number. -/
def unregister (h : Hub κ) (id : Nat) : Hub κ :=
  { h with entries := h.entries.filter fun e => e.1 ≠ id }

/-- The number of registered callbacks. -/
def size (h : Hub κ) : Nat :=
  h.entries.length

/-- Calls the callbacks registered now, one after the other, in a world that they may change. -/
def emit (h : Hub κ) (call : κ → σ → σ) (world : σ) : σ :=
  h.callbacks.foldl (fun w c => call c w) world

/-- Calls the callbacks registered now, each under its number. -/
def emitEach (h : Hub κ) (call : Nat → κ → σ → σ) (world : σ) : σ :=
  h.entries.foldl (fun w e => call e.1 e.2 w) world

/-- Calls the callbacks registered now, each under its number, as long as the calls have an
outcome. -/
def emitEach? (h : Hub κ) (call : Nat → κ → σ → Option σ) (world : σ) : Option σ :=
  h.entries.foldlM (fun w e => call e.1 e.2 w) world

end Hub

end TurnEngine
