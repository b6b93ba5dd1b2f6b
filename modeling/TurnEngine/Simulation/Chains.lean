import TurnEngine.Fallback.Chain
import TurnEngine.Simulation.Act

/-!
# Simulating fallback chains

Runs of one fallback chain in virtual time, with scripted work. Beside the runs there are holds:
calls through a breaker that take a while and end while later runs wait. Of what is due at one
moment the holds come first, the oldest before the others, and then the run.
-/

namespace TurnEngine.Simulation

/-- A call in flight beside the runs. -/
structure Hold where
  pass : Breaker.Pass
  endsAt : Nat
  outcome : Except Failure Json

/-- A clock, the breakers, and the holds in flight, oldest first. -/
structure TimedChains where
  now : Nat := 0
  registry : Breaker.Registry := {}
  holds : List Hold := []
  /-- The results of the holds that ended in this step. -/
  held : List (Except Failure Json) := []
  /-- The providers that were asked for. -/
  providers : List String := []

namespace TimedChains

/-- Ends a hold: its breaker learns how it went. -/
def settle (d : TimedChains) (h : Hold) : TimedChains :=
  { d with
    registry := d.registry.settle h.endsAt h.pass (Breaker.Outcome.ofResult h.outcome)
    held := d.held ++ [h.outcome] }

/-- The holds in the order in which they end. -/
def byEnd (hs : List Hold) : List Hold :=
  hs.mergeSort fun a b => a.endsAt ≤ b.endsAt

/-- Lets time pass up to a moment; holds end on the way. -/
def advanceTo (d : TimedChains) (t : Nat) : TimedChains :=
  let due := byEnd (d.holds.filter fun h => h.endsAt ≤ t)
  { due.foldl settle { d with holds := d.holds.filter fun h => t < h.endsAt } with now := t }

/-- Sleeps. -/
def advance (d : TimedChains) (ms : Nat) : TimedChains :=
  d.advanceTo (Clock.after d.now ms)

/-- Takes down a provider. -/
def know (d : TimedChains) (provider : String) : TimedChains :=
  if d.providers.contains provider then d
  else { d with providers := d.providers ++ [provider] }

/-- Begins a hold on a provider; one that is turned away or takes no time ends at once. -/
def hold (d : TimedChains) (provider : String) (a : Act) : TimedChains :=
  let d := d.know provider
  match d.registry.request d.now provider with
  | (registry, .error f) => { d with registry, held := d.held ++ [.error f] }
  | (registry, .ok pass) =>
    let h : Hold := ⟨pass, Clock.after d.now a.takesMs, a.outcome⟩
    TimedChains.advanceTo { d with registry, holds := d.holds ++ [h] } d.now

/-- Begins a step. -/
def nextStep (d : TimedChains) : TimedChains := { d with held := [] }

/-- The state and the failures of every provider that was asked for, in ascending order. -/
def breakers (d : TimedChains) : List (String × Circuit × Nat) :=
  (d.providers.mergeSort fun a b => !(b < a)).map fun p =>
    (p, (d.registry.observe d.now p).2, (d.registry.get p).failures)

end TimedChains

/-- A run of a chain. -/
structure ChainRun where
  candidates : List String
  /-- The acts for every model, by qualified name. A model without acts gives its name. -/
  work : Table (List Act) := {}
  signal : Signal := .never
  /-- When the run is dropped. -/
  dropAt : Option Nat := none

/-- The world of a run. -/
structure ChainWorld where
  state : TimedChains
  run : ChainRun
  began : Nat
  signal : Signal
  /-- How often each model was called. -/
  used : Table Nat := {}
  /-- The calls and their times since the run began. -/
  calls : List (String × Nat) := []

namespace ChainWorld

/-- Waits until a moment, unless the run is dropped before. -/
def waitUntil {α : Type} (w : ChainWorld) (t : Nat) (a : α) : Fallback.Waited α × ChainWorld :=
  if t = w.state.now then (.back a, w)
  else
    match w.run.dropAt with
    | some d =>
      if d < t then (.dropped, { w with state := w.state.advanceTo (max w.state.now d) })
      else (.back a, { w with state := w.state.advanceTo t })
    | none => (.back a, { w with state := w.state.advanceTo t })

/-- Waits for a duration, or until the signal fires. -/
def sleep (ms : Nat) (w : ChainWorld) : Fallback.Waited Bool × ChainWorld :=
  match w.signal.sleep w.state.now ms with
  | .elapsed t => w.waitUntil t true
  | .cancelled t => w.waitUntil t false

/-- The act for a call. -/
def actFor (w : ChainWorld) (name : String) (n : Nat) : Act :=
  (Act.nth? ((w.run.work.get? name).getD []) n).getD { outcome := .ok (.str name) }

/-- Does the work on a model. -/
def work (m : Model) (w : ChainWorld) : Fallback.Waited (Except Failure Json) × ChainWorld :=
  let name := m.qualifiedName
  let n := (w.used.get? name).getD 0
  let a := w.actFor name n
  let now := w.state.now
  let w := { w with
    used := w.used.insert name (n + 1)
    calls := w.calls ++ [(name, now - w.began)]
    signal := a.signalAfter now w.signal }
  w.waitUntil (Clock.after now a.takesMs) a.outcome

/-- The world in which a chain runs. -/
def world : Fallback.World ChainWorld Json where
  now w := w.state.now
  cancelled w := w.signal.firedBy w.state.now
  breakers w := w.state.registry
  setBreakers r w := { w with state := { w.state with registry := r } }
  work
  sleep

end ChainWorld

namespace TimedChains

/-- Runs a chain: its course, its ending, and the world after it. -/
def run (d : TimedChains) (c : Fallback.Chain) (r : ChainRun) :
    List Fallback.Event × Fallback.Ending Json × ChainWorld :=
  let d := (r.candidates.filterMap c.resolve).foldl (fun d m => d.know m.provider) d
  let w : ChainWorld := { state := d, run := r, began := d.now, signal := r.signal }
  c.run ChainWorld.world r.candidates w

end TimedChains

end TurnEngine.Simulation
