import TurnEngine.Proofs.Run.Moves
import TurnEngine.Proofs.Run.Record

/-!
# Executions alike

Only a failed attempt reads how many attempts there were, and only the end of an execution reads
when it began. Two executions that differ in nothing else (`shifted`) therefore move alike until an
attempt fails: they ask for the same, tell the same warnings, and end with the same result up to
its duration (`SameMove`).
-/

namespace TurnEngine.Run

/-- The model is being asked. -/
def Phase.isAsking : Phase → Bool
  | .opening _ => true
  | .reading _ => true
  | _ => false

/-- A failed attempt waits to be repeated. -/
def Phase.isPausing : Phase → Bool
  | .pausing => true
  | _ => false

theorem Phase.isPausing_of_isAsking {p : Phase} (hp : p.isAsking = true) :
    p.isPausing = false := by
  cases p with
  | pausing => cases hp
  | _ => rfl

/-- The warning of a live event. -/
def LiveEvent.warning? : LiveEvent → Option ThresholdWarning
  | .usageWarning w => some w
  | _ => none

/-- The calls of a command. -/
def Command.calls? : Command → Option (List ToolCall)
  | .dispatch calls => some calls
  | _ => none

namespace Record

/-- The warnings that live listeners heard. -/
def warnings (r : Record) : List ThresholdWarning :=
  r.events.filterMap LiveEvent.warning?

/-- The batches of calls that were handed out. -/
def batches (r : Record) : List (List ToolCall) :=
  r.commands.filterMap Command.calls?

variable (r : Record) (now : Nat) (s : Stimulus)

theorem warnings_next :
    (r.next now s).warnings = r.warnings ++ (ofMove (r.execution.on now s)).warnings :=
  List.filterMap_append

theorem batches_next :
    (r.next now s).batches = r.batches ++ (ofMove (r.execution.on now s)).batches :=
  List.filterMap_append

theorem requests_next :
    (r.next now s).requests = r.requests ++ (ofMove (r.execution.on now s)).requests :=
  List.filterMap_append

end Record

namespace Execution

/-- The execution with another count of attempts and another start. -/
def shifted (x : Execution) (attempt startedAt : Nat) : Execution :=
  { x with attempt, startedAt }

/-- Two executions that differ in the attempts of the turn and in time. -/
inductive Alike (x : Execution) : Execution → Prop
  | going (n t : Nat) (h : ∀ result, x.phase ≠ .ended (.ok result)) : Alike x (x.shifted n t)
  | ended {y : Execution} {result : Result Message} (durationMs : Nat)
      (hx : x.phase = .ended (.ok result))
      (hy : y.phase = .ended (.ok { result with durationMs })) (hmeter : y.meter = x.meter)
      (hturns : result.turns = x.turns) : Alike x y

/-- Two moves alike from a number of turns on, neither after a failed attempt: a request begins a
turn. -/
structure SameMove (turns : Nat) (m m' : Move) : Prop where
  alike : Alike m.execution m'.execution
  warnings : (Record.ofMove m').warnings = (Record.ofMove m).warnings
  command : m'.command = m.command
  turns : m.execution.turns = turns + (Record.ofMove m).requests.length
  straight : ∀ ms, m.command ≠ some (.pause ms)

namespace SameMove

variable {turns : Nat} {m m' : Move}

theorem batches (h : SameMove turns m m') :
    (Record.ofMove m').batches = (Record.ofMove m).batches := by
  simp only [Record.batches, Record.ofMove, h.command]

theorem requests (h : SameMove turns m m') :
    (Record.ofMove m').requests = (Record.ofMove m).requests := by
  simp only [Record.requests, Record.ofMove, h.command]

theorem afterEvents (h : SameMove turns m m') (events : List LiveEvent) :
    SameMove turns (afterEvents events m) (afterEvents events m') where
  alike := h.alike
  warnings := by
    have hw := h.warnings
    simp only [Record.warnings, Record.ofMove, Execution.afterEvents, List.filterMap_append] at hw ⊢
    rw [hw]
  command := h.command
  turns := h.turns
  straight := h.straight

end SameMove

variable {x : Execution} (n t now now' : Nat)

theorem tell_shifted (x : Execution) (e : LiveEvent) :
    (x.shifted n t).tell e = ((x.tell e).1.shifted n t, (x.tell e).2) := by
  unfold tell shifted
  dsimp only
  cases x.setup.listener <;> rfl

theorem tellAll_shifted (x : Execution) (events : List LiveEvent) :
    (x.shifted n t).tellAll events = ((x.tellAll events).1.shifted n t, (x.tellAll events).2) := by
  induction events generalizing x with
  | nil => rfl
  | cons e events ih =>
    simp only [tellAll]
    rw [tell_shifted, ih]

theorem counting_shifted (x : Execution) (r : RoundTrip) :
    (x.shifted n t).counting r = ((x.counting r).1.shifted n t, (x.counting r).2) :=
  tellAll_shifted n t { x with meter := (x.meter.add r.usage).check.2 } _

/-- Whatever is told, the listener hears it in order or not at all. -/
theorem heard_subset (x : Execution) (events : List LiveEvent) :
    (x.tellAll events).2 ⊆ events := by
  induction events generalizing x with
  | nil => exact List.Subset.refl _
  | cons e events ih =>
    simp only [tellAll]
    intro e' he'
    rcases List.mem_append.1 he' with he' | he'
    · unfold tell at he'
      split at he'
      · cases he'
      · exact List.mem_cons.2 (.inl (List.mem_singleton.1 he'))
    · exact List.mem_cons_of_mem _ (ih _ he')

theorem warnings_conclude (x : Execution) (status : Status) (error : Option String) :
    (Record.ofMove (conclude now x status error)).warnings = [] := by
  unfold conclude tell
  dsimp only
  split <;> rfl

theorem conclude_same (x : Execution) (status : Status) (error : Option String) :
    SameMove x.turns (conclude now x status error)
      (conclude now' (x.shifted n t) status error) := by
  obtain ⟨fired, hx⟩ := conclude_eq now x status error
  obtain ⟨fired', hx'⟩ := conclude_eq now' (x.shifted n t) status error
  refine ⟨.ended (now' - t) (conclude_phase now x status error)
    (conclude_phase now' (x.shifted n t) status error) ?_ ?_, ?_, rfl, ?_, ?_⟩
  · rw [hx, hx']
    rfl
  · rw [hx]
    rfl
  · rw [warnings_conclude, warnings_conclude]
  · rw [hx]
    rfl
  · simp [conclude]

theorem refuse_same (x : Execution) (f : Failure) :
    SameMove x.turns (refuse x f) (refuse (x.shifted n t) f) where
  alike := .going n t (by simp [refuse])
  warnings := rfl
  command := rfl
  turns := rfl
  straight ms := by simp [refuse]

theorem stay_same (x : Execution) (h : ∀ result, x.phase ≠ .ended (.ok result)) :
    SameMove x.turns { execution := x } { execution := x.shifted n t } where
  alike := .going n t h
  warnings := rfl
  command := rfl
  turns := rfl
  straight ms := by simp

theorem beginTurn_same (x : Execution) :
    SameMove x.turns (beginTurn now x) (beginTurn now' (x.shifted n t)) := by
  cases hc : x.cancelled with
  | true =>
    rw [beginTurn_of_cancelled hc, beginTurn_of_cancelled (x := x.shifted n t) hc]
    exact conclude_same n t now now' x .aborted none
  | false =>
    rcases Nat.lt_or_ge x.turns x.setup.turnLimit with hl | hl
    · rw [beginTurn_of_left hc hl, beginTurn_of_left (x := x.shifted n t) hc hl]
      exact ⟨.going 1 t (by simp), rfl, rfl, rfl, by simp⟩
    · rw [beginTurn_of_limit hc hl, beginTurn_of_limit (x := x.shifted n t) hc hl]
      exact conclude_same n t now now' x .maxTurns none

theorem turnAnswered_same (x : Execution) (r : RoundTrip) :
    SameMove x.turns (turnAnswered now x r) (turnAnswered now' (x.shifted n t) r) := by
  obtain ⟨fired, hx⟩ := counting_eq x r
  by_cases hr : r.calls = []
  · rw [turnAnswered_of_nil hr, turnAnswered_of_nil hr, counting_shifted, hx]
    have h := conclude_same n t now now'
      { x with
        meter := (x.meter.add r.usage).check.2
        cancelled := fired
        messages := x.messages ++ [.assistant r.text] } .completed none
    exact h.afterEvents _
  · rw [turnAnswered_of_ne hr, turnAnswered_of_ne hr, counting_shifted, hx]
    exact ⟨.going n t (by simp), rfl, rfl, rfl, by simp⟩

/-! ## Between two turns -/

/-- The model is not being asked, and no attempt waits to be repeated. -/
def Resting (p : Phase) : Prop := p.isAsking = false ∧ p.isPausing = false

/-- A move that begins a turn by asking the model. -/
structure Asks (m : Move) : Prop where
  phase : m.execution.phase = .opening .started
  calm : m.execution.cancelled = false
  command : m.command = some (.openStream m.execution.request)

theorem on_ended {outcome : Except Failure (Result Message)} (hp : x.phase = .ended outcome)
    (s : Stimulus) : ∃ fired, x.on now s = { execution := { x with cancelled := fired } } := by
  cases s with
  | cancel => exact ⟨true, by simp only [on, signalled, hp]⟩
  | _ =>
    refine ⟨x.cancelled, ?_⟩
    simp only [on, hp]
    rw [← hp]

theorem conclude_rests (x : Execution) (status : Status) (error : Option String) :
    Resting (conclude now x status error).execution.phase := by
  rw [conclude_phase]
  exact ⟨rfl, rfl⟩

theorem beginTurn_rests_or_asks (x : Execution) :
    Resting (beginTurn now x).execution.phase ∨ Asks (beginTurn now x) := by
  cases hc : x.cancelled with
  | true =>
    rw [beginTurn_of_cancelled hc]
    exact .inl (conclude_rests now x _ _)
  | false =>
    rcases Nat.lt_or_ge x.turns x.setup.turnLimit with hl | hl
    · rw [beginTurn_of_left hc hl]
      exact .inr ⟨rfl, hc, rfl⟩
    · rw [beginTurn_of_limit hc hl]
      exact .inl (conclude_rests now x _ _)

theorem turnAnswered_rests (x : Execution) (r : RoundTrip) :
    Resting (turnAnswered now x r).execution.phase := by
  by_cases hr : r.calls = []
  · rw [turnAnswered_of_nil hr]
    exact conclude_rests now _ _ _
  · rw [turnAnswered_of_ne hr]
    exact ⟨rfl, rfl⟩

/-- Between two turns, executions alike move alike, and at most begin a turn. -/
theorem on_same {y : Execution} (hx : Resting x.phase) (h : Alike x y) (s : Stimulus) :
    SameMove x.turns (x.on now s) (y.on now' s) ∧
      (Resting (x.on now s).execution.phase ∨ Asks (x.on now s)) := by
  cases h with
  | ended durationMs hpx hpy hmeter hturns =>
    obtain ⟨fired, hs⟩ := on_ended now hpx s
    obtain ⟨fired', hs'⟩ := on_ended now' hpy s
    rw [hs, hs']
    refine ⟨⟨.ended durationMs hpx hpy hmeter hturns, rfl, rfl, rfl, by simp⟩, .inl hx⟩
  | going n t hgoing =>
    have hstay : SameMove x.turns { execution := x } { execution := x.shifted n t } ∧
        (Resting ({ execution := x } : Move).execution.phase ∨ Asks { execution := x }) :=
      ⟨stay_same n t x hgoing, .inl hx⟩
    have hfire := stay_same n t { x with cancelled := true } hgoing
    cases hp : x.phase with
    | opening r => simp [Resting, hp, Phase.isAsking] at hx
    | reading r => simp [Resting, hp, Phase.isAsking] at hx
    | pausing => simp [Resting, hp, Phase.isPausing] at hx
    | ended outcome =>
      have hp' : (x.shifted n t).phase = .ended outcome := hp
      cases s with
      | cancel =>
        simp only [on, signalled, hp, hp']
        rw [← hp]
        exact ⟨hfire, .inl hx⟩
      | _ => simpa only [on, hp, hp'] using hstay
    | admission =>
      have hp' : (x.shifted n t).phase = .admission := hp
      cases s with
      | admitted =>
        simp only [on, hp, hp']
        exact ⟨beginTurn_same n t now now' x, beginTurn_rests_or_asks now x⟩
      | refused f =>
        simp only [on, hp, hp']
        exact ⟨refuse_same n t x f, .inl ⟨rfl, rfl⟩⟩
      | cancel =>
        simp only [on, signalled, hp, hp']
        exact ⟨conclude_same n t now now' { x with cancelled := true } .aborted none,
          .inl (conclude_rests now _ _ _)⟩
      | _ => simpa only [on, hp, hp'] using hstay
    | dispatching calls =>
      have hp' : (x.shifted n t).phase = .dispatching calls := hp
      cases s with
      | results rs =>
        simp only [on, hp, hp']
        exact ⟨beginTurn_same n t now now'
          { x with messages := x.messages ++ [.ofResults (pairResults calls rs)] },
          beginTurn_rests_or_asks now _⟩
      | cancel =>
        simp only [on, signalled, hp, hp']
        rw [← hp]
        exact ⟨hfire, .inl hx⟩
      | _ => simpa only [on, hp, hp'] using hstay

/-- Executions of one setup begin alike at any time, and without a request. -/
theorem start_same (setup : Setup) (history : List Message) (cancelled : Bool) :
    SameMove 0 (start now setup history cancelled) (start now' setup history cancelled) ∧
      Resting (start now setup history cancelled).execution.phase ∧
      (Record.ofMove (start now setup history cancelled)).requests = [] := by
  let x : Execution :=
    { setup, messages := history, cancelled, startedAt := now
      meter := Meter.new setup.config.contextWindow setup.config.usageThresholds }
  unfold start
  dsimp only
  split
  · exact ⟨refuse_same 0 now' x _, ⟨rfl, rfl⟩, rfl⟩
  · split
    · exact ⟨refuse_same 0 now' x _, ⟨rfl, rfl⟩, rfl⟩
    · split
      · exact ⟨conclude_same 0 now' now now' x .aborted none, conclude_rests now x _ _, rfl⟩
      · exact ⟨⟨.going 0 now' (by simp), rfl, rfl, rfl, by simp⟩, ⟨rfl, rfl⟩, rfl⟩

end Execution

end TurnEngine.Run
