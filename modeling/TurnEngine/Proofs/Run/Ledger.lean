import TurnEngine.Proofs.Run.RoundTrips

/-!
# The finished turns of an execution

A turn with tools is finished once the results of its calls are there. The ledger of an execution
lists its finished turns, each with the answer as its round trip put it together and with the
results; it is written from what reached the execution (`Ledger.note`), not from what the execution
kept. `Ledger.Balances` says that the two agree: at every point at which an execution is suspended,
its messages and its usage are those of the finished turns, up to the answer whose tools are
running. Every move keeps that (`Execution.on_balances`).
-/

namespace TurnEngine.Run

/-- A turn whose tools have run. -/
structure FinishedTurn where
  answer : RoundTrip
  results : List ToolResult

/-- The turns that an execution has finished. -/
structure Ledger where
  turns : List FinishedTurn := []
  /-- The last answer that came, if its turn is not finished. -/
  answer : Option RoundTrip := none

namespace Ledger

/-- The messages of the finished turns. -/
def messages (l : Ledger) : List Message :=
  l.turns.flatMap fun t =>
    [.assistantWithTools t.answer.text t.answer.calls, .ofResults t.results]

/-- The usage of the finished turns. -/
def usage (l : Ledger) : Usage :=
  l.turns.foldl (fun u t => u + t.answer.usage) {}

/-- Takes down what reaches an execution: the last item of an answer, and the results of a batch
of calls. -/
def note (l : Ledger) (x : Execution) : Stimulus → Ledger
  | .item i =>
    match x.phase with
    | .reading r =>
      match r.meet (.item i) with
      | .answered r' => { l with answer := some r' }
      | _ => l
    | _ => l
  | .results rs =>
    match x.phase, l.answer with
    | .dispatching calls, some r => ⟨l.turns ++ [⟨r, pairResults calls rs⟩], none⟩
    | _, _ => l
  | _ => l

theorem note_results {l : Ledger} {x : Execution} {calls : List ToolCall} {r : RoundTrip}
    (hp : x.phase = .dispatching calls) (hr : l.answer = some r) (rs : List ToolResult) :
    l.note x (.results rs) = ⟨l.turns ++ [⟨r, pairResults calls rs⟩], none⟩ := by
  simp only [note, hp, hr]

theorem messages_concat (l : Ledger) (t : FinishedTurn) (answer : Option RoundTrip) :
    (Ledger.mk (l.turns ++ [t]) answer).messages = l.messages ++
      [.assistantWithTools t.answer.text t.answer.calls, .ofResults t.results] := by
  simp [messages]

theorem usage_concat (l : Ledger) (t : FinishedTurn) (answer : Option RoundTrip) :
    (Ledger.mk (l.turns ++ [t]) answer).usage = l.usage + t.answer.usage := by
  simp [usage]

/-! ## Books that balance -/

section
variable (history : List Message) (l : Ledger)

/-- All turns are finished. -/
structure Between (x : Execution) : Prop where
  messages : x.messages = history ++ l.messages
  usage : x.meter.usage = l.usage
  turns : x.turns = l.turns.length

/-- A turn is under way that has no answer so far. -/
structure Asking (x : Execution) : Prop where
  messages : x.messages = history ++ l.messages
  usage : x.meter.usage = l.usage
  turns : x.turns = l.turns.length + 1

/-- The tools of an answer are running. -/
structure Running (calls : List ToolCall) (x : Execution) : Prop where
  answered : ∃ r, l.answer = some r ∧ r.calls = calls ∧
    x.messages = history ++ l.messages ++ [.assistantWithTools r.text r.calls] ∧
    x.meter.usage = l.usage + r.usage
  turns : x.turns = l.turns.length + 1

/-- What an execution keeps in a phase is what its ledger says. -/
def BalancesIn (x : Execution) : Phase → Prop
  | .admission => l = {} ∧ Between history l x
  | .opening _ => Asking history l x
  | .reading _ => Asking history l x
  | .pausing => Asking history l x
  | .dispatching calls => Running history l calls x
  | .ended _ => True

/-- What an execution keeps is what its ledger says. -/
def Balances (x : Execution) : Prop := BalancesIn history l x x.phase

end

end Ledger

namespace Execution

open Ledger

variable {history : List Message} {l : Ledger} {x : Execution}

theorem conclude_balances (now : Nat) (x : Execution) (status : Status) (error : Option String) :
    Balances history l (conclude now x status error).execution := by
  unfold Balances
  rw [conclude_phase]
  trivial

theorem attemptFailed_balances (h : Asking history l x) (now : Nat) (f : Failure) :
    Balances history l (attemptFailed now x f).execution := by
  rcases attemptFailed_cases now x f with ⟨ms, -, hm⟩ | ⟨status, error, -, hm⟩ <;> rw [hm]
  · exact ⟨h.messages, h.usage, h.turns⟩
  · exact conclude_balances now x status error

theorem beginAttempt_balances (h : Asking history l x) (now : Nat) :
    Balances history l (beginAttempt now x).execution := by
  cases hc : x.cancelled with
  | true =>
    rw [beginAttempt_of_cancelled hc]
    exact conclude_balances now x .aborted none
  | false =>
    rw [beginAttempt_of_not_cancelled hc]
    exact ⟨h.messages, h.usage, h.turns⟩

theorem beginTurn_balances (h : Between history l x) (now : Nat) :
    Balances history l (beginTurn now x).execution := by
  cases hc : x.cancelled with
  | true =>
    rw [beginTurn_of_cancelled hc]
    exact conclude_balances now x .aborted none
  | false =>
    rcases Nat.lt_or_ge x.turns x.setup.turnLimit with hl | hl
    · rw [beginTurn_of_left hc hl]
      exact ⟨h.messages, h.usage, congrArg (· + 1) h.turns⟩
    · rw [beginTurn_of_limit hc hl]
      exact conclude_balances now x .maxTurns none

theorem pullNext_balances (h : Asking history l x) (now : Nat) (r : RoundTrip) :
    Balances history l (pullNext now x r).execution := by
  unfold pullNext
  split
  · exact attemptFailed_balances h now _
  · exact ⟨h.messages, h.usage, h.turns⟩

/-- An answer with calls is taken down while its tools run. -/
theorem turnAnswered_balances (h : Asking history l x) (now : Nat) (r : RoundTrip) :
    Balances history { l with answer := some r } (turnAnswered now x r).execution := by
  by_cases hr : r.calls = []
  · rw [turnAnswered_of_nil hr]
    exact conclude_balances _ _ _ _
  · obtain ⟨fired, hx⟩ := counting_eq x r
    have husage : (x.meter.add r.usage).check.2.usage = l.usage + r.usage := by
      show x.meter.usage + r.usage = _
      rw [h.usage]
    rw [turnAnswered_of_ne hr, hx]
    refine ⟨⟨r, rfl, rfl, ?_, husage⟩, h.turns⟩
    show x.messages ++ _ = _
    rw [h.messages]
    rfl

/-- An item of the stream: the ledger has the answer if the item was its last. -/
theorem follow_balances (h : Asking history l x) (now : Nat) (r : RoundTrip)
    (i : Option (Except Failure StreamEvent)) :
    Balances history
      (match r.meet (.item i) with
        | .answered r' => { l with answer := some r' }
        | _ => l)
      (follow now x r (.item i)).execution := by
  obtain ⟨fired, hx⟩ := tellAll_eq x ((reports r (.item i)).map x.liveReport)
  have h' : Asking history l (x.tellAll ((reports r (.item i)).map x.liveReport)).1 := by
    rw [hx]
    exact ⟨h.messages, h.usage, h.turns⟩
  simp only [follow, noting, afterEvents_execution]
  cases r.meet (.item i) with
  | underWay r' => exact pullNext_balances h' now r'
  | answered r' => exact turnAnswered_balances h' now r'
  | failed f => exact attemptFailed_balances h' now f

theorem results_balances {calls : List ToolCall} (h : Running history l calls x)
    (hp : x.phase = .dispatching calls) (rs : List ToolResult) :
    (l.note x (.results rs)).turns.length = x.turns ∧
    x.messages ++ [.ofResults (pairResults calls rs)] =
      history ++ (l.note x (.results rs)).messages ∧
    x.meter.usage = (l.note x (.results rs)).usage := by
  obtain ⟨r, hr, rfl, hmessages, husage⟩ := h.answered
  rw [note_results hp hr, messages_concat, usage_concat, hmessages, husage, List.length_append]
  refine ⟨h.turns.symm, ?_, rfl⟩
  simp only [List.append_assoc, List.cons_append, List.nil_append]

theorem balancesIn (h : Balances history l x) {p : Phase} (hp : x.phase = p) :
    BalancesIn history l x p :=
  hp ▸ h

theorem fire_balances (h : Balances history l x) (fired : Bool) :
    Balances history l { x with cancelled := fired } := by
  unfold Balances at h ⊢
  dsimp only
  generalize x.phase = p at h ⊢
  cases p with
  | admission => exact ⟨h.1, h.2.messages, h.2.usage, h.2.turns⟩
  | opening => exact ⟨h.messages, h.usage, h.turns⟩
  | reading => exact ⟨h.messages, h.usage, h.turns⟩
  | pausing => exact ⟨h.messages, h.usage, h.turns⟩
  | dispatching => exact ⟨h.answered, h.turns⟩
  | ended => trivial

theorem on_balances_of_unnoted (h : Balances history l x) (now : Nat) {s : Stimulus}
    (hi : ∀ i, s ≠ .item i) (hr : ∀ rs, s ≠ .results rs) :
    Balances history l (x.on now s).execution := by
  have hfire := fire_balances h true
  have hdoes := on_does now x s
  generalize x.on now s = m at hdoes ⊢
  cases hdoes with
  | begin hp => exact beginTurn_balances (balancesIn h hp).2 now
  | refuse f => trivial
  | read hp => exact pullNext_balances (balancesIn h hp) now _
  | fail f hp => exact attemptFailed_balances (balancesIn h hp) now f
  | take i => exact absurd rfl (hi i)
  | retry hp => exact beginAttempt_balances (balancesIn h hp) now
  | answer rs => exact absurd rfl (hr rs)
  | abort => exact conclude_balances now _ _ _
  | interrupt hp =>
    rcases hp with hp | hp <;> exact attemptFailed_balances (balancesIn hfire hp) now _
  | note => exact hfire
  | ignore => exact h

theorem on_item_balances (h : Balances history l x) (now : Nat)
    (i : Option (Except Failure StreamEvent)) :
    Balances history (l.note x (.item i)) (x.on now (.item i)).execution := by
  cases hp : x.phase with
  | reading r =>
    rw [show Stimulus.item i = stimulus (.item i) from rfl, on_reading hp]
    simp only [note, stimulus, hp]
    exact follow_balances (balancesIn h hp) now r i
  | _ => simpa only [note, on, hp] using h

theorem on_results_balances (h : Balances history l x) (now : Nat) (rs : List ToolResult) :
    Balances history (l.note x (.results rs)) (x.on now (.results rs)).execution := by
  cases hp : x.phase with
  | dispatching calls =>
    obtain ⟨hturns, hmessages, husage⟩ := results_balances (balancesIn h hp) hp rs
    have hbetween : Between history (l.note x (.results rs))
        { x with messages := x.messages ++ [.ofResults (pairResults calls rs)] } :=
      ⟨hmessages, husage, hturns.symm⟩
    simp only [on, hp]
    exact beginTurn_balances hbetween now
  | _ => simpa only [note, on, hp] using h

/-- Whatever reaches an execution, its ledger goes along. -/
theorem on_balances (h : Balances history l x) (now : Nat) (s : Stimulus) :
    Balances history (l.note x s) (x.on now s).execution := by
  cases s with
  | item i => exact on_item_balances h now i
  | results rs => exact on_results_balances h now rs
  | _ => exact on_balances_of_unnoted h now (fun _ => nofun) (fun _ => nofun)

/-- An execution that waits to be admitted has no turns behind it. -/
theorem start_balances (now : Nat) (setup : Setup) (history : List Message) (cancelled : Bool) :
    Balances history {} (start now setup history cancelled).execution := by
  unfold start
  dsimp only
  split
  · trivial
  · split
    · trivial
    · split
      · exact conclude_balances _ _ _ _
      · exact ⟨rfl, (List.append_nil history).symm, rfl, rfl⟩

end Execution

end TurnEngine.Run
