import TurnEngine.Proofs.Run.RoundTrips
import TurnEngine.Proofs.Stream.Deltas

/-!
# The journal of an execution

A journal goes along with the record of an execution and writes down, turn by turn and attempt by
attempt, what was asked and what reached the attempt (`Books`), and whether somebody fired the
signal before the execution was over. It looks at where the execution is suspended, to know what a
stimulus reaches, and at nothing that the execution keeps; how an attempt went is read off its
arrivals (`Try.progress`).
-/

namespace TurnEngine.Run

open RoundTrip (Arrival Progress)

/-- One attempt: what the model was asked, and what reached the attempt. A stream that does not
open counts as one that fails at once. -/
structure Try where
  request : Request
  arrivals : List Arrival := []

def Try.progress (t : Try) : Progress := RoundTrip.course t.arrivals

/-- The usage that counts: that of a successful attempt. -/
def Try.deltas (t : Try) : List Usage :=
  match t.progress with
  | .answered _ => RoundTrip.deltas t.arrivals
  | _ => []

/-- A turn: its attempts, and the results of the calls that were answered with. -/
structure Turn where
  /-- The attempts that others came after. -/
  earlier : List Try := []
  last : Try
  results : Option (List ToolResult) := none

namespace Turn

def tries (t : Turn) : List Try := t.earlier ++ [t.last]

def progress (t : Turn) : Progress := t.last.progress

/-- The usage that counts: no attempt but the last one succeeded. -/
def deltas (t : Turn) : List Usage := t.last.deltas

/-- What the turn adds to the conversation. -/
def messages (t : Turn) : List Message :=
  match t.progress with
  | .answered r =>
    (if r.calls.isEmpty then .assistant r.text else .assistantWithTools r.text r.calls)
      :: (t.results.map Message.ofResults).toList
  | _ => []

def arrive (t : Turn) (a : Arrival) : Turn :=
  { t with last := { t.last with arrivals := t.last.arrivals ++ [a] } }

def again (t : Turn) (q : Request) : Turn := { earlier := t.tries, last := { request := q } }

/-- What happens to an execution in a phase reaches its attempt or brings the results. -/
def take (t : Turn) : Phase → Stimulus → Turn
  | .opening _, .opened (.error f) => t.arrive (.fault f)
  | .opening _, .cancel => t.arrive .cancel
  | .reading _, .item i => t.arrive (.item i)
  | .reading _, .cancel => t.arrive .cancel
  | .dispatching calls, .results rs => { t with results := some (pairResults calls rs) }
  | _, _ => t

/-- The turn was answered with calls, and has their results. -/
def Finished (t : Turn) : Prop :=
  ∃ r, t.progress = .answered r ∧ r.calls ≠ [] ∧ t.results.isSome

end Turn

/-- The turns of an execution. -/
structure Books where
  /-- The turns that others came after. -/
  earlier : List Turn := []
  last : Option Turn := none

namespace Books

def turns (b : Books) : List Turn := b.earlier ++ b.last.toList

def messages (b : Books) : List Message := b.turns.flatMap Turn.messages

def deltas (b : Books) : List Usage := b.turns.flatMap Turn.deltas

def requests (b : Books) : List Request := b.turns.flatMap fun t => t.tries.map (·.request)

def withLast (b : Books) (t : Turn) : Books := { b with last := some t }

def begin (b : Books) (q : Request) : Books :=
  { earlier := b.turns, last := some { last := { request := q } } }

/-- Writes down what happens to an execution in a phase. -/
def take (b : Books) (p : Phase) (s : Stimulus) : Books :=
  { b with last := b.last.map (·.take p s) }

/-- Writes down a request: after a pause it is another attempt, otherwise a turn begins. -/
def ask (b : Books) (s : Stimulus) : Option Command → Books
  | some (.openStream q) =>
    match s, b.last with
    | .awake, some t => b.withLast (t.again q)
    | _, _ => b.begin q
  | _ => b

end Books

def LiveEvent.isDone : LiveEvent → Bool
  | .done _ => true
  | _ => false

/-- Whether the listener fires the signal when it hears an event, if it is not too late. -/
def Setup.fires (s : Setup) (e : LiveEvent) : Bool :=
  match s.listener with
  | none => false
  | some listener => !e.isDone && listener.fires e

def Phase.isEnded : Phase → Bool
  | .ended _ => true
  | _ => false

def Phase.result? : Phase → Option (Result Message)
  | .ended (.ok result) => some result
  | _ => none

theorem Phase.result?_eq_some {p : Phase} {result : Result Message} :
    p.result? = some result ↔ p = .ended (.ok result) := by
  unfold result?
  split <;> simp_all

/-- Whether the caller fires the signal of an execution that is not over. -/
def Stimulus.fires (s : Stimulus) (p : Phase) : Bool :=
  match s with
  | .cancel => !p.isEnded
  | _ => false

/-- A record, its books, and whether the signal was fired in time. -/
structure Journal where
  record : Record
  books : Books := {}
  fired : Bool

namespace Journal

def next (j : Journal) (now : Nat) (s : Stimulus) : Journal :=
  let x := j.record.execution
  let m := x.on now s
  { record := j.record.next now s
    books := (j.books.take x.phase s).ask s m.command
    fired := j.fired || s.fires x.phase || m.events.any x.setup.fires }

def run (now : Nat) (setup : Setup) (history : List Message) (cancelled : Bool)
    (happenings : List (Nat × Stimulus)) : Journal :=
  happenings.foldl (fun j h => j.next h.1 h.2)
    { record := .ofMove (Execution.start now setup history cancelled), fired := cancelled }

theorem record_run (now : Nat) (setup : Setup) (history : List Message) (cancelled : Bool)
    (happenings : List (Nat × Stimulus)) :
    (run now setup history cancelled happenings).record
      = Record.run now setup history cancelled happenings := by
  unfold run Record.run Record.after
  generalize hj : Journal.mk (.ofMove (Execution.start now setup history cancelled)) {} cancelled
    = j
  rw [show Record.ofMove (Execution.start now setup history cancelled) = j.record by rw [← hj]]
  clear hj
  induction happenings generalizing j with
  | nil => rfl
  | cons h hs ih => exact ih (j.next h.1 h.2)

/-- What holds of a start and is kept by whatever happens next holds of every run. -/
theorem run_induct {P : Journal → Prop} {now : Nat} {setup : Setup} {history : List Message}
    {cancelled : Bool}
    (hstart : P { record := .ofMove (Execution.start now setup history cancelled)
                  fired := cancelled })
    (hnext : ∀ j now s, P j → P (j.next now s)) (happenings : List (Nat × Stimulus)) :
    P (run now setup history cancelled happenings) := by
  unfold run
  generalize Journal.mk (.ofMove (Execution.start now setup history cancelled)) {} cancelled = j
    at hstart ⊢
  induction happenings generalizing j with
  | nil => exact hstart
  | cons h hs ih => exact ih _ (hnext j h.1 h.2 hstart)

end Journal

/-! ## Turns and books -/

namespace Turn

variable {t : Turn} {r : RoundTrip}

@[simp] theorem length_tries (t : Turn) : t.tries.length = t.earlier.length + 1 := by
  simp [tries]

theorem length_tries_arrive (t : Turn) (a : Arrival) :
    (t.arrive a).tries.length = t.tries.length := by
  simp [arrive]

theorem messages_of_not_answered (h : ∀ r, t.progress ≠ .answered r) : t.messages = [] := by
  unfold messages
  split
  · exact absurd ‹_› (h _)
  · rfl

theorem deltas_of_not_answered (h : ∀ r, t.progress ≠ .answered r) : t.deltas = [] := by
  unfold deltas Try.deltas
  split
  · exact absurd ‹_› (h _)
  · rfl

theorem messages_of_answered (h : t.progress = .answered r) :
    t.messages = (if r.calls.isEmpty then .assistant r.text
      else .assistantWithTools r.text r.calls) :: (t.results.map Message.ofResults).toList := by
  simp only [messages, h]

theorem deltas_of_answered (h : t.progress = .answered r) :
    t.deltas = RoundTrip.deltas t.last.arrivals := by
  unfold deltas Try.deltas
  rw [show t.last.progress = .answered r from h]

/-- A round trip that is under way meets what reaches its attempt. -/
theorem progress_arrive (h : t.progress = .underWay r) (a : Arrival) :
    (t.arrive a).progress = r.meet a := by
  rw [← RoundTrip.through_singleton]
  exact RoundTrip.course_append h [a]

theorem requests_take (t : Turn) (p : Phase) (s : Stimulus) :
    (t.take p s).tries.map (·.request) = t.tries.map (·.request) := by
  unfold take
  split <;> simp [tries, arrive]

end Turn

namespace Books

variable {b : Books} {t : Turn}

theorem turns_of_last (h : b.last = some t) : b.turns = b.earlier ++ [t] := by
  simp [turns, h]

@[simp] theorem turns_withLast (b : Books) (t : Turn) : (b.withLast t).turns = b.earlier ++ [t] :=
  rfl

@[simp] theorem turns_begin (b : Books) (q : Request) :
    (b.begin q).turns = b.turns ++ [{ last := { request := q } }] := rfl

@[simp] theorem messages_begin (b : Books) (q : Request) :
    (b.begin q).messages = b.messages := by
  have hnew : ({ last := { request := q } } : Turn).messages = [] := rfl
  simp [messages, hnew]

@[simp] theorem deltas_begin (b : Books) (q : Request) : (b.begin q).deltas = b.deltas := by
  have hnew : ({ last := { request := q } } : Turn).deltas = [] := rfl
  simp [deltas, hnew]

theorem take_of_last (h : b.last = some t) (p : Phase) (s : Stimulus) :
    b.take p s = b.withLast (t.take p s) := by
  simp [take, withLast, h]

theorem take_of_same (h : ∀ t, b.last = some t → t.take p s = t) : b.take p s = b := by
  obtain ⟨earlier, _ | t⟩ := b
  · rfl
  · simp [take, h t rfl]

theorem ask_again (h : b.last = some t) (q : Request) :
    b.ask .awake (some (.openStream q)) = b.withLast (t.again q) := by
  simp only [ask, h]

theorem ask_begin {s : Stimulus} (hs : s ≠ .awake) (q : Request) :
    b.ask s (some (.openStream q)) = b.begin q := by
  cases s with
  | awake => exact absurd rfl hs
  | _ => rfl

theorem requests_take (b : Books) (p : Phase) (s : Stimulus) :
    (b.take p s).requests = b.requests := by
  obtain ⟨earlier, _ | t⟩ := b
  · rfl
  · simp [requests, take, turns, Turn.requests_take]

/-- Every request is written down, and nothing else. -/
theorem requests_ask (b : Books) (s : Stimulus) (m : Move) :
    (b.ask s m.command).requests = b.requests ++ (Record.ofMove m).requests := by
  unfold ask
  split
  · rename_i q hq
    have hm : (Record.ofMove m).requests = [q] := by simp [Record.requests, Record.ofMove, hq]
    rw [hm]
    split
    · simp [requests, turns_of_last ‹_›, Turn.tries, Turn.again]
    · simp [requests, Turn.tries]
  · rename_i hno
    have hm : (Record.ofMove m).requests = [] :=
      List.eq_nil_iff_forall_not_mem.2 fun q hq => hno q (Record.mem_requests_ofMove hq)
    rw [hm, List.append_nil]

end Books

end TurnEngine.Run
