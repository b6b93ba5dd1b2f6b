import TurnEngine.Proofs.Stream.Deltas

/-!
# What an answer says

What a round trip makes of its stream can be read off the events alone, without the parts that put
it together: the text is all text in order, the usage is the sum of what was counted, and the calls
are those that were open when a close arrived. Which call is open after some events depends on the
last start or close among them, and its arguments on the fragments that came after it (`openCall?`).

A round trip that is under way holds just what the events so far say (`Holds`); one event keeps that
(`Holds.accept`), and so do all events of a stream (`course_holds`). The end of the stream, the end
of the answer, or a failure of the stream then decides what becomes of it (`course_eq_outcome`).
Some events of tool calls say nothing at all (`Thinned`): those that come while no call is open
(`answer_stray`), and those of a call that never ends (`answer_unended`).
-/

namespace TurnEngine

namespace StreamEvent

def text? : StreamEvent → Option String
  | .textDelta text => some text
  | _ => none

def fragment? : StreamEvent → Option String
  | .toolCallDelta _ fragment => some fragment
  | _ => none

def stopReason? : StreamEvent → Option String
  | .done stopReason => stopReason
  | _ => none

def isClose : StreamEvent → Bool
  | .toolCallEnd _ => true
  | _ => false

/-- Whether an event begins or closes a tool call. -/
def isBound : StreamEvent → Bool
  | .toolCallStart .. => true
  | .toolCallEnd _ => true
  | _ => false

end StreamEvent

/-- The call that an open call becomes when it is closed. -/
def OpenCall.closed (c : OpenCall) : ToolCall :=
  ⟨c.id, c.name, Assembler.parseArguments c.buffer⟩

namespace Assembler

/-- What is open after an event. -/
def after (a : Assembler) : StreamEvent → Assembler
  | .toolCallStart id name => a.start id name
  | .toolCallDelta _ fragment => a.push fragment
  | .toolCallEnd _ => none
  | _ => a

/-- The call that an event closes. -/
def closing (a : Assembler) (e : StreamEvent) : Option ToolCall :=
  if e.isClose then a.map OpenCall.closed else none

/-- The calls that events close, one after another. -/
def closings (a : Assembler) : List StreamEvent → List ToolCall
  | [] => []
  | e :: es => (a.closing e).toList ++ (a.after e).closings es

end Assembler

namespace RoundTrip

/-! ## Reading the events -/

/-- The events after the last start or close of a call. -/
def sinceBound (es : List StreamEvent) : List StreamEvent :=
  (es.reverse.takeWhile fun e => !e.isBound).reverse

/-- The call that is open after some events, with its fragments joined: the last one that began, if
no close came after it. -/
def openCall? (es : List StreamEvent) : Option OpenCall :=
  match es.reverse.find? StreamEvent.isBound with
  | some (.toolCallStart id name) =>
    some ⟨id, name, String.join ((sinceBound es).filterMap StreamEvent.fragment?)⟩
  | _ => none

/-- The call that the event with a number closes, if it closes one. -/
def closedAt (es : List StreamEvent) (n : Nat) : Option ToolCall :=
  match es[n]? with
  | some (.toolCallEnd _) => (openCall? (es.take n)).map OpenCall.closed
  | _ => none

/-- The calls that are closed, in the order of the closes. -/
def closedCalls (es : List StreamEvent) : List ToolCall :=
  (List.range es.length).filterMap (closedAt es)

/-- What the events of an answer come to. -/
def answer (es : List StreamEvent) (stopReason : Option String) : RoundTrip where
  stage := .done
  assembler := none
  text := String.join (es.filterMap StreamEvent.text?)
  calls := closedCalls es
  usage := (es.filterMap StreamEvent.usage?).sum
  stopReason

/-- No text comes while a call is open. -/
def NoTextInCall (es : List StreamEvent) : Prop :=
  ∀ n < es.length, (es[n]?.bind StreamEvent.text?).isSome → openCall? (es.take n) = none

instance (es : List StreamEvent) : Decidable (NoTextInCall es) :=
  inferInstanceAs (Decidable (∀ n < es.length, _ → _))

/-- What becomes of a round trip that something other than an event ends, or the end of the answer. -/
def outcome (es : List StreamEvent) : Arrival → Progress
  | .item none => .answered (answer es none)
  | .item (some (.ok e)) => .answered (answer es e.stopReason?)
  | .item (some (.error f)) => .failed f
  | .cancel => .failed .cancelled

/-- What reaches a round trip from a stream: its items, and then its end. -/
def ofStream (items : List (Except Failure StreamEvent)) : List Arrival :=
  items.map (fun i => .item (some i)) ++ [.item none]

/-- The events of a stream up to the first end of an answer or the first failure, and what comes
then: one of these, or the end of the stream. -/
def cut : List (Except Failure StreamEvent) → List StreamEvent × Arrival
  | [] => ([], .item none)
  | .error f :: _ => ([], .fault f)
  | .ok e :: items => if e.isDone then ([], .event e) else (e :: (cut items).1, (cut items).2)

/-- Whether an item leaves nothing more to read. -/
def IsLast (i : Option (Except Failure StreamEvent)) : Prop :=
  ∀ e, i = some (.ok e) → e.isDone = true

theorem cut_reaches (items : List (Except Failure StreamEvent)) :
    ∃ i, (cut items).2 = .item i ∧ IsLast i ∧ Reaches (ofStream items) (cut items).1 (.item i) := by
  induction items with
  | nil => exact ⟨none, rfl, nofun, .here _ _⟩
  | cons item items ih =>
    cases item with
    | error f => exact ⟨some (.error f), rfl, nofun, .here _ _⟩
    | ok e =>
      cases hd : e.isDone with
      | true =>
        simp only [cut, hd, if_true]
        refine ⟨some (.ok e), rfl, fun e' he => ?_, .here _ _⟩
        cases he
        exact hd
      | false =>
        obtain ⟨i, hi, hlast, hreach⟩ := ih
        simp only [cut, hd]
        exact ⟨i, hi, hlast, hreach.cons hd⟩

/-! ## One event more -/

section
variable (es : List StreamEvent) (e : StreamEvent)

theorem sinceBound_concat :
    sinceBound (es ++ [e]) = if e.isBound then [] else sinceBound es ++ [e] := by
  unfold sinceBound
  rw [List.reverse_append, List.reverse_singleton, List.singleton_append, List.takeWhile_cons]
  cases e.isBound <;> simp

/-- Which call is open goes along with the assembler. -/
theorem openCall?_concat : openCall? (es ++ [e]) = Assembler.after (openCall? es) e := by
  have hfind : (es ++ [e]).reverse.find? StreamEvent.isBound
      = if e.isBound then some e else es.reverse.find? StreamEvent.isBound := by
    rw [List.reverse_append, List.reverse_singleton, List.singleton_append, List.find?_cons]
    cases e.isBound <;> rfl
  unfold openCall?
  rw [hfind, sinceBound_concat]
  cases e with
  | toolCallStart id name => rfl
  | toolCallEnd id => rfl
  | toolCallDelta id fragment =>
    simp only [StreamEvent.isBound, Assembler.after, Assembler.push, Bool.false_eq_true, if_false]
    split
    · simp [List.filterMap_append, StreamEvent.fragment?]
    · rfl
  | textDelta text =>
    simp [StreamEvent.isBound, Assembler.after, StreamEvent.fragment?, List.filterMap_cons]
  | usage u =>
    simp [StreamEvent.isBound, Assembler.after, StreamEvent.fragment?, List.filterMap_cons]
  | done stopReason =>
    simp [StreamEvent.isBound, Assembler.after, StreamEvent.fragment?, List.filterMap_cons]

theorem closedAt_concat {n : Nat} (hn : n < es.length) : closedAt (es ++ [e]) n = closedAt es n := by
  unfold closedAt
  rw [List.getElem?_append_left hn, List.take_append_of_le_length (Nat.le_of_lt hn)]

theorem closedAt_length : closedAt (es ++ [e]) es.length = Assembler.closing (openCall? es) e := by
  unfold closedAt Assembler.closing
  rw [List.getElem?_concat_length, List.take_left]
  cases e <;> rfl

theorem closedCalls_concat :
    closedCalls (es ++ [e]) = closedCalls es ++ (Assembler.closing (openCall? es) e).toList := by
  unfold closedCalls
  rw [List.length_append, List.length_singleton, List.range_succ, List.filterMap_append]
  congr 1
  · exact List.filterMap_congr fun n hn => closedAt_concat es e (List.mem_range.1 hn)
  · rw [List.filterMap_cons, closedAt_length]
    cases Assembler.closing (openCall? es) e <;> rfl

end

theorem closedCalls_append (xs ys : List StreamEvent) :
    closedCalls (xs ++ ys) = closedCalls xs ++ Assembler.closings (openCall? xs) ys := by
  induction ys generalizing xs with
  | nil => simp [Assembler.closings]
  | cons e ys ih =>
    rw [List.append_cons, ih, closedCalls_concat, openCall?_concat, Assembler.closings,
      List.append_assoc]

/-! ## The parts of a round trip -/

variable {r r' : RoundTrip} {es : List StreamEvent}

theorem advance_eq {step : Protocol.Step} (h : r.advance step = .ok r') :
    r' = { r with stage := step.stage } := by
  unfold advance at h
  split at h <;> cases h
  rfl

theorem abandon_eq (h : r.abandon = .ok r') :
    ∃ stage assembler, r' = { r with stage, assembler } := by
  unfold abandon at h
  split at h
  · cases h
    exact ⟨r.stage, r.assembler, rfl⟩
  · exact ⟨_, _, (advance_eq h :)⟩

/-- What an accepted event that does not end the answer adds. -/
theorem accept_adds {e : StreamEvent} {said : List Report} (h : r.accept e = .ok (r', said))
    (hd : e.isDone = false) :
    r'.text = r.text ++ e.text?.getD "" ∧ r'.assembler = r.assembler.after e ∧
      r'.calls = r.calls ++ (r.assembler.closing e).toList ∧ r'.stopReason = r.stopReason := by
  cases e with
  | textDelta text =>
    obtain ⟨r₁, h₁, h⟩ := bind_ok h
    cases h
    rw [advance_eq h₁]
    exact ⟨rfl, rfl, (List.append_nil _).symm, rfl⟩
  | toolCallStart id name =>
    obtain ⟨r₁, h₁, h⟩ := bind_ok h
    obtain ⟨r₂, h₂, h⟩ := bind_ok h
    obtain ⟨stage, assembler, h₁⟩ := abandon_eq h₁
    cases h
    rw [advance_eq h₂, h₁]
    exact ⟨String.append_empty.symm, rfl, (List.append_nil _).symm, rfl⟩
  | toolCallDelta id fragment =>
    cases h
    exact ⟨String.append_empty.symm, rfl, (List.append_nil _).symm, rfl⟩
  | toolCallEnd id =>
    simp only [accept, Assembler.finish] at h
    cases ha : r.assembler with
    | none =>
      rw [ha] at h
      cases h
      exact ⟨String.append_empty.symm, ha, (List.append_nil _).symm, rfl⟩
    | some call =>
      rw [ha] at h
      obtain ⟨r₁, h₁, h⟩ := bind_ok h
      cases h
      rw [advance_eq h₁]
      exact ⟨String.append_empty.symm, rfl, rfl, rfl⟩
  | usage u =>
    cases h
    exact ⟨String.append_empty.symm, rfl, (List.append_nil _).symm, rfl⟩
  | done stopReason => cases hd

/-! ## Events that arrive -/

/-- A round trip under way holds what the events so far say. -/
structure Holds (r : RoundTrip) (es : List StreamEvent) : Prop where
  inStep : r.InStep
  text : r.text = String.join (es.filterMap StreamEvent.text?)
  assembler : r.assembler = openCall? es
  calls : r.calls = closedCalls es
  usage : r.usage = (es.filterMap StreamEvent.usage?).sum
  stopReason : r.stopReason = none

namespace Holds

theorem started : RoundTrip.started.Holds [] := ⟨InStep.started, rfl, rfl, rfl, rfl, rfl⟩

theorem of_accept (h : r.Holds es) {e : StreamEvent} {said : List Report}
    (hd : e.isDone = false) (ha : r.accept e = .ok (r', said)) (hs : r'.InStep) :
    r'.Holds (es ++ [e]) := by
  obtain ⟨htext, hassembler, hcalls, hstop⟩ := accept_adds ha hd
  refine ⟨hs, ?_, ?_, ?_, ?_, hstop.trans h.stopReason⟩
  · rw [htext, h.text, List.filterMap_append]
    cases he : e.text? <;> simp [he]
  · rw [hassembler, h.assembler, openCall?_concat]
  · rw [hcalls, h.calls, h.assembler, closedCalls_concat]
  · rw [(accept_usage ha).1, h.usage, List.filterMap_append, List.sum_append]
    cases he : e.usage? <;> simp [he]

/-- An event that may come is accepted. -/
theorem accept (h : r.Holds es) {e : StreamEvent} (hd : e.isDone = false)
    (hopen : e.text?.isSome → openCall? es = none) :
    ∃ r', r.meet (.event e) = .underWay r' ∧ r'.Holds (es ++ [e]) := by
  obtain ⟨r', said, ha, hs, -⟩ := h.inStep.accept e fun text he => by
    rw [h.assembler, hopen (by rw [he]; rfl)]
  refine ⟨r', ?_, h.of_accept hd ha hs⟩
  simp only [meet, ha, hd]
  rfl

/-- What comes last decides what becomes of the round trip. -/
theorem meet_last (h : r.Holds es) {i : Option (Except Failure StreamEvent)} (hi : IsLast i) :
    r.meet (.item i) = outcome es (.item i) := by
  have hanswer (stopReason : Option String) :
      { r with stage := .done, assembler := none, stopReason } = answer es stopReason := by
    rw [answer, ← h.text, ← h.calls, ← h.usage]
  rcases i with _ | f | e
  · have hr := h.inStep.close
    rw [h.stopReason, hanswer none] at hr
    exact hr
  · rfl
  · cases e with
    | done stopReason =>
      have hs : InStep { r with stopReason } := ⟨h.inStep.tool, h.inStep.rest⟩
      exact hs.close.trans (congrArg Progress.answered (hanswer stopReason))
    | _ => cases hi _ rfl

theorem through (h : r.Holds es) {later : List StreamEvent}
    (hd : ∀ e ∈ later, e.isDone = false) (htext : NoTextInCall (es ++ later)) :
    ∃ r', r.through (later.map .event) = .underWay r' ∧ r'.Holds (es ++ later) := by
  induction later generalizing r es with
  | nil => exact ⟨r, rfl, by rwa [List.append_nil]⟩
  | cons e later ih =>
    have hopen : e.text?.isSome → openCall? es = none := by
      have hhere := htext es.length (by simp)
      rwa [List.getElem?_append_right (Nat.le_refl _), Nat.sub_self, List.take_left] at hhere
    obtain ⟨r₁, hm, h₁⟩ := h.accept (hd e List.mem_cons_self) hopen
    rw [List.append_cons] at htext ⊢
    obtain ⟨r', hr', h'⟩ := ih h₁ (fun e' he' => hd e' (List.mem_cons_of_mem _ he')) htext
    refine ⟨r', ?_, h'⟩
    rw [List.map_cons, RoundTrip.through, hm]
    exact hr'

/-- A round trip that is still under way has accepted all its events. -/
theorem of_through (h : r.Holds es) {later : List StreamEvent}
    (hr : r.through (later.map .event) = .underWay r') : r'.Holds (es ++ later) := by
  induction later generalizing r es with
  | nil =>
    cases hr
    rwa [List.append_nil]
  | cons e later ih =>
    simp only [List.map_cons, RoundTrip.through] at hr
    cases hm : r.meet (.event e) with
    | underWay r₁ =>
      rw [hm] at hr
      obtain ⟨e', said, he, hd, ha⟩ := meet_underWay hm
      cases he
      rw [List.append_cons]
      exact ih (h.of_accept hd ha (h.inStep.meet hm)) hr
    | answered r₁ =>
      rw [hm] at hr
      cases hr
    | failed f =>
      rw [hm] at hr
      cases hr

end Holds

/-! ## Whole courses -/

theorem course_holds (hd : ∀ e ∈ es, e.isDone = false) (htext : NoTextInCall es) :
    ∃ r, course (es.map .event) = .underWay r ∧ r.Holds es := by
  unfold course
  rw [begin_eq]
  exact Holds.started.through hd htext

theorem holds_of_course (h : course (es.map .event) = .underWay r) : r.Holds es := by
  unfold course at h
  rw [begin_eq] at h
  exact Holds.started.of_through h

theorem course_eq_outcome (items : List (Except Failure StreamEvent))
    (htext : NoTextInCall (cut items).1) :
    course (ofStream items) = outcome (cut items).1 (cut items).2 := by
  obtain ⟨i, hi, hlast, hgo, later, hsplit⟩ := cut_reaches items
  obtain ⟨r, hr, h⟩ := course_holds hgo htext
  have hm := h.meet_last hlast
  rw [hsplit, course_append hr, through, hm, hi]
  rcases i with _ | f | e <;> rfl

/-! ## Events that say nothing -/

theorem answer_eq_of_parts {es es' : List StreamEvent} (stopReason : Option String)
    (htext : es.filterMap StreamEvent.text? = es'.filterMap StreamEvent.text?)
    (hcalls : closedCalls es = closedCalls es')
    (husage : es.filterMap StreamEvent.usage? = es'.filterMap StreamEvent.usage?) :
    answer es stopReason = answer es' stopReason := by
  unfold answer
  rw [htext, hcalls, husage]

/-- A fragment or a close without an open call. -/
theorem answer_stray {before : List StreamEvent} (hopen : openCall? before = none)
    {e : StreamEvent} (he : e.fragment?.isSome ∨ e.isClose) (later : List StreamEvent)
    (stopReason : Option String) :
    answer (before ++ e :: later) stopReason = answer (before ++ later) stopReason := by
  have hnothing : e.text? = none ∧ e.usage? = none ∧ Assembler.after none e = none := by
    cases e <;> simp_all [StreamEvent.fragment?, StreamEvent.isClose, StreamEvent.text?,
      StreamEvent.usage?, Assembler.after, Assembler.push]
  obtain ⟨htext, husage, hafter⟩ := hnothing
  have hclosing : Assembler.closing none e = none := by
    unfold Assembler.closing
    cases e.isClose <;> rfl
  refine answer_eq_of_parts stopReason ?_ ?_ ?_
  · simp [List.filterMap_append, htext]
  · rw [closedCalls_append, closedCalls_append, hopen, Assembler.closings, hclosing, hafter]
    rfl
  · simp [List.filterMap_append, husage]

/-- Nothing closes a call before another one begins, or before the answer ends. -/
def Unended (later : List StreamEvent) : Prop :=
  later = [] ∨ ∃ id name rest, later = .toolCallStart id name :: rest

theorem closings_of_no_bound (a : Assembler) {mid : List StreamEvent}
    (hmid : ∀ e ∈ mid, e.isBound = false) : a.closings mid = [] := by
  induction mid generalizing a with
  | nil => rfl
  | cons e mid ih =>
    have he : e.isClose = false := by
      have := hmid e List.mem_cons_self
      cases e <;> simp_all [StreamEvent.isBound, StreamEvent.isClose]
    rw [Assembler.closings, ih _ fun e' he' => hmid e' (List.mem_cons_of_mem _ he'),
      Assembler.closing, he]
    rfl

/-- Before such events it does not matter what was open. -/
theorem closedCalls_unended (before : List StreamEvent) {mid later : List StreamEvent}
    (hmid : Assembler.closings (openCall? before) mid = []) (hlater : Unended later) :
    closedCalls (before ++ mid ++ later) = closedCalls before ++ Assembler.closings none later := by
  rw [closedCalls_append, closedCalls_append, hmid, List.append_nil]
  obtain rfl | ⟨id, name, rest, rfl⟩ := hlater <;> rfl

/-- Fragments do not count for anything that they say nothing about. -/
theorem filterMap_without_fragments {β : Type} {g : StreamEvent → Option β}
    (hg : ∀ id fragment, g (.toolCallDelta id fragment) = none) (es : List StreamEvent) :
    (es.filter fun e => e.fragment?.isNone).filterMap g = es.filterMap g := by
  rw [List.filterMap_filter]
  refine List.filterMap_congr fun e _ => ?_
  cases e with
  | toolCallDelta id fragment => rw [hg id fragment]; rfl
  | _ => rfl

/-- The start and the fragments of a call that is superseded, or left open at the end. -/
theorem answer_unended {before mid later : List StreamEvent} (id name : String)
    (hmid : ∀ e ∈ mid, e.isBound = false) (hlater : Unended later) (stopReason : Option String) :
    answer (before ++ .toolCallStart id name :: mid ++ later) stopReason
      = answer (before ++ mid.filter (fun e => e.fragment?.isNone) ++ later) stopReason := by
  have hkept : ∀ e ∈ mid.filter (fun e => e.fragment?.isNone), e.isBound = false :=
    fun e he => hmid e (List.mem_filter.1 he).1
  refine answer_eq_of_parts stopReason ?_ ?_ ?_
  · have hsame := @filterMap_without_fragments _ StreamEvent.text? (fun _ _ => rfl) mid
    simp [List.filterMap_append, List.filterMap_cons, StreamEvent.text?, hsame]
  · rw [closedCalls_unended before (closings_of_no_bound _ hkept) hlater,
      closedCalls_unended before _ hlater]
    exact (closings_of_no_bound (Assembler.start none id name) hmid :)
  · have hsame := @filterMap_without_fragments _ StreamEvent.usage? (fun _ _ => rfl) mid
    simp [List.filterMap_append, List.filterMap_cons, StreamEvent.usage?, hsame]

/-- One list of events without some of another that say nothing. -/
inductive Thinned : List StreamEvent → List StreamEvent → Prop
  /-- A fragment or a close came while no call was open. -/
  | stray {before : List StreamEvent} {e : StreamEvent} (hopen : openCall? before = none)
      (he : e.fragment?.isSome ∨ e.isClose) (later : List StreamEvent) :
      Thinned (before ++ e :: later) (before ++ later)
  /-- A call was superseded, or left open at the end. -/
  | unended (before : List StreamEvent) (id name : String) {mid later : List StreamEvent}
      (hmid : ∀ e ∈ mid, e.isBound = false) (hlater : Unended later) :
      Thinned (before ++ .toolCallStart id name :: mid ++ later)
        (before ++ mid.filter (fun e => e.fragment?.isNone) ++ later)

theorem Thinned.answer_eq {es es' : List StreamEvent} (h : Thinned es es')
    (stopReason : Option String) : answer es stopReason = answer es' stopReason := by
  cases h with
  | stray hopen he later => exact answer_stray hopen he later stopReason
  | unended before id name hmid hlater => exact answer_unended id name hmid hlater stopReason

/-- What comes after the end of the answer, or after a failure, is not looked at. -/
theorem cut_append {items : List (Except Failure StreamEvent)} (h : (cut items).2 ≠ .item none)
    (later : List (Except Failure StreamEvent)) : cut (items ++ later) = cut items := by
  induction items with
  | nil => exact absurd rfl h
  | cons item items ih =>
    cases item with
    | error f => rfl
    | ok e =>
      cases hd : e.isDone with
      | true => simp [cut, hd]
      | false =>
        rw [cut, hd] at h
        simp [cut, hd, ih h]

end RoundTrip

end TurnEngine
