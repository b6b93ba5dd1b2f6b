import TurnEngine.Stream.RoundTrip

/-!
# The protocol and the assembler in step

A round trip drives two parts side by side that know nothing of each other: the stage of the
protocol, and the assembler with the call that is open. Between two events they agree (`InStep`): a
call is open exactly in the stage of tool use, and otherwise the stage is one that text, a call or
the end may follow. What breaks a round trip is therefore never a start, a close, a dropped call or
the end of the stream, but only text while a call is open.

`RoundTrip.course` takes a round trip through any list of arrivals. `InStep.meet_event` is what one
event does, `InStep.through` the induction over all arrivals, and `lockStep` puts together what
they say about a whole course.
-/

namespace TurnEngine

/-- Whether an event ends the answer. -/
def StreamEvent.isDone : StreamEvent → Bool
  | .done _ => true
  | _ => false

/-- Whether a call is open after an event, given whether one was before it. -/
def StreamEvent.leavesOpen (before : Bool) : StreamEvent → Bool
  | .toolCallStart .. => true
  | .toolCallEnd _ => false
  | _ => before

namespace RoundTrip

/-- What reaches a round trip whose stream is open. -/
inductive Arrival where
  /-- An item of the stream, `none` at its end. -/
  | item (i : Option (Except Failure StreamEvent))
  /-- The signal. -/
  | cancel

/-- An event of the stream arrives. -/
abbrev Arrival.event (e : StreamEvent) : Arrival := .item (some (.ok e))

/-- The stream fails. -/
abbrev Arrival.fault (f : Failure) : Arrival := .item (some (.error f))

/-- How far a round trip has come. -/
inductive Progress where
  | underWay (r : RoundTrip)
  | answered (r : RoundTrip)
  | failed (f : Failure)

/-- The stream of a round trip has ended. -/
def close (r : RoundTrip) : Progress :=
  match r.finish with
  | .error f => .failed f
  | .ok r => .answered r

/-- Something reaches a round trip. -/
def meet (r : RoundTrip) : Arrival → Progress
  | .cancel => .failed .cancelled
  | .item none => r.close
  | .item (some (.error f)) => .failed f
  | .item (some (.ok e)) =>
    match r.accept e with
    | .error f => .failed f
    | .ok (r, _) => if e.isDone then r.close else .underWay r

/-- A round trip goes on until it is answered or has failed; what arrives later is left alone. -/
def through (r : RoundTrip) : List Arrival → Progress
  | [] => .underWay r
  | a :: later =>
    match r.meet a with
    | .underWay r => r.through later
    | .answered r => .answered r
    | .failed f => .failed f

/-- A whole round trip. -/
def course (arrivals : List Arrival) : Progress :=
  match begin with
  | .error f => .failed f
  | .ok r => r.through arrivals

/-- A round trip whose request was sent. -/
def started : RoundTrip := { stage := .streaming }

theorem begin_eq : begin = .ok started := rfl

/-! ## The steps of the protocol -/

section
variable (r : RoundTrip)

theorem advance_text (hs : r.stage = .streaming ∨ r.stage = .executing) (text : String) :
    r.advance (Protocol.text r.stage text) = .ok { r with stage := .streaming } := by
  rcases hs with hs | hs <;> rw [hs] <;> rfl

theorem advance_text_toolUse (hs : r.stage = .toolUse) (text : String) :
    r.advance (Protocol.text r.stage text) = .error (Protocol.illegal .toolUse .streaming) := by
  rw [hs]
  rfl

theorem advance_toolCallStart (hs : r.stage = .streaming ∨ r.stage = .executing)
    (id name : String) :
    r.advance (Protocol.toolCallStart r.stage id name) = .ok { r with stage := .toolUse } := by
  rcases hs with hs | hs <;> rw [hs] <;> rfl

theorem advance_toolCallEnd (hs : r.stage = .toolUse) (call : ToolCall) :
    r.advance (Protocol.toolCallEnd r.stage call) = .ok { r with stage := .executing } := by
  rw [hs]
  rfl

theorem advance_abandonToolCall (hs : r.stage = .toolUse) :
    r.advance (Protocol.abandonToolCall r.stage) = .ok { r with stage := .executing } := by
  rw [hs]
  rfl

theorem advance_finish (hs : r.stage = .streaming ∨ r.stage = .executing) :
    r.advance (Protocol.finish r.stage) = .ok { r with stage := .done } := by
  rcases hs with hs | hs <;> rw [hs] <;> rfl

end

/-! ## In step -/

/-- The stage and the assembler agree. -/
structure InStep (r : RoundTrip) : Prop where
  tool : r.stage = .toolUse ↔ r.assembler.isSome
  rest : r.assembler = none → r.stage = .streaming ∨ r.stage = .executing

namespace InStep

variable {r : RoundTrip}

theorem of_open (hs : r.stage = .toolUse) (ha : r.assembler.isSome) : r.InStep :=
  ⟨iff_of_true hs ha, fun hn => by rw [hn] at ha; cases ha⟩

theorem of_shut (hs : r.stage = .streaming ∨ r.stage = .executing) (ha : r.assembler = none) :
    r.InStep := by
  refine ⟨iff_of_false (fun ht => ?_) (by simp [ha]), fun _ => hs⟩
  rw [ht] at hs
  simp at hs

theorem started : RoundTrip.started.InStep := of_shut (.inl rfl) rfl

/-- A call that is open can be dropped; then none is open. -/
theorem abandon (h : r.InStep) :
    ∃ stage, r.abandon = .ok { r with stage, assembler := none } ∧
      (stage = .streaming ∨ stage = .executing) := by
  unfold RoundTrip.abandon
  cases ha : r.assembler with
  | none =>
    have hr : { r with assembler := none } = r := by rw [← ha]
    exact ⟨r.stage, congrArg Except.ok hr.symm, h.rest ha⟩
  | some call =>
    have hs : r.stage = .toolUse := h.tool.2 (by rw [ha]; rfl)
    exact ⟨.executing, advance_abandonToolCall { r with assembler := none } hs, .inr rfl⟩

theorem finish (h : r.InStep) : r.finish = .ok { r with stage := .done, assembler := none } := by
  obtain ⟨stage, hr, hs⟩ := h.abandon
  unfold RoundTrip.finish
  rw [hr]
  exact advance_finish { r with stage, assembler := none } hs

theorem close (h : r.InStep) :
    r.close = .answered { r with stage := .done, assembler := none } := by
  unfold RoundTrip.close
  rw [h.finish]

theorem accept_text_in_call (h : r.InStep) (ha : r.assembler.isSome) (text : String) :
    r.accept (.textDelta text) = .error (Protocol.illegal .toolUse .streaming) := by
  simp only [RoundTrip.accept]
  rw [advance_text_toolUse r (h.tool.2 ha)]
  rfl

/-- Any event but text in a call is accepted, and leaves the two parts in step. -/
theorem accept (h : r.InStep) (e : StreamEvent)
    (he : ∀ text, e = .textDelta text → r.assembler = none) :
    ∃ r' reports, r.accept e = .ok (r', reports) ∧ r'.InStep ∧
      r'.assembler.isSome = e.leavesOpen r.assembler.isSome := by
  cases e with
  | textDelta text =>
    have ha := he text rfl
    refine ⟨{ r with stage := .streaming, text := r.text ++ text }, [.textDelta text], ?_,
      of_shut (.inl rfl) ha, rfl⟩
    simp only [RoundTrip.accept]
    rw [advance_text r (h.rest ha)]
    rfl
  | toolCallStart id name =>
    obtain ⟨stage, hr, hs⟩ := h.abandon
    refine ⟨{ r with stage := .toolUse, assembler := some { id, name } }, [.toolCallStart id name],
      ?_, of_open rfl rfl, rfl⟩
    simp only [RoundTrip.accept]
    rw [hr]
    simp only [bind, Except.bind]
    rw [advance_toolCallStart { r with stage, assembler := none } hs]
    rfl
  | toolCallDelta id fragment =>
    have ha : (r.assembler.push fragment).isSome = r.assembler.isSome := by simp [Assembler.push]
    refine ⟨_, _, rfl, ⟨?_, ?_⟩, ha⟩
    · dsimp only
      rw [ha]
      exact h.tool
    · intro hn
      exact h.rest (by simpa [Assembler.push] using hn)
  | toolCallEnd id =>
    cases ha : r.assembler with
    | none =>
      refine ⟨r, [], ?_, h, by rw [ha]; rfl⟩
      simp only [RoundTrip.accept, ha]
      rfl
    | some call =>
      have hs : r.stage = .toolUse := h.tool.2 (by rw [ha]; rfl)
      let closed : ToolCall := ⟨call.id, call.name, Assembler.parseArguments call.buffer⟩
      refine ⟨{ r with stage := .executing, assembler := none, calls := r.calls ++ [closed] },
        [.toolCallEnd closed], ?_, of_shut (.inr rfl) rfl, rfl⟩
      simp only [RoundTrip.accept, ha, Assembler.finish, Option.map_some]
      rw [advance_toolCallEnd { r with assembler := none } hs]
      rfl
  | usage usage => exact ⟨_, _, rfl, ⟨h.tool, h.rest⟩, rfl⟩
  | done stopReason => exact ⟨_, _, rfl, ⟨h.tool, h.rest⟩, rfl⟩

end InStep

/-! ## Whole courses -/

/-- An arrival after some events that do not end the answer. -/
structure Reaches (arrivals : List Arrival) (es : List StreamEvent) (a : Arrival) : Prop where
  goesOn : ∀ e ∈ es, e.isDone = false
  split : ∃ later, arrivals = es.map .event ++ a :: later

theorem Reaches.here (a : Arrival) (later : List Arrival) : Reaches (a :: later) [] a :=
  ⟨by simp, later, rfl⟩

theorem Reaches.cons {arrivals : List Arrival} {es : List StreamEvent} {a : Arrival}
    {e : StreamEvent} (h : Reaches arrivals es a) (he : e.isDone = false) :
    Reaches (.event e :: arrivals) (e :: es) a := by
  obtain ⟨later, rfl⟩ := h.split
  refine ⟨fun e' he' => ?_, later, rfl⟩
  rcases List.mem_cons.1 he' with rfl | he'
  · exact he
  · exact h.goesOn e' he'

/-- Text arrives while a call is open, given whether one was open at first. -/
def TextInCall (before : Bool) (arrivals : List Arrival) : Prop :=
  ∃ es text, Reaches arrivals es (.event (.textDelta text)) ∧
    es.foldl StreamEvent.leavesOpen before = true

/-- What it takes to come as far as this, given whether a call was open at first. -/
def Takes (before : Bool) (arrivals : List Arrival) : Progress → Prop
  | .underWay r => r.InStep ∧ ∃ es : List StreamEvent, arrivals = es.map .event ∧
      (∀ e ∈ es, e.isDone = false) ∧
      r.assembler.isSome = es.foldl StreamEvent.leavesOpen before
  | .answered r => r.stage = .done ∧ r.assembler = none
  | .failed f => (∃ es, Reaches arrivals es (.fault f)) ∨
      (f = .cancelled ∧ ∃ es, Reaches arrivals es .cancel) ∨
      (f = Protocol.illegal .toolUse .streaming ∧ TextInCall before arrivals)

theorem Takes.cons {before : Bool} {arrivals : List Arrival} {e : StreamEvent} {p : Progress}
    (he : e.isDone = false) (h : Takes (e.leavesOpen before) arrivals p) :
    Takes before (.event e :: arrivals) p := by
  cases p with
  | underWay r =>
    obtain ⟨hr, es, rfl, hes, ho⟩ := h
    refine ⟨hr, e :: es, rfl, ?_, ho⟩
    simpa [he] using hes
  | answered r => exact h
  | failed f =>
    rcases h with ⟨es, hes⟩ | ⟨hf, es, hes⟩ | ⟨hf, es, text, hes, ho⟩
    · exact .inl ⟨e :: es, hes.cons he⟩
    · exact .inr (.inl ⟨hf, e :: es, hes.cons he⟩)
    · exact .inr (.inr ⟨hf, e :: es, text, hes.cons he, ho⟩)

/-- No step that a round trip takes by itself is illegal. -/
structure Unhindered (r : RoundTrip) : Prop where
  abandon : ∃ r', r.abandon = .ok r'
  start : ∀ id name, ∃ p, r.accept (.toolCallStart id name) = .ok p
  stop : ∀ id, ∃ p, r.accept (.toolCallEnd id) = .ok p
  finish : ∃ r', r.finish = .ok r'

namespace InStep

variable {r : RoundTrip}

/-- One event: the round trip fails on text in a call, is answered on the end of the answer, and
otherwise goes on in step. -/
theorem meet_event (h : r.InStep) (e : StreamEvent) :
    (∃ text, e = .textDelta text ∧ r.assembler.isSome ∧
      r.meet (.event e) = .failed (Protocol.illegal .toolUse .streaming)) ∨
    (∃ r', e.isDone = true ∧ r.meet (.event e) = .answered r' ∧ r'.stage = .done ∧
      r'.assembler = none) ∨
    (∃ r', e.isDone = false ∧ r.meet (.event e) = .underWay r' ∧ r'.InStep ∧
      r'.assembler.isSome = e.leavesOpen r.assembler.isSome) := by
  by_cases ht : ∃ text, e = .textDelta text ∧ r.assembler.isSome
  · obtain ⟨text, rfl, ha⟩ := ht
    refine .inl ⟨text, rfl, ha, ?_⟩
    simp only [meet]
    rw [h.accept_text_in_call ha]
  · obtain ⟨r', reports, hr, hr', ho⟩ := h.accept e fun text he =>
      Option.not_isSome_iff_eq_none.1 fun ha => ht ⟨text, he, ha⟩
    right
    simp only [meet, hr]
    cases hd : e.isDone with
    | true => exact .inl ⟨_, rfl, hr'.close, rfl, rfl⟩
    | false => exact .inr ⟨r', rfl, rfl, hr', ho⟩

/-- A round trip in step, whatever arrives. -/
theorem through (h : r.InStep) (arrivals : List Arrival) :
    Takes r.assembler.isSome arrivals (r.through arrivals) := by
  induction arrivals generalizing r with
  | nil => exact ⟨h, [], rfl, by simp, rfl⟩
  | cons a later ih =>
    cases a with
    | cancel => exact .inr (.inl ⟨rfl, [], .here _ _⟩)
    | item i =>
      rcases i with _ | f | e
      · simp only [RoundTrip.through, meet]
        rw [h.close]
        exact ⟨rfl, rfl⟩
      · exact .inl ⟨[], .here _ _⟩
      · simp only [RoundTrip.through]
        rcases h.meet_event e with ⟨text, rfl, ha, hm⟩ | ⟨r', -, hm, hs⟩ | ⟨r', hd, hm, hr', ho⟩
        · rw [hm]
          exact .inr (.inr ⟨rfl, [], text, .here _ _, ha⟩)
        · rw [hm]
          exact hs
        · rw [hm]
          have hlater := ih hr'
          rw [ho] at hlater
          exact hlater.cons hd

/-- Text in a call ends a round trip, whatever comes before and after it. -/
theorem through_textInCall (h : r.InStep) {arrivals : List Arrival}
    (ht : TextInCall r.assembler.isSome arrivals) :
    r.through arrivals = .failed (Protocol.illegal .toolUse .streaming) := by
  obtain ⟨es, text, ⟨hes, later, rfl⟩, ho⟩ := ht
  induction es generalizing r with
  | nil =>
    simp only [List.map_nil, List.nil_append, RoundTrip.through, meet]
    rw [h.accept_text_in_call ho]
  | cons e es ih =>
    simp only [List.map_cons, List.cons_append, RoundTrip.through]
    rcases h.meet_event e with ⟨text', -, -, hm⟩ | ⟨r', hd, -⟩ | ⟨r', -, hm, hr', ho'⟩
    · rw [hm]
    · rw [hes e List.mem_cons_self] at hd
      cases hd
    · rw [hm]
      exact ih hr' (by rw [ho']; exact ho) fun e' he' => hes e' (List.mem_cons_of_mem _ he')

/-- Nothing that a round trip does by itself can fail. -/
theorem unhindered (h : r.InStep) : r.Unhindered := by
  obtain ⟨stage, hr, -⟩ := h.abandon
  refine ⟨⟨_, hr⟩, fun id name => ?_, fun id => ?_, ⟨_, h.finish⟩⟩
  · obtain ⟨r', reports, hr', -⟩ := h.accept (.toolCallStart id name) (by simp)
    exact ⟨_, hr'⟩
  · obtain ⟨r', reports, hr', -⟩ := h.accept (.toolCallEnd id) (by simp)
    exact ⟨_, hr'⟩

end InStep

theorem course_takes (arrivals : List Arrival) : Takes false arrivals (course arrivals) := by
  unfold course
  rw [begin_eq]
  exact InStep.started.through arrivals

theorem course_textInCall {arrivals : List Arrival} (ht : TextInCall false arrivals) :
    course arrivals = .failed (Protocol.illegal .toolUse .streaming) := by
  unfold course
  rw [begin_eq]
  exact InStep.started.through_textInCall ht

/-- The protocol and the assembler stay in step over a course. -/
structure LockStep (arrivals : List Arrival) : Prop where
  begins : ∃ r, begin = .ok r
  between : ∀ r, course arrivals = .underWay r → r.InStep ∧ r.Unhindered ∧
    ∃ es : List StreamEvent, arrivals = es.map .event ∧
      r.assembler.isSome = es.foldl StreamEvent.leavesOpen false
  answered : ∀ r, course arrivals = .answered r → r.stage = .done
  textInCall : TextInCall false arrivals →
    course arrivals = .failed (.illegalTransition "tool_use" "streaming")
  /-- Any other failure is passed on. -/
  failed : ∀ f, course arrivals = .failed f → ¬ TextInCall false arrivals →
    (∃ es, Reaches arrivals es (.fault f)) ∨ f = .cancelled ∧ ∃ es, Reaches arrivals es .cancel

theorem lockStep (arrivals : List Arrival) : LockStep arrivals := by
  have h := course_takes arrivals
  refine ⟨⟨_, begin_eq⟩, fun r hr => ?_, fun r hr => ?_, course_textInCall, fun f hf hno => ?_⟩
  · rw [hr] at h
    obtain ⟨hstep, es, he, -, ho⟩ := h
    exact ⟨hstep, hstep.unhindered, es, he, ho⟩
  · rw [hr] at h
    exact h.1
  · rw [hf] at h
    exact (or_assoc.2 h).resolve_right fun ht => hno ht.2

/-! ## Courses that go on -/

/-- Only an event leaves a round trip under way. -/
theorem event_of_meet {r r' : RoundTrip} {a : Arrival} (h : r.meet a = .underWay r') :
    ∃ e, a = .event e := by
  unfold meet close at h
  split at h
  · cases h
  · split at h <;> cases h
  · cases h
  · exact ⟨_, rfl⟩

/-- A round trip that goes on stays in step. -/
theorem InStep.meet {r r' : RoundTrip} {a : Arrival} (h : r.InStep)
    (hm : r.meet a = .underWay r') : r'.InStep := by
  obtain ⟨e, rfl⟩ := event_of_meet hm
  rcases h.meet_event e with ⟨text, -, -, hm'⟩ | ⟨r₁, -, hm', -⟩ | ⟨r₁, -, hm', hr₁, -⟩ <;>
    rw [hm] at hm' <;> cases hm'
  exact hr₁

theorem through_append {r r' : RoundTrip} {arrivals : List Arrival}
    (h : r.through arrivals = .underWay r') (later : List Arrival) :
    r.through (arrivals ++ later) = r'.through later := by
  induction arrivals generalizing r with
  | nil =>
    cases h
    rfl
  | cons a arrivals ih =>
    simp only [List.cons_append, through] at h ⊢
    cases hm : r.meet a with
    | underWay r₁ =>
      rw [hm] at h
      exact ih h
    | answered r₁ =>
      rw [hm] at h
      cases h
    | failed f =>
      rw [hm] at h
      cases h

theorem course_append {r : RoundTrip} {arrivals : List Arrival}
    (h : course arrivals = .underWay r) (later : List Arrival) :
    course (arrivals ++ later) = r.through later := by
  unfold course at h ⊢
  split at h
  · cases h
  · exact through_append h later

end RoundTrip

end TurnEngine
