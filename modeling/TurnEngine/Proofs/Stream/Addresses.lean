import TurnEngine.Proofs.Stream.Answer

/-!
# Whom fragments and closes are for

Fragments and closes name the call that they belong to. A round trip does not look at these names:
whatever reaches an open call is taken for it. So the names can be changed at will, and nothing
comes out differently (`course_eq_of_readdressed`). The calls of an answer are those that would come
out if names were heeded (`ownCalls`) and every fragment and every close named the call that is open
(`closedCalls_eq`).

Where each of them does name the open call, as it should, the two agree. Where one does not, they
may differ: a fragment of a call that was superseded goes into the call that superseded it, and its
close closes that one (`late_events_misdelivered`).
-/

namespace TurnEngine

namespace StreamEvent

/-- The call that a fragment or a close is for. -/
def address? : StreamEvent → Option String
  | .toolCallDelta id _ => some id
  | .toolCallEnd id => some id
  | _ => none

/-- The same event for another call. -/
def readdress (id : String) : StreamEvent → StreamEvent
  | .toolCallDelta _ fragment => .toolCallDelta id fragment
  | .toolCallEnd _ => .toolCallEnd id
  | e => e

@[simp] theorem isDone_readdress (id : String) (e : StreamEvent) :
    (e.readdress id).isDone = e.isDone := by
  cases e <;> rfl

theorem readdress_eq_self {id : String} {e : StreamEvent} (h : ∀ id', e.address? = some id' → id' = id) :
    e.readdress id = e := by
  cases e with
  | toolCallDelta id' fragment => rw [h id' rfl, readdress]
  | toolCallEnd id' => rw [h id' rfl, readdress]
  | _ => rfl

end StreamEvent

namespace Assembler

/-- Whether an event is for another call than the one that is open. -/
def misses (a : Assembler) (e : StreamEvent) : Bool :=
  match a, e.address? with
  | some call, some id => call.id ≠ id
  | _, _ => false

/-- What is open after an event, if one that is for another call is left alone. -/
def heed (a : Assembler) (e : StreamEvent) : Assembler :=
  if a.misses e then a else a.after e

/-- The calls that events close, one after another, if those for other calls are left alone. -/
def ownClosings (a : Assembler) : List StreamEvent → List ToolCall
  | [] => []
  | e :: es =>
    (if a.misses e then [] else (a.closing e).toList) ++ (a.heed e).ownClosings es

/-- An event, if it reaches an open call, for that call. -/
def deliver (a : Assembler) (e : StreamEvent) : StreamEvent :=
  match a with
  | some call => e.readdress call.id
  | none => e

/-- The same events, each for the call that it reaches. -/
def delivered (a : Assembler) : List StreamEvent → List StreamEvent
  | [] => []
  | e :: es => a.deliver e :: (a.after e).delivered es

section
variable (a : Assembler) (e : StreamEvent)

theorem misses_deliver : a.misses (a.deliver e) = false := by
  cases a with
  | none => rfl
  | some call => cases e <;> simp [misses, deliver, StreamEvent.readdress, StreamEvent.address?]

theorem after_deliver : a.after (a.deliver e) = a.after e := by
  cases a <;> cases e <;> rfl

theorem closing_deliver : a.closing (a.deliver e) = a.closing e := by
  cases a <;> cases e <;> rfl

theorem deliver_eq_self (h : a.misses e = false) : a.deliver e = e := by
  cases a with
  | none => rfl
  | some call =>
    refine StreamEvent.readdress_eq_self fun id hid => ?_
    simp only [misses, hid, decide_eq_false_iff_not, Decidable.not_not] at h
    exact h.symm

end

/-- Whatever reaches an open call is taken for it. -/
theorem closings_eq (a : Assembler) (es : List StreamEvent) :
    a.closings es = a.ownClosings (a.delivered es) := by
  induction es generalizing a with
  | nil => rfl
  | cons e es ih =>
    rw [closings, delivered, ownClosings, heed, a.misses_deliver e, a.after_deliver e,
      a.closing_deliver e, ih]
    rfl

end Assembler

namespace RoundTrip

/-- The calls of an answer, if fragments and closes for other calls than the open one are left
alone: each has the fragments that are for it between its start and its own close. -/
def ownCalls (es : List StreamEvent) : List ToolCall := Assembler.ownClosings none es

/-- Every fragment and every close that reaches an open call is for it. -/
def WellAddressed (es : List StreamEvent) : Prop :=
  ∀ n < es.length, (es[n]?.any (Assembler.misses (openCall? (es.take n)))) = false

instance (es : List StreamEvent) : Decidable (WellAddressed es) :=
  inferInstanceAs (Decidable (∀ n < es.length, _))

theorem closedCalls_eq (es : List StreamEvent) :
    closedCalls es = ownCalls (Assembler.delivered none es) := by
  have hcalls := closedCalls_append [] es
  rw [List.nil_append] at hcalls
  rw [hcalls, ownCalls, ← Assembler.closings_eq]
  rfl

/-- Events that reach the calls they are for stay as they are. -/
theorem WellAddressed.delivered_eq {before later : List StreamEvent}
    (h : WellAddressed (before ++ later)) :
    Assembler.delivered (openCall? before) later = later := by
  induction later generalizing before with
  | nil => rfl
  | cons e later ih =>
    have he : Assembler.misses (openCall? before) e = false := by
      have hhere := h before.length (by simp)
      rwa [List.getElem?_append_right (Nat.le_refl _), Nat.sub_self, List.take_left] at hhere
    rw [List.append_cons] at h
    have hlater := ih h
    rw [openCall?_concat] at hlater
    rw [Assembler.delivered, Assembler.deliver_eq_self _ _ he, hlater]

/-! ## Courses -/

/-- The same arrival for another call. -/
def Arrival.readdress (id : String) : Arrival → Arrival
  | .item i => .item (i.map (Except.map (StreamEvent.readdress id)))
  | .cancel => .cancel

theorem accept_readdress (r : RoundTrip) (id : String) (e : StreamEvent) :
    r.accept (e.readdress id) = r.accept e := by
  cases e <;> rfl

theorem meet_readdress (r : RoundTrip) (id : String) (a : Arrival) :
    r.meet (a.readdress id) = r.meet a := by
  rcases a with (_ | _ | e) | _
  · rfl
  · rfl
  · simp only [Arrival.readdress, Option.map_some, Except.map, meet, accept_readdress,
      StreamEvent.isDone_readdress]
  · rfl

theorem through_readdress (r : RoundTrip) (id : String) (arrivals : List Arrival) :
    r.through (arrivals.map (Arrival.readdress id)) = r.through arrivals := by
  induction arrivals generalizing r with
  | nil => rfl
  | cons a arrivals ih => simp only [List.map_cons, through, meet_readdress, ih]

theorem course_readdress (id : String) (items : List (Except Failure StreamEvent)) :
    course (ofStream (items.map (Except.map (StreamEvent.readdress id)))) = course (ofStream items) := by
  have harrivals : ofStream (items.map (Except.map (StreamEvent.readdress id)))
      = (ofStream items).map (Arrival.readdress id) := by
    simp [ofStream, Arrival.readdress]
  rw [harrivals, course, course, begin_eq]
  exact through_readdress started id (ofStream items)

/-- Streams that differ only in whom fragments and closes are for. -/
theorem course_eq_of_readdressed {items items' : List (Except Failure StreamEvent)}
    (h : items'.map (Except.map (StreamEvent.readdress ""))
      = items.map (Except.map (StreamEvent.readdress ""))) :
    course (ofStream items') = course (ofStream items) := by
  rw [← course_readdress "" items', h, course_readdress]

/-- Every event before the answer came to its end was accepted. -/
theorem exists_underWay {r r' : RoundTrip} {es : List StreamEvent} {later : List Arrival}
    (hs : r.InStep) (hd : ∀ e ∈ es, e.isDone = false)
    (h : r.through (es.map .event ++ later) = .answered r') :
    ∃ r₁, r.through (es.map .event) = .underWay r₁ := by
  induction es generalizing r with
  | nil => exact ⟨r, rfl⟩
  | cons e es ih =>
    simp only [List.map_cons, List.cons_append, through] at h ⊢
    rcases hs.meet_event e with ⟨text, -, -, hm⟩ | ⟨r₁, hdone, -⟩ | ⟨r₁, -, hm, hs₁, -⟩
    · rw [hm] at h
      cases h
    · rw [hd e List.mem_cons_self] at hdone
      cases hdone
    · rw [hm] at h ⊢
      exact ih hs₁ (fun e' he' => hd e' (List.mem_cons_of_mem _ he')) h

/-- The calls of an answered round trip are those that its events close. -/
theorem calls_of_answered {items : List (Except Failure StreamEvent)} {r : RoundTrip}
    (h : course (ofStream items) = .answered r) : r.calls = closedCalls (cut items).1 := by
  obtain ⟨i, hi, hlast, hgo, later, hsplit⟩ := cut_reaches items
  rw [hsplit, course, begin_eq] at h
  obtain ⟨r₁, hr₁⟩ := exists_underWay InStep.started hgo h
  have hholds := Holds.started.of_through hr₁
  have hm := hholds.meet_last hlast
  rw [List.nil_append] at hm
  have hend := through_append hr₁ (.item i :: later)
  rw [through, hm] at hend
  have hsame := hend.symm.trans h
  rcases i with _ | f | e
  · cases hsame
    rfl
  · cases hsame
  · cases hsame
    rfl

/-- A round trip takes no notice of whom fragments and closes are for. Its calls are those that come
out if each of them is for the call that it reaches; so they are the right ones if each of them is. -/
theorem taken_for_open_call (items : List (Except Failure StreamEvent)) :
    (∀ items' : List (Except Failure StreamEvent),
      items'.map (Except.map (StreamEvent.readdress ""))
          = items.map (Except.map (StreamEvent.readdress "")) →
        course (ofStream items') = course (ofStream items)) ∧
      ∀ r, course (ofStream items) = .answered r →
        r.calls = ownCalls (Assembler.delivered none (cut items).1) ∧
          (WellAddressed (cut items).1 → r.calls = ownCalls (cut items).1) := by
  refine ⟨fun items' h => course_eq_of_readdressed h, fun r hr => ?_⟩
  have hcalls := calls_of_answered hr
  rw [closedCalls_eq] at hcalls
  refine ⟨hcalls, fun h => ?_⟩
  have hsame : Assembler.delivered none (cut items).1 = (cut items).1 :=
    @WellAddressed.delivered_eq [] _ h
  rw [hcalls, hsame]

/-- The last events of a call that was superseded make and close the call that superseded it, just
as if they were for that call. -/
theorem taken_for_open_call_superseded :
    let items : List (Except Failure StreamEvent) :=
      [.ok (.toolCallStart "a" "look"), .ok (.toolCallStart "b" "see"),
        .ok (.toolCallDelta "a" "true"), .ok (.toolCallEnd "a")]
    let items' : List (Except Failure StreamEvent) :=
      [.ok (.toolCallStart "a" "look"), .ok (.toolCallStart "b" "see"),
        .ok (.toolCallDelta "b" "true"), .ok (.toolCallEnd "b")]
    course (ofStream items') = course (ofStream items) ∧ WellAddressed (cut items').1 ∧
      ∃ r, course (ofStream items) = .answered r ∧ r.calls = ownCalls (cut items').1 := by
  intro items items'
  have haddressed : WellAddressed (cut items').1 := by decide +kernel
  have hsame : course (ofStream items') = course (ofStream items) :=
    (taken_for_open_call items).1 items' rfl
  have hanswered : ∃ r, course (ofStream items') = .answered r := ⟨_, rfl⟩
  obtain ⟨r, hr⟩ := hanswered
  exact ⟨hsame, haddressed, r, hsame.symm.trans hr,
    ((taken_for_open_call items').2 r hr).2 haddressed⟩

/-- A late fragment ends up in another call than the one that it is for, and a late close closes
another one. -/
theorem late_events_misdelivered :
    (∃ r, course (ofStream [.ok (.toolCallStart "a" "look"), .ok (.toolCallStart "b" "see"),
        .ok (.toolCallDelta "a" "true"), .ok (.toolCallEnd "b")]) = .answered r ∧
      r.calls = [⟨"b", "see", .bool true⟩]) ∧
    ownCalls [.toolCallStart "a" "look", .toolCallStart "b" "see", .toolCallDelta "a" "true",
      .toolCallEnd "b"] = [⟨"b", "see", .empty⟩] ∧
    (∃ r, course (ofStream [.ok (.toolCallStart "a" "look"), .ok (.toolCallStart "b" "see"),
        .ok (.toolCallEnd "a")]) = .answered r ∧ r.calls = [⟨"b", "see", .empty⟩]) ∧
    ownCalls [.toolCallStart "a" "look", .toolCallStart "b" "see", .toolCallEnd "a"] = [] ∧
    ¬ ∀ items r, course (ofStream items) = .answered r → r.calls = ownCalls (cut items).1 := by
  refine ⟨⟨_, rfl, rfl⟩, rfl, ⟨_, rfl, rfl⟩, rfl, fun hown => ?_⟩
  have hcalls := hown [.ok (.toolCallStart "a" "look"), .ok (.toolCallStart "b" "see"),
    .ok (.toolCallEnd "a")] _ rfl
  exact absurd (congrArg List.length hcalls) (by decide +kernel)

end RoundTrip

end TurnEngine
