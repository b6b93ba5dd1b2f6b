import TurnEngine.Proofs.Json.Values
import TurnEngine.Proofs.Stream.Answer

/-!
# Arguments in fragments

The arguments of a call come in fragments, and it makes no difference where the text is cut: the
call is closed with what the joined text stands for (`finish_pushAll`), which for the text of a
plain value is that value (`parseArguments_render`). The ready-made stream of one call cuts its
text in the middle, between two characters or not at all (`halved`), and is answered with just this
call (`course_toolTurn`). `arguments_of_fragments` is all of it.
-/

namespace TurnEngine

namespace StreamEvent

/-! ## The middle of a text -/

theorem utf8ByteSize_ofList_cons (c : Char) (cs : List Char) :
    (String.ofList (c :: cs)).utf8ByteSize = c.utf8Size + (String.ofList cs).utf8ByteSize := by
  rw [String.ofList_cons, String.utf8ByteSize_append, String.utf8ByteSize_singleton]

theorem cutAt_eq_some {n : Nat} {cs head tail : List Char} (h : cutAt n cs = some (head, tail)) :
    cs = head ++ tail ∧ (String.ofList head).utf8ByteSize = n := by
  induction cs generalizing n head with
  | nil =>
    cases n with
    | zero =>
      simp only [cutAt, Option.some.injEq, Prod.mk.injEq] at h
      obtain ⟨rfl, rfl⟩ := h
      exact ⟨rfl, rfl⟩
    | succ n => cases h
  | cons c cs ih =>
    cases n with
    | zero =>
      simp only [cutAt, Option.some.injEq, Prod.mk.injEq] at h
      obtain ⟨rfl, rfl⟩ := h
      exact ⟨rfl, rfl⟩
    | succ n =>
      rw [cutAt] at h
      split at h
      · rename_i hfits
        obtain ⟨⟨front, back⟩, hcut, he⟩ := Option.map_eq_some_iff.1 h
        simp only [Prod.mk.injEq] at he
        obtain ⟨rfl, rfl⟩ := he
        obtain ⟨rfl, hsize⟩ := ih hcut
        refine ⟨rfl, ?_⟩
        rw [utf8ByteSize_ofList_cons]
        omega
      · cases h

theorem cutAt_eq_none {n : Nat} {cs : List Char} (h : cutAt n cs = none) (head tail : List Char)
    (hcs : cs = head ++ tail) : (String.ofList head).utf8ByteSize ≠ n := by
  induction cs generalizing n head with
  | nil =>
    cases n with
    | zero => cases h
    | succ n =>
      obtain ⟨rfl, -⟩ := List.append_eq_nil_iff.1 hcs.symm
      exact Nat.succ_ne_zero n ∘ Eq.symm
  | cons c cs ih =>
    cases n with
    | zero => cases h
    | succ n =>
      cases head with
      | nil => exact Nat.succ_ne_zero n ∘ Eq.symm
      | cons d head =>
        rw [List.cons_append, List.cons.injEq] at hcs
        obtain ⟨rfl, hcs⟩ := hcs
        rw [utf8ByteSize_ofList_cons]
        rw [cutAt] at h
        split at h
        · have hrest := ih (Option.map_eq_none_iff.1 h) head hcs
          omega
        · omega

/-- A text in two fragments: cut after half of its bytes, or in one piece if that is no place
between two characters. -/
inductive Halved (text : String) : String × String → Prop
  | cut {head tail : String} : text = head ++ tail → head.utf8ByteSize = text.utf8ByteSize / 2 →
      Halved text (head, tail)
  | uncut : (∀ head tail, text = head ++ tail → head.utf8ByteSize ≠ text.utf8ByteSize / 2) →
      Halved text (text, "")

theorem halved (text : String) : Halved text (halves text) := by
  unfold halves
  cases hcut : cutAt (text.utf8ByteSize / 2) text.toList with
  | some parts =>
    obtain ⟨head, tail⟩ := parts
    obtain ⟨hparts, hsize⟩ := cutAt_eq_some hcut
    refine .cut ?_ hsize
    rw [← String.ofList_append, ← hparts, String.ofList_toList]
  | none =>
    refine .uncut fun head tail hparts => ?_
    have hsize := cutAt_eq_none hcut head.toList tail.toList (by rw [hparts, String.toList_append])
    rwa [String.ofList_toList] at hsize

theorem Halved.join {text : String} {parts : String × String} (h : Halved text parts) :
    String.join [parts.1, parts.2] = text := by
  cases h with
  | cut hparts _ => simp [hparts]
  | uncut _ => simp

end StreamEvent

namespace Assembler

/-! ## What a text stands for -/

theorem isBlank_of_isDigit {c : Char} (h : c.isDigit = true) : Text.isBlank c = false := by
  rw [Char.isDigit_iff_toNat] at h
  have hbounds : '0'.toNat = 48 ∧ '9'.toNat = 57 := ⟨rfl, rfl⟩
  simp only [Text.isBlank, Text.blankRanges, List.any_cons, List.any_nil, Bool.or_false,
    Bool.or_eq_false_iff, Bool.and_eq_false_iff, decide_eq_false_iff_not]
  omega

/-- Nothing but blanks is no JSON. -/
theorem parse_of_blank {text : String} (h : text.toList.all Text.isBlank = true) :
    Json.parse text = none := by
  have hread : ∃ f, Json.read text.toList = .error f := by
    unfold Json.read Json.readValue
    split
    · exact ⟨_, rfl⟩
    -- The first character that is not skipped stands in the text, so it is blank; no value begins
    -- with a blank.
    all_goals
      rename_i hskip
      have hmem := (List.dropWhile_sublist Json.isSpace).subset (hskip ▸ List.mem_cons_self)
      have hblank := List.all_eq_true.1 h _ hmem
      try exact absurd hblank (by decide)
    · have hdigit := mt isBlank_of_isDigit (by rw [hblank]; decide)
      rw [if_neg hdigit]
      exact ⟨_, rfl⟩
  obtain ⟨f, hf⟩ := hread
  rw [Json.parse, hf]

/-- Arguments are the value of their text, or none at all. -/
theorem parseArguments_eq (text : String) :
    parseArguments text = (Json.parse text).getD .empty := by
  unfold parseArguments
  split
  · rename_i hblank
    rw [parse_of_blank hblank]
    rfl
  · rfl

theorem parseArguments_render {v : Json} (h : v.Plain Json.nestingLimit) :
    parseArguments v.render = v := by
  rw [parseArguments_eq, Json.parse_render h, Option.getD_some]

/-! ## One call -/

theorem pushAll_some (call : OpenCall) (fragments : List String) :
    pushAll (some call) fragments =
      some { call with buffer := call.buffer ++ String.join fragments } := by
  induction fragments generalizing call with
  | nil => simp [pushAll]
  | cons fragment fragments ih =>
    have hpush : pushAll (some call) (fragment :: fragments) =
        pushAll (some { call with buffer := call.buffer ++ fragment }) fragments := rfl
    rw [hpush, ih, String.join_cons, String.append_assoc]

/-- A call is closed with the arguments that its fragments stand for together. -/
theorem finish_pushAll (a : Assembler) (id name : String) (fragments : List String) :
    ((a.start id name).pushAll fragments).finish =
      (none, some ⟨id, name, parseArguments (String.join fragments)⟩) := by
  rw [start, pushAll_some]
  simp [finish]

/-! ## The ready-made stream of a call -/

open StreamEvent RoundTrip

/-- The events of a call that comes in two fragments. -/
def callEvents (id name head tail : String) : List StreamEvent :=
  [.toolCallStart id name, .toolCallDelta id head, .toolCallDelta id tail, .toolCallEnd id]

theorem toolTurn_eq (id name text : String) : ∃ head tail, Halved text (head, tail) ∧
    toolTurn id name text = callEvents id name head tail ++ [.done (some "tool_use")] :=
  ⟨(halves text).1, (halves text).2, halved text, rfl⟩

/-- The stream closes one call, and leaves none open. -/
theorem closings_toolTurn (a : Assembler) (id name text : String) :
    a.closings (toolTurn id name text) = [⟨id, name, parseArguments text⟩] ∧
      (toolTurn id name text).foldl after a = none := by
  obtain ⟨head, tail, hhalved, hturn⟩ := toolTurn_eq id name text
  have hbuffer : "" ++ head ++ tail = text := by simpa using hhalved.join
  rw [hturn, ← hbuffer]
  exact ⟨rfl, rfl⟩

/-- A round trip on the stream is answered with the call. -/
theorem course_toolTurn (id name text : String) :
    course (ofStream ((toolTurn id name text).map .ok)) = .answered
      { stage := .done, calls := [⟨id, name, parseArguments text⟩],
        stopReason := some "tool_use" } := by
  obtain ⟨head, tail, -, hturn⟩ := toolTurn_eq id name text
  have hcut : cut ((toolTurn id name text).map .ok) =
      (callEvents id name head tail, .event (.done (some "tool_use"))) := by
    rw [hturn]
    rfl
  have hcalls : closedCalls (callEvents id name head tail) =
      [⟨id, name, parseArguments text⟩] := by
    have hclosings := (closings_toolTurn none id name text).1
    rw [hturn] at hclosings
    exact (closedCalls_append [] _).trans hclosings
  have hsilent : NoTextInCall (callEvents id name head tail) := by
    intro n hn htext
    match n, hn with
    | 0, _ => cases htext
    | 1, _ => cases htext
    | 2, _ => cases htext
    | 3, _ => cases htext
  rw [course_eq_outcome _ (by rw [hcut]; exact hsilent), hcut]
  change Progress.answered (answer _ _) = _
  rw [answer, hcalls]
  rfl

/-! ## All of it -/

/-- The arguments of a call are what its fragments stand for together, however they were cut; those
of a plain value are that value. The two fragments of the ready-made stream are one way to cut a
text. -/
theorem arguments_of_fragments (a : Assembler) (id name : String) :
    (∀ fragments, ((a.start id name).pushAll fragments).finish =
      (none, some ⟨id, name, parseArguments (String.join fragments)⟩)) ∧
    (∀ v fragments, v.Plain Json.nestingLimit → String.join fragments = v.render →
      ((a.start id name).pushAll fragments).finish = (none, some ⟨id, name, v⟩)) ∧
    (∀ text, text.toList.all Text.isBlank = true ∨ Json.parse text = none →
      parseArguments text = .empty) ∧
    (∀ text v, Json.parse text = some v → parseArguments text = v) ∧
    (∀ text, Halved text (halves text) ∧ String.join [(halves text).1, (halves text).2] = text) ∧
    (∀ text, a.closings (toolTurn id name text) = [⟨id, name, parseArguments text⟩] ∧
      (toolTurn id name text).foldl after a = none ∧
      course (ofStream ((toolTurn id name text).map .ok)) = .answered
        { stage := .done, calls := [⟨id, name, parseArguments text⟩],
          stopReason := some "tool_use" }) := by
  refine ⟨finish_pushAll a id name, ?_, ?_, ?_, ?_, ?_⟩
  · intro v fragments hv hjoin
    rw [finish_pushAll, hjoin, parseArguments_render hv]
  · intro text h
    have hnone : Json.parse text = none := by
      rcases h with hblank | hnone
      · exact parse_of_blank hblank
      · exact hnone
    rw [parseArguments_eq, hnone, Option.getD_none]
  · intro text v h
    rw [parseArguments_eq, h, Option.getD_some]
  · intro text
    exact ⟨halved text, (halved text).join⟩
  · intro text
    obtain ⟨hclosings, hnone⟩ := closings_toolTurn a id name text
    exact ⟨hclosings, hnone, course_toolTurn id name text⟩

/-- Five fragments of a text, one of them empty and one cut off inside an escape. The middle of the
text falls into a character of two bytes. -/
theorem arguments_of_fragments_nested :
    let v : Json := .obj [("a", .arr [.int (-3), .str "é\n"]), ("b", .int 0)]
    let fragments := ["\x7b\"a\":[-", "", "3,\"é\\", "n\"],\"b", "\":0\x7d"]
    v.Plain Json.nestingLimit ∧ String.join fragments = v.render ∧
      ((start none "id" "f").pushAll fragments).finish = (none, some ⟨"id", "f", v⟩) ∧
      halves v.render = (v.render, "") := by
  intro v fragments
  have hplain : v.Plain Json.nestingLimit := by
    refine .obj (by decide) fun f hf => ?_
    rcases List.mem_cons.1 hf with rfl | hf
    · refine .arr fun u hu => ?_
      rcases List.mem_cons.1 hu with rfl | hu
      · exact .int _ rfl
      · rw [List.mem_singleton.1 hu]
        exact .str _ _
    · rw [List.mem_singleton.1 hf]
      exact .int _ rfl
  have hjoin : String.join fragments = v.render := by decide +kernel
  exact ⟨hplain, hjoin, (arguments_of_fragments none "id" "f").2.1 v fragments hplain hjoin,
    by decide +kernel⟩

end Assembler

end TurnEngine
