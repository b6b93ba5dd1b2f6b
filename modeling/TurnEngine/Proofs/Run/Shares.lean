import TurnEngine.Proofs.Run.CallOrder
import TurnEngine.Proofs.Run.Pairing

/-!
# Which calls get a result

A batch may leave calls out, answer one twice, and answer calls that nobody made. The pairing is
fair to every id by itself (`results_shared`): of the calls with an id the first ones get the
results that the batch has for that id, each of them once and none of them changed, as long as they
last; the calls after them get results made up for them, and results beyond the calls are dropped.

Which of several results with one id a call gets depends on the other ids too, as the last result
left fills each gap. So the results for an id are followed up to their order: one call takes one
of them away or finds none (`takeResult_cases`), whatever the gap does to the rest.
-/

namespace TurnEngine.Run

/-- The calls with an id. -/
def callsOf (id : String) (calls : List ToolCall) : List ToolCall :=
  calls.filter fun c => c.id = id

/-- The results with an id. -/
def resultsOf (id : String) (results : List ToolResult) : List ToolResult :=
  results.filter fun r => r.callId = id

/-- What the calls with an id get, in their order. -/
def sharesOf (id : String) (calls : List ToolCall) (results : List ToolResult) :
    List ToolResult :=
  ((calls.zip results).filter fun p => p.1.id = id).map (·.2)

/-- One call gets a result made up for it if there is none with its id; otherwise it gets one of
those, and the others are left. -/
theorem takeResult_cases (call : ToolCall) (produced : List ToolResult) :
    (resultsOf call.id produced = [] ∧
      takeResult call produced = (missingResult call, produced)) ∨
    ∃ r left, takeResult call produced = (r, left) ∧ r.callId = call.id ∧
      (r :: left).Perm produced := by
  by_cases hid : call.id ∈ produced.map (·.callId)
  · obtain ⟨xs, r, ys, rfl, hr, hxs⟩ := exists_first hid
    refine .inr ⟨r, _, takeResult_middle hr hxs ys, hr, ?_⟩
    have hleft := (perm_getLast_dropLast ys).append_left xs
    exact (hleft.cons r).trans List.perm_middle.symm
  · have hnone : ∀ r ∈ produced, r.callId ≠ call.id :=
      fun r hr he => hid (List.mem_map.2 ⟨r, hr, he⟩)
    refine .inl ⟨by simpa [resultsOf, List.filter_eq_nil_iff] using hnone, ?_⟩
    have hfind : produced.findIdx? (fun r => r.callId = call.id) = none := by
      simpa [List.findIdx?_eq_none_iff] using hnone
    unfold takeResult
    rw [hfind]

/-! ## Shares -/

/-- How the results for an id are shared out: the calls that are served get results of the batch
with their id, the calls after them get results made up for them, and what is left is dropped. -/
structure Shares (id : String) (calls : List ToolCall) (produced given : List ToolResult)
    (served dropped : List ToolResult) : Prop where
  length : served.length = min (callsOf id calls).length (resultsOf id produced).length
  once : (served ++ dropped).Perm (resultsOf id produced)
  given : sharesOf id calls given
    = served ++ ((callsOf id calls).drop served.length).map missingResult

section
variable {id : String} {call : ToolCall} {calls : List ToolCall} {r : ToolResult}
  {produced left given served dropped : List ToolResult}

theorem Shares.nil (id : String) (produced : List ToolResult) :
    Shares id [] produced [] [] (resultsOf id produced) :=
  ⟨by simp [callsOf], List.Perm.refl _, rfl⟩

/-- A call with another id changes nothing. -/
theorem Shares.other (h : Shares id calls left given served dropped) (hid : call.id ≠ id)
    (hleft : (resultsOf id left).Perm (resultsOf id produced)) (r : ToolResult) :
    Shares id (call :: calls) produced (r :: given) served dropped := by
  have hcalls : callsOf id (call :: calls) = callsOf id calls := by simp [callsOf, hid]
  have hgiven : sharesOf id (call :: calls) (r :: given) = sharesOf id calls given := by
    simp [sharesOf, hid]
  refine ⟨?_, h.once.trans hleft, ?_⟩
  · rw [h.length, hcalls, hleft.length_eq]
  · rw [hgiven, h.given, hcalls]

/-- A call that finds a result is the first one to be served. -/
theorem Shares.serve (h : Shares call.id calls left given served dropped)
    (hleft : (r :: resultsOf call.id left).Perm (resultsOf call.id produced)) :
    Shares call.id (call :: calls) produced (r :: given) (r :: served) dropped := by
  have hcalls : callsOf call.id (call :: calls) = call :: callsOf call.id calls := by
    simp [callsOf]
  have hgiven : sharesOf call.id (call :: calls) (r :: given) = r :: sharesOf call.id calls given :=
    by simp [sharesOf]
  have hlength : (resultsOf call.id produced).length = (resultsOf call.id left).length + 1 :=
    hleft.length_eq.symm
  refine ⟨?_, (h.once.cons r).trans hleft, ?_⟩
  · rw [hcalls, hlength, List.length_cons, List.length_cons, h.length]
    omega
  · rw [hgiven, h.given, hcalls]
    rfl

/-- Once there are no results for an id, all calls with it get made up ones. -/
theorem Shares.lack (h : Shares call.id calls produced given served dropped)
    (hnone : resultsOf call.id produced = []) :
    Shares call.id (call :: calls) produced (missingResult call :: given) served dropped := by
  have hserved : served = [] := by
    have hall := h.once
    rw [hnone, List.perm_nil] at hall
    exact (List.append_eq_nil_iff.1 hall).1
  subst hserved
  have hgiven : sharesOf call.id (call :: calls) (missingResult call :: given)
      = missingResult call :: sharesOf call.id calls given := by simp [sharesOf]
  refine ⟨by simp [hnone], h.once, ?_⟩
  rw [hgiven, h.given]
  simp [callsOf]

end

theorem exists_shares (id : String) (calls : List ToolCall) (produced : List ToolResult) :
    ∃ served dropped, Shares id calls produced (pairResults calls produced) served dropped := by
  induction calls generalizing produced with
  | nil => exact ⟨[], resultsOf id produced, .nil id produced⟩
  | cons call calls ih =>
    rcases takeResult_cases call produced with ⟨hnone, htake⟩ | ⟨r, left, htake, hr, hperm⟩
    · obtain ⟨served, dropped, hshares⟩ := ih produced
      rw [pairResults, htake]
      refine ⟨served, dropped, ?_⟩
      by_cases hid : call.id = id
      · subst hid
        exact hshares.lack hnone
      · exact hshares.other hid (List.Perm.refl _) _
    · obtain ⟨served, dropped, hshares⟩ := ih left
      have hleft : (resultsOf id (r :: left)).Perm (resultsOf id produced) := hperm.filter _
      rw [pairResults, htake]
      by_cases hid : call.id = id
      · subst hid
        refine ⟨r :: served, dropped, hshares.serve ?_⟩
        simpa [resultsOf, hr] using hleft
      · refine ⟨served, dropped, hshares.other hid ?_ r⟩
        simpa [resultsOf, hr, hid] using hleft

/-- Every call gets exactly one result, with its id; and for every id the first calls with it get
the results that the batch has for it, each at most once and unchanged, until there are no more
calls or no more results. The other calls get results that say so, as errors, and all other results
are dropped. -/
theorem results_shared (calls : List ToolCall) (produced : List ToolResult) :
    (pairResults calls produced).length = calls.length ∧
      (pairResults calls produced).map (·.callId) = calls.map (·.id) ∧
      (∀ id, ∃ served dropped,
        Shares id calls produced (pairResults calls produced) served dropped) ∧
      ∀ call, (missingResult call).isError = true := by
  have hids := map_callId_pairResults calls produced
  refine ⟨?_, hids, fun id => exists_shares id calls produced, fun _ => rfl⟩
  simpa using congrArg List.length hids

/-- Three calls with one id and two results: the last call goes without. -/
example :
    pairResults [⟨"a", "t", .null⟩, ⟨"b", "t", .null⟩, ⟨"a", "t", .null⟩, ⟨"a", "u", .null⟩]
      [⟨"x", "0", false⟩, ⟨"a", "1", false⟩, ⟨"a", "2", true⟩]
    = [⟨"a", "1", false⟩, ⟨"b", "tool 't' produced no result", true⟩, ⟨"a", "2", true⟩,
      ⟨"a", "tool 'u' produced no result", true⟩] := by decide +kernel

end TurnEngine.Run
