import TurnEngine.Proofs.Stream.InStep
import TurnEngine.Proofs.Usage.Sum

/-!
# The usage of a round trip

A round trip has counted the usage events that arrived before the end of its answer, and nothing
else: whatever else arrives leaves the count alone (`RoundTrip.meet_underWay`), and so does closing
it (`RoundTrip.meet_answered`). Over a whole course the count is the sum of the `deltas`.
-/

namespace TurnEngine

/-- What an event counts. -/
def StreamEvent.usage? : StreamEvent → Option Usage
  | .usage u => some u
  | _ => none

/-- What a report says has been counted. -/
def Report.usage? : Report → Option Usage
  | .usage soFar => some soFar
  | _ => none

namespace RoundTrip

/-- The usage events before the end of the answer. -/
def deltas : List Arrival → List Usage
  | .item (some (.ok e)) :: later => e.usage?.toList ++ if e.isDone then [] else deltas later
  | _ => []

variable {r r' : RoundTrip} {a : Arrival} {arrivals : List Arrival}

/-! ## One event -/

theorem bind_ok {α β : Type} {x : Except Failure α} {f : α → Except Failure β} {b : β}
    (h : x >>= f = .ok b) : ∃ a, x = .ok a ∧ f a = .ok b := by
  cases x with
  | error e => cases h
  | ok a => exact ⟨a, rfl, h⟩

theorem advance_usage {step : Protocol.Step} (h : r.advance step = .ok r') :
    r'.usage = r.usage := by
  unfold advance at h
  split at h <;> cases h
  rfl

theorem abandon_usage (h : r.abandon = .ok r') : r'.usage = r.usage := by
  unfold abandon at h
  split at h
  · cases h
    rfl
  · exact (advance_usage h :)

theorem finish_usage (h : r.finish = .ok r') : r'.usage = r.usage := by
  obtain ⟨r₁, h₁, h⟩ := bind_ok h
  exact (advance_usage h).trans (abandon_usage h₁)

/-- A usage event is added and reported with the sum; any other event neither counts nor reports
usage. -/
theorem accept_usage {e : StreamEvent} {said : List Report} (h : r.accept e = .ok (r', said)) :
    r'.usage = r.usage + e.usage?.toList.sum ∧
      said.filterMap Report.usage? = e.usage?.toList.map fun _ => r'.usage := by
  cases e with
  | textDelta text =>
    obtain ⟨r₁, h₁, h⟩ := bind_ok h
    cases h
    exact ⟨(advance_usage h₁).trans (add_zero r.usage).symm, rfl⟩
  | toolCallStart id name =>
    obtain ⟨r₁, h₁, h⟩ := bind_ok h
    obtain ⟨r₂, h₂, h⟩ := bind_ok h
    cases h
    exact ⟨((advance_usage h₂).trans (abandon_usage h₁)).trans (add_zero r.usage).symm, rfl⟩
  | toolCallDelta id fragment =>
    cases h
    exact ⟨(add_zero r.usage).symm, rfl⟩
  | toolCallEnd id =>
    simp only [accept] at h
    split at h
    · cases h
      exact ⟨(add_zero r.usage).symm, rfl⟩
    · obtain ⟨r₁, h₁, h⟩ := bind_ok h
      cases h
      exact ⟨(advance_usage h₁).trans (add_zero r.usage).symm, rfl⟩
  | usage u =>
    cases h
    refine ⟨?_, rfl⟩
    simp [StreamEvent.usage?]
  | done stopReason =>
    cases h
    exact ⟨(add_zero r.usage).symm, rfl⟩

/-! ## One arrival -/

theorem close_usage (h : r.close = .answered r') : r'.usage = r.usage := by
  unfold close at h
  split at h <;> cases h
  exact finish_usage ‹_›

/-- A round trip that goes on has accepted an event that does not end the answer. -/
theorem meet_underWay (h : r.meet a = .underWay r') :
    ∃ e said, a = .event e ∧ e.isDone = false ∧ r.accept e = .ok (r', said) := by
  obtain ⟨e, rfl⟩ := event_of_meet h
  simp only [meet] at h
  split at h
  · cases h
  · rename_i said ha
    split at h
    · unfold close at h
      split at h <;> cases h
    · rename_i hd
      cases h
      exact ⟨e, said, rfl, by simpa using hd, ha⟩

/-- The end of an answer counts nothing. -/
theorem meet_answered (h : r.meet a = .answered r') :
    (∀ later, deltas (a :: later) = []) ∧ r'.usage = r.usage := by
  unfold meet at h
  split at h
  · cases h
  · exact ⟨fun _ => rfl, close_usage h⟩
  · cases h
  · rename_i e
    split at h
    · cases h
    · rename_i ha
      split at h
      · cases e with
        | done stopReason =>
          cases ha
          exact ⟨fun _ => rfl, (close_usage h :)⟩
        | _ => contradiction
      · cases h

theorem through_singleton (r : RoundTrip) (a : Arrival) : r.through [a] = r.meet a := by
  simp only [through]
  split <;> exact (‹_› : r.meet a = _).symm

/-! ## Whole courses -/

theorem deltas_cons {e : StreamEvent} (hd : e.isDone = false) (later : List Arrival) :
    deltas (.event e :: later) = e.usage?.toList ++ deltas later := by
  simp [deltas, hd]

/-- What a round trip has counted when it is under way or answered. -/
theorem through_usage (h : r.through arrivals = .underWay r' ∨ r.through arrivals = .answered r') :
    r'.usage = r.usage + (deltas arrivals).sum := by
  induction arrivals generalizing r with
  | nil =>
    rcases h with h | h <;> cases h
    exact (add_zero _).symm
  | cons a later ih =>
    simp only [through] at h
    cases hm : r.meet a with
    | failed f =>
      rw [hm] at h
      rcases h with h | h <;> cases h
    | underWay r₁ =>
      rw [hm] at h
      obtain ⟨e, said, rfl, hd, ha⟩ := meet_underWay hm
      rw [ih h, (accept_usage ha).1, deltas_cons hd, List.sum_append, add_assoc]
    | answered r₁ =>
      rw [hm] at h
      rcases h with h | h <;> cases h
      obtain ⟨hnone, hr'⟩ := meet_answered hm
      rw [hr', hnone, List.sum_nil, add_zero]

theorem course_usage
    (h : course arrivals = .underWay r ∨ course arrivals = .answered r) :
    r.usage = (deltas arrivals).sum := by
  unfold course at h
  rw [begin_eq] at h
  exact (through_usage h).trans (zero_add _)

/-- More arrivals count after those that left a round trip under way. -/
theorem deltas_append (h : r.through arrivals = .underWay r') (later : List Arrival) :
    deltas (arrivals ++ later) = deltas arrivals ++ deltas later := by
  induction arrivals generalizing r with
  | nil => rfl
  | cons a arrivals ih =>
    simp only [through] at h
    cases hm : r.meet a with
    | underWay r₁ =>
      rw [hm] at h
      obtain ⟨e, said, rfl, hd, -⟩ := meet_underWay hm
      rw [List.cons_append, deltas_cons hd, deltas_cons hd, ih h, List.append_assoc]
    | answered r₁ =>
      rw [hm] at h
      cases h
    | failed f =>
      rw [hm] at h
      cases h

theorem course_deltas_append (h : course arrivals = .underWay r) (later : List Arrival) :
    deltas (arrivals ++ later) = deltas arrivals ++ deltas later := by
  unfold course at h
  rw [begin_eq] at h
  exact deltas_append h later

end RoundTrip

end TurnEngine
