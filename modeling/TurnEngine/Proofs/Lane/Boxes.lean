import Mathlib.Data.List.Perm.Lattice
import TurnEngine.Lane.Basic
import TurnEngine.Proofs.Table

/-!
# Boxes and queues in closed form

The operations on lanes put letters into boxes one at a time, along a queue. Here each of them is
given in one piece, for queues whose tickets all belong to callers that are still there:

* `rejectAll_eq`, `handOff_cons`, `regrant_eq`: one letter for every ticket of a list (`postAll`);
* `resetGeneration_eq`, `dispose_eq`: the same over the queues of all keys.

`slots_put` is all that an operation on one key needs to know about the table of lanes.
-/

namespace TurnEngine.Lane

/-! ## Letters for several callers -/

/-- Puts the same letter into the boxes of several callers. -/
def postAll (callers : List Caller) (ts : List Nat) (letter : Letter) : List Caller :=
  callers.map fun c => if c.ticket ∈ ts then { c with letter := some letter } else c

theorem post_eq (callers : List Caller) (t : Nat) (letter : Letter) :
    post callers t letter = postAll callers [t] letter := by
  simp [post, postAll]

theorem postAll_nil (callers : List Caller) (letter : Letter) :
    postAll callers [] letter = callers := by
  simp [postAll]

/-- The letter can be put into the boxes in two goes. -/
theorem postAll_append (callers : List Caller) (ts us : List Nat) (letter : Letter) :
    postAll (postAll callers ts letter) us letter = postAll callers (ts ++ us) letter := by
  simp only [postAll, List.map_map]
  refine List.map_congr_left fun c _ => ?_
  by_cases ht : c.ticket ∈ ts <;> by_cases hu : c.ticket ∈ us <;> simp [ht, hu]

theorem map_ticket_postAll (callers : List Caller) (ts : List Nat) (letter : Letter) :
    (postAll callers ts letter).map (·.ticket) = callers.map (·.ticket) := by
  rw [postAll, List.map_map]
  refine List.map_congr_left fun c _ => ?_
  simp only [Function.comp_apply]
  split <;> rfl

theorem mem_postAll {callers : List Caller} {ts : List Nat} {letter : Letter} {c : Caller} :
    c ∈ postAll callers ts letter ↔
      (c ∈ callers ∧ c.ticket ∉ ts) ∨
        ∃ d ∈ callers, d.ticket ∈ ts ∧ c = { d with letter := some letter } := by
  rw [postAll, List.mem_map]
  constructor
  · rintro ⟨d, hd, rfl⟩
    by_cases ht : d.ticket ∈ ts
    · exact .inr ⟨d, hd, ht, if_pos ht⟩
    · rw [if_neg ht]
      exact .inl ⟨hd, ht⟩
  · rintro (⟨hc, ht⟩ | ⟨d, hd, ht, rfl⟩)
    · exact ⟨c, hc, if_neg ht⟩
    · exact ⟨d, hd, if_pos ht⟩

theorem isListening_iff {callers : List Caller} {t : Nat} :
    isListening callers t = true ↔ ∃ c ∈ callers, c.ticket = t := by
  simp [isListening]

/-- Nobody goes away because of a letter. -/
theorem isListening_postAll (callers : List Caller) (ts : List Nat) (letter : Letter) (t : Nat) :
    isListening (postAll callers ts letter) t = isListening callers t := by
  have h : ∀ cs : List Caller, isListening cs t = (cs.map (·.ticket)).any (· = t) := fun cs => by
    rw [isListening, List.any_map]
    rfl
  rw [h, h, map_ticket_postAll]

/-! ## Along one queue -/

theorem rejectAll_eq (callers : List Caller) (queue : List Nat) :
    rejectAll callers queue = postAll callers queue .cleared := by
  unfold rejectAll
  induction queue generalizing callers with
  | nil => exact (postAll_nil _ _).symm
  | cons t queue ih => rw [List.foldl_cons, ih, post_eq, postAll_append, List.singleton_append]

theorem handOff_cons {callers : List Caller} {t : Nat} (h : isListening callers t = true)
    (generation : Nat) (queue : List Nat) :
    handOff generation callers (t :: queue) =
      some (queue, postAll callers [t] (.granted generation)) := by
  rw [handOff, if_pos h, post_eq]

/-- The free slots go to the oldest waiters. -/
theorem regrant_eq (limit generation : Nat) :
    ∀ (queue : List Nat) (callers : List Caller) (active : Nat),
      (∀ t ∈ queue, isListening callers t = true) →
      regrant limit generation callers active queue =
        (⟨active + min (limit - active) queue.length, queue.drop (limit - active)⟩,
          postAll callers (queue.take (limit - active)) (.granted generation))
  | [], callers, active, _ => by simp [regrant, postAll_nil]
  | t :: queue, callers, active, h => by
    by_cases hlt : active < limit
    · obtain ⟨n, hn⟩ : ∃ n, limit - active = n + 1 := ⟨limit - active - 1, by omega⟩
      have hn' : limit - (active + 1) = n := by omega
      have hq : ∀ u ∈ queue, isListening (post callers t (.granted generation)) u = true := by
        intro u hu
        rw [post_eq, isListening_postAll]
        exact h u (List.mem_cons_of_mem _ hu)
      rw [regrant, if_pos hlt, if_pos (h t List.mem_cons_self),
        regrant_eq limit generation queue _ _ hq, hn, hn', post_eq, postAll_append]
      simp only [List.length_cons, List.drop_succ_cons, List.take_succ_cons, Prod.mk.injEq,
        Slots.mk.injEq, and_true, List.singleton_append]
      omega
    · have hz : limit - active = 0 := by omega
      rw [regrant, if_neg hlt, hz]
      simp [postAll_nil]

/-! ## Along the queues of all keys -/

/-- The slots of a key after its queue got all of them. -/
def Slots.regranted (limit : Nat) (s : Slots) : Slots :=
  ⟨min limit s.queue.length, s.queue.drop limit⟩

theorem rejectEach_eq (es : List (String × Slots)) (callers : List Caller) :
    es.foldl (fun callers e => rejectAll callers e.2.queue) callers =
      postAll callers (es.flatMap fun e => e.2.queue) .cleared := by
  induction es generalizing callers with
  | nil => exact (postAll_nil _ _).symm
  | cons e es ih => rw [List.foldl_cons, ih, rejectAll_eq, postAll_append, List.flatMap_cons]

theorem regrantEach_eq (limit generation : Nat) :
    ∀ (es acc : List (String × Slots)) (callers : List Caller),
      (∀ e ∈ es, ∀ t ∈ e.2.queue, isListening callers t = true) →
      es.foldl (fun (acc, callers) (key, s) =>
          let (s, callers) := regrant limit generation callers 0 s.queue
          (acc ++ [(key, s)], callers)) (acc, callers) =
        (acc ++ es.map fun e => (e.1, e.2.regranted limit),
          postAll callers (es.flatMap fun e => e.2.queue.take limit) (.granted generation))
  | [], acc, callers, _ => by simp [postAll_nil]
  | (key, s) :: es, acc, callers, h => by
    have hs := regrant_eq limit generation s.queue callers 0 (h _ List.mem_cons_self)
    simp only [Nat.sub_zero, Nat.zero_add] at hs
    have hes : ∀ e ∈ es, ∀ t ∈ e.2.queue,
        isListening (postAll callers (s.queue.take limit) (.granted generation)) t = true := by
      intro e he t ht
      rw [isListening_postAll]
      exact h e (List.mem_cons_of_mem _ he) t ht
    rw [List.foldl_cons]
    dsimp only
    rw [hs]
    dsimp only
    rw [regrantEach_eq limit generation es _ _ hes, postAll_append, List.map_cons,
      List.flatMap_cons, List.append_assoc, List.singleton_append]
    rfl

/-! ## The slots of a key -/

namespace Registry

theorem slots_of_isIdle {s : Slots} (h : s.isIdle = true) : s = {} := by
  obtain ⟨active, queue⟩ := s
  simp only [Slots.isIdle, Bool.and_eq_true, decide_eq_true_eq, List.isEmpty_iff] at h
  obtain ⟨rfl, rfl⟩ := h
  rfl

theorem get?_put (r : Registry) (key k : String) (s : Slots) :
    (r.put key s).lanes.get? k =
      if k = key then (if s.isIdle then none else some s) else r.lanes.get? k := by
  unfold put
  dsimp only
  split
  · rw [Table.get?_erase]
  · rw [Table.get?_insert]

/-- A key that is not kept has idle slots. -/
theorem slots_put (r : Registry) (key k : String) (s : Slots) :
    (r.put key s).slots k = if k = key then s else r.slots k := by
  unfold slots
  rw [get?_put]
  by_cases hk : k = key
  · rw [if_pos hk, if_pos hk]
    cases hs : s.isIdle with
    | true => exact (slots_of_isIdle hs).symm
    | false => rfl
  · rw [if_neg hk, if_neg hk]

theorem dispose_eq (r : Registry) :
    r.dispose =
      { r with
        generation := r.generation + 1
        lanes := {}
        callers := postAll r.callers (r.lanes.entries.flatMap fun e => e.2.queue) .cleared } := by
  unfold dispose
  rw [rejectEach_eq]

/-- Every key by itself grants its slots to its oldest waiters. -/
theorem resetGeneration_eq (r : Registry)
    (h : ∀ e ∈ r.lanes.entries, ∀ t ∈ e.2.queue, isListening r.callers t = true) :
    r.resetGeneration =
      { r with
        generation := r.generation + 1
        lanes := (Table.mk (r.lanes.entries.map fun e => (e.1, e.2.regranted r.limit))).filter
          fun _ s => !s.isIdle
        callers := postAll r.callers (r.lanes.entries.flatMap fun e => e.2.queue.take r.limit)
          (.granted (r.generation + 1)) } := by
  unfold resetGeneration
  dsimp only
  rw [regrantEach_eq r.limit (r.generation + 1) r.lanes.entries [] r.callers h, List.nil_append]

end Registry

end TurnEngine.Lane
