import TurnEngine.Proofs.Keyed
import TurnEngine.Proofs.Lane.Boxes

/-!
# The invariant of a registry of lanes

`Registry.Sound r held`: the registry `r` is in order while `held key` slots of every key are out
with holders of the current generation. It has three parts:

* `Filed`: the table has every key once, and no idle slots;
* `Boxed`: a ticket stands in the queue of its caller's key exactly as long as the caller has no
  letter;
* `Counted`: the slots taken on a key are those held and those granted to callers that have not
  looked into their box (`pending`), no more than the limit and all of them while somebody waits.

Every change that an operation makes keeps it (`Sound.take` to `Sound.dispose`), with the number
of held slots that goes with the change. An operation on one key is a `Counted.update` and a
change of the boxes, by letters (`Boxed.letters_to`) or by a caller that is gone (`Boxed.without`).
-/

namespace TurnEngine.Lane

/-- Whether a caller of a key has a grant of a generation in its box. -/
def Caller.isOwed (c : Caller) (key : String) (generation : Nat) : Bool :=
  c.key = key && c.letter = some (.granted generation)

namespace Registry

/-- The grants of the current generation that callers of a key have not collected. -/
def pending (r : Registry) (key : String) : Nat :=
  r.callers.countP fun c => c.isOwed key r.generation

/-- The table of lanes has every key once and keeps no idle slots. -/
structure Filed (r : Registry) : Prop where
  keys : r.lanes.keys.Nodup
  kept : ∀ key s, r.lanes.get? key = some s → s.isIdle = false

/-- Tickets, boxes and queues agree. -/
structure Boxed (r : Registry) : Prop where
  tickets : (r.callers.map (·.ticket)).Nodup
  issued : ∀ c ∈ r.callers, c.ticket < r.nextTicket
  letters : ∀ c ∈ r.callers, ∀ g, c.letter = some (.granted g) → g ≤ r.generation
  queues : ∀ key, (r.slots key).queue.Nodup
  waits : ∀ key t, t ∈ (r.slots key).queue ↔
    ∃ c ∈ r.callers, c.ticket = t ∧ c.key = key ∧ c.letter = none

/-- The slots taken are accounted for, and within the limits. -/
structure Counted (r : Registry) (held : String → Nat) : Prop where
  balance : ∀ key, r.occupancy key = held key + r.pending key
  bounded : ∀ key, r.occupancy key ≤ r.limit
  room : ∀ key, r.queued key ≤ r.config.maxQueue.toNat
  full : ∀ key, (r.slots key).queue ≠ [] → r.occupancy key = r.limit

/-- The invariant (module doc). -/
structure Sound (r : Registry) (held : String → Nat) : Prop where
  filed : r.Filed
  boxed : r.Boxed
  counted : r.Counted held

theorem Sound.congr {r : Registry} {held held' : String → Nat} (h : r.Sound held)
    (he : ∀ key, held' key = held key) : r.Sound held' := by
  rw [show held' = held from funext he]
  exact h

theorem one_le_limit (r : Registry) : 1 ≤ r.limit := Nat.le_max_left ..

/-! ## The table -/

theorem Filed.put {r : Registry} (h : r.Filed) (key : String) (s : Slots) :
    (r.put key s).Filed := by
  refine ⟨?_, fun k s' hs' => ?_⟩
  · unfold Registry.put
    dsimp only
    split
    · exact Table.nodup_keys_erase h.keys key
    · exact Table.nodup_keys_insert h.keys key s
  · rw [get?_put] at hs'
    split at hs'
    · split at hs'
      · cases hs'
      · rename_i hidle
        cases hs'
        simpa using hidle
    · exact h.kept k s' hs'

/-- The queue of an entry is the queue of its key. -/
theorem Filed.slots_of_mem {r : Registry} (h : r.Filed) {e : String × Slots}
    (he : e ∈ r.lanes.entries) : r.slots e.1 = e.2 := by
  rw [slots, Table.get?_of_mem h.keys (v := e.2) he]
  rfl

/-- Somebody waits on a key only if the key has an entry. -/
theorem mem_entries_of_mem_queue {r : Registry} {key : String} {t : Nat}
    (h : t ∈ (r.slots key).queue) : (key, r.slots key) ∈ r.lanes.entries := by
  unfold slots at h ⊢
  cases hs : r.lanes.get? key with
  | none => rw [hs] at h; cases h
  | some s => exact Table.mem_of_get? hs

/-! ## Tickets and boxes -/

theorem mem_of_caller? {r : Registry} {t : Nat} {c : Caller} (h : r.caller? t = some c) :
    c ∈ r.callers ∧ c.ticket = t :=
  ⟨List.mem_of_find?_eq_some h, by simpa using List.find?_some h⟩

namespace Boxed

variable {r r' : Registry} (h : r.Boxed)
include h

theorem caller?_of_mem {c : Caller} (hc : c ∈ r.callers) : r.caller? c.ticket = some c :=
  Keyed.find?_of_mem h.tickets hc

theorem caller_unique {c d : Caller} (hc : c ∈ r.callers) (hd : d ∈ r.callers)
    (ht : c.ticket = d.ticket) : c = d :=
  List.inj_on_of_nodup_map h.tickets hc hd ht

/-- A caller stands in the queue of its key as long as it has no letter. -/
theorem mem_queue_iff {c : Caller} (hc : c ∈ r.callers) (key : String) :
    c.ticket ∈ (r.slots key).queue ↔ c.key = key ∧ c.letter = none := by
  rw [h.waits]
  constructor
  · rintro ⟨d, hd, ht, hk, hl⟩
    rw [← h.caller_unique hd hc ht]
    exact ⟨hk, hl⟩
  · rintro ⟨hk, hl⟩
    exact ⟨c, hc, rfl, hk, hl⟩

/-- A caller waits on one key only. -/
theorem key_unique {t : Nat} {k k' : String} (hk : t ∈ (r.slots k).queue)
    (hk' : t ∈ (r.slots k').queue) : k = k' := by
  obtain ⟨c, hc, rfl, hck, -⟩ := (h.waits k t).1 hk
  rw [← hck]
  exact ((h.mem_queue_iff hc k').1 hk').1

theorem isListening_of_mem {key : String} {t : Nat} (ht : t ∈ (r.slots key).queue) :
    isListening r.callers t = true := by
  obtain ⟨c, hc, hct, -⟩ := (h.waits key t).1 ht
  exact isListening_iff.2 ⟨c, hc, hct⟩

/-- After letters to waiting callers, which leave their queues. -/
theorem letters_to {ts : List Nat} {letter : Letter}
    (hcallers : r'.callers = postAll r.callers ts letter) (hnext : r'.nextTicket = r.nextTicket)
    (hgen : r.generation ≤ r'.generation) (hletter : ∀ g, letter = .granted g → g ≤ r'.generation)
    (hqueue : ∀ key, (r'.slots key).queue.Nodup)
    (hmem : ∀ key t, t ∈ (r'.slots key).queue ↔ t ∈ (r.slots key).queue ∧ t ∉ ts) : r'.Boxed := by
  refine ⟨?_, fun c hc => ?_, fun c hc g hg => ?_, hqueue, fun key t => ?_⟩
  · rw [hcallers, map_ticket_postAll]
    exact h.tickets
  · rw [hcallers] at hc
    rw [hnext]
    rcases mem_postAll.1 hc with ⟨hc, -⟩ | ⟨d, hd, -, rfl⟩
    · exact h.issued c hc
    · exact h.issued d hd
  · rw [hcallers] at hc
    rcases mem_postAll.1 hc with ⟨hc, -⟩ | ⟨d, -, -, rfl⟩
    · exact Nat.le_trans (h.letters c hc g hg) hgen
    · exact hletter g (Option.some.inj hg)
  · rw [hmem, h.waits, hcallers]
    constructor
    · rintro ⟨⟨c, hc, rfl, hk, hl⟩, hts⟩
      exact ⟨c, mem_postAll.2 (.inl ⟨hc, hts⟩), rfl, hk, hl⟩
    · rintro ⟨c, hc, rfl, hk, hl⟩
      rcases mem_postAll.1 hc with ⟨hc, hts⟩ | ⟨d, -, -, rfl⟩
      · exact ⟨⟨c, hc, rfl, hk, hl⟩, hts⟩
      · cases hl

/-- After a caller went away, with its place in the queue if it had one. -/
theorem without {t : Nat} (hcallers : r'.callers = r.callers.filter fun c => c.ticket ≠ t)
    (hnext : r'.nextTicket = r.nextTicket) (hgen : r'.generation = r.generation)
    (hqueue : ∀ key, (r'.slots key).queue.Nodup)
    (hmem : ∀ key u, u ∈ (r'.slots key).queue ↔ u ∈ (r.slots key).queue ∧ u ≠ t) : r'.Boxed := by
  have hm : ∀ c, c ∈ r'.callers ↔ c ∈ r.callers ∧ c.ticket ≠ t := by
    intro c
    rw [hcallers, List.mem_filter, decide_eq_true_eq]
  refine ⟨?_, fun c hc => ?_, fun c hc g hg => ?_, hqueue, fun key u => ?_⟩
  · rw [hcallers]
    exact Keyed.nodup_remove h.tickets t
  · rw [hnext]
    exact h.issued c ((hm c).1 hc).1
  · rw [hgen]
    exact h.letters c ((hm c).1 hc).1 g hg
  · rw [hmem, h.waits]
    constructor
    · rintro ⟨⟨c, hc, rfl, hk, hl⟩, hu⟩
      exact ⟨c, (hm c).2 ⟨hc, hu⟩, rfl, hk, hl⟩
    · rintro ⟨c, hc, rfl, hk, hl⟩
      exact ⟨⟨c, ((hm c).1 hc).1, rfl, hk, hl⟩, ((hm c).1 hc).2⟩

/-- With the same callers and queues. -/
theorem same (hcallers : r'.callers = r.callers) (hnext : r'.nextTicket = r.nextTicket)
    (hgen : r'.generation = r.generation)
    (hqueue : ∀ key, (r'.slots key).queue = (r.slots key).queue) : r'.Boxed := by
  refine ⟨?_, ?_, ?_, fun key => ?_, fun key t => ?_⟩
  · rw [hcallers]
    exact h.tickets
  · rw [hcallers, hnext]
    exact h.issued
  · rw [hcallers, hgen]
    exact h.letters
  · rw [hqueue]
    exact h.queues key
  · rw [hqueue, hcallers]
    exact h.waits key t

/-- Grants to waiting callers: a key's callers are owed as many more as got one. -/
theorem countP_granted {ts us : List Nat} {key : String} (hus : us.Nodup)
    (hts : ∀ t ∈ ts, ∃ k, t ∈ (r.slots k).queue)
    (hmem : ∀ u, u ∈ us ↔ u ∈ ts ∧ u ∈ (r.slots key).queue) (g : Nat) :
    (postAll r.callers ts (.granted g)).countP (fun c => c.isOwed key g) =
      r.callers.countP (fun c => c.isOwed key g) + us.length := by
  have hcall : ∀ u ∈ us, ∃ c ∈ r.callers, c.ticket = u := by
    intro u hu
    obtain ⟨c, hc, hcu, -⟩ := (h.waits key u).1 ((hmem u).1 hu).2
    exact ⟨c, hc, hcu⟩
  rw [← Keyed.countP_listed h.tickets hus hcall, postAll, List.countP_map]
  refine Keyed.countP_eq_add fun c hc => ?_
  have hu := (hmem c.ticket).trans (and_congr_right fun _ => h.mem_queue_iff hc key)
  -- a caller that gets the grant had no letter before, so it is counted once
  by_cases ht : c.ticket ∈ ts
  · obtain ⟨k, hk⟩ := hts _ ht
    have hl := ((h.mem_queue_iff hc k).1 hk).2
    by_cases hkey : c.key = key <;> simp [Caller.isOwed, ht, hl, hkey, hu]
  · simp [ht, hu]

/-- Letters that clear a queue change nothing about what callers are owed. -/
theorem countP_cleared {ts : List Nat} (hts : ∀ t ∈ ts, ∃ k, t ∈ (r.slots k).queue)
    (key : String) (g : Nat) :
    (postAll r.callers ts .cleared).countP (fun c => c.isOwed key g) =
      r.callers.countP fun c => c.isOwed key g := by
  rw [postAll, List.countP_map]
  refine List.countP_congr fun c hc => ?_
  by_cases ht : c.ticket ∈ ts
  · obtain ⟨k, hk⟩ := hts _ ht
    have hl := ((h.mem_queue_iff hc k).1 hk).2
    simp [Caller.isOwed, ht, hl]
  · simp [ht]

end Boxed

end Registry

end TurnEngine.Lane
