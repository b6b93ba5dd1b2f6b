import Mathlib.Logic.Function.Basic
import TurnEngine.Proofs.Lane.Sound

/-!
# Operations on a sound registry

What each operation does to a registry that satisfies `Registry.Sound`, and that it keeps the
invariant. A slot taken by a holder or given back by one moves `held` by one on its key; a new
generation sets it to zero everywhere.
-/

namespace TurnEngine.Lane.Registry

variable {r r' : Registry} {held held' : String → Nat}

/-- Who is not among the first of a queue is among the rest. -/
theorem mem_drop_iff {ts : List Nat} (hn : ts.Nodup) {n t : Nat} :
    t ∈ ts.drop n ↔ t ∈ ts ∧ t ∉ ts.take n := by
  have hsplit : t ∈ ts ↔ t ∈ ts.take n ∨ t ∈ ts.drop n := by
    rw [← List.mem_append, List.take_append_drop]
  constructor
  · intro ht
    exact ⟨List.mem_of_mem_drop ht, fun htake =>
      List.disjoint_take_drop hn (Nat.le_refl n) htake ht⟩
  · rintro ⟨ht, hnot⟩
    exact (hsplit.1 ht).resolve_left hnot

/-- A change on one key keeps the accounts of the others. -/
theorem Counted.update (h : r.Counted held) {key : String} {s : Slots}
    (hconfig : r'.config = r.config) (hslots : ∀ k, r'.slots k = if k = key then s else r.slots k)
    (hother : ∀ k, k ≠ key → held' k + r'.pending k = held k + r.pending k)
    (hbalance : s.active = held' key + r'.pending key) (hbounded : s.active ≤ r.limit)
    (hwaiters : s.queue.length ≤ r.config.maxQueue.toNat)
    (hfull : s.queue ≠ [] → s.active = r.limit) : r'.Counted held' := by
  have hlimit : r'.limit = r.limit := by rw [limit, limit, hconfig]
  have hkey : r'.slots key = s := by rw [hslots, if_pos rfl]
  have hne : ∀ k, k ≠ key → r'.slots k = r.slots k := fun k hk => by rw [hslots, if_neg hk]
  refine ⟨fun k => ?_, fun k => ?_, fun k => ?_, fun k hq => ?_⟩ <;>
    by_cases hk : k = key
  · subst hk
    rw [occupancy, hkey, hbalance]
  · rw [occupancy, hne k hk, hother k hk]
    exact h.balance k
  · subst hk
    rw [occupancy, hkey, hlimit]
    exact hbounded
  · rw [occupancy, hne k hk, hlimit]
    exact h.bounded k
  · subst hk
    rw [queued, hkey, hconfig]
    exact hwaiters
  · rw [queued, hne k hk, hconfig]
    exact h.room k
  · subst hk
    rw [occupancy, hlimit]
    rw [hkey] at hq ⊢
    exact hfull hq
  · rw [occupancy, hne k hk, hlimit]
    rw [hne k hk] at hq
    exact h.full k hq

/-! ## Taking a slot -/

/-- The registry with a new caller at the end of a queue. -/
def enqueue (r : Registry) (key : String) : Registry :=
  { r.put key { r.slots key with queue := (r.slots key).queue ++ [r.nextTicket] } with
    nextTicket := r.nextTicket + 1
    callers := r.callers ++ [{ ticket := r.nextTicket, key }] }

/-- Asking for a slot: one is free and nobody waits, or the queue is full, or there is a place in
the queue. -/
theorem acquire_cases (r : Registry) (key : String) :
    (r.occupancy key < r.limit ∧ (r.slots key).queue = [] ∧
      r.acquire key =
        (r.put key { r.slots key with active := r.occupancy key + 1 }, .granted r.generation)) ∨
    (¬(r.occupancy key < r.limit ∧ (r.slots key).queue = []) ∧
      r.config.maxQueue.toNat ≤ r.queued key ∧
      r.acquire key = (r, .refused (.queueFull key r.config.maxQueue))) ∨
    (¬(r.occupancy key < r.limit ∧ (r.slots key).queue = []) ∧
      r.queued key < r.config.maxQueue.toNat ∧
      r.acquire key = (r.enqueue key, .queued r.nextTicket)) := by
  unfold acquire
  dsimp only
  have hiff : (decide ((r.slots key).active < r.limit) && (r.slots key).queue.isEmpty) = true ↔
      r.occupancy key < r.limit ∧ (r.slots key).queue = [] := by
    rw [Bool.and_eq_true, decide_eq_true_eq, List.isEmpty_iff]
    rfl
  by_cases hfree : r.occupancy key < r.limit ∧ (r.slots key).queue = []
  · rw [if_pos (hiff.2 hfree)]
    exact .inl ⟨hfree.1, hfree.2, rfl⟩
  · rw [if_neg fun hc => hfree (hiff.1 hc)]
    by_cases hwaiters : r.config.maxQueue.toNat ≤ r.queued key
    · exact .inr (.inl ⟨hfree, hwaiters, if_pos hwaiters⟩)
    · exact .inr (.inr ⟨hfree, Nat.lt_of_not_le hwaiters, if_neg hwaiters⟩)

theorem slots_enqueue (r : Registry) (key k : String) :
    (r.enqueue key).slots k =
      if k = key then { r.slots key with queue := (r.slots key).queue ++ [r.nextTicket] }
      else r.slots k :=
  slots_put r key k _

theorem mem_queue_enqueue (r : Registry) (key k : String) (t : Nat) :
    t ∈ ((r.enqueue key).slots k).queue ↔
      t ∈ (r.slots k).queue ∨ (key = k ∧ r.nextTicket = t) := by
  rw [slots_enqueue]
  by_cases hk : k = key
  · subst hk
    simp [eq_comm]
  · simp [hk, Ne.symm hk]

namespace Boxed

variable (h : r.Boxed)
include h

theorem fresh_not_mem_queue (key : String) : r.nextTicket ∉ (r.slots key).queue := by
  intro ht
  obtain ⟨c, hc, hct, -⟩ := (h.waits key _).1 ht
  have := h.issued c hc
  omega

/-- The new caller is the last of all callers, and the last one in its queue. -/
theorem enqueue (key : String) : (r.enqueue key).Boxed := by
  refine ⟨Keyed.nodup_concat h.tickets h.issued, fun c hc => Keyed.lt_of_mem_concat h.issued hc,
    fun c hc g hg => ?_, fun k => ?_, fun k t => ?_⟩
  · rcases List.mem_append.1 hc with hc | hc
    · exact h.letters c hc g hg
    · rw [List.mem_singleton.1 hc] at hg
      cases hg
  · rw [slots_enqueue]
    split
    · rename_i hk
      refine List.nodup_append.2 ⟨h.queues key, List.nodup_singleton _, fun t ht u hu => ?_⟩
      rw [List.mem_singleton.1 hu]
      exact fun he => h.fresh_not_mem_queue key (he ▸ ht)
    · exact h.queues k
  · rw [mem_queue_enqueue, h.waits k t]
    constructor
    · rintro (⟨c, hc, hct⟩ | ⟨rfl, rfl⟩)
      · exact ⟨c, List.mem_append_left _ hc, hct⟩
      · exact ⟨_, List.mem_append_right _ (List.mem_singleton_self _), rfl, rfl, rfl⟩
    · rintro ⟨c, hc, hct, hck, hcl⟩
      rcases List.mem_append.1 hc with hc | hc
      · exact .inl ⟨c, hc, hct, hck, hcl⟩
      · rw [List.mem_singleton.1 hc] at hct hck
        exact .inr ⟨hck, hct⟩

end Boxed

namespace Sound

variable (h : r.Sound held)
include h

theorem take {key : String} (hfree : r.occupancy key < r.limit) (hq : (r.slots key).queue = []) :
    (r.put key { r.slots key with active := r.occupancy key + 1 }).Sound
      (Function.update held key (held key + 1)) := by
  have hslots := fun k => slots_put r key k { r.slots key with active := r.occupancy key + 1 }
  refine ⟨h.filed.put key _, h.boxed.same rfl rfl rfl fun k => ?_,
    h.counted.update rfl hslots (fun k hk => ?_) ?_ hfree ?_ fun hne => absurd hq hne⟩
  · rw [hslots]
    split
    · rename_i hk
      rw [hk]
    · rfl
  · rw [Function.update_of_ne hk]
    rfl
  · have := h.counted.balance key
    rw [Function.update_self]
    show r.occupancy key + 1 = held key + 1 + r.pending key
    omega
  · exact h.counted.room key

theorem enqueue {key : String} (hbusy : ¬(r.occupancy key < r.limit ∧ (r.slots key).queue = []))
    (hwaiters : r.queued key < r.config.maxQueue.toNat) : (r.enqueue key).Sound held := by
  have hpending : ∀ k, (r.enqueue key).pending k = r.pending k := by
    intro k
    show (r.callers ++ [_]).countP _ = _
    rw [List.countP_append, List.countP_singleton, if_neg (by simp [Caller.isOwed])]
    rfl
  -- no slot is free: it would have been taken at once
  have hall : r.occupancy key = r.limit := by
    by_cases hq : (r.slots key).queue = []
    · have := h.counted.bounded key
      have : ¬r.occupancy key < r.limit := fun hlt => hbusy ⟨hlt, hq⟩
      omega
    · exact h.counted.full key hq
  refine ⟨⟨(h.filed.put key _).keys, (h.filed.put key _).kept⟩, h.boxed.enqueue key,
    h.counted.update rfl (slots_enqueue r key) (fun k _ => by rw [hpending]) ?_ ?_ ?_
      fun _ => hall⟩
  · rw [hpending]
    exact h.counted.balance key
  · exact h.counted.bounded key
  · rw [List.length_append, List.length_singleton]
    exact hwaiters

end Sound

/-! ## Giving a slot back -/

/-- A slot of another generation is worth nothing. -/
theorem release_stale (key : String) {generation : Nat} (hg : generation ≠ r.generation) :
    r.release key generation = r :=
  if_pos hg

/-- The registry after the oldest waiter of a key was granted a slot that somebody gave back;
`queue` wait on. -/
def handOver (r : Registry) (key : String) (t : Nat) (queue : List Nat) : Registry :=
  { r.put key { r.slots key with queue } with
    callers := postAll r.callers [t] (.granted r.generation) }

/-- Giving back a slot that counts, on a key with an entry. -/
theorem release_of_get? (h : r.Boxed) {key : String} {s : Slots} (hs : r.lanes.get? key = some s) :
    r.release key r.generation =
      match s.queue with
      | [] => r.put key ⟨s.active - 1, []⟩
      | t :: queue => r.handOver key t queue := by
  have hslots : r.slots key = s := by rw [slots, hs]; rfl
  unfold release
  rw [if_neg (not_not.2 rfl), hs]
  dsimp only
  cases hq : s.queue with
  | nil => rfl
  | cons t queue =>
    have ht : t ∈ (r.slots key).queue := by
      rw [hslots, hq]
      exact List.mem_cons_self
    simp only [handOff_cons (h.isListening_of_mem ht), handOver, hslots]

/-- Giving back a slot that counts: it goes to the oldest waiter, or nobody waits and the count
goes down. -/
theorem release_cases (h : r.Boxed) {key : String} (hpos : 0 < r.occupancy key) :
    (∃ t queue, (r.slots key).queue = t :: queue ∧
      r.release key r.generation = r.handOver key t queue) ∨
    ((r.slots key).queue = [] ∧
      r.release key r.generation = r.put key ⟨r.occupancy key - 1, []⟩) := by
  cases hs : r.lanes.get? key with
  | none =>
    have : r.occupancy key = 0 := by rw [occupancy, slots, hs]; rfl
    omega
  | some s =>
    have hslots : r.slots key = s := by rw [slots, hs]; rfl
    rw [release_of_get? h hs, occupancy, hslots]
    cases s.queue with
    | nil => exact .inr ⟨rfl, rfl⟩
    | cons t queue => exact .inl ⟨t, queue, rfl, rfl⟩

/-- The caller that a slot is handed to is owed it from then on. -/
theorem Boxed.pending_handOver (h : r.Boxed) {key : String} {t : Nat}
    (ht : t ∈ (r.slots key).queue) (queue : List Nat) (k : String) :
    (r.handOver key t queue).pending k = r.pending k + if k = key then 1 else 0 := by
  have hts : ∀ u ∈ [t], ∃ k, u ∈ (r.slots k).queue := fun u hu =>
    ⟨key, List.mem_singleton.1 hu ▸ ht⟩
  by_cases hk : k = key
  · subst hk
    rw [if_pos rfl]
    refine h.countP_granted (List.nodup_singleton t) hts (fun u => ?_) r.generation
    exact ⟨fun hu => ⟨hu, List.mem_singleton.1 hu ▸ ht⟩, fun hu => hu.1⟩
  · rw [if_neg hk]
    refine h.countP_granted (List.nodup_nil (α := Nat)) hts (fun u => ?_) r.generation
    refine ⟨fun hu => (List.not_mem_nil hu).elim, fun hu => (hk ?_).elim⟩
    exact h.key_unique hu.2 (List.mem_singleton.1 hu.1 ▸ ht)

namespace Sound

variable (h : r.Sound held)
include h

theorem handOver {key : String} {t : Nat} {queue : List Nat}
    (hq : (r.slots key).queue = t :: queue) (hheld : 0 < held key) :
    (r.handOver key t queue).Sound (Function.update held key (held key - 1)) := by
  have ht : t ∈ (r.slots key).queue := by
    rw [hq]
    exact List.mem_cons_self
  obtain ⟨hnt, hqueue⟩ := List.nodup_cons.1 (hq ▸ h.boxed.queues key)
  have hslots : ∀ k, (r.handOver key t queue).slots k =
      if k = key then { r.slots key with queue } else r.slots k := fun k => slots_put r key k _
  have hpending := h.boxed.pending_handOver ht queue
  refine ⟨⟨(h.filed.put key _).keys, (h.filed.put key _).kept⟩,
    h.boxed.letters_to rfl rfl (Nat.le_refl _) (fun g hg => ?_) (fun k => ?_) fun k u => ?_,
    h.counted.update rfl hslots (fun k hk => ?_) ?_ (h.counted.bounded key) ?_ fun _ => ?_⟩
  · cases hg
    exact Nat.le_refl _
  · rw [hslots]
    split
    · exact hqueue
    · exact h.boxed.queues k
  · rw [hslots, List.mem_singleton]
    by_cases hk : k = key
    · subst hk
      rw [if_pos rfl, hq, List.mem_cons]
      exact ⟨fun hu => ⟨.inr hu, fun hut => hnt (hut ▸ hu)⟩, fun hu => hu.1.resolve_left hu.2⟩
    · rw [if_neg hk]
      exact ⟨fun hu => ⟨hu, fun hut => hk (h.boxed.key_unique (hut ▸ hu) ht)⟩, fun hu => hu.1⟩
  · rw [hpending, if_neg hk, Function.update_of_ne hk]
    rfl
  · -- the slot stays taken, and goes from those held to those granted
    have := h.counted.balance key
    rw [hpending, if_pos rfl, Function.update_self]
    show r.occupancy key = _
    omega
  · have := h.counted.room key
    rw [queued, hq, List.length_cons] at this
    exact Nat.le_of_succ_le this
  · exact h.counted.full key (List.ne_nil_of_mem ht)

theorem free {key : String} (hq : (r.slots key).queue = []) (hheld : 0 < held key) :
    (r.put key ⟨r.occupancy key - 1, []⟩).Sound (Function.update held key (held key - 1)) := by
  have hslots := fun k => slots_put r key k ⟨r.occupancy key - 1, []⟩
  have hbound := h.counted.bounded key
  refine ⟨h.filed.put key _, h.boxed.same rfl rfl rfl fun k => ?_,
    h.counted.update rfl hslots (fun k hk => ?_) ?_ ?_ (Nat.zero_le _) fun hne => absurd rfl hne⟩
  · rw [hslots]
    split
    · rename_i hk
      rw [hk, hq]
    · rfl
  · rw [Function.update_of_ne hk]
    rfl
  · have := h.counted.balance key
    rw [Function.update_self]
    show r.occupancy key - 1 = held key - 1 + r.pending key
    omega
  · show r.occupancy key - 1 ≤ r.limit
    omega

/-- A holder gives its slot back. -/
theorem release {key : String} (hheld : 0 < held key) :
    (r.release key r.generation).Sound (Function.update held key (held key - 1)) := by
  have hpos : 0 < r.occupancy key := by
    rw [h.counted.balance]
    omega
  rcases release_cases h.boxed hpos with ⟨t, queue, hq, he⟩ | ⟨hq, he⟩
  · rw [he]
    exact h.handOver hq hheld
  · rw [he]
    exact h.free hq hheld

end Sound

/-! ## Waiting -/

/-- The registry after a waiting caller went away. -/
def leave (r : Registry) (c : Caller) : Registry :=
  (r.put c.key { r.slots c.key with queue := (r.slots c.key).queue.erase c.ticket }).dismiss
    c.ticket

section
variable (h : r.Boxed) {c : Caller} (hc : c ∈ r.callers)
include h hc

/-- A caller with a letter has no place in the queue any more. -/
theorem withdraw_eq : r.withdraw c.key c.ticket =
    if c.letter = none then
      (r.put c.key { r.slots c.key with queue := (r.slots c.key).queue.erase c.ticket }, true)
    else (r, false) := by
  have hiff : (r.slots c.key).queue.contains c.ticket = true ↔ c.letter = none := by
    rw [List.contains_iff_mem, h.mem_queue_iff hc]
    exact and_iff_right rfl
  unfold withdraw
  by_cases hl : c.letter = none
  · rw [if_pos hl]
    exact if_pos (hiff.2 hl)
  · rw [if_neg hl]
    exact if_neg fun hq => hl (hiff.1 hq)

theorem collect_eq : r.collect c.ticket =
    match c.letter with
    | some (.granted generation) => (r.dismiss c.ticket, .granted generation)
    | some .cleared => (r.dismiss c.ticket, .failed (.laneCleared c.key))
    | none => (r, .waiting) := by
  unfold collect
  rw [h.caller?_of_mem hc]
  dsimp only
  cases hl : c.letter with
  | none =>
    have : (r.slots c.key).queue.contains c.ticket = true :=
      List.contains_iff_mem.2 ((h.mem_queue_iff hc c.key).2 ⟨rfl, hl⟩)
    exact if_pos this
  | some letter => cases letter <;> rfl

theorem expire_eq (waitedMs : Nat) : r.expire c.ticket waitedMs =
    match c.letter with
    | some (.granted generation) => (r.dismiss c.ticket, .granted generation)
    | some .cleared => (r.dismiss c.ticket, .failed (.laneCleared c.key))
    | none => (r.leave c, .failed (.laneTimeout c.key waitedMs)) := by
  unfold expire
  rw [h.caller?_of_mem hc]
  dsimp only
  rw [withdraw_eq h hc]
  cases hl : c.letter with
  | none => rfl
  | some letter => cases letter <;> rfl

theorem abandon_eq : r.abandon c.ticket =
    match c.letter with
    | some (.granted generation) => (r.dismiss c.ticket).release c.key generation
    | some .cleared => r.dismiss c.ticket
    | none => r.leave c := by
  unfold abandon
  rw [h.caller?_of_mem hc]
  dsimp only
  rw [withdraw_eq h hc]
  cases hl : c.letter with
  | none => rfl
  | some letter => cases letter <;> rfl

end

/-- A caller with a letter has no place in a queue, so none is lost with it. -/
theorem Boxed.dismiss (h : r.Boxed) {c : Caller} (hc : c ∈ r.callers) (hl : c.letter ≠ none) :
    (r.dismiss c.ticket).Boxed := by
  refine h.without rfl rfl rfl h.queues fun k u => ?_
  refine ⟨fun hu => ⟨hu, fun hut => hl ?_⟩, fun hu => hu.1⟩
  exact ((h.mem_queue_iff hc k).1 (hut ▸ hu)).2

namespace Sound

variable (h : r.Sound held)
include h

/-- A waiting caller goes away. -/
theorem leave {c : Caller} (hc : c ∈ r.callers) (hl : c.letter = none) :
    (r.leave c).Sound held := by
  have hslots : ∀ k, (r.leave c).slots k =
      if k = c.key then { r.slots c.key with queue := (r.slots c.key).queue.erase c.ticket }
      else r.slots k := fun k => slots_put r c.key k _
  have hpending : ∀ k, (r.leave c).pending k = r.pending k := by
    intro k
    have := Keyed.countP_remove h.boxed.tickets hc fun d => d.isOwed k r.generation
    rw [if_neg (by simp [Caller.isOwed, hl])] at this
    exact this
  have hnodup := h.boxed.queues c.key
  refine ⟨⟨(h.filed.put c.key _).keys, (h.filed.put c.key _).kept⟩,
    h.boxed.without rfl rfl rfl (fun k => ?_) fun k u => ?_,
    h.counted.update rfl hslots (fun k _ => by rw [hpending]) ?_ (h.counted.bounded c.key) ?_
      fun hne => ?_⟩
  · rw [hslots]
    split
    · exact hnodup.erase _
    · exact h.boxed.queues k
  · rw [hslots]
    by_cases hk : k = c.key
    · rw [if_pos hk, hk, hnodup.mem_erase_iff]
      exact and_comm
    · rw [if_neg hk]
      refine ⟨fun hu => ⟨hu, fun hut => hk ?_⟩, fun hu => hu.1⟩
      exact ((h.boxed.mem_queue_iff hc k).1 (hut ▸ hu)).1.symm
  · rw [hpending]
    exact h.counted.balance c.key
  · exact Nat.le_trans List.length_erase_le (h.counted.room c.key)
  · exact h.counted.full c.key fun hq => hne (by rw [hq]; rfl)

/-- A caller with a letter goes away: with a current grant it holds a slot from now on. -/
theorem dismiss {c : Caller} (hc : c ∈ r.callers) (hl : c.letter ≠ none) :
    (r.dismiss c.ticket).Sound fun k => held k + if c.isOwed k r.generation then 1 else 0 := by
  have hpending : ∀ k, (r.dismiss c.ticket).pending k +
      (if c.isOwed k r.generation then 1 else 0) = r.pending k := fun k =>
    Keyed.countP_remove h.boxed.tickets hc _
  refine ⟨⟨h.filed.keys, h.filed.kept⟩, h.boxed.dismiss hc hl,
    ⟨fun k => ?_, h.counted.bounded, h.counted.room, h.counted.full⟩⟩
  have := h.counted.balance k
  have := hpending k
  show r.occupancy k = _
  omega

/-- A caller goes away, and gives back the slot that it may have been granted. -/
theorem abandon (t : Nat) : (r.abandon t).Sound held := by
  cases hc : r.caller? t with
  | none =>
    rw [Registry.abandon, hc]
    exact h
  | some c =>
    obtain ⟨hmem, rfl⟩ := mem_of_caller? hc
    rw [abandon_eq h.boxed hmem]
    cases hl : c.letter with
    | none => exact h.leave hmem hl
    | some letter =>
      have hd := h.dismiss hmem (by rw [hl]; exact Option.some_ne_none _)
      cases letter with
      | cleared => exact hd.congr fun k => by simp [Caller.isOwed, hl]
      | granted generation =>
        dsimp only
        by_cases hg : generation = r.generation
        · subst hg
          have hone : 0 < held c.key + if c.isOwed c.key r.generation then 1 else 0 := by
            simp [Caller.isOwed, hl]
          refine (hd.release hone).congr fun k => ?_
          by_cases hk : k = c.key
          · rw [hk, Function.update_self]
            simp [Caller.isOwed, hl]
          · rw [Function.update_of_ne hk]
            simp [Caller.isOwed, Ne.symm hk]
        · rw [release_stale (r := r.dismiss c.ticket) c.key hg]
          exact hd.congr fun k => by simp [Caller.isOwed, hl, hg]

end Sound

/-! ## All at once -/

namespace Sound

variable (h : r.Sound held)
include h

/-- The waiters of a key are sent away. -/
theorem clearWaiters (key : String) : (r.clearWaiters key).1.Sound held := by
  unfold Registry.clearWaiters
  cases hs : r.lanes.get? key with
  | none => exact h
  | some s =>
    have hkey : r.slots key = s := by rw [slots, hs]; rfl
    dsimp only
    rw [rejectAll_eq]
    have hslots : ∀ k, (r.put key { s with queue := [] }).slots k =
        if k = key then { s with queue := [] } else r.slots k := fun k => slots_put r key k _
    have hts : ∀ t ∈ s.queue, ∃ k, t ∈ (r.slots k).queue := fun t ht => ⟨key, hkey ▸ ht⟩
    have hpending : ∀ k, (postAll r.callers s.queue .cleared).countP
        (fun c => c.isOwed k r.generation) = r.pending k := fun k =>
      h.boxed.countP_cleared hts k r.generation
    refine ⟨⟨(h.filed.put key _).keys, (h.filed.put key _).kept⟩,
      h.boxed.letters_to rfl rfl (Nat.le_refl _) (fun g hg => by cases hg) (fun k => ?_)
        fun k t => ?_,
      h.counted.update rfl hslots (fun k _ => ?_) ?_ ?_ (Nat.zero_le _) fun hne => absurd rfl hne⟩
    · show ((r.put key { s with queue := [] }).slots k).queue.Nodup
      rw [hslots]
      split
      · exact List.nodup_nil
      · exact h.boxed.queues k
    · show t ∈ ((r.put key { s with queue := [] }).slots k).queue ↔ _
      rw [hslots]
      by_cases hk : k = key
      · subst hk
        rw [if_pos rfl, hkey]
        exact ⟨fun ht => (List.not_mem_nil ht).elim, fun ht => absurd ht.1 ht.2⟩
      · rw [if_neg hk]
        exact ⟨fun ht => ⟨ht, fun hts => hk (h.boxed.key_unique ht (hkey ▸ hts))⟩, fun ht => ht.1⟩
    · exact congrArg _ (hpending k)
    · have := h.counted.balance key
      rw [occupancy, hkey, ← hpending key] at this
      exact this
    · have := h.counted.bounded key
      rw [occupancy, hkey] at this
      exact this

/-- Whoever waits is in a queue of the table. -/
theorem mem_queues_iff {t : Nat} (f : Slots → List Nat) (hf : ∀ s, ∀ t ∈ f s, t ∈ s.queue) :
    t ∈ r.lanes.entries.flatMap (fun e => f e.2) ↔ ∃ k, t ∈ f (r.slots k) := by
  rw [List.mem_flatMap]
  constructor
  · rintro ⟨e, he, ht⟩
    exact ⟨e.1, by rw [h.filed.slots_of_mem he]; exact ht⟩
  · rintro ⟨k, ht⟩
    exact ⟨_, mem_entries_of_mem_queue (hf _ t ht), ht⟩

/-- Nobody is owed a slot of the next generation. -/
theorem countP_next (key : String) :
    r.callers.countP (fun c => c.isOwed key (r.generation + 1)) = 0 := by
  refine List.countP_eq_zero.2 fun c hc ho => ?_
  simp only [Caller.isOwed, Bool.and_eq_true, decide_eq_true_eq] at ho
  have := h.boxed.letters c hc _ ho.2
  omega

/-- No slot is left. -/
theorem dispose : r.dispose.Sound fun _ => 0 := by
  have hmem : ∀ t, t ∈ r.lanes.entries.flatMap (fun e => e.2.queue) ↔
      ∃ k, t ∈ (r.slots k).queue := fun t => h.mem_queues_iff (·.queue) fun _ _ ht => ht
  have hpending : ∀ k, r.dispose.pending k = 0 := by
    intro k
    rw [dispose_eq]
    exact (h.boxed.countP_cleared (fun t ht => (hmem t).1 ht) k _).trans (h.countP_next k)
  rw [dispose_eq] at hpending ⊢
  refine ⟨⟨List.nodup_nil, fun k s hs => by cases hs⟩,
    h.boxed.letters_to rfl rfl (Nat.le_succ _) (fun g hg => by cases hg) (fun k => List.nodup_nil)
      fun k t => ?_,
    ⟨fun k => ?_, fun k => Nat.zero_le _, fun k => Nat.zero_le _, fun k hne => absurd rfl hne⟩⟩
  · exact ⟨fun ht => (List.not_mem_nil ht).elim, fun ht => absurd ((hmem t).2 ⟨k, ht.1⟩) ht.2⟩
  · rw [hpending]
    rfl

theorem isListening_of_mem_entries :
    ∀ e ∈ r.lanes.entries, ∀ t ∈ e.2.queue, isListening r.callers t = true := fun e he t ht =>
  h.boxed.isListening_of_mem (show t ∈ (r.slots e.1).queue from (h.filed.slots_of_mem he).symm ▸ ht)

/-- Every key by itself gives its slots to its oldest waiters. -/
theorem slots_resetGeneration (key : String) :
    r.resetGeneration.slots key = (r.slots key).regranted r.limit := by
  have hkeys : (Table.mk (r.lanes.entries.map fun e => (e.1, e.2.regranted r.limit))).keys.Nodup :=
    (Table.keys_map r.lanes _).symm ▸ h.filed.keys
  rw [resetGeneration_eq r h.isListening_of_mem_entries]
  unfold slots
  rw [Table.get?_filter hkeys, Table.get?_map]
  cases r.lanes.get? key with
  | none => simp [Slots.regranted]
  | some s =>
    rw [Option.map_some, Option.getD_some]
    cases hidle : (s.regranted r.limit).isIdle with
    | true =>
      rw [Option.filter_some_neg (by simp [hidle]), slots_of_isIdle hidle]
      rfl
    | false =>
      rw [Option.filter_some_pos (by simp [hidle])]
      rfl

theorem generation_resetGeneration : r.resetGeneration.generation = r.generation + 1 := by
  rw [resetGeneration_eq r h.isListening_of_mem_entries]

theorem filed_resetGeneration : r.resetGeneration.Filed := by
  have hkeys : (Table.mk (r.lanes.entries.map fun e => (e.1, e.2.regranted r.limit))).keys.Nodup :=
    (Table.keys_map r.lanes _).symm ▸ h.filed.keys
  rw [resetGeneration_eq r h.isListening_of_mem_entries]
  refine ⟨Table.nodup_keys_filter hkeys _, fun k s hs => ?_⟩
  simpa using (List.mem_filter.1 (Table.mem_of_get? hs)).2

/-- The tickets that a new generation grants: on every key, the first ones of its queue. -/
theorem granted_resetGeneration :
    ∃ ts, r.resetGeneration.callers = postAll r.callers ts (.granted (r.generation + 1)) ∧
      (∀ t ∈ ts, ∃ k, t ∈ (r.slots k).queue) ∧
      ∀ k t, t ∈ (r.slots k).queue.take r.limit ↔ t ∈ ts ∧ t ∈ (r.slots k).queue := by
  have hmem : ∀ t, t ∈ r.lanes.entries.flatMap (fun e => e.2.queue.take r.limit) ↔
      ∃ k, t ∈ (r.slots k).queue.take r.limit := fun t =>
    h.mem_queues_iff (·.queue.take r.limit) fun _ _ ht => List.mem_of_mem_take ht
  refine ⟨r.lanes.entries.flatMap fun e => e.2.queue.take r.limit,
    by rw [resetGeneration_eq r h.isListening_of_mem_entries], fun t ht => ?_, fun k t => ?_⟩
  · exact ((hmem t).1 ht).imp fun _ hk => List.mem_of_mem_take hk
  · constructor
    · intro ht
      exact ⟨(hmem t).2 ⟨k, ht⟩, List.mem_of_mem_take ht⟩
    · rintro ⟨ht, hk⟩
      obtain ⟨k', hk'⟩ := (hmem t).1 ht
      rw [h.boxed.key_unique hk (List.mem_of_mem_take hk')]
      exact hk'

/-- The slots count anew, and waiters get them. -/
theorem resetGeneration : r.resetGeneration.Sound fun _ => 0 := by
  have he := resetGeneration_eq r h.isListening_of_mem_entries
  have hslots := h.slots_resetGeneration
  have hlimit : r.resetGeneration.limit = r.limit := by rw [he]; rfl
  have hgen := h.generation_resetGeneration
  obtain ⟨ts, hcallers, hts, hkey⟩ := h.granted_resetGeneration
  refine ⟨h.filed_resetGeneration, h.boxed.letters_to hcallers (by rw [he]) (by rw [hgen]; omega)
    (fun g hg => ?_) (fun k => ?_) fun k t => ?_,
    ⟨fun k => ?_, fun k => ?_, fun k => ?_, fun k hne => ?_⟩⟩
  · cases hg
    exact Nat.le_of_eq hgen.symm
  · rw [hslots]
    exact (h.boxed.queues k).sublist (List.drop_sublist _ _)
  · rw [hslots, Slots.regranted, mem_drop_iff (h.boxed.queues k), hkey]
    exact ⟨fun ht => ⟨ht.1, fun hts => ht.2 ⟨hts, ht.1⟩⟩, fun ht => ⟨ht.1, fun hts => ht.2 hts.1⟩⟩
  · have hpending := h.boxed.countP_granted ((h.boxed.queues k).sublist (List.take_sublist _ _))
      hts (hkey k) (r.generation + 1)
    rw [h.countP_next k, Nat.zero_add, List.length_take] at hpending
    rw [occupancy, hslots, Nat.zero_add, pending, hcallers, hgen]
    exact hpending.symm
  · rw [occupancy, hslots, hlimit]
    exact Nat.min_le_left _ _
  · have := h.counted.room k
    rw [queued] at this
    rw [queued, hslots, he]
    show ((r.slots k).queue.drop r.limit).length ≤ r.config.maxQueue.toNat
    rw [List.length_drop]
    omega
  · rw [hslots] at hne
    rw [occupancy, hslots, hlimit]
    refine Nat.min_eq_left (Nat.le_of_not_le fun hle => hne ?_)
    exact List.drop_eq_nil_of_le hle

end Sound

end TurnEngine.Lane.Registry
