import TurnEngine.Proofs.Lane.Run

/-!
# The accounts of lanes

What holds of the lanes of all keys after every run of a pool (`Pool.run`):

* `accounts_run`: the slots counted on a key are those of its unreleased handles of this
  generation and those granted to callers that have not looked yet; limits and queue bounds are
  kept, and no count is lowered below zero.
* `no_slot_lost_run`: a free slot and a waiter never stand side by side, exactly the keys with a
  slot taken are kept, and when all handles and callers are gone every key grants at once again.
-/

namespace TurnEngine.Lane

namespace Registry

/-- A slot that counts is given back in full: it is handed on, or the count goes down by one. -/
theorem occupancy_release {r : Registry} (h : r.Boxed) {key : String} (hpos : 0 < r.occupancy key) :
    (r.release key r.generation).occupancy key +
      (if (r.slots key).queue.isEmpty then 1 else 0) = r.occupancy key := by
  rcases release_cases h hpos with ⟨t, queue, hq, he⟩ | ⟨hq, he⟩
  · have hslots : (r.handOver key t queue).slots key = { r.slots key with queue } :=
      (slots_put r key key _).trans (if_pos rfl)
    rw [he, occupancy, hslots, hq]
    rfl
  · rw [he, occupancy, slots_put, if_pos rfl, hq]
    show r.occupancy key - 1 + 1 = r.occupancy key
    omega

end Registry

namespace Pool

/-- The slot that an operation gives back, with the registry that gets it: the one of a handle
that was not released before, or the one in the box of a caller that goes away. -/
def givesBack (h : Pool) : Op → Option (Registry × String × Nat)
  | .release n | .drop n =>
    (h.handle? n).bind fun x =>
      if x.released then none else some (h.registry, x.key, x.generation)
  | .abandon t =>
    (h.registry.caller? t).bind fun c =>
      match c.letter with
      | some (.granted generation) => some (h.registry.dismiss t, c.key, generation)
      | _ => none
  | _ => none

theorem registry_settle (h : Pool) (key : String) (f : Finding) :
    (h.settle key f).1.registry = h.registry := by
  cases f <;> rfl

theorem config_apply (h : Pool) (op : Op) :
    (h.apply op).1.registry.config = h.registry.config := by
  have hrelease : ∀ n, (h.release n).registry.config = h.registry.config := by
    intro n
    unfold Pool.release
    split
    · rfl
    · split
      · rfl
      · exact (h.registry.sameTerms_release _ _).1
  cases op with
  | acquire key =>
    have hterms := (h.registry.sameTerms_acquire key).1
    unfold apply
    dsimp only
    split <;> exact hterms
  | collect t =>
    unfold apply
    dsimp only
    rw [registry_settle]
    exact (h.registry.sameTerms_collect t).1
  | expire t waitedMs =>
    unfold apply
    dsimp only
    rw [registry_settle]
    exact (h.registry.sameTerms_expire t waitedMs).1
  | abandon t => exact (h.registry.sameTerms_abandon t).1
  | release n => exact hrelease n
  | drop n => exact hrelease n
  | resetGeneration => rfl
  | clearWaiters key => exact (h.registry.sameTerms_clearWaiters key).1
  | dispose => rfl

theorem config_run (h : Pool) (ops : List Op) :
    (h.run ops).registry.config = h.registry.config := by
  induction ops generalizing h with
  | nil => rfl
  | cons op ops ih => exact (ih _).trans (h.config_apply op)

theorem limit_run (config : Config) (ops : List Op) :
    ((new config).run ops).registry.limit = max 1 config.maxConcurrent.toNat := by
  rw [Registry.limit, config_run]
  rfl

/-- An unreleased handle of this generation is one of those held on its key. -/
theorem held_pos {h : Pool} {x : Handle} (hx : x ∈ h.handles) (hrel : ¬x.released = true)
    (hg : x.generation = h.registry.generation) : 0 < h.held x.key :=
  List.countP_pos_iff.2 ⟨x, hx, by simp [Handle.isHeld, hrel, hg]⟩

/-- The slot of a handle that was not released is counted. -/
theorem Sound.gives_release {h : Pool} (hs : h.Sound) {n : Nat} {x : Handle}
    (hx : h.handle? n = some x) (hrel : ¬x.released = true) :
    (h.release n).registry = h.registry.release x.key x.generation ∧
      (x.generation = h.registry.generation → 0 < h.registry.occupancy x.key) := by
  refine ⟨?_, fun hg => ?_⟩
  · rw [Pool.release, hx]
    dsimp only
    rw [if_neg hrel]
  · have := held_pos (Sound.mem_of_handle? hx).1 hrel hg
    rw [hs.registry.counted.balance]
    omega

/-- The slot in the box of a caller that goes away is counted. -/
theorem Sound.gives_abandon {h : Pool} (hs : h.Sound) {c : Caller} (hc : c ∈ h.registry.callers)
    {generation : Nat} (hl : c.letter = some (.granted generation)) :
    h.registry.abandon c.ticket = (h.registry.dismiss c.ticket).release c.key generation ∧
      (h.registry.dismiss c.ticket).Boxed ∧
      (generation = h.registry.generation → 0 < (h.registry.dismiss c.ticket).occupancy c.key) := by
  have hd := hs.registry.dismiss hc (by rw [hl]; exact Option.some_ne_none _)
  refine ⟨?_, hd.boxed, fun hg => ?_⟩
  · rw [Registry.abandon_eq hs.registry.boxed hc, hl]
  · have hone : c.isOwed c.key h.registry.generation = true := by
      simp [Caller.isOwed, hl, hg]
    rw [hd.counted.balance, if_pos hone]
    omega

/-- A slot given back is one that is counted. -/
theorem Sound.givesBack {h : Pool} (hs : h.Sound) {op : Op} {r : Registry} {key : String}
    {generation : Nat} (hop : h.givesBack op = some (r, key, generation)) :
    (h.apply op).1.registry = r.release key generation ∧
      (generation = r.generation → r.Boxed ∧ 0 < r.occupancy key) := by
  have hhandle : ∀ n, ((h.handle? n).bind fun x =>
      if x.released then none else some (h.registry, x.key, x.generation)) =
        some (r, key, generation) →
      (h.release n).registry = r.release key generation ∧
        (generation = r.generation → r.Boxed ∧ 0 < r.occupancy key) := by
    intro n hn
    obtain ⟨x, hx, hn⟩ := Option.bind_eq_some_iff.1 hn
    split at hn
    · cases hn
    · rename_i hrel
      cases hn
      obtain ⟨hrelease, hpos⟩ := hs.gives_release hx hrel
      exact ⟨hrelease, fun hg => ⟨hs.registry.boxed, hpos hg⟩⟩
  cases op with
  | release n => exact hhandle n hop
  | drop n => exact hhandle n hop
  | abandon t =>
    obtain ⟨c, hc, hop⟩ := Option.bind_eq_some_iff.1 hop
    obtain ⟨hmem, rfl⟩ := Registry.mem_of_caller? hc
    split at hop
    · rename_i g hl
      cases hop
      obtain ⟨habandon, hboxed, hpos⟩ := hs.gives_abandon hmem hl
      exact ⟨habandon, fun hg => ⟨hboxed, hpos hg⟩⟩
    · cases hop
  | acquire key => cases hop
  | collect t => cases hop
  | expire t waitedMs => cases hop
  | resetGeneration => cases hop
  | clearWaiters key => cases hop
  | dispose => cases hop

/-- **The accounts of every run.** On every key, the slots counted are those that unreleased
handles of this generation stand for and those granted in it to callers that have not collected
them; no more than the limit, and no more waiters than places. What an operation gives back is
counted, so that lowering the count never stops at zero. -/
theorem accounts_run (config : Config) (ops : List Op) :
    let h := (new config).run ops
    (∀ key, h.registry.occupancy key = h.held key + h.registry.pending key ∧
      h.registry.occupancy key ≤ max 1 config.maxConcurrent.toNat ∧
      h.registry.queued key ≤ config.maxQueue.toNat) ∧
    ∀ op r key generation, h.givesBack op = some (r, key, generation) →
      (h.apply op).1.registry = r.release key generation ∧
      (generation = r.generation →
        (r.release key generation).occupancy key +
          (if (r.slots key).queue.isEmpty then 1 else 0) = r.occupancy key) := by
  intro h
  have hs : h.Sound := sound_run (sound_new config) ops
  have hlimit : h.registry.limit = max 1 config.maxConcurrent.toNat := limit_run config ops
  have hconfig : h.registry.config = config := config_run (new config) ops
  refine ⟨fun key => ⟨hs.registry.counted.balance key, ?_, ?_⟩, fun op r key generation hop => ?_⟩
  · rw [← hlimit]
    exact hs.registry.counted.bounded key
  · have := hs.registry.counted.room key
    rw [hconfig] at this
    exact this
  · obtain ⟨hrelease, hcounts⟩ := hs.givesBack hop
    refine ⟨hrelease, fun hg => ?_⟩
    obtain ⟨hb, hpos⟩ := hcounts hg
    rw [hg]
    exact Registry.occupancy_release hb hpos

/-- The second of two callers gets the slot of the first, and goes away before it looks. -/
theorem accounts_run_abandoned_grant :
    let h := (new { maxConcurrent := 1, maxQueue := 1 }).run
      [.acquire "s", .acquire "s", .release 0]
    h.givesBack (.abandon 0) = some (h.registry.dismiss 0, "s", 0) ∧
      (h.apply (.abandon 0)).1.registry = (h.registry.dismiss 0).release "s" 0 ∧
      ((h.registry.dismiss 0).release "s" 0).occupancy "s" + 1 =
        (h.registry.dismiss 0).occupancy "s" := by
  have haccounts := accounts_run { maxConcurrent := 1, maxQueue := 1 }
    [.acquire "s", .acquire "s", .release 0]
  obtain ⟨hrelease, hcount⟩ := haccounts.2 (.abandon 0) _ "s" 0 rfl
  exact ⟨rfl, hrelease, hcount rfl⟩

/-! ## Nothing is lost -/

theorem Sound.entry_iff {h : Pool} (hs : h.Sound) (key : String) :
    (h.registry.lanes.get? key).isSome ↔ 0 < h.registry.occupancy key := by
  cases hkey : h.registry.lanes.get? key with
  | none =>
    have : h.registry.occupancy key = 0 := by
      rw [Registry.occupancy, Registry.slots, hkey]
      rfl
    simp [this]
  | some s =>
    have hslots : h.registry.slots key = s := by
      rw [Registry.slots, hkey]
      rfl
    refine iff_of_true rfl ?_
    by_cases hq : s.queue = []
    · have hidle := hs.registry.filed.kept key s hkey
      rw [Slots.isIdle, hq, List.isEmpty_nil, Bool.and_true, decide_eq_false_iff_not] at hidle
      rw [Registry.occupancy, hslots]
      omega
    · rw [hs.registry.counted.full key (hslots ▸ hq)]
      exact h.registry.one_le_limit

/-- A key on which nobody holds or waits grants at once. -/
theorem apply_acquire_idle {h : Pool} {key : String} (hfree : h.registry.occupancy key = 0)
    (hq : h.registry.queued key = 0) :
    (h.apply (.acquire key)).2 =
      .handle { number := h.nextHandle, key, generation := h.registry.generation } := by
  have hlt : h.registry.occupancy key < h.registry.limit := by
    rw [hfree]
    exact h.registry.one_le_limit
  have hnil : (h.registry.slots key).queue = [] := List.eq_nil_of_length_eq_zero hq
  rcases h.registry.acquire_cases key with ⟨-, -, he⟩ | ⟨hbusy, -⟩ | ⟨hbusy, -⟩
  · simp only [apply, he]
    rfl
  · exact absurd ⟨hlt, hnil⟩ hbusy
  · exact absurd ⟨hlt, hnil⟩ hbusy

/-- **No slot and no waiter is lost.** While somebody waits on a key, all its slots are taken; the
registry has an entry for exactly the keys with a slot taken. So once every handle is released or
gone and no caller is left, no key has holders or waiters, and every key grants at once. -/
theorem no_slot_lost_run (config : Config) (ops : List Op) :
    let h := (new config).run ops
    (∀ key, 0 < h.registry.queued key →
      h.registry.occupancy key = max 1 config.maxConcurrent.toNat) ∧
    (∀ key, (h.registry.lanes.get? key).isSome ↔ 0 < h.registry.occupancy key) ∧
    ((∀ x ∈ h.handles, x.released = true) → h.registry.callers = [] → ∀ key,
      h.registry.occupancy key = 0 ∧ h.registry.queued key = 0 ∧
      (h.apply (.acquire key)).2 =
        .handle { number := h.nextHandle, key, generation := h.registry.generation }) := by
  intro h
  have hs : h.Sound := sound_run (sound_new config) ops
  have hlimit : h.registry.limit = max 1 config.maxConcurrent.toNat := limit_run config ops
  refine ⟨fun key hq => ?_, hs.entry_iff, fun hreleased hcallers key => ?_⟩
  · rw [← hlimit]
    exact hs.registry.counted.full key (List.ne_nil_of_length_pos hq)
  · have hheld : h.held key = 0 := by
      refine List.countP_eq_zero.2 fun x hx ho => ?_
      simp [Handle.isHeld, hreleased x hx] at ho
    have hfree : h.registry.occupancy key = 0 := by
      rw [hs.registry.counted.balance, hheld, Registry.pending, hcallers]
      rfl
    have hq : h.registry.queued key = 0 := by
      refine List.length_eq_zero_iff.2 (List.eq_nil_iff_forall_not_mem.2 fun t ht => ?_)
      obtain ⟨c, hc, -⟩ := (hs.registry.boxed.waits key t).1 ht
      rw [hcallers] at hc
      cases hc
    exact ⟨hfree, hq, apply_acquire_idle hfree hq⟩

/-- Two callers come for the one slot, the second goes away while it waits, and the first releases
the slot twice over. -/
theorem no_slot_lost_run_quiet :
    let h := (new { maxConcurrent := 0 }).run
      [.acquire "s", .acquire "s", .abandon 0, .release 0, .release 0]
    (∀ x ∈ h.handles, x.released = true) ∧ h.registry.callers = [] ∧
      h.registry.occupancy "s" = 0 ∧ h.registry.queued "s" = 0 ∧
      (h.apply (.acquire "s")).2 = .handle { number := 1, key := "s", generation := 0 } := by
  have hreleased : ∀ x ∈ ((new { maxConcurrent := 0 }).run
      [.acquire "s", .acquire "s", .abandon 0, .release 0, .release 0]).handles,
      x.released = true := by
    decide
  exact ⟨hreleased, rfl, (no_slot_lost_run { maxConcurrent := 0 }
    [.acquire "s", .acquire "s", .abandon 0, .release 0, .release 0]).2.2 hreleased rfl "s"⟩

end Pool

end TurnEngine.Lane
