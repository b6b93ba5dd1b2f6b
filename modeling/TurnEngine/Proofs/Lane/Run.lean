import TurnEngine.Lane.Pool
import TurnEngine.Proofs.Lane.Steps

/-!
# Runs of a pool

A run is any list of operations on a new pool: callers of all keys come, look into their boxes,
run out of time and go away, holders release and drop their handles, and all lanes are cleared and
reset, in any order. `Pool.Sound` holds after every run (`sound_run`): handles have numbers of
their own and no generation of the future, and the registry is sound for the slots that unreleased
handles of the current generation hold (`Pool.held`).

One operation is one locked section of the registry. A caller that goes away with a letter in its
box takes the lock twice, but finds itself in no queue the first time and changes nothing
(`Registry.withdraw_eq`): it goes away when it takes the lock again.
-/

namespace TurnEngine.Lane

/-- Whether a handle stands for a slot of a key that counts. -/
def Handle.isHeld (x : Handle) (key : String) (generation : Nat) : Bool :=
  x.key = key && !x.released && x.generation = generation

namespace Pool

/-- A pool whose lanes have some limits. -/
def new (config : Config) : Pool := { registry := { config } }

/-- The pool after some operations. -/
def run (h : Pool) (ops : List Op) : Pool :=
  ops.foldl (fun h op => (h.apply op).1) h

/-- The unreleased handles of the current generation on a key. -/
def held (h : Pool) (key : String) : Nat :=
  h.handles.countP fun x => x.isHeld key h.registry.generation

/-- The handles, with those of a number marked as released. -/
def mark (h : Pool) (n : Nat) : List Handle :=
  h.handles.map fun y => if y.number = n then { y with released := true } else y

/-- The handles have numbers of their own and come from this generation or an earlier one. -/
structure Numbered (h : Pool) : Prop where
  numbers : (h.handles.map (·.number)).Nodup
  issued : ∀ x ∈ h.handles, x.number < h.nextHandle
  stamps : ∀ x ∈ h.handles, x.generation ≤ h.registry.generation

/-- What holds after every run (module doc). -/
structure Sound (h : Pool) : Prop where
  numbered : h.Numbered
  registry : h.registry.Sound h.held

end Pool

/-! ## Limits and generation -/

namespace Registry

/-- The limits and the generation are the same. -/
def SameTerms (r r' : Registry) : Prop :=
  r'.config = r.config ∧ r'.generation = r.generation

theorem sameTerms_acquire (r : Registry) (key : String) : r.SameTerms (r.acquire key).1 := by
  unfold acquire
  dsimp only
  split
  · exact ⟨rfl, rfl⟩
  · split <;> exact ⟨rfl, rfl⟩

theorem sameTerms_release (r : Registry) (key : String) (generation : Nat) :
    r.SameTerms (r.release key generation) := by
  unfold release
  split
  · exact ⟨rfl, rfl⟩
  · split
    · exact ⟨rfl, rfl⟩
    · split <;> exact ⟨rfl, rfl⟩

theorem sameTerms_withdraw (r : Registry) (key : String) (t : Nat) :
    r.SameTerms (r.withdraw key t).1 := by
  unfold withdraw
  dsimp only
  split <;> exact ⟨rfl, rfl⟩

theorem sameTerms_collect (r : Registry) (t : Nat) : r.SameTerms (r.collect t).1 := by
  unfold collect
  split
  · exact ⟨rfl, rfl⟩
  · split
    · exact ⟨rfl, rfl⟩
    · exact ⟨rfl, rfl⟩
    · split <;> exact ⟨rfl, rfl⟩

theorem sameTerms_expire (r : Registry) (t waitedMs : Nat) :
    r.SameTerms (r.expire t waitedMs).1 := by
  unfold expire
  split
  · exact ⟨rfl, rfl⟩
  · rename_i c _
    have hw := r.sameTerms_withdraw c.key t
    dsimp only
    split
    · exact hw
    · split <;> exact ⟨rfl, rfl⟩

theorem sameTerms_abandon (r : Registry) (t : Nat) : r.SameTerms (r.abandon t) := by
  unfold abandon
  split
  · exact ⟨rfl, rfl⟩
  · rename_i c _
    have hw := r.sameTerms_withdraw c.key t
    dsimp only
    split
    · exact hw
    · split
      · exact sameTerms_release (r.dismiss t) c.key _
      · exact ⟨rfl, rfl⟩

theorem sameTerms_clearWaiters (r : Registry) (key : String) :
    r.SameTerms (r.clearWaiters key).1 := by
  unfold clearWaiters
  split <;> exact ⟨rfl, rfl⟩

end Registry

namespace Pool.Sound

variable {h : Pool}

/-- After a change of the registry that leaves the held slots as they are. -/
theorem withRegistry (hs : h.Sound) {r : Registry} (hr : r.Sound h.held)
    (ht : h.registry.SameTerms r) : Sound { h with registry := r } := by
  have hheld : Pool.held { h with registry := r } = h.held := by
    unfold held
    rw [ht.2]
  exact ⟨⟨hs.numbered.numbers, hs.numbered.issued, fun x hx => ht.2 ▸ hs.numbered.stamps x hx⟩,
    hheld ▸ hr⟩

/-- After the next generation began: no handle that is out counts. -/
theorem nextGeneration (hs : h.Sound) {r : Registry} (hr : r.Sound fun _ => 0)
    (hg : r.generation = h.registry.generation + 1) : Sound { h with registry := r } := by
  refine ⟨⟨hs.numbered.numbers, hs.numbered.issued, fun x hx => ?_⟩, hr.congr fun key => ?_⟩
  · have := hs.numbered.stamps x hx
    show x.generation ≤ r.generation
    omega
  · refine List.countP_eq_zero.2 fun x hx ho => ?_
    simp only [Handle.isHeld, Bool.and_eq_true, decide_eq_true_eq] at ho
    have := hs.numbered.stamps x hx
    omega

/-- After a handle was given out for a slot. -/
theorem issue (hs : h.Sound) {r : Registry} {key : String} {generation : Nat}
    (ht : h.registry.SameTerms r) (hg : generation ≤ h.registry.generation)
    (hr : r.Sound fun k =>
      h.held k + if key = k ∧ generation = h.registry.generation then 1 else 0) :
    (Pool.issue { h with registry := r } key generation).1.Sound := by
  refine ⟨⟨Keyed.nodup_concat hs.numbered.numbers hs.numbered.issued,
    fun x hx => Keyed.lt_of_mem_concat hs.numbered.issued hx, fun x hx => ?_⟩,
    hr.congr fun k => ?_⟩
  · show x.generation ≤ r.generation
    rw [ht.2]
    rcases List.mem_append.1 hx with hx | hx
    · exact hs.numbered.stamps x hx
    · rw [List.mem_singleton.1 hx]
      exact hg
  · show (h.handles ++ [_]).countP (fun x : Handle => x.isHeld k r.generation) = _
    rw [ht.2, List.countP_append, List.countP_singleton]
    simp [Handle.isHeld, held]

/-- After a caller found a letter in its box: with a grant it gets a handle. -/
theorem settle (hs : h.Sound) {c : Caller} (hc : c ∈ h.registry.callers) {letter : Letter}
    (hl : c.letter = some letter) :
    (Pool.settle { h with registry := h.registry.dismiss c.ticket } c.key
      (match letter with
        | .granted generation => .granted generation
        | .cleared => .failed (.laneCleared c.key))).1.Sound := by
  have hd := hs.registry.dismiss hc (by rw [hl]; exact Option.some_ne_none _)
  cases letter with
  | granted generation =>
    refine hs.issue (r := h.registry.dismiss c.ticket) ⟨rfl, rfl⟩
      (hs.registry.boxed.letters c hc _ hl) (hd.congr fun k => ?_)
    simp [Caller.isOwed, hl]
  | cleared =>
    exact hs.withRegistry (hd.congr fun k => by simp [Caller.isOwed, hl]) ⟨rfl, rfl⟩

theorem acquire (hs : h.Sound) (key : String) : (h.apply (.acquire key)).1.Sound := by
  rcases h.registry.acquire_cases key with ⟨hfree, hq, he⟩ | ⟨-, -, he⟩ | ⟨hbusy, hwaiters, he⟩
  · simp only [apply, he]
    refine hs.issue ⟨rfl, rfl⟩ (Nat.le_refl _) ((hs.registry.take hfree hq).congr fun k => ?_)
    by_cases hk : k = key
    · rw [hk, Function.update_self]
      simp
    · rw [Function.update_of_ne hk]
      simp [Ne.symm hk]
  · simp only [apply, he]
    exact hs
  · simp only [apply, he]
    exact hs.withRegistry (hs.registry.enqueue hbusy hwaiters) ⟨rfl, rfl⟩

theorem collect (hs : h.Sound) (t : Nat) : (h.apply (.collect t)).1.Sound := by
  unfold apply
  dsimp only
  cases hc : h.registry.caller? t with
  | none =>
    rw [Registry.collect, hc]
    exact hs
  | some c =>
    obtain ⟨hmem, rfl⟩ := Registry.mem_of_caller? hc
    rw [keyOf, hc, Registry.collect_eq hs.registry.boxed hmem]
    cases hl : c.letter with
    | none => exact hs
    | some letter =>
      have := hs.settle hmem hl
      cases letter <;> exact this

theorem expire (hs : h.Sound) (t waitedMs : Nat) : (h.apply (.expire t waitedMs)).1.Sound := by
  unfold apply
  dsimp only
  cases hc : h.registry.caller? t with
  | none =>
    rw [Registry.expire, hc]
    exact hs
  | some c =>
    obtain ⟨hmem, rfl⟩ := Registry.mem_of_caller? hc
    rw [keyOf, hc, Registry.expire_eq hs.registry.boxed hmem]
    cases hl : c.letter with
    | none => exact hs.withRegistry (hs.registry.leave hmem hl) ⟨rfl, rfl⟩
    | some letter =>
      have := hs.settle hmem hl
      cases letter <;> exact this

theorem mem_of_handle? {n : Nat} {x : Handle} (hx : h.handle? n = some x) :
    x ∈ h.handles ∧ x.number = n :=
  ⟨List.mem_of_find?_eq_some hx, by simpa using List.find?_some hx⟩

theorem numbered_mark (hs : h.Sound) {r : Registry} (ht : h.registry.SameTerms r) (n : Nat) :
    Numbered { h with registry := r, handles := h.mark n } := by
  refine ⟨?_, fun y hy => ?_, fun y hy => ?_⟩
  · show (List.map _ (List.map _ h.handles)).Nodup
    rw [Keyed.map_num_change (f := fun y : Handle => { y with released := true }) fun _ => rfl]
    exact hs.numbered.numbers
  · obtain ⟨z, hz, rfl⟩ := List.mem_map.1 hy
    have := hs.numbered.issued z hz
    split <;> exact this
  · obtain ⟨z, hz, rfl⟩ := List.mem_map.1 hy
    have := hs.numbered.stamps z hz
    show (if z.number = n then _ else z).generation ≤ r.generation
    rw [ht.2]
    split <;> exact this

/-- After a handle was marked as released, its slot is not held any more. -/
theorem held_mark (hs : h.Sound) {x : Handle} (hx : x ∈ h.handles) (hrel : x.released = false)
    {r : Registry} (ht : h.registry.SameTerms r) (key : String) :
    Pool.held { h with registry := r, handles := h.mark x.number } key +
      (if x.key = key ∧ x.generation = h.registry.generation then 1 else 0) = h.held key := by
  have := Keyed.countP_change hs.numbered.numbers hx
    (fun y : Handle => { y with released := true }) fun y => y.isHeld key h.registry.generation
  show (h.mark x.number).countP (fun y => y.isHeld key r.generation) + _ = _
  rw [ht.2]
  simpa [Handle.isHeld, held, mark, hrel] using this

theorem release (hs : h.Sound) (n : Nat) : (h.release n).Sound := by
  unfold Pool.release
  split
  · exact hs
  · rename_i x hx
    obtain ⟨hmem, rfl⟩ := mem_of_handle? hx
    split
    · exact hs
    · rename_i hrel
      have hterms := h.registry.sameTerms_release x.key x.generation
      have hheld := hs.held_mark hmem (by simpa using hrel) hterms
      refine ⟨hs.numbered_mark hterms x.number, ?_⟩
      by_cases hg : x.generation = h.registry.generation
      · have hone := hheld x.key
        rw [if_pos ⟨rfl, hg⟩] at hone
        have hr := hs.registry.release (show 0 < h.held x.key by omega)
        rw [← hg] at hr
        refine hr.congr fun k => ?_
        by_cases hk : k = x.key
        · rw [hk, Function.update_self, ← hone]
          exact (Nat.add_sub_cancel ..).symm
        · have := hheld k
          rw [if_neg fun hc => hk hc.1.symm] at this
          rw [Function.update_of_ne hk]
          exact this
      · rw [Registry.release_stale x.key hg] at hheld ⊢
        refine hs.registry.congr fun k => ?_
        have := hheld k
        rw [if_neg fun hc => hg hc.2] at this
        exact this

/-- A handle with some number is released once its number was. -/
theorem released_of_mem (hs : h.Sound) {n : Nat} {x : Handle} (hx : x ∈ (h.release n).handles)
    (hn : x.number = n) : x.released = true := by
  unfold Pool.release at hx
  split at hx
  · rename_i hnone
    have := List.find?_eq_none.1 hnone x hx
    simp [hn] at this
  · rename_i y hy
    obtain ⟨hmem, hnum⟩ := mem_of_handle? hy
    split at hx
    · rename_i hrel
      rw [← List.inj_on_of_nodup_map hs.numbered.numbers hmem hx (hnum.trans hn.symm)]
      exact hrel
    · obtain ⟨z, -, rfl⟩ := List.mem_map.1 hx
      by_cases hz : z.number = n
      · rw [if_pos hz]
      · rw [if_neg hz] at hn
        exact absurd hn hz

theorem drop (hs : h.Sound) (n : Nat) : (h.apply (.drop n)).1.Sound := by
  have hr := hs.release n
  refine ⟨⟨Keyed.nodup_remove hr.numbered.numbers n, fun x hx => ?_, fun x hx => ?_⟩,
    hr.registry.congr fun k => ?_⟩
  · exact hr.numbered.issued x (List.mem_of_mem_filter hx)
  · exact hr.numbered.stamps x (List.mem_of_mem_filter hx)
  · show ((h.release n).handles.filter _).countP (·.isHeld k (h.release n).registry.generation) = _
    rw [List.countP_filter]
    refine List.countP_congr fun x hx => ?_
    by_cases hn : x.number = n
    · simp [Handle.isHeld, hs.released_of_mem hx hn]
    · simp [hn]

/-- What every operation keeps. -/
theorem apply (hs : h.Sound) (op : Op) : (h.apply op).1.Sound := by
  cases op with
  | acquire key => exact hs.acquire key
  | collect t => exact hs.collect t
  | expire t waitedMs => exact hs.expire t waitedMs
  | abandon t => exact hs.withRegistry (hs.registry.abandon t) (h.registry.sameTerms_abandon t)
  | release n => exact hs.release n
  | drop n => exact hs.drop n
  | resetGeneration =>
    exact hs.nextGeneration hs.registry.resetGeneration hs.registry.generation_resetGeneration
  | clearWaiters key =>
    exact hs.withRegistry (hs.registry.clearWaiters key) (h.registry.sameTerms_clearWaiters key)
  | dispose => exact hs.nextGeneration hs.registry.dispose rfl

end Pool.Sound

namespace Pool

theorem sound_new (config : Config) : (new config).Sound where
  numbered := ⟨List.nodup_nil, fun _ hx => (List.not_mem_nil hx).elim,
    fun _ hx => (List.not_mem_nil hx).elim⟩
  registry := by
    have hboxed : (new config).registry.Boxed := by
      refine ⟨List.nodup_nil, fun c hc => ?_, fun c hc => ?_, fun _ => List.nodup_nil,
        fun key t => ?_⟩
      · cases hc
      · cases hc
      · exact ⟨fun ht => (List.not_mem_nil ht).elim, fun ⟨c, hc, _⟩ => (List.not_mem_nil hc).elim⟩
    exact ⟨⟨List.nodup_nil, fun _ _ hs => by cases hs⟩, hboxed, fun _ => rfl,
      fun _ => Nat.zero_le _, fun _ => Nat.zero_le _, fun _ hne => absurd rfl hne⟩

theorem sound_run {h : Pool} (hs : h.Sound) (ops : List Op) : (h.run ops).Sound := by
  induction ops generalizing h with
  | nil => exact hs
  | cons op ops ih => exact ih (hs.apply op)

end Pool

end TurnEngine.Lane
