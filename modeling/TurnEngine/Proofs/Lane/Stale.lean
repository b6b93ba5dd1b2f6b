import TurnEngine.Proofs.Lane.Places

/-!
# Slots of earlier generations

A new generation makes all handles and all grants worthless that were given out before, but it
leaves them where they are: in the hands of holders, and in boxes that nobody has looked into. This
module shows that nobody can tell what becomes of them. An operation is stale if it gives back a
slot of an earlier generation, or is about a handle or a caller that is not there. `timely` leaves
the stale operations out of a run, and two runs with the same timely operations answer every one of
them alike, with the same slots, the same grants to be collected and the same generation after it
(`Alike.answers`).

The proof runs a pool beside one that performs the timely operations only. The two differ in stale
callers and in handles of earlier generations (`Registry.Alike`, `Pool.Alike`); no operation reads
either, except to hand a stale grant to its own caller.
-/

namespace TurnEngine.Lane

/-- Whether a caller has a grant of an earlier generation in its box. -/
def Caller.isStale (c : Caller) (generation : Nat) : Bool :=
  match c.letter with
  | some (.granted g) => g < generation
  | _ => false

namespace Registry

/-- The callers without the stale ones. -/
def fresh (r : Registry) : List Caller :=
  r.callers.filter fun c => !c.isStale r.generation

/-- Two registries that differ in stale callers at most; the second one may have more of them. -/
structure Alike (r r' : Registry) : Prop where
  terms : r.SameTerms r'
  nextTicket : r'.nextTicket = r.nextTicket
  lanes : r'.lanes = r.lanes
  fresh : r'.fresh = r.fresh
  there : ∀ c ∈ r.callers, c ∈ r'.callers

theorem Alike.refl (r : Registry) : r.Alike r :=
  ⟨⟨rfl, rfl⟩, rfl, rfl, rfl, fun _ hc => hc⟩

namespace Alike

variable {r r' : Registry} (h : r.Alike r')
include h

theorem slots : r'.slots = r.slots := by
  funext key
  rw [Registry.slots, Registry.slots, h.lanes]

theorem limit : r'.limit = r.limit := by
  rw [Registry.limit, Registry.limit, h.terms.1]

theorem fresh_eq : r'.callers.filter (fun c => !c.isStale r.generation) =
    r.callers.filter fun c => !c.isStale r.generation := by
  have hfresh := h.fresh
  unfold Registry.fresh at hfresh
  rwa [h.terms.2] at hfresh

/-- A stale caller is owed nothing. -/
theorem pending : r'.pending = r.pending := by
  have howed (cs : List Caller) (key : String) :
      cs.countP (fun c => c.isOwed key r.generation) =
        (cs.filter fun c => !c.isStale r.generation).countP fun c => c.isOwed key r.generation := by
    rw [List.countP_filter]
    refine List.countP_congr fun c _ => ?_
    by_cases hl : c.letter = some (.granted r.generation)
    · simp [Caller.isOwed, Caller.isStale, hl]
    · simp [Caller.isOwed, hl]
  funext key
  rw [Registry.pending, Registry.pending, h.terms.2, howed r'.callers, howed r.callers, h.fresh_eq]

/-! ### The parts of an operation -/

theorem withLanes (lanes : Table Slots) : Alike { r with lanes } { r' with lanes } :=
  ⟨h.terms, h.nextTicket, rfl, h.fresh, h.there⟩

theorem put (key : String) (s : Slots) : (r.put key s).Alike (r'.put key s) := by
  unfold Registry.put
  rw [h.lanes]
  exact h.withLanes _

theorem join (c : Caller) (nextTicket : Nat) :
    Alike { r with nextTicket, callers := r.callers ++ [c] }
      { r' with nextTicket, callers := r'.callers ++ [c] } := by
  refine ⟨h.terms, rfl, h.lanes, ?_, fun d hd => ?_⟩
  · unfold Registry.fresh
    simp only [List.filter_append, h.terms.2, h.fresh_eq]
  · exact (List.mem_append.1 hd).elim (fun hd => List.mem_append_left _ (h.there d hd))
      fun hd => List.mem_append_right _ hd

theorem dismiss (t : Nat) : (r.dismiss t).Alike (r'.dismiss t) := by
  refine ⟨h.terms, h.nextTicket, h.lanes, ?_, fun c hc => ?_⟩
  · unfold Registry.fresh Registry.dismiss
    rw [List.filter_comm, h.terms.2, h.fresh_eq, List.filter_comm]
  · obtain ⟨hc, ht⟩ := List.mem_filter.1 hc
    exact List.mem_filter.2 ⟨h.there c hc, ht⟩

/-- Letters to callers that have none, by tickets. -/
theorem post {ts : List Nat} {letter : Letter}
    (hts : ∀ c ∈ r'.callers, c.ticket ∈ ts → c.letter = none)
    (hletter : ∀ g, letter = .granted g → r.generation ≤ g) :
    Alike { r with callers := postAll r.callers ts letter }
      { r' with callers := postAll r'.callers ts letter } := by
  -- a letter makes nobody stale, and went to nobody who was
  have hkept (cs : List Caller) (hcs : ∀ c ∈ cs, c.ticket ∈ ts → c.letter = none) :
      (postAll cs ts letter).filter (fun c => !c.isStale r.generation) =
        postAll (cs.filter fun c => !c.isStale r.generation) ts letter := by
    unfold postAll
    rw [List.filter_map]
    congr 1
    refine List.filter_congr fun c hc => ?_
    by_cases ht : c.ticket ∈ ts
    · have hnone := hcs c hc ht
      cases letter with
      | cleared => simp [ht, hnone, Caller.isStale]
      | granted g => simp [ht, hnone, Caller.isStale, hletter g rfl]
    · simp [ht]
  refine ⟨h.terms, h.nextTicket, h.lanes, ?_, fun c hc => ?_⟩
  · unfold Registry.fresh
    simp only [h.terms.2, hkept r'.callers hts,
      hkept r.callers fun c hc => hts c (h.there c hc), h.fresh_eq]
  · rcases mem_postAll.1 hc with ⟨hc, ht⟩ | ⟨d, hd, ht, rfl⟩
    · exact mem_postAll.2 (.inl ⟨h.there c hc, ht⟩)
    · exact mem_postAll.2 (.inr ⟨d, h.there d hd, ht, rfl⟩)

/-- A later generation makes more grants stale. -/
theorem age {generation : Nat} (hle : r.generation ≤ generation) :
    Alike { r with generation } { r' with generation } := by
  have hmore (cs : List Caller) : cs.filter (fun c => !c.isStale generation) =
      (cs.filter fun c => !c.isStale r.generation).filter fun c => !c.isStale generation := by
    rw [List.filter_filter]
    refine List.filter_congr fun c _ => ?_
    unfold Caller.isStale
    split
    · rename_i g _
      by_cases hg : g < r.generation
      · simp [hg, Nat.lt_of_lt_of_le hg hle]
      · simp [hg]
    · rfl
  refine ⟨⟨h.terms.1, rfl⟩, h.nextTicket, h.lanes, ?_, h.there⟩
  unfold Registry.fresh
  rw [hmore, h.fresh_eq, ← hmore]

/-! ### Operations -/

theorem acquire (key : String) :
    (r'.acquire key).2 = (r.acquire key).2 ∧ (r.acquire key).1.Alike (r'.acquire key).1 := by
  unfold Registry.acquire
  simp only [h.slots, h.limit, h.terms.1, h.terms.2, h.nextTicket]
  split
  · exact ⟨rfl, h.put key _⟩
  · split
    · exact ⟨rfl, h⟩
    · exact ⟨rfl, (h.put key _).join _ _⟩

/-- A caller that is there is the same on both sides. -/
theorem caller? (hr' : r'.Boxed) {t : Nat} {c : Caller} (hc : r.caller? t = some c) :
    r'.caller? t = some c := by
  obtain ⟨hmem, rfl⟩ := mem_of_caller? hc
  exact hr'.caller?_of_mem (h.there c hmem)

/-- The oldest waiter of a key gets a slot. -/
theorem handOver (hr' : r'.Boxed) {key : String} {t : Nat} (ht : t ∈ (r.slots key).queue)
    (queue : List Nat) : (r.handOver key t queue).Alike (r'.handOver key t queue) := by
  have hletter (c : Caller) (hc : c ∈ r'.callers) (hct : c.ticket ∈ [t]) : c.letter = none := by
    rw [← List.mem_singleton.1 hct, ← h.slots] at ht
    exact ((hr'.mem_queue_iff hc key).1 ht).2
  unfold Registry.handOver
  rw [h.slots, h.terms.2]
  refine (h.put key _).post hletter fun g hg => ?_
  cases hg
  exact Nat.le_refl _

theorem release (hr : r.Boxed) (hr' : r'.Boxed) (key : String) (generation : Nat) :
    (r.release key generation).Alike (r'.release key generation) := by
  by_cases hg : generation = r.generation
  · subst hg
    cases hs : r.lanes.get? key with
    | none =>
      have hkept (r : Registry) (hs : r.lanes.get? key = none) (g : Nat) : r.release key g = r := by
        rw [Registry.release, hs]
        exact ite_self r
      rw [hkept r hs, hkept r' (by rwa [h.lanes])]
      exact h
    | some s =>
      have hs' : r'.lanes.get? key = some s := by rwa [h.lanes]
      have heq := release_of_get? hr' hs'
      rw [h.terms.2] at heq
      rw [release_of_get? hr hs, heq]
      cases hq : s.queue with
      | nil => exact h.put key _
      | cons t queue =>
        refine h.handOver hr' ?_ queue
        rw [Registry.slots, hs, Option.getD_some, hq]
        exact List.mem_cons_self
  · rw [release_stale key hg, release_stale key (h.terms.2 ▸ hg)]
    exact h

theorem leave (c : Caller) : (r.leave c).Alike (r'.leave c) := by
  unfold Registry.leave
  rw [h.slots]
  exact (h.put c.key _).dismiss c.ticket

section
variable (hr : r.Boxed) (hr' : r'.Boxed) {c : Caller} (hc : c ∈ r.callers)
include hr hr' hc

theorem collect : (r'.collect c.ticket).2 = (r.collect c.ticket).2 ∧
    (r.collect c.ticket).1.Alike (r'.collect c.ticket).1 := by
  rw [collect_eq hr hc, collect_eq hr' (h.there c hc)]
  cases c.letter with
  | none => exact ⟨rfl, h⟩
  | some letter => cases letter <;> exact ⟨rfl, h.dismiss c.ticket⟩

theorem expire (waitedMs : Nat) :
    (r'.expire c.ticket waitedMs).2 = (r.expire c.ticket waitedMs).2 ∧
      (r.expire c.ticket waitedMs).1.Alike (r'.expire c.ticket waitedMs).1 := by
  rw [expire_eq hr hc, expire_eq hr' (h.there c hc)]
  cases c.letter with
  | none => exact ⟨rfl, h.leave c⟩
  | some letter => cases letter <;> exact ⟨rfl, h.dismiss c.ticket⟩

theorem abandon : (r.abandon c.ticket).Alike (r'.abandon c.ticket) := by
  rw [abandon_eq hr hc, abandon_eq hr' (h.there c hc)]
  cases hl : c.letter with
  | none => exact h.leave c
  | some letter =>
    have hletter : c.letter ≠ none := by simp [hl]
    cases letter with
    | cleared => exact h.dismiss c.ticket
    | granted g =>
      exact (h.dismiss c.ticket).release (hr.dismiss hc hletter)
        (hr'.dismiss (h.there c hc) hletter) c.key g

end

/-- Letters to the callers in some queues. -/
theorem postQueues (hr' : r'.Boxed) {ts : List Nat} (hts : ∀ t ∈ ts, ∃ key, t ∈ (r.slots key).queue)
    (letter : Letter) (hletter : ∀ g, letter = .granted g → r.generation ≤ g) :
    Alike { r with callers := postAll r.callers ts letter }
      { r' with callers := postAll r'.callers ts letter } := by
  refine h.post (fun c hc ht => ?_) hletter
  obtain ⟨key, hkey⟩ := hts _ ht
  rw [← h.slots] at hkey
  exact ((hr'.mem_queue_iff hc key).1 hkey).2

theorem clearWaiters (hr' : r'.Boxed) (key : String) :
    (r'.clearWaiters key).2 = (r.clearWaiters key).2 ∧
      (r.clearWaiters key).1.Alike (r'.clearWaiters key).1 := by
  unfold Registry.clearWaiters
  rw [h.lanes]
  cases hs : r.lanes.get? key with
  | none => exact ⟨rfl, h⟩
  | some s =>
    have hts : ∀ t ∈ s.queue, ∃ k, t ∈ (r.slots k).queue := fun t ht =>
      ⟨key, by rwa [Registry.slots, hs]⟩
    simp only [rejectAll_eq]
    exact ⟨trivial, (h.postQueues hr' hts .cleared fun g hg => by cases hg).put key _⟩

section
variable {held held' : String → Nat} (hr : r.Sound held) (hr' : r'.Sound held')
include hr hr'

theorem dispose : r.dispose.Alike r'.dispose := by
  have hts : ∀ t ∈ r.lanes.entries.flatMap (fun e => e.2.queue), ∃ k, t ∈ (r.slots k).queue :=
    fun t ht => (hr.mem_queues_iff (·.queue) fun _ _ ht => ht).1 ht
  rw [dispose_eq, dispose_eq, h.lanes, h.terms.2]
  exact ((h.postQueues hr'.boxed hts .cleared fun g hg => by cases hg).age
    (Nat.le_succ _)).withLanes {}

theorem resetGeneration : r.resetGeneration.Alike r'.resetGeneration := by
  have hts : ∀ t ∈ r.lanes.entries.flatMap (fun e => e.2.queue.take r.limit),
      ∃ k, t ∈ (r.slots k).queue := fun t ht =>
    ((hr.mem_queues_iff (·.queue.take r.limit) fun _ _ ht => List.mem_of_mem_take ht).1 ht).imp
      fun _ hk => List.mem_of_mem_take hk
  have hletter (g : Nat) (hg : Letter.granted (r.generation + 1) = .granted g) :
      r.generation ≤ g := by
    cases hg
    exact Nat.le_succ _
  rw [resetGeneration_eq r hr.isListening_of_mem_entries,
    resetGeneration_eq r' hr'.isListening_of_mem_entries, h.lanes, h.limit, h.terms.2]
  exact ((h.postQueues hr'.boxed hts _ hletter).age (Nat.le_succ _)).withLanes _

end

end Alike

end Registry

namespace Pool

/-- Whether an operation gives back a slot of an earlier generation, or is about a handle or a
caller that is not there. -/
def isStale (h : Pool) : Op → Bool
  | .release n | .drop n => (h.handle? n).all fun x => x.generation < h.registry.generation
  | .abandon t => (h.registry.caller? t).all fun c => c.isStale h.registry.generation
  | .collect t | .expire t _ => (h.registry.caller? t).isNone
  | _ => false

/-- What callers of all keys can tell of a pool: its generation, the slots taken and the queue of
every key, and the grants that wait to be collected. -/
structure View where
  generation : Nat
  slots : String → Slots
  pending : String → Nat

/-- What is to be seen of a pool. -/
def view (h : Pool) : View :=
  ⟨h.registry.generation, h.registry.slots, h.registry.pending⟩

/-- The operations of a run that are not stale. -/
def timely (h : Pool) : List Op → List Op
  | [] => []
  | op :: ops =>
    let later := (h.apply op).1.timely ops
    if h.isStale op then later else op :: later

/-- The answer to each timely operation of a run, with what is to be seen after it. -/
def answers (h : Pool) : List Op → List (Reply × View)
  | [] => []
  | op :: ops =>
    let later := (h.apply op).1.answers ops
    if h.isStale op then later else ((h.apply op).2, (h.apply op).1.view) :: later

/-- The handles of this generation. -/
def current (h : Pool) : List Handle :=
  h.handles.filter fun x => x.generation = h.registry.generation

/-- Two pools that differ in stale callers and in handles of earlier generations at most. -/
structure Alike (h h' : Pool) : Prop where
  registry : h.registry.Alike h'.registry
  nextHandle : h'.nextHandle = h.nextHandle
  current : h'.current = h.current

theorem Alike.refl (h : Pool) : Alike h h :=
  ⟨.refl _, rfl, rfl⟩

/-- Marking handles as released does not change their generations. -/
theorem filter_mark (h : Pool) (n g : Nat) : ((h.mark n).filter fun x => x.generation = g) =
    (h.handles.filter fun x => x.generation = g).map fun y =>
      if y.number = n then { y with released := true } else y := by
  rw [mark, List.filter_map]
  congr 2
  funext y
  simp only [Function.comp_apply]
  split <;> rfl

/-- A handle that an operation in time is about is of this generation. -/
theorem Sound.handle_of_timely {h : Pool} (hs : h.Sound) {n : Nat}
    (ht : (h.handle? n).all (fun x => x.generation < h.registry.generation) = false) :
    ∃ x, h.handle? n = some x ∧ x.generation = h.registry.generation := by
  cases hx : h.handle? n with
  | none => simp [hx] at ht
  | some x =>
    have hle := hs.numbered.stamps x (Sound.mem_of_handle? hx).1
    simp only [hx, Option.all_some, decide_eq_false_iff_not] at ht
    exact ⟨x, rfl, by omega⟩

section
variable {h : Pool} {n : Nat}
  (ht : (h.handle? n).all (fun x => x.generation < h.registry.generation) = true)
include ht

/-- Releasing a handle of an earlier generation changes nothing about the lanes. -/
theorem registry_release_stale : (h.release n).registry = h.registry := by
  unfold Pool.release
  cases hx : h.handle? n with
  | none => rfl
  | some x =>
    simp only [hx, Option.all_some, decide_eq_true_eq] at ht
    dsimp only
    split
    · rfl
    · exact Registry.release_stale x.key (Nat.ne_of_lt ht)

theorem Sound.number_ne_of_stale (hs : h.Sound) :
    ∀ x ∈ h.handles.filter (fun x => x.generation = h.registry.generation), x.number ≠ n := by
  rintro x hx rfl
  obtain ⟨hmem, hg⟩ := List.mem_filter.1 hx
  have hfound : h.handle? x.number = some x := Keyed.find?_of_mem hs.numbered.numbers hmem
  simp only [hfound, Option.all_some, decide_eq_true_eq] at ht hg
  omega

end

namespace Alike

variable {h h' : Pool} (ha : Alike h h')
include ha

theorem view : h'.view = h.view := by
  rw [Pool.view, Pool.view, ha.registry.terms.2, ha.registry.slots, ha.registry.pending]

theorem current_eq : (h'.handles.filter fun x => x.generation = h.registry.generation) =
    h.handles.filter fun x => x.generation = h.registry.generation := by
  have hcurrent := ha.current
  unfold Pool.current at hcurrent
  rwa [ha.registry.terms.2] at hcurrent

/-- After a change of the registry that keeps the generation. -/
theorem withRegistry {r r' : Registry} (hr : r.Alike r') (hterms : h.registry.SameTerms r) :
    Alike { h with registry := r } { h' with registry := r' } := by
  refine ⟨hr, ha.nextHandle, ?_⟩
  unfold Pool.current
  dsimp only
  rw [hr.terms.2, hterms.2, ha.current_eq]

/-- After the next generation began. -/
theorem nextGeneration (hs : h.Sound) (hs' : h'.Sound) {r r' : Registry} (hr : r.Alike r')
    (hg : r.generation = h.registry.generation + 1) :
    Alike { h with registry := r } { h' with registry := r' } := by
  refine ⟨hr, ha.nextHandle, ?_⟩
  have hnone : ∀ x ∈ h.handles, ¬ (decide (x.generation = r.generation)) = true := by
    intro x hx
    have := hs.numbered.stamps x hx
    simp only [decide_eq_true_eq]
    omega
  have hnone' : ∀ x ∈ h'.handles, ¬ (decide (x.generation = r.generation)) = true := by
    intro x hx
    have := hs'.numbered.stamps x hx
    rw [ha.registry.terms.2] at this
    simp only [decide_eq_true_eq]
    omega
  unfold Pool.current
  rw [hr.terms.2, List.filter_eq_nil_iff.2 hnone, List.filter_eq_nil_iff.2 hnone']

theorem issue (key : String) (generation : Nat) :
    (h'.issue key generation).2 = (h.issue key generation).2 ∧
      Alike (h.issue key generation).1 (h'.issue key generation).1 := by
  refine ⟨by simp only [Pool.issue, ha.nextHandle], ha.registry, ?_, ?_⟩
  · show h'.nextHandle + 1 = h.nextHandle + 1
    rw [ha.nextHandle]
  · unfold Pool.current Pool.issue
    simp only [List.filter_append, ha.registry.terms.2, ha.nextHandle, ha.current_eq]

theorem settle (key : String) (f : Finding) :
    (h'.settle key f).2 = (h.settle key f).2 ∧
      Alike (h.settle key f).1 (h'.settle key f).1 := by
  cases f with
  | granted generation => exact ha.issue key generation
  | failed e => exact ⟨rfl, ha⟩
  | waiting => exact ⟨rfl, ha⟩

/-- A handle of this generation is the same on both sides. -/
theorem handle? (hs' : h'.Sound) {n : Nat} {x : Handle} (hx : h.handle? n = some x)
    (hg : x.generation = h.registry.generation) : h'.handle? n = some x := by
  obtain ⟨hmem, rfl⟩ := Sound.mem_of_handle? hx
  have hcurrent : x ∈ h'.handles.filter fun x => x.generation = h.registry.generation := by
    rw [ha.current_eq]
    exact List.mem_filter.2 ⟨hmem, decide_eq_true hg⟩
  exact Keyed.find?_of_mem hs'.numbered.numbers (List.mem_of_mem_filter hcurrent)

theorem release (hs : h.Sound) (hs' : h'.Sound) {n : Nat} {x : Handle} (hx : h.handle? n = some x)
    (hg : x.generation = h.registry.generation) : Alike (h.release n) (h'.release n) := by
  rw [Pool.release, Pool.release, hx, ha.handle? hs' hx hg]
  dsimp only
  split
  · exact ha
  · have hreg := ha.registry.release hs.registry.boxed hs'.registry.boxed x.key x.generation
    refine ⟨hreg, ha.nextHandle, ?_⟩
    have hterms := h.registry.sameTerms_release x.key x.generation
    show (h'.mark n).filter _ = (h.mark n).filter _
    rw [hreg.terms.2, hterms.2, filter_mark, filter_mark, ha.current_eq]

/-- After a handle was taken away. -/
theorem without (n : Nat) :
    Alike { h with handles := h.handles.filter fun x => x.number ≠ n }
      { h' with handles := h'.handles.filter fun x => x.number ≠ n } := by
  refine ⟨ha.registry, ha.nextHandle, ?_⟩
  unfold Pool.current
  dsimp only
  rw [ha.registry.terms.2, List.filter_comm, ha.current_eq, List.filter_comm]

/-- A timely operation is timely on both sides, and is answered alike. -/
theorem apply (hs : h.Sound) (hs' : h'.Sound) {op : Op} (ht : h.isStale op = false) :
    h'.isStale op = false ∧ (h'.apply op).2 = (h.apply op).2 ∧
      Alike (h.apply op).1 (h'.apply op).1 := by
  have hboxed := hs.registry.boxed
  have hboxed' := hs'.registry.boxed
  cases op with
  | acquire key =>
    obtain ⟨hanswer, hreg⟩ := ha.registry.acquire key
    have hthere := ha.withRegistry hreg (h.registry.sameTerms_acquire key)
    unfold Pool.apply
    simp only [hanswer]
    refine ⟨rfl, ?_⟩
    cases (h.registry.acquire key).2 with
    | granted generation => exact hthere.issue key generation
    | refused f => exact ⟨rfl, hthere⟩
    | queued t => exact ⟨rfl, hthere⟩
  | collect t =>
    cases hc : h.registry.caller? t with
    | none => simp [isStale, hc] at ht
    | some c =>
      have hc' := ha.registry.caller? hboxed' hc
      obtain ⟨hmem, rfl⟩ := Registry.mem_of_caller? hc
      obtain ⟨hfinding, hreg⟩ := ha.registry.collect hboxed hboxed' hmem
      have hthere := ha.withRegistry hreg (h.registry.sameTerms_collect c.ticket)
      refine ⟨by simp [isStale, hc'], ?_⟩
      simp only [Pool.apply, hfinding, keyOf, hc, hc']
      exact hthere.settle _ _
  | expire t ms =>
    cases hc : h.registry.caller? t with
    | none => simp [isStale, hc] at ht
    | some c =>
      have hc' := ha.registry.caller? hboxed' hc
      obtain ⟨hmem, rfl⟩ := Registry.mem_of_caller? hc
      obtain ⟨hfinding, hreg⟩ := ha.registry.expire hboxed hboxed' hmem ms
      have hthere := ha.withRegistry hreg (h.registry.sameTerms_expire c.ticket ms)
      refine ⟨by simp [isStale, hc'], ?_⟩
      simp only [Pool.apply, hfinding, keyOf, hc, hc']
      exact hthere.settle _ _
  | abandon t =>
    cases hc : h.registry.caller? t with
    | none => simp [isStale, hc] at ht
    | some c =>
      have hc' := ha.registry.caller? hboxed' hc
      obtain ⟨hmem, rfl⟩ := Registry.mem_of_caller? hc
      have hreg := ha.registry.abandon hboxed hboxed' hmem
      refine ⟨?_, rfl, ha.withRegistry hreg (h.registry.sameTerms_abandon c.ticket)⟩
      simpa [isStale, hc, hc', ha.registry.terms.2] using ht
  | release n =>
    obtain ⟨x, hx, hg⟩ := hs.handle_of_timely ht
    have hx' := ha.handle? hs' hx hg
    exact ⟨by simp [isStale, hx', hg, ha.registry.terms.2], rfl, ha.release hs hs' hx hg⟩
  | drop n =>
    obtain ⟨x, hx, hg⟩ := hs.handle_of_timely ht
    have hx' := ha.handle? hs' hx hg
    exact ⟨by simp [isStale, hx', hg, ha.registry.terms.2], rfl,
      (ha.release hs hs' hx hg).without n⟩
  | resetGeneration =>
    have hreg := ha.registry.resetGeneration hs.registry hs'.registry
    have hnext := hs.registry.generation_resetGeneration
    refine ⟨rfl, ?_, ha.nextGeneration hs hs' hreg hnext⟩
    simp only [Pool.apply, hreg.terms.2]
  | clearWaiters key =>
    obtain ⟨hcount, hreg⟩ := ha.registry.clearWaiters hboxed' key
    refine ⟨rfl, ?_, ha.withRegistry hreg (h.registry.sameTerms_clearWaiters key)⟩
    simp only [Pool.apply, hcount]
  | dispose =>
    have hreg := ha.registry.dispose hs.registry hs'.registry
    exact ⟨rfl, rfl, ha.nextGeneration hs hs' hreg rfl⟩

/-- A caller with a stale grant goes away, and nobody else is concerned. -/
theorem dismiss_stale (hs : h.Sound) {c : Caller} (hc : c ∈ h.registry.callers)
    (hstale : c.isStale h.registry.generation = true) :
    Alike { h with registry := h.registry.dismiss c.ticket } h' := by
  refine ⟨⟨ha.registry.terms, ha.registry.nextTicket, ha.registry.lanes, ?_, fun d hd => ?_⟩,
    ha.nextHandle, ha.current⟩
  · have hkept : h.registry.fresh.filter (fun d => d.ticket ≠ c.ticket) = h.registry.fresh := by
      refine List.filter_eq_self.2 fun d hd => decide_eq_true fun ht => ?_
      obtain ⟨hd, hfresh⟩ := List.mem_filter.1 hd
      rw [hs.registry.boxed.caller_unique hd hc ht, hstale] at hfresh
      cases hfresh
    rw [ha.registry.fresh, ← hkept]
    exact List.filter_comm _ _ _
  · exact ha.registry.there d (List.mem_of_mem_filter hd)

/-- A handle of an earlier generation is released, and nobody else is concerned. -/
theorem release_stale (hs : h.Sound) {n : Nat}
    (ht : (h.handle? n).all (fun x => x.generation < h.registry.generation) = true) :
    Alike (h.release n) h' := by
  have hregistry := registry_release_stale ht
  refine ⟨by rw [hregistry]; exact ha.registry, by rw [nextHandle_release]; exact ha.nextHandle, ?_⟩
  rw [ha.current, Pool.current, Pool.current, hregistry, handles_release hs, filter_mark]
  refine ((List.map_congr_left fun x hx => ?_).trans (List.map_id _)).symm
  exact if_neg (hs.number_ne_of_stale ht x hx)

theorem drop_stale (hs : h.Sound) {n : Nat}
    (ht : (h.handle? n).all (fun x => x.generation < h.registry.generation) = true) :
    Alike (h.apply (.drop n)).1 h' := by
  have hregistry : (h.apply (.drop n)).1.registry = h.registry := registry_release_stale ht
  have hnext : (h.apply (.drop n)).1.nextHandle = h.nextHandle := nextHandle_release h n
  refine ⟨by rw [hregistry]; exact ha.registry, by rw [hnext]; exact ha.nextHandle, ?_⟩
  rw [ha.current, Pool.current, Pool.current, hregistry, handles_drop hs, List.filter_comm]
  exact (List.filter_eq_self.2 fun x hx =>
    decide_eq_true (hs.number_ne_of_stale ht x hx)).symm

/-- A stale operation on the one side only. -/
theorem apply_stale (hs : h.Sound) {op : Op} (ht : h.isStale op = true) :
    Alike (h.apply op).1 h' := by
  cases op with
  | acquire key => simp [isStale] at ht
  | collect t =>
    have hnone : h.registry.caller? t = none := by simpa [isStale] using ht
    simp only [Pool.apply, Registry.collect, hnone]
    exact ha
  | expire t ms =>
    have hnone : h.registry.caller? t = none := by simpa [isStale] using ht
    simp only [Pool.apply, Registry.expire, hnone]
    exact ha
  | abandon t =>
    show Alike { h with registry := h.registry.abandon t } h'
    cases hc : h.registry.caller? t with
    | none =>
      rw [Registry.abandon, hc]
      exact ha
    | some c =>
      obtain ⟨hmem, rfl⟩ := Registry.mem_of_caller? hc
      have hstale : c.isStale h.registry.generation = true := by simpa [isStale, hc] using ht
      have hgone : h.registry.abandon c.ticket = h.registry.dismiss c.ticket := by
        rw [Registry.abandon_eq hs.registry.boxed hmem]
        unfold Caller.isStale at hstale
        split at hstale
        · rename_i g hl
          rw [hl]
          exact Registry.release_stale c.key (Nat.ne_of_lt (of_decide_eq_true hstale))
        · cases hstale
      rw [hgone]
      exact ha.dismiss_stale hs hmem hstale
  | release n => exact ha.release_stale hs ht
  | drop n => exact ha.drop_stale hs ht
  | resetGeneration => simp [isStale] at ht
  | clearWaiters key => simp [isStale] at ht
  | dispose => simp [isStale] at ht

/-- A run gives the answers of its timely operations, as if there were no others. -/
theorem answers (hs : h.Sound) (hs' : h'.Sound) (ops : List Op) :
    h'.answers (h.timely ops) = h.answers ops := by
  induction ops generalizing h h' with
  | nil => rfl
  | cons op ops ih =>
    cases ht : h.isStale op with
    | true =>
      have hlater := ih (ha.apply_stale hs ht) (hs.apply op) hs'
      simpa [timely, Pool.answers, ht] using hlater
    | false =>
      obtain ⟨ht', hreply, hnext⟩ := ha.apply hs hs' ht
      have hlater := ih hnext (hs.apply op) (hs'.apply op)
      simp [timely, Pool.answers, ht, ht', hreply, hnext.view, hlater]

end Alike

end Pool

end TurnEngine.Lane
