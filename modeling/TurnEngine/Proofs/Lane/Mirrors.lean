import TurnEngine.Proofs.Lane.Run

/-!
# One key of two registries

All keys of a registry share its generation and its counter of tickets, so the callers of a key get
other tickets when other keys have less traffic. `Mirrors key ρ r r'` says that the registries `r`
and `r'` are the same as far as `key` goes, once the tickets of its callers in `r` are renamed
by `ρ`; what `r'` has on other keys is not asked.

An operation on another key spares this one (`Spares`), which is all that `Mirrors.spare` needs. An
operation on the key, or on all keys, is done on both sides and leaves them as alike as before
(`Mirrors.acquire` to `Mirrors.dispose`); a caller that comes to wait gets one more pair of tickets
into the renaming.
-/

namespace TurnEngine.Lane

/-- The same caller under another ticket. -/
def Caller.rename (ρ : Nat → Nat) (c : Caller) : Caller :=
  { c with ticket := ρ c.ticket }

/-- The same slots with other tickets in the queue. -/
def Slots.rename (ρ : Nat → Nat) (s : Slots) : Slots :=
  { s with queue := s.queue.map ρ }

/-- A ticket that is told apart from all others leaves a queue under its new number as well. -/
theorem erase_map {ρ : Nat → Nat} {t : Nat} :
    ∀ {ts : List Nat}, (∀ u ∈ ts, ρ u = ρ t → u = t) → (ts.map ρ).erase (ρ t) = (ts.erase t).map ρ
  | [], _ => rfl
  | u :: ts, h => by
    obtain ⟨hu, hts⟩ := List.forall_mem_cons.1 h
    by_cases he : u = t
    · subst he
      rw [List.map_cons, List.erase_cons_head, List.erase_cons_head]
    · have hne : ρ u ≠ ρ t := fun hρ => he (hu hρ)
      rw [List.map_cons, List.erase_cons_tail (by simpa using hne),
        List.erase_cons_tail (by simpa using he), List.map_cons, erase_map hts]

theorem Slots.isIdle_rename (ρ : Nat → Nat) (s : Slots) : (s.rename ρ).isIdle = s.isIdle := by
  unfold isIdle rename
  rw [List.isEmpty_map]

theorem Slots.regranted_rename (ρ : Nat → Nat) (limit : Nat) (s : Slots) :
    (s.rename ρ).regranted limit = (s.regranted limit).rename ρ := by
  simp [regranted, rename, List.map_drop]

namespace Registry

/-! ## Other keys -/

/-- What an operation on another key leaves of a key: its slots, and no callers but those that were
there. -/
structure Spares (key : String) (r r' : Registry) : Prop where
  terms : r.SameTerms r'
  slots : r'.slots key = r.slots key
  callers : ∀ c ∈ r'.callers, c.key = key → c ∈ r.callers

variable {r r' : Registry} {key k : String}

theorem Spares.refl (r : Registry) (key : String) : Spares key r r :=
  ⟨⟨rfl, rfl⟩, rfl, fun _ hc _ => hc⟩

theorem Spares.trans {r'' : Registry} (h : Spares key r r') (h' : Spares key r' r'') :
    Spares key r r'' where
  terms := ⟨h'.terms.1.trans h.terms.1, h'.terms.2.trans h.terms.2⟩
  slots := h'.slots.trans h.slots
  callers := fun c hc hk => h.callers c (h'.callers c hc hk) hk

theorem spares_dismiss (r : Registry) (key : String) (t : Nat) : Spares key r (r.dismiss t) :=
  ⟨⟨rfl, rfl⟩, rfl, fun _ hc _ => List.mem_of_mem_filter hc⟩

section
variable (hne : k ≠ key)
include hne

theorem spares_put (r : Registry) (s : Slots) : Spares key r (r.put k s) :=
  ⟨⟨rfl, rfl⟩, (slots_put r k key s).trans (if_neg hne.symm), fun _ hc _ => hc⟩

/-- Letters to waiters of the other key. -/
theorem spares_post (hr : r.Boxed) {ts : List Nat} (hts : ∀ t ∈ ts, t ∈ (r.slots k).queue)
    (letter : Letter) (s : Slots) :
    Spares key r { r.put k s with callers := postAll r.callers ts letter } := by
  refine ⟨⟨rfl, rfl⟩, (slots_put r k key s).trans (if_neg hne.symm), fun c hc hk => ?_⟩
  obtain ⟨hc, -⟩ | ⟨d, hd, ht, rfl⟩ := mem_postAll.1 hc
  · exact hc
  · exact absurd (((hr.mem_queue_iff hd k).1 (hts _ ht)).1.symm.trans hk) hne

theorem spares_acquire (r : Registry) : Spares key r (r.acquire k).1 := by
  obtain ⟨-, -, he⟩ | ⟨-, -, he⟩ | ⟨-, -, he⟩ := acquire_cases r k <;> rw [he]
  · exact spares_put hne r _
  · exact .refl r key
  · have hput := spares_put hne r { r.slots k with queue := (r.slots k).queue ++ [r.nextTicket] }
    refine ⟨hput.terms, hput.slots, fun c hc hk => ?_⟩
    obtain hc | hc := List.mem_append.1 hc
    · exact hc
    · rw [List.mem_singleton.1 hc] at hk
      exact absurd hk hne

theorem spares_release (hr : r.Boxed) (generation : Nat) :
    Spares key r (r.release k generation) := by
  by_cases hg : generation = r.generation
  · subst hg
    cases hs : r.lanes.get? k with
    | none =>
      rw [release, hs, ite_self]
      exact .refl r key
    | some s =>
      rw [release_of_get? hr hs]
      cases hq : s.queue with
      | nil => exact spares_put hne r _
      | cons t queue =>
        refine spares_post hne hr (fun u hu => ?_) _ _
        rw [List.mem_singleton.1 hu, Registry.slots, hs, Option.getD_some, hq]
        exact List.mem_cons_self
  · rw [release_stale k hg]
    exact .refl r key

theorem spares_clearWaiters (hr : r.Boxed) : Spares key r (r.clearWaiters k).1 := by
  unfold clearWaiters
  cases hs : r.lanes.get? k with
  | none => exact .refl r key
  | some s =>
    dsimp only
    rw [rejectAll_eq]
    refine spares_post hne hr (fun t ht => ?_) _ _
    rwa [Registry.slots, hs]

end

theorem spares_leave (r : Registry) {c : Caller} (hne : c.key ≠ key) : Spares key r (r.leave c) :=
  (spares_put hne r _).trans (spares_dismiss _ key c.ticket)

theorem spares_collect (hr : r.Boxed) {c : Caller} (hc : c ∈ r.callers) :
    Spares key r (r.collect c.ticket).1 := by
  rw [collect_eq hr hc]
  cases c.letter with
  | none => exact .refl r key
  | some letter => cases letter <;> exact spares_dismiss r key c.ticket

section
variable (hr : r.Boxed) {c : Caller} (hc : c ∈ r.callers) (hne : c.key ≠ key)
include hr hc hne

theorem spares_expire (waitedMs : Nat) : Spares key r (r.expire c.ticket waitedMs).1 := by
  rw [expire_eq hr hc]
  cases c.letter with
  | none => exact spares_leave r hne
  | some letter => cases letter <;> exact spares_dismiss r key c.ticket

theorem spares_abandon : Spares key r (r.abandon c.ticket) := by
  rw [abandon_eq hr hc]
  cases hl : c.letter with
  | none => exact spares_leave r hne
  | some letter =>
    have hdismiss := spares_dismiss r key c.ticket
    cases letter with
    | cleared => exact hdismiss
    | granted g =>
      exact hdismiss.trans (spares_release hne (hr.dismiss hc (by simp [hl])) g)

end

/-! ## The same key -/

/-- A caller is among the waiters that are chosen from every key if it is chosen from its own. -/
theorem Sound.mem_first_iff {held : String → Nat} (h : r.Sound held) (first : Slots → List Nat)
    (hfirst : ∀ s, ∀ t ∈ first s, t ∈ s.queue) {c : Caller} (hc : c ∈ r.callers) :
    c.ticket ∈ r.lanes.entries.flatMap (fun e => first e.2) ↔
      c.ticket ∈ first (r.slots c.key) := by
  rw [h.mem_queues_iff first hfirst]
  constructor
  · rintro ⟨k, ht⟩
    rw [((h.boxed.mem_queue_iff hc k).1 (hfirst _ _ ht)).1]
    exact ht
  · exact fun ht => ⟨c.key, ht⟩

/-- Two registries are the same on a key, up to tickets (module doc). -/
structure Mirrors (key : String) (ρ : Nat → Nat) (r r' : Registry) : Prop where
  terms : r.SameTerms r'
  slots : r'.slots key = (r.slots key).rename ρ
  callers : ∀ c ∈ r.callers, c.key = key → c.rename ρ ∈ r'.callers
  apart : ∀ c ∈ r.callers, ∀ d ∈ r.callers, c.key = key → d.key = key →
    ρ c.ticket = ρ d.ticket → c.ticket = d.ticket

namespace Mirrors

variable {ρ : Nat → Nat} {r₁ : Registry} (h : Mirrors key ρ r r')
include h

theorem spare (hs : Spares key r r₁) : Mirrors key ρ r₁ r' where
  terms := ⟨h.terms.1.trans hs.terms.1.symm, h.terms.2.trans hs.terms.2.symm⟩
  slots := by rw [h.slots, hs.slots]
  callers := fun c hc hk => h.callers c (hs.callers c hc hk) hk
  apart := fun c hc d hd hck hdk =>
    h.apart c (hs.callers c hc hck) d (hs.callers d hd hdk) hck hdk

theorem limit : r'.limit = r.limit := by
  rw [Registry.limit, Registry.limit, h.terms.1]

theorem occupancy : r'.occupancy key = r.occupancy key := by
  rw [Registry.occupancy, h.slots]
  rfl

theorem queued : r'.queued key = r.queued key := by
  rw [Registry.queued, h.slots]
  exact List.length_map ρ

/-! ### The parts of an operation -/

theorem put (s : Slots) : Mirrors key ρ (r.put key s) (r'.put key (s.rename ρ)) := by
  refine ⟨h.terms, ?_, h.callers, h.apart⟩
  rw [slots_put, slots_put, if_pos rfl, if_pos rfl]

theorem dismiss {c : Caller} (hc : c ∈ r.callers) (hk : c.key = key) :
    Mirrors key ρ (r.dismiss c.ticket) (r'.dismiss (ρ c.ticket)) := by
  refine ⟨h.terms, h.slots, fun d hd hdk => ?_, fun d hd e he => ?_⟩
  · obtain ⟨hd, ht⟩ := List.mem_filter.1 hd
    refine List.mem_filter.2 ⟨h.callers d hd hdk, decide_eq_true fun he => ?_⟩
    exact of_decide_eq_true ht (h.apart d hd c hc hdk hk he)
  · exact h.apart d (List.mem_of_mem_filter hd) e (List.mem_of_mem_filter he)

/-- A caller of the key is among the waiters that some tickets belong to, on both sides or on
none. -/
theorem mem_iff (hr : r.Boxed) {ts : List Nat} (hts : ∀ t ∈ ts, t ∈ (r.slots key).queue)
    {c : Caller} (hc : c ∈ r.callers) (hk : c.key = key) :
    c.ticket ∈ ts ↔ ρ c.ticket ∈ ts.map ρ := by
  refine ⟨List.mem_map_of_mem, fun hmem => ?_⟩
  obtain ⟨t, ht, he⟩ := List.mem_map.1 hmem
  obtain ⟨d, hd, rfl, hdk, -⟩ := (hr.waits key t).1 (hts t ht)
  exact h.apart d hd c hc hdk hk he ▸ ht

/-- The same letter to the same callers. -/
theorem post {ts ts' : List Nat}
    (hts : ∀ c ∈ r.callers, c.key = key → (c.ticket ∈ ts ↔ ρ c.ticket ∈ ts')) (letter : Letter) :
    Mirrors key ρ { r with callers := postAll r.callers ts letter }
      { r' with callers := postAll r'.callers ts' letter } := by
  have hback {c : Caller} (hc : c ∈ postAll r.callers ts letter) (hk : c.key = key) :
      ∃ d ∈ r.callers, d.key = key ∧ d.ticket = c.ticket := by
    obtain ⟨hc, -⟩ | ⟨d, hd, -, rfl⟩ := mem_postAll.1 hc
    · exact ⟨c, hc, hk, rfl⟩
    · exact ⟨d, hd, hk, rfl⟩
  refine ⟨h.terms, h.slots, fun c hc hk => ?_, fun c hc d hd hck hdk he => ?_⟩
  · obtain ⟨hc, ht⟩ | ⟨d, hd, ht, rfl⟩ := mem_postAll.1 hc
    · exact mem_postAll.2 (.inl ⟨h.callers c hc hk, fun ht' => ht ((hts c hc hk).2 ht')⟩)
    · exact mem_postAll.2 (.inr ⟨d.rename ρ, h.callers d hd hk, (hts d hd hk).1 ht, rfl⟩)
  · obtain ⟨c', hc', hck', hct⟩ := hback hc hck
    obtain ⟨d', hd', hdk', hdt⟩ := hback hd hdk
    rw [← hct, ← hdt] at he ⊢
    exact h.apart c' hc' d' hd' hck' hdk' he

/-! ### Operations on the key -/

/-- A key has an entry on both sides or on none. -/
theorem get? (hr : r.Filed) (hr' : r'.Filed) :
    r'.lanes.get? key = (r.lanes.get? key).map (Slots.rename ρ) := by
  have hslots := h.slots
  unfold Registry.slots at hslots
  cases hs : r.lanes.get? key with
  | none =>
    cases hs' : r'.lanes.get? key with
    | none => rfl
    | some s' =>
      rw [hs, hs'] at hslots
      have hidle := hr'.kept key s' hs'
      rw [show s' = {} from hslots] at hidle
      cases hidle
  | some s =>
    rw [hs] at hslots
    cases hs' : r'.lanes.get? key with
    | none =>
      rw [hs'] at hslots
      have hidle := hr.kept key s hs
      rw [← Slots.isIdle_rename ρ, show s.rename ρ = {} from hslots.symm] at hidle
      cases hidle
    | some s' =>
      rw [hs'] at hslots
      exact congrArg some hslots

/-- Somebody comes to wait on both sides, and gets a ticket on each. -/
theorem enqueue (hr : r.Boxed) (hr' : r'.Boxed) :
    Mirrors key (Function.update ρ r.nextTicket r'.nextTicket) (r.enqueue key)
      (r'.enqueue key) := by
  have hold {t : Nat} (ht : t < r.nextTicket) :
      Function.update ρ r.nextTicket r'.nextTicket t = ρ t :=
    Function.update_of_ne (Nat.ne_of_lt ht) _ _
  -- the new ticket differs from all that the key's callers have on the other side
  have hfresh {c : Caller} (hc : c ∈ r.callers) (hk : c.key = key) : ρ c.ticket < r'.nextTicket :=
    hr'.issued _ (h.callers c hc hk)
  refine ⟨h.terms, ?_, fun c hc hk => ?_, fun c hc d hd hck hdk he => ?_⟩
  · rw [slots_enqueue, slots_enqueue, if_pos rfl, if_pos rfl, h.slots]
    unfold Slots.rename
    dsimp only
    rw [List.map_append, List.map_singleton, Function.update_self]
    congr 2
    refine List.map_congr_left fun t ht => ?_
    obtain ⟨c, hc, rfl, -⟩ := (hr.waits key t).1 ht
    exact (hold (hr.issued c hc)).symm
  · obtain hc | hc := List.mem_append.1 hc
    · refine List.mem_append_left _ ?_
      rw [Caller.rename, hold (hr.issued c hc)]
      exact h.callers c hc hk
    · rw [List.mem_singleton.1 hc, Caller.rename, Function.update_self]
      exact List.mem_append_right _ (List.mem_singleton_self _)
  · obtain hc | hc := List.mem_append.1 hc <;> obtain hd | hd := List.mem_append.1 hd
    · rw [hold (hr.issued c hc), hold (hr.issued d hd)] at he
      exact h.apart c hc d hd hck hdk he
    · rw [List.mem_singleton.1 hd, Function.update_self, hold (hr.issued c hc)] at he
      exact absurd he (Nat.ne_of_lt (hfresh hc hck))
    · rw [List.mem_singleton.1 hc, Function.update_self, hold (hr.issued d hd)] at he
      exact absurd he.symm (Nat.ne_of_lt (hfresh hd hdk))
    · rw [List.mem_singleton.1 hc, List.mem_singleton.1 hd]

/-- The key is asked for a slot: the answer is the same, but for the tickets of a caller that has to
wait. -/
theorem acquire : ((r'.acquire key).2 = (r.acquire key).2 ∧ (∀ t, (r.acquire key).2 ≠ .queued t) ∧
        Mirrors key ρ (r.acquire key).1 (r'.acquire key).1) ∨
      (r.acquire key = (r.enqueue key, .queued r.nextTicket) ∧
        r'.acquire key = (r'.enqueue key, .queued r'.nextTicket)) := by
  have hempty : (r'.slots key).queue = [] ↔ (r.slots key).queue = [] := by
    rw [h.slots]
    exact List.map_eq_nil_iff
  have hfree : r'.occupancy key < r'.limit ∧ (r'.slots key).queue = [] ↔
      r.occupancy key < r.limit ∧ (r.slots key).queue = [] := by
    rw [h.occupancy, h.limit, hempty]
  have hfull : r'.config.maxQueue.toNat ≤ r'.queued key ↔
      r.config.maxQueue.toNat ≤ r.queued key := by
    rw [h.queued, h.terms.1]
  obtain ⟨hlt, hq, he⟩ | ⟨hbusy, hwaiters, he⟩ | ⟨hbusy, hwaiters, he⟩ := acquire_cases r key
  · obtain ⟨-, -, he'⟩ | ⟨hbusy', -⟩ | ⟨hbusy', -⟩ := acquire_cases r' key
    · rw [he, he', h.terms.2, h.occupancy, h.slots]
      exact .inl ⟨rfl, nofun, h.put { r.slots key with active := r.occupancy key + 1 }⟩
    · exact absurd (hfree.2 ⟨hlt, hq⟩) hbusy'
    · exact absurd (hfree.2 ⟨hlt, hq⟩) hbusy'
  · obtain ⟨hlt', hq', -⟩ | ⟨-, -, he'⟩ | ⟨-, hwaiters', -⟩ := acquire_cases r' key
    · exact absurd (hfree.1 ⟨hlt', hq'⟩) hbusy
    · rw [he, he', h.terms.1]
      exact .inl ⟨rfl, nofun, h⟩
    · exact absurd (hfull.2 hwaiters) (Nat.not_le_of_lt hwaiters')
  · obtain ⟨hlt', hq', -⟩ | ⟨-, hwaiters', -⟩ | ⟨-, -, he'⟩ := acquire_cases r' key
    · exact absurd (hfree.1 ⟨hlt', hq'⟩) hbusy
    · exact absurd (hfull.1 hwaiters') (Nat.not_le_of_lt hwaiters)
    · exact .inr ⟨he, he'⟩

theorem handOver (hr : r.Boxed) {t : Nat} (ht : t ∈ (r.slots key).queue) (queue : List Nat) :
    Mirrors key ρ (r.handOver key t queue) (r'.handOver key (ρ t) (queue.map ρ)) := by
  have hts (u : Nat) (hu : u ∈ [t]) : u ∈ (r.slots key).queue := List.mem_singleton.1 hu ▸ ht
  have hpost := (h.put { r.slots key with queue }).post
    (fun c hc hk => h.mem_iff hr hts hc hk) (.granted r.generation)
  unfold Registry.handOver
  rw [h.slots, h.terms.2]
  exact hpost

theorem release (hr : r.Filed) (hr' : r'.Filed) (hb : r.Boxed) (hb' : r'.Boxed)
    (generation : Nat) :
    Mirrors key ρ (r.release key generation) (r'.release key generation) := by
  have hget := h.get? hr hr'
  by_cases hg : generation = r.generation
  · subst hg
    cases hs : r.lanes.get? key with
    | none =>
      rw [hs, Option.map_none] at hget
      rw [Registry.release, Registry.release, hs, hget, ite_self, ite_self]
      exact h
    | some s =>
      rw [hs, Option.map_some] at hget
      have heq := release_of_get? hb' hget
      rw [h.terms.2] at heq
      rw [release_of_get? hb hs, heq]
      cases hq : s.queue with
      | nil =>
        have hqueue : (s.rename ρ).queue = [] := by rw [Slots.rename, hq, List.map_nil]
        rw [hqueue]
        exact h.put ⟨s.active - 1, []⟩
      | cons t queue =>
        have hqueue : (s.rename ρ).queue = ρ t :: queue.map ρ := by
          rw [Slots.rename, hq, List.map_cons]
        have ht : t ∈ (r.slots key).queue := by
          rw [Registry.slots, hs, Option.getD_some, hq]
          exact List.mem_cons_self
        rw [hqueue]
        exact h.handOver hb ht queue
  · rw [release_stale key hg, release_stale key (h.terms.2 ▸ hg)]
    exact h

theorem clearWaiters (hr : r.Filed) (hr' : r'.Filed) (hb : r.Boxed) :
    (r'.clearWaiters key).2 = (r.clearWaiters key).2 ∧
      Mirrors key ρ (r.clearWaiters key).1 (r'.clearWaiters key).1 := by
  have hget := h.get? hr hr'
  unfold Registry.clearWaiters
  cases hs : r.lanes.get? key with
  | none =>
    rw [hs, Option.map_none] at hget
    rw [hget]
    exact ⟨rfl, h⟩
  | some s =>
    have hts (t : Nat) (ht : t ∈ s.queue) : t ∈ (r.slots key).queue := by
      rwa [Registry.slots, hs]
    rw [hs, Option.map_some] at hget
    rw [hget]
    simp only [rejectAll_eq]
    refine ⟨List.length_map ρ, ?_⟩
    exact (h.put { s with queue := [] }).post (fun c hc hk => h.mem_iff hb hts hc hk) .cleared

/-- A caller that waits goes away. -/
theorem leave (hb : r.Boxed) {c : Caller} (hc : c ∈ r.callers) (hk : c.key = key) :
    Mirrors key ρ (r.leave c) (r'.leave (c.rename ρ)) := by
  subst hk
  have hrename : { r'.slots c.key with queue := (r'.slots c.key).queue.erase (ρ c.ticket) } =
      Slots.rename ρ { r.slots c.key with queue := (r.slots c.key).queue.erase c.ticket } := by
    rw [h.slots]
    unfold Slots.rename
    dsimp only
    rw [erase_map fun t ht he => ?_]
    obtain ⟨d, hd, rfl, hdk, -⟩ := (hb.waits c.key t).1 ht
    exact h.apart d hd c hc hdk rfl he
  have hput := h.put { r.slots c.key with queue := (r.slots c.key).queue.erase c.ticket }
  rw [← hrename] at hput
  exact hput.dismiss hc rfl

section
variable (hb : r.Boxed) (hb' : r'.Boxed) {c : Caller} (hc : c ∈ r.callers) (hk : c.key = key)
include hb hb' hc hk

theorem collect : (r'.collect (ρ c.ticket)).2 = (r.collect c.ticket).2 ∧
    Mirrors key ρ (r.collect c.ticket).1 (r'.collect (ρ c.ticket)).1 := by
  have heq := collect_eq hb' (h.callers c hc hk)
  rw [collect_eq hb hc, show r'.collect (ρ c.ticket) = _ from heq]
  dsimp only [Caller.rename]
  cases c.letter with
  | none => exact ⟨rfl, h⟩
  | some letter => cases letter <;> exact ⟨rfl, h.dismiss hc hk⟩

theorem expire (waitedMs : Nat) :
    (r'.expire (ρ c.ticket) waitedMs).2 = (r.expire c.ticket waitedMs).2 ∧
      Mirrors key ρ (r.expire c.ticket waitedMs).1 (r'.expire (ρ c.ticket) waitedMs).1 := by
  have heq := expire_eq hb' (h.callers c hc hk) waitedMs
  have hleave := h.leave hb hc hk
  rw [expire_eq hb hc, show r'.expire (ρ c.ticket) waitedMs = _ from heq]
  dsimp only [Caller.rename] at hleave ⊢
  cases c.letter with
  | none => exact ⟨rfl, hleave⟩
  | some letter => cases letter <;> exact ⟨rfl, h.dismiss hc hk⟩

theorem abandon (hr : r.Filed) (hr' : r'.Filed) :
    Mirrors key ρ (r.abandon c.ticket) (r'.abandon (ρ c.ticket)) := by
  have heq := abandon_eq hb' (h.callers c hc hk)
  have hleave := h.leave hb hc hk
  have hdismiss := h.dismiss hc hk
  rw [abandon_eq hb hc, show r'.abandon (ρ c.ticket) = _ from heq]
  dsimp only [Caller.rename] at hleave ⊢
  cases hl : c.letter with
  | none => exact hleave
  | some letter =>
    have hletter : c.letter ≠ none := by simp [hl]
    cases letter with
    | cleared => exact hdismiss
    | granted g =>
      subst hk
      exact hdismiss.release ⟨hr.keys, hr.kept⟩ ⟨hr'.keys, hr'.kept⟩ (hb.dismiss hc hletter)
        (hb'.dismiss (h.callers c hc rfl) hletter) g

end

/-! ### Operations on all keys -/

section
variable {held held' : String → Nat} (hr : r.Sound held) (hr' : r'.Sound held')
include hr hr'

/-- A letter to some waiters of every key, those of a key by its slots alone. -/
theorem postFirst (first : Slots → List Nat) (hfirst : ∀ s, ∀ t ∈ first s, t ∈ s.queue)
    (hrename : first ((r.slots key).rename ρ) = (first (r.slots key)).map ρ) (letter : Letter) :
    Mirrors key ρ
      { r with callers := postAll r.callers (r.lanes.entries.flatMap fun e => first e.2) letter }
      { r' with
        callers := postAll r'.callers (r'.lanes.entries.flatMap fun e => first e.2) letter } := by
  refine h.post (fun c hc hk => ?_) letter
  subst hk
  have hmem' := hr'.mem_first_iff first hfirst (h.callers c hc rfl)
  dsimp only [Caller.rename] at hmem'
  rw [hr.mem_first_iff first hfirst hc, hmem', h.slots, hrename]
  exact h.mem_iff hr.boxed (hfirst _) hc rfl

theorem resetGeneration : Mirrors key ρ r.resetGeneration r'.resetGeneration := by
  have hpost := h.postFirst hr hr' (·.queue.take r.limit) (fun _ _ ht => List.mem_of_mem_take ht)
    (List.map_take ..).symm (.granted (r.generation + 1))
  have heq := resetGeneration_eq r hr.isListening_of_mem_entries
  have heq' := resetGeneration_eq r' hr'.isListening_of_mem_entries
  rw [h.limit, h.terms.2] at heq'
  refine ⟨⟨by rw [heq, heq']; exact h.terms.1, by rw [heq, heq']⟩, ?_, ?_, ?_⟩
  · rw [hr.slots_resetGeneration, hr'.slots_resetGeneration, h.slots, h.limit,
      Slots.regranted_rename]
  · rw [heq, heq']
    exact hpost.callers
  · rw [heq]
    exact hpost.apart

theorem dispose : Mirrors key ρ r.dispose r'.dispose := by
  have hpost := h.postFirst hr hr' (·.queue) (fun _ _ ht => ht) rfl .cleared
  rw [dispose_eq, dispose_eq, h.terms.2]
  exact ⟨⟨h.terms.1, rfl⟩, rfl, hpost.callers, hpost.apart⟩

end

end Mirrors

end Registry

end TurnEngine.Lane
