import TurnEngine.Proofs.Lane.Accounting
import TurnEngine.Proofs.Lane.Log

/-!
# The operations of a pool keep the rules

Every operation brings incidents by the rules (`Pool.incidents_pass`), and so does every run
(`Pool.log_passes`). What the rules ask of a grant, that it goes to whoever has waited longest, is
so because queues and callers stand in the order of their tickets (`Registry.Ordered`).
-/

namespace TurnEngine.Lane

/-! ## Mail -/

section
variable {cs : List Caller} (hn : (cs.map (·.ticket)).Nodup)
include hn

theorem boxed_of_mem {c : Caller} (hc : c ∈ cs) : boxed cs c.ticket = c.letter := by
  rw [boxed, Keyed.find?_of_mem hn hc]
  rfl

theorem mail_postAll {ts : List Nat} {letter : Letter}
    (hnone : ∀ c ∈ cs, c.ticket ∈ ts → c.letter = none) :
    mail cs (postAll cs ts letter) =
      (cs.filter fun c => c.ticket ∈ ts).map fun c => .sent c.ticket letter := by
  rw [← List.filterMap_eq_map, List.filterMap_filter, mail, postAll, List.filterMap_map]
  refine List.filterMap_congr fun c hc => ?_
  by_cases ht : c.ticket ∈ ts
  · simp [ht, boxed_of_mem hn hc, hnone c hc ht]
  · simp [ht, boxed_of_mem hn hc]

theorem mail_self : mail cs cs = [] := by
  refine List.filterMap_eq_nil_iff.2 fun c hc => ?_
  rw [if_pos (boxed_of_mem hn hc).symm]

/-- Somebody who enters has no mail. -/
theorem mail_concat {c : Caller} (hc : ∀ d ∈ cs, d.ticket ≠ c.ticket) (hl : c.letter = none) :
    mail cs (cs ++ [c]) = [] := by
  have hnone : boxed cs c.ticket = none := by
    rw [boxed, List.find?_eq_none.2 fun d hd => by simpa using hc d hd]
    rfl
  have hcs := mail_self hn
  unfold mail at hcs ⊢
  rw [List.filterMap_append, hcs]
  simp [hnone, hl]

end

/-- Whoever is gone has no mail. -/
theorem mail_remove {cs cs' : List Caller} {t : Nat} (h : ∀ c ∈ cs', c.ticket ≠ t) :
    mail (cs.filter fun c => c.ticket ≠ t) cs' = mail cs cs' := by
  refine List.filterMap_congr fun c hc => ?_
  have hsame : boxed (cs.filter fun c => c.ticket ≠ t) c.ticket = boxed cs c.ticket := by
    rw [boxed, boxed, List.find?_filter]
    congr 2
    funext d
    have := h c hc
    by_cases hd : d.ticket = c.ticket
    · simp [hd, this]
    · simp [hd]
  rw [hsame]

theorem mail_filter {cs : List Caller} (hn : (cs.map (·.ticket)).Nodup) (t : Nat) :
    mail cs (cs.filter fun c => c.ticket ≠ t) = [] := by
  rw [← mail_remove fun c hc => by simpa using (List.mem_filter.1 hc).2]
  exact mail_self (Keyed.nodup_remove hn t)

/-! ## Letters by the rules -/

/-- A letter to several callers passes if they are served in the order of their tickets, and a
grant leaves nobody out who has waited longer. -/
theorem Waiters.passes_sent {letter : Letter} :
    ∀ {us : List Nat} {r : Waiters}, us.Pairwise (· < ·) →
      (∀ u ∈ us, ∃ c ∈ r.callers, c.ticket = u ∧ c.letter = none) →
      (∀ g, letter = .granted g → ∀ c ∈ r.callers, c.ticket ∈ us → ∀ d ∈ r.callers,
        d.key = c.key → d.letter = none → d.ticket < c.ticket → d.ticket ∈ us) →
      r.Passes (us.map (.sent · letter)) { r with callers := postAll r.callers us letter }
  | [], r, _, _, _ => by
    rw [postAll_nil]
    exact .nil r
  | u :: us, r, hsorted, hwaits, holder => by
    obtain ⟨hu, hus⟩ := List.pairwise_cons.1 hsorted
    obtain ⟨c, hc, rfl, hl⟩ := hwaits u List.mem_cons_self
    have hne : ∀ v ∈ us, v ∉ [c.ticket] := fun v hv => by
      have := hu v hv
      simp
      omega
    have htakes : r.Takes (.sent c.ticket letter)
        { r with callers := postAll r.callers [c.ticket] letter } := by
      refine .sent hc hl letter fun g hg d hd hk hdl => Nat.le_of_not_lt fun hlt => ?_
      rcases List.mem_cons.1 (holder g hg c hc List.mem_cons_self d hd hk hdl hlt) with he | hmem
      · omega
      · have := hu _ hmem
        omega
    have hrest := passes_sent (r := { r with callers := postAll r.callers [c.ticket] letter }) hus
      (fun v hv => by
        obtain ⟨d, hd, rfl, hdl⟩ := hwaits v (List.mem_cons_of_mem _ hv)
        exact ⟨d, mem_postAll.2 (.inl ⟨hd, hne _ hv⟩), rfl, hdl⟩)
      (fun g hg d hd hdu e he hk hel hlt => by
        -- who still waits has waited before the letter to the first of them
        rcases mem_postAll.1 he with ⟨he, hec⟩ | ⟨e', -, -, rfl⟩
        · rcases mem_postAll.1 hd with ⟨hd, -⟩ | ⟨d', hd', hdc, rfl⟩
          · have := holder g hg d hd (List.mem_cons_of_mem _ hdu) e he hk hel hlt
            exact (List.mem_cons.1 this).resolve_left fun h => hec (by simp [h])
          · exact absurd hdc (hne _ hdu)
        · cases hel)
    have hall := Waiters.Passes.cons htakes hrest
    rw [postAll_append] at hall
    exact hall

/-! ## Registries in order -/

namespace Registry

/-- The callers of a registry, as the rules see them. -/
def waiters (r : Registry) : Waiters := ⟨r.nextTicket, r.callers⟩

/-- Callers and queues stand in the order of their tickets. -/
structure Ordered (r : Registry) : Prop where
  callers : (r.callers.map (·.ticket)).Pairwise (· < ·)
  queues : ∀ key, (r.slots key).queue.Pairwise (· < ·)

variable {r r' : Registry}

theorem Ordered.nodup (h : r.Ordered) : (r.callers.map (·.ticket)).Nodup :=
  h.callers.imp Nat.ne_of_lt

/-- Whoever leaves does not disturb the order. -/
theorem Ordered.sublist (h : r.Ordered)
    (hc : (r'.callers.map (·.ticket)).Sublist (r.callers.map (·.ticket)))
    (hq : ∀ key, (r'.slots key).queue.Sublist (r.slots key).queue) : r'.Ordered :=
  ⟨h.callers.sublist hc, fun key => (h.queues key).sublist (hq key)⟩

theorem Ordered.letters (h : r.Ordered) {ts : List Nat} {letter : Letter}
    (hc : r'.callers = postAll r.callers ts letter)
    (hq : ∀ key, (r'.slots key).queue.Sublist (r.slots key).queue) : r'.Ordered :=
  h.sublist (by rw [hc, map_ticket_postAll]) hq

theorem Ordered.enqueue (h : r.Ordered) (hb : r.Boxed) (key : String) :
    (r.enqueue key).Ordered := by
  refine ⟨?_, fun k => ?_⟩
  · show ((r.callers ++ [_]).map _).Pairwise _
    rw [List.map_append]
    refine List.pairwise_append.2 ⟨h.callers, List.pairwise_singleton _ _, fun t ht u hu => ?_⟩
    obtain ⟨c, hc, rfl⟩ := List.mem_map.1 ht
    obtain rfl : u = r.nextTicket := by simpa using hu
    exact hb.issued c hc
  · rw [slots_enqueue]
    split
    · refine List.pairwise_append.2 ⟨h.queues key, List.pairwise_singleton _ _, fun t ht u hu => ?_⟩
      obtain ⟨c, hc, rfl, -⟩ := (hb.waits key t).1 ht
      obtain rfl := List.mem_singleton.1 hu
      exact hb.issued c hc
    · exact h.queues k

/-- The letters of an operation pass if they go to waiting callers, and a grant leaves nobody out
who has waited longer for the same key. -/
theorem passes_letters (h : r.Ordered) {ts : List Nat} {letter : Letter}
    (hcallers : r'.callers = postAll r.callers ts letter) (hnext : r'.nextTicket = r.nextTicket)
    (hnone : ∀ c ∈ r.callers, c.ticket ∈ ts → c.letter = none)
    (holder : ∀ g, letter = .granted g → ∀ c ∈ r.callers, c.ticket ∈ ts → ∀ d ∈ r.callers,
      d.key = c.key → d.letter = none → d.ticket < c.ticket → d.ticket ∈ ts) :
    r.waiters.Passes (mail r.callers r'.callers) r'.waiters := by
  have hmem {c : Caller} (hc : c ∈ r.callers) :
      c.ticket ∈ ((r.callers.filter fun c => c.ticket ∈ ts).map (·.ticket)) ↔ c.ticket ∈ ts := by
    constructor
    · intro ht
      obtain ⟨d, hd, hdt⟩ := List.mem_map.1 ht
      simpa [hdt] using (List.mem_filter.1 hd).2
    · intro ht
      exact List.mem_map.2 ⟨c, List.mem_filter.2 ⟨hc, by simpa using ht⟩, rfl⟩
  have hpost : postAll r.callers ((r.callers.filter fun c => c.ticket ∈ ts).map (·.ticket)) letter =
      postAll r.callers ts letter :=
    List.map_congr_left fun c hc => by simp only [hmem hc]
  have hwaiters : r'.waiters = { r.waiters with
      callers := postAll r.callers ((r.callers.filter fun c => c.ticket ∈ ts).map (·.ticket))
        letter } := by
    rw [hpost, ← hcallers]
    exact congrArg (Waiters.mk · r'.callers) hnext
  rw [hwaiters, hcallers, mail_postAll h.nodup hnone]
  have hsorted : ((r.callers.filter fun c => c.ticket ∈ ts).map (·.ticket)).Pairwise (· < ·) :=
    h.callers.sublist (List.filter_sublist.map _)
  have hpasses := Waiters.passes_sent (r := r.waiters) hsorted
    (fun u hu => by
      obtain ⟨c, hc, rfl⟩ := List.mem_map.1 hu
      obtain ⟨hc, ht⟩ := List.mem_filter.1 hc
      exact ⟨c, hc, rfl, hnone c hc (by simpa using ht)⟩)
    (fun g hg c hc ht d hd hk hl hlt =>
      (hmem hd).2 (holder g hg c hc ((hmem hc).1 ht) d hd hk hl hlt))
  rwa [List.map_map] at hpasses

/-- Nothing befalls anybody. -/
theorem passes_same (h : r.Ordered) (hcallers : r'.callers = r.callers)
    (hnext : r'.nextTicket = r.nextTicket) :
    r.waiters.Passes (mail r.callers r'.callers) r'.waiters := by
  have hwaiters : r'.waiters = r.waiters := by rw [waiters, hcallers, hnext, waiters]
  rw [hwaiters, hcallers, mail_self h.nodup]
  exact .nil _

/-- Giving a slot back: the grant goes to whoever has waited longest. -/
theorem passes_release (hb : r.Boxed) (h : r.Ordered) {key : String} {generation : Nat}
    (hpos : generation = r.generation → 0 < r.occupancy key) :
    r.waiters.Passes (mail r.callers (r.release key generation).callers)
        (r.release key generation).waiters ∧
      (r.release key generation).Ordered := by
  by_cases hg : generation = r.generation
  · subst hg
    rcases release_cases hb (hpos rfl) with ⟨u, queue, hq, he⟩ | ⟨hq, he⟩ <;> rw [he]
    · have hu : u ∈ (r.slots key).queue := by rw [hq]; exact List.mem_cons_self
      have hfirst := (List.pairwise_cons.1 (hq ▸ h.queues key)).1
      have hcallers : (r.handOver key u queue).callers =
          postAll r.callers [u] (.granted r.generation) := rfl
      refine ⟨passes_letters h hcallers rfl (fun c hc ht => ?_)
        fun g hg c hc ht d hd hk hl hlt => ?_, h.letters hcallers fun k => ?_⟩
      · exact ((hb.mem_queue_iff hc key).1 (List.mem_singleton.1 ht ▸ hu)).2
      · -- nobody waits in front of the head of a queue
        obtain rfl := List.mem_singleton.1 ht
        have hck := ((hb.mem_queue_iff hc key).1 hu).1
        have hd := (hb.mem_queue_iff hd key).2 ⟨hk.trans hck, hl⟩
        rw [hq] at hd
        rcases List.mem_cons.1 hd with hd | hd
        · omega
        · have := hfirst _ hd
          omega
      · show ((r.put key { r.slots key with queue }).slots k).queue.Sublist _
        rw [slots_put]
        split
        · rename_i hk
          rw [hk, hq]
          exact List.sublist_cons_self _ _
        · exact List.Sublist.refl _
    · refine ⟨passes_same h rfl rfl, h.sublist (List.Sublist.refl _) fun k => ?_⟩
      rw [slots_put]
      split
      · exact List.nil_sublist _
      · exact List.Sublist.refl _
  · rw [release_stale key hg]
    exact ⟨passes_same h rfl rfl, h⟩

theorem map_ticket_release (hb : r.Boxed) {key : String} {generation : Nat}
    (hpos : generation = r.generation → 0 < r.occupancy key) :
    (r.release key generation).callers.map (·.ticket) = r.callers.map (·.ticket) := by
  by_cases hg : generation = r.generation
  · subst hg
    rcases release_cases hb (hpos rfl) with ⟨u, queue, -, he⟩ | ⟨-, he⟩ <;> rw [he]
    · exact map_ticket_postAll _ _ _
    · rfl
  · rw [release_stale key hg]

/-- Nobody comes back when a slot is given back. -/
theorem absent_release (hb : r.Boxed) {key : String} {generation t : Nat}
    (hpos : generation = r.generation → 0 < r.occupancy key) (ht : ∀ c ∈ r.callers, c.ticket ≠ t) :
    ∀ c ∈ (r.release key generation).callers, c.ticket ≠ t := by
  intro c hc
  have hmem : c.ticket ∈ r.callers.map (·.ticket) := by
    rw [← map_ticket_release hb hpos]
    exact List.mem_map_of_mem hc
  obtain ⟨d, hd, hdc⟩ := List.mem_map.1 hmem
  rw [← hdc]
  exact ht d hd

theorem absent_dismiss (r : Registry) (t : Nat) : ∀ c ∈ (r.dismiss t).callers, c.ticket ≠ t :=
  fun c hc => by simpa using (List.mem_filter.1 hc).2

/-- Of a queue in order, whoever stands before one of the first is one of them. -/
theorem mem_take_of_lt {ts : List Nat} (hs : ts.Pairwise (· < ·)) {n t u : Nat} (ht : t ∈ ts.take n)
    (hu : u ∈ ts) (hlt : u < t) : u ∈ ts.take n := by
  rw [← List.take_append_drop n ts] at hu hs
  rcases List.mem_append.1 hu with hu | hu
  · exact hu
  · have := (List.pairwise_append.1 hs).2.2 t ht u hu
    omega

variable {held : String → Nat}

theorem passes_resetGeneration (hs : r.Sound held) (h : r.Ordered) :
    r.waiters.Passes (mail r.callers r.resetGeneration.callers) r.resetGeneration.waiters ∧
      r.resetGeneration.Ordered := by
  have hnext : r.resetGeneration.nextTicket = r.nextTicket := by
    rw [resetGeneration_eq r hs.isListening_of_mem_entries]
  obtain ⟨ts, hcallers, hwaits, hfirst⟩ := hs.granted_resetGeneration
  have hwaiting {c : Caller} (hc : c ∈ r.callers) (ht : c.ticket ∈ ts) :
      c.ticket ∈ (r.slots c.key).queue := by
    obtain ⟨k, hk⟩ := hwaits _ ht
    rwa [((hs.boxed.mem_queue_iff hc k).1 hk).1]
  refine ⟨passes_letters h hcallers hnext (fun c hc ht => ?_)
    fun g _ c hc ht d hd hk hl hlt => ?_, h.letters hcallers fun key => ?_⟩
  · exact ((hs.boxed.mem_queue_iff hc c.key).1 (hwaiting hc ht)).2
  · have hd := (hs.boxed.mem_queue_iff hd c.key).2 ⟨hk, hl⟩
    have hc := (hfirst c.key c.ticket).2 ⟨ht, hwaiting hc ht⟩
    exact ((hfirst c.key d.ticket).1 (mem_take_of_lt (h.queues c.key) hc hd hlt)).1
  · rw [hs.slots_resetGeneration]
    exact List.drop_sublist _ _

theorem passes_clearWaiters (hs : r.Sound held) (h : r.Ordered) (key : String) :
    r.waiters.Passes (mail r.callers (r.clearWaiters key).1.callers)
        (r.clearWaiters key).1.waiters ∧
      (r.clearWaiters key).1.Ordered := by
  unfold clearWaiters
  cases hk : r.lanes.get? key with
  | none => exact ⟨passes_same h rfl rfl, h⟩
  | some s =>
    have hslots : r.slots key = s := by rw [slots, hk]; rfl
    have hcallers : ({ r.put key { s with queue := [] } with
        callers := rejectAll r.callers s.queue } : Registry).callers =
          postAll r.callers s.queue .cleared := rejectAll_eq r.callers s.queue
    refine ⟨passes_letters h hcallers rfl (fun c hc ht => ?_) (fun g hg => by cases hg),
      h.letters hcallers fun k => ?_⟩
    · exact ((hs.boxed.mem_queue_iff hc key).1 (hslots ▸ ht)).2
    · show ((r.put key { s with queue := [] }).slots k).queue.Sublist _
      rw [slots_put]
      split
      · exact List.nil_sublist _
      · exact List.Sublist.refl _

theorem passes_dispose (hs : r.Sound held) (h : r.Ordered) :
    r.waiters.Passes (mail r.callers r.dispose.callers) r.dispose.waiters ∧ r.dispose.Ordered := by
  rw [dispose_eq]
  refine ⟨passes_letters h rfl rfl (fun c hc ht => ?_) (fun g hg => by cases hg),
    h.letters rfl fun key => List.nil_sublist _⟩
  obtain ⟨k, hk⟩ := (hs.mem_queues_iff (·.queue) fun _ _ ht => ht).1 ht
  exact ((hs.boxed.mem_queue_iff hc k).1 hk).2

/-- A caller goes away. -/
theorem Ordered.leave (h : r.Ordered) (c : Caller) : (r.leave c).Ordered := by
  refine h.sublist (List.filter_sublist.map _) fun k => ?_
  show ((r.put c.key _).slots k).queue.Sublist _
  rw [slots_put]
  split
  · rename_i hk
    rw [hk]
    exact List.erase_sublist
  · exact List.Sublist.refl _

theorem Ordered.dismiss (h : r.Ordered) (t : Nat) : (r.dismiss t).Ordered :=
  h.sublist (List.filter_sublist.map _) fun _ => List.Sublist.refl _

/-- The end of a wait passes, with the letter in the box it ends with. -/
theorem passes_ended (h : r.Ordered) {c : Caller} (hc : c ∈ r.callers) {e : Ending}
    (he : Fits c.key c.letter e)
    (hcallers : r'.callers = r.callers.filter fun d => d.ticket ≠ c.ticket)
    (hnext : r'.nextTicket = r.nextTicket) :
    r.waiters.Passes (.ended c.ticket e :: mail r.callers r'.callers) r'.waiters := by
  have hwaiters : r'.waiters =
      { r.waiters with callers := r.callers.filter fun d => d.ticket ≠ c.ticket } := by
    rw [waiters, hcallers, hnext]
    rfl
  rw [hwaiters, hcallers, mail_filter h.nodup]
  exact (Waiters.Takes.ended (r := r.waiters) hc he).passes

end Registry

/-! ## Every operation -/

namespace Pool

variable {h : Pool}

/-- Without a caller nothing is found. -/
theorem apply_collect_absent {t : Nat} (hc : h.registry.caller? t = none) :
    h.apply (.collect t) = (h, .waiting) := by
  simp only [apply, Registry.collect, hc]
  rfl

theorem apply_expire_absent {t : Nat} (hc : h.registry.caller? t = none) (waitedMs : Nat) :
    h.apply (.expire t waitedMs) = (h, .waiting) := by
  simp only [apply, Registry.expire, hc]
  rfl

theorem apply_abandon_absent {t : Nat} (hc : h.registry.caller? t = none) :
    h.apply (.abandon t) = (h, .nothing) := by
  simp only [apply, Registry.abandon, hc]

section
variable (hs : h.Sound) {c : Caller} (hc : c ∈ h.registry.callers)
include hs hc

/-- A caller that looks into its box. -/
theorem apply_collect : h.apply (.collect c.ticket) =
    match c.letter with
    | some (.granted generation) =>
      Pool.issue { h with registry := h.registry.dismiss c.ticket } c.key generation
    | some .cleared =>
      ({ h with registry := h.registry.dismiss c.ticket }, .failed (.laneCleared c.key))
    | none => (h, .waiting) := by
  simp only [apply, keyOf, hs.registry.boxed.caller?_of_mem hc,
    Registry.collect_eq hs.registry.boxed hc]
  rcases c.letter with _ | _ | _ <;> rfl

/-- A caller whose time is up. -/
theorem apply_expire (waitedMs : Nat) : h.apply (.expire c.ticket waitedMs) =
    match c.letter with
    | some (.granted generation) =>
      Pool.issue { h with registry := h.registry.dismiss c.ticket } c.key generation
    | some .cleared =>
      ({ h with registry := h.registry.dismiss c.ticket }, .failed (.laneCleared c.key))
    | none =>
      ({ h with registry := h.registry.leave c }, .failed (.laneTimeout c.key waitedMs)) := by
  simp only [apply, keyOf, hs.registry.boxed.caller?_of_mem hc,
    Registry.expire_eq hs.registry.boxed hc]
  rcases c.letter with _ | _ | _ <;> rfl

end

/-- The incidents of an operation pass, and the registry stays in order. -/
def Passes (h : Pool) (op : Op) : Prop :=
  h.registry.waiters.Passes (h.incidents op) (h.apply op).1.registry.waiters ∧
    (h.apply op).1.registry.Ordered

theorem passes_acquire (hs : h.Sound) (ho : h.registry.Ordered) (key : String) :
    h.Passes (.acquire key) := by
  have hb := hs.registry.boxed
  unfold Passes incidents
  rcases h.registry.acquire_cases key with ⟨-, hq, he⟩ | ⟨-, -, he⟩ | ⟨-, -, he⟩ <;>
    simp only [apply, he]
  · refine ⟨Registry.passes_same ho rfl rfl, ho.sublist (List.Sublist.refl _) fun k => ?_⟩
    show ((h.registry.put key _).slots k).queue.Sublist _
    rw [Registry.slots_put]
    split
    · rename_i hk
      rw [hk]
    · exact List.Sublist.refl _
  · exact ⟨Registry.passes_same ho rfl rfl, ho⟩
  · have hmail : mail h.registry.callers (h.registry.enqueue key).callers = [] :=
      mail_concat ho.nodup (fun d hd => Nat.ne_of_lt (hb.issued d hd)) rfl
    rw [hmail]
    exact ⟨(Waiters.Takes.enqueued h.registry.waiters key).passes, ho.enqueue hb key⟩

theorem passes_collect (hs : h.Sound) (ho : h.registry.Ordered) (t : Nat) :
    h.Passes (.collect t) := by
  unfold Passes incidents
  cases hc : h.registry.caller? t with
  | none =>
    rw [apply_collect_absent hc]
    exact ⟨Registry.passes_same ho rfl rfl, ho⟩
  | some c =>
    obtain ⟨hmem, rfl⟩ := Registry.mem_of_caller? hc
    rw [apply_collect hs hmem]
    rcases hl : c.letter with _ | g | _
    · exact ⟨Registry.passes_same ho rfl rfl, ho⟩
    · have hfits := Fits.admitted (x := ⟨h.nextHandle, c.key, g, false⟩) rfl rfl rfl
      exact ⟨Registry.passes_ended ho hmem (hl ▸ hfits) rfl rfl, ho.dismiss c.ticket⟩
    · exact ⟨Registry.passes_ended ho hmem (hl ▸ Fits.cleared) rfl rfl, ho.dismiss c.ticket⟩

theorem passes_expire (hs : h.Sound) (ho : h.registry.Ordered) (t waitedMs : Nat) :
    h.Passes (.expire t waitedMs) := by
  unfold Passes incidents
  cases hc : h.registry.caller? t with
  | none =>
    rw [apply_expire_absent hc]
    exact ⟨Registry.passes_same ho rfl rfl, ho⟩
  | some c =>
    obtain ⟨hmem, rfl⟩ := Registry.mem_of_caller? hc
    rw [apply_expire hs hmem]
    rcases hl : c.letter with _ | g | _
    · have hfits : Fits c.key none (.failed (.laneTimeout c.key waitedMs)) := .timedOut waitedMs
      exact ⟨Registry.passes_ended ho hmem (hl ▸ hfits) rfl rfl, ho.leave c⟩
    · have hfits := Fits.admitted (x := ⟨h.nextHandle, c.key, g, false⟩) rfl rfl rfl
      exact ⟨Registry.passes_ended ho hmem (hl ▸ hfits) rfl rfl, ho.dismiss c.ticket⟩
    · exact ⟨Registry.passes_ended ho hmem (hl ▸ Fits.cleared) rfl rfl, ho.dismiss c.ticket⟩

theorem told_abandon {c : Caller} (hc : c ∈ h.registry.callers) (reply : Reply) :
    h.told (.abandon c.ticket) reply = [.ended c.ticket .dropped] := by
  have hlistens := isListening_iff.2 ⟨c, hc, rfl⟩
  cases reply <;> exact if_pos hlistens

theorem passes_abandon (hs : h.Sound) (ho : h.registry.Ordered) (t : Nat) :
    h.Passes (.abandon t) := by
  unfold Passes incidents
  cases hc : h.registry.caller? t with
  | none =>
    have hgone : ¬isListening h.registry.callers t = true := fun hl => by
      obtain ⟨c, hmem, hct⟩ := isListening_iff.1 hl
      simpa [hct] using List.find?_eq_none.1 hc c hmem
    rw [apply_abandon_absent hc, told, if_neg hgone]
    exact ⟨Registry.passes_same ho rfl rfl, ho⟩
  | some c =>
    obtain ⟨hmem, rfl⟩ := Registry.mem_of_caller? hc
    simp only [apply]
    rw [told_abandon hmem, Registry.abandon_eq hs.registry.boxed hmem, List.singleton_append]
    cases hl : c.letter with
    | none => exact ⟨Registry.passes_ended ho hmem (.dropped _) rfl rfl, ho.leave c⟩
    | some letter =>
      cases letter with
      | cleared =>
        exact ⟨Registry.passes_ended ho hmem (.dropped _) rfl rfl, ho.dismiss c.ticket⟩
      | granted g =>
        -- the caller goes first, and the slot goes to the next one then
        obtain ⟨-, hboxed, hpos⟩ := hs.gives_abandon hmem hl
        obtain ⟨hpasses, hordered⟩ :=
          Registry.passes_release hboxed (ho.dismiss c.ticket) fun hg => hpos hg
        have hgone := Registry.absent_release hboxed (fun hg => hpos hg)
          (h.registry.absent_dismiss c.ticket)
        have hmail : mail (h.registry.dismiss c.ticket).callers _ = mail h.registry.callers _ :=
          mail_remove hgone
        refine ⟨.cons (.ended (r := h.registry.waiters) hmem (.dropped _)) ?_, hordered⟩
        rw [← hmail]
        exact hpasses

theorem passes_release (hs : h.Sound) (ho : h.registry.Ordered) (n : Nat) :
    h.registry.waiters.Passes (mail h.registry.callers (h.release n).registry.callers)
        (h.release n).registry.waiters ∧
      (h.release n).registry.Ordered := by
  cases hx : h.handle? n with
  | none =>
    rw [Pool.release, hx]
    exact ⟨Registry.passes_same ho rfl rfl, ho⟩
  | some x =>
    by_cases hrel : x.released = true
    · rw [Pool.release, hx]
      dsimp only
      rw [if_pos hrel]
      exact ⟨Registry.passes_same ho rfl rfl, ho⟩
    · obtain ⟨he, hpos⟩ := hs.gives_release hx hrel
      rw [he]
      exact Registry.passes_release hs.registry.boxed ho hpos

/-- What befalls callers in an operation keeps the rules. -/
theorem incidents_pass (hs : h.Sound) (ho : h.registry.Ordered) (op : Op) : h.Passes op := by
  cases op with
  | acquire key => exact passes_acquire hs ho key
  | collect t => exact passes_collect hs ho t
  | expire t waitedMs => exact passes_expire hs ho t waitedMs
  | abandon t => exact passes_abandon hs ho t
  | release n => exact passes_release hs ho n
  | drop n => exact passes_release hs ho n
  | resetGeneration => exact Registry.passes_resetGeneration hs.registry ho
  | clearWaiters key => exact Registry.passes_clearWaiters hs.registry ho key
  | dispose => exact Registry.passes_dispose hs.registry ho

/-! ## Runs -/

theorem ordered_new (config : Config) : (new config).registry.Ordered :=
  ⟨List.Pairwise.nil, fun _ => List.Pairwise.nil⟩

theorem log_passes (hs : h.Sound) (ho : h.registry.Ordered) (ops : List Op) :
    h.registry.waiters.Passes (h.log ops) (h.run ops).registry.waiters := by
  induction ops generalizing h with
  | nil => exact .nil _
  | cons op ops ih =>
    obtain ⟨hpasses, hordered⟩ := incidents_pass hs ho op
    exact hpasses.append (ih (hs.apply op) hordered)

theorem ordered_run (hs : h.Sound) (ho : h.registry.Ordered) (ops : List Op) :
    (h.run ops).registry.Ordered := by
  induction ops generalizing h with
  | nil => exact ho
  | cons op ops ih => exact ih (hs.apply op) (incidents_pass hs ho op).2

/-- The log of a run from the beginning. -/
theorem recorded_run (config : Config) (ops : List Op) :
    Recorded ((new config).log ops) ((new config).run ops).registry.waiters :=
  recorded_nil.passes (log_passes (sound_new config) (ordered_new config) ops)

end Pool

end TurnEngine.Lane
