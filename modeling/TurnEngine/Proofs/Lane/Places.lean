import TurnEngine.Proofs.Lane.Rules

/-!
# Who waits where, and which handles are out

The places of a pool are the tickets of the callers that are there, each with its key. An operation
changes them just as it tells its caller (`Pool.places_apply`): letters to others move nobody.
Likewise for handles: one that is answered comes in (`Pool.apply_issues`), and one that is dropped
goes (`Pool.handles_drop`). Numbers are not given out twice, so that who is gone stays
gone (`Pool.run_later`).
-/

namespace TurnEngine.Lane

/-! ## Places -/

def placesOf (callers : List Caller) : List (Nat × String) :=
  callers.map fun c => (c.ticket, c.key)

/-- The places after an incident. -/
def Incident.places (ps : List (Nat × String)) : Incident → List (Nat × String)
  | .enqueued t key => ps ++ [(t, key)]
  | .sent .. => ps
  | .ended t _ => ps.filter fun p => p.1 ≠ t

theorem placesOf_filter (callers : List Caller) (t : Nat) :
    placesOf (callers.filter fun c => c.ticket ≠ t) =
      (placesOf callers).filter fun p => p.1 ≠ t := by
  simp [placesOf, List.filter_map, Function.comp_def]

theorem placesOf_postAll (callers : List Caller) (ts : List Nat) (letter : Letter) :
    placesOf (postAll callers ts letter) = placesOf callers := by
  unfold placesOf postAll
  rw [List.map_map]
  refine List.map_congr_left fun c _ => ?_
  simp only [Function.comp_apply]
  split <;> rfl

namespace Waiters

theorem Takes.places {r r' : Waiters} {i : Incident} (h : r.Takes i r') :
    placesOf r'.callers = i.places (placesOf r.callers) := by
  cases h with
  | enqueued key => simp [placesOf, Incident.places]
  | sent => exact placesOf_postAll _ _ _
  | ended => exact placesOf_filter _ _

theorem Passes.places {r r' : Waiters} {is : List Incident} (h : r.Passes is r') :
    placesOf r'.callers = is.foldl Incident.places (placesOf r.callers) := by
  induction h with
  | nil => rfl
  | cons hi _ ih => rw [List.foldl_cons, ih, hi.places]

/-- Whoever is gone stays gone. -/
theorem Passes.absent {r r' : Waiters} {is : List Incident} (h : r.Passes is r') :
    r.next ≤ r'.next ∧ ∀ t < r.next, (∀ c ∈ r.callers, c.ticket ≠ t) →
      ∀ c ∈ r'.callers, c.ticket ≠ t := by
  induction h with
  | nil => exact ⟨Nat.le_refl _, fun t _ habsent => habsent⟩
  | @cons r r' r'' i is hi _ ih =>
    have hone : r.next ≤ r'.next ∧ ∀ t < r.next, (∀ c ∈ r.callers, c.ticket ≠ t) →
        ∀ c ∈ r'.callers, c.ticket ≠ t := by
      cases hi with
      | enqueued key =>
        refine ⟨Nat.le_succ _, fun t ht habsent c hc => ?_⟩
        rcases List.mem_append.1 hc with hc | hc
        · exact habsent c hc
        · rw [List.mem_singleton.1 hc]
          exact Nat.ne_of_gt ht
      | sent =>
        refine ⟨Nat.le_refl _, fun t _ habsent c hc => ?_⟩
        rcases mem_postAll.1 hc with ⟨hc, -⟩ | ⟨d, hd, -, rfl⟩
        · exact habsent c hc
        · exact habsent d hd
      | ended =>
        exact ⟨Nat.le_refl _, fun t _ habsent c hc => habsent c (List.mem_of_mem_filter hc)⟩
    exact ⟨Nat.le_trans hone.1 ih.1,
      fun t ht habsent => ih.2 t (Nat.lt_of_lt_of_le ht hone.1) (hone.2 t ht habsent)⟩

end Waiters

theorem places_mail (before now : List Caller) (ps : List (Nat × String)) :
    (mail before now).foldl Incident.places ps = ps := by
  rw [mail, List.foldl_filterMap]
  refine List.foldl_fixed' (fun c => ?_) now
  split
  · rename_i i hi
    split at hi
    · cases hi
    · obtain ⟨letter, -, rfl⟩ := Option.map_eq_some_iff.1 hi
      rfl
  · rfl

namespace Pool

variable {h : Pool}

/-- The tickets of the callers that are there, with their keys. -/
def places (h : Pool) : List (Nat × String) := placesOf h.registry.callers

/-- An operation changes the places as it tells its caller. -/
theorem places_apply (hs : h.Sound) (ho : h.registry.Ordered) (op : Op) :
    (h.apply op).1.places = (h.told op (h.apply op).2).foldl Incident.places h.places := by
  have hpasses := (incidents_pass hs ho op).1.places
  rw [incidents, List.foldl_append, places_mail] at hpasses
  exact hpasses

theorem mem_places {h : Pool} {t : Nat} {key : String} :
    (t, key) ∈ h.places ↔ ∃ c ∈ h.registry.callers, c.ticket = t ∧ c.key = key := by
  simp [places, placesOf]

theorem places_abandon (hs : h.Sound) (ho : h.registry.Ordered) (t : Nat) :
    (h.apply (.abandon t)).1.places = h.places.filter fun p => p.1 ≠ t := by
  have htold : h.told (.abandon t) (h.apply (.abandon t)).2 =
      if isListening h.registry.callers t then [.ended t .dropped] else [] := rfl
  rw [places_apply hs ho, htold]
  split
  · rfl
  · rename_i hgone
    refine (List.filter_eq_self.2 fun p hp => ?_).symm
    obtain ⟨c, hc, hct, -⟩ := mem_places.1 hp
    simpa using fun hpt : p.1 = t => hgone (isListening_iff.2 ⟨c, hc, hct.trans hpt⟩)

theorem absent_abandon (hs : h.Sound) (ho : h.registry.Ordered) (t : Nat) :
    ∀ c ∈ (h.apply (.abandon t)).1.registry.callers, c.ticket ≠ t := by
  intro c hc
  have hplace : (c.ticket, c.key) ∈ (h.apply (.abandon t)).1.places :=
    mem_places.2 ⟨c, hc, rfl, rfl⟩
  rw [places_abandon hs ho] at hplace
  simpa using (List.mem_filter.1 hplace).2

theorem Sound.not_mem_queue (hs : h.Sound) {t : Nat} (ht : ∀ c ∈ h.registry.callers, c.ticket ≠ t)
    (key : String) : t ∉ (h.registry.slots key).queue := by
  intro hq
  obtain ⟨c, hc, hct, -⟩ := (hs.registry.boxed.waits key t).1 hq
  exact ht c hc hct

/-! ## Handles -/

/-- An answer with a new handle, or with none. -/
inductive Issues (h : Pool) : Pool × Reply → Prop
  | nothing {h' : Pool} {reply : Reply} (hh : h'.handles = h.handles)
      (hn : h'.nextHandle = h.nextHandle) (hr : ∀ x, reply ≠ .handle x) : Issues h (h', reply)
  | handle {h' : Pool} {x : Handle} (hh : h'.handles = h.handles ++ [x])
      (hn : h'.nextHandle = h.nextHandle + 1) (hx : x.number = h.nextHandle)
      (hrel : x.released = false) : Issues h (h', .handle x)

theorem settle_issues (h : Pool) (r : Registry) (key : String) (f : Finding) :
    h.Issues (Pool.settle { h with registry := r } key f) := by
  cases f with
  | granted g => exact .handle rfl rfl rfl rfl
  | failed e => exact .nothing rfl rfl nofun
  | waiting => exact .nothing rfl rfl nofun

/-- Only what asks for a slot or waits for one is answered with a handle. -/
theorem apply_issues (h : Pool) (op : Op) (hr : ∀ n, op ≠ .release n) (hd : ∀ n, op ≠ .drop n) :
    h.Issues (h.apply op) := by
  cases op with
  | acquire key =>
    unfold apply
    dsimp only
    split
    · exact .handle rfl rfl rfl rfl
    · exact .nothing rfl rfl nofun
    · exact .nothing rfl rfl nofun
  | collect t => exact settle_issues h _ _ _
  | expire t waitedMs => exact settle_issues h _ _ _
  | release n => exact absurd rfl (hr n)
  | drop n => exact absurd rfl (hd n)
  | _ => exact .nothing rfl rfl nofun

theorem handles_release (hs : h.Sound) (n : Nat) : (h.release n).handles = h.mark n := by
  have hsame (hn : ∀ x ∈ h.handles, x.number = n → x.released = true) : h.handles = h.mark n := by
    refine (List.map_id _).symm.trans (List.map_congr_left fun x hx => ?_)
    by_cases hxn : x.number = n
    · rw [if_pos hxn, ← hn x hx hxn]
      rfl
    · rw [if_neg hxn]
      rfl
  cases hx : h.handle? n with
  | none =>
    rw [Pool.release, hx]
    refine hsame fun x hmem hxn => ?_
    simpa [hxn] using List.find?_eq_none.1 hx x hmem
  | some x =>
    by_cases hrel : x.released = true
    · rw [Pool.release, hx]
      dsimp only
      rw [if_pos hrel]
      refine hsame fun y hy hyn => ?_
      obtain ⟨hmem, hxn⟩ := Sound.mem_of_handle? hx
      rwa [List.inj_on_of_nodup_map hs.numbered.numbers hy hmem (hyn.trans hxn.symm)]
    · rw [Pool.release, hx]
      dsimp only
      rw [if_neg hrel]
      rfl

/-- A marked handle keeps its key and its number. -/
theorem mem_mark {n : Nat} {y : Handle} (hy : y ∈ h.mark n) :
    ∃ z ∈ h.handles, z.key = y.key ∧ z.number = y.number ∧
      y = if z.number = n then { z with released := true } else z := by
  obtain ⟨z, hz, rfl⟩ := List.mem_map.1 hy
  refine ⟨z, hz, ?_, ?_, rfl⟩ <;> split <;> rfl

theorem nextHandle_release (h : Pool) (n : Nat) : (h.release n).nextHandle = h.nextHandle := by
  unfold Pool.release
  split
  · rfl
  · split <;> rfl

/-- A handle that is dropped goes, and the others stay as they are. -/
theorem handles_drop (hs : h.Sound) (n : Nat) :
    (h.apply (.drop n)).1.handles = h.handles.filter fun x => x.number ≠ n := by
  show (h.release n).handles.filter _ = _
  rw [handles_release hs, mark, List.filter_map]
  have hkeep : ((fun x : Handle => decide (x.number ≠ n)) ∘ fun y : Handle =>
      if y.number = n then { y with released := true } else y) =
      fun x => decide (x.number ≠ n) := by
    funext y
    by_cases hy : y.number = n <;> simp [hy]
  rw [hkeep]
  refine (List.map_congr_left fun x hx => ?_).trans (List.map_id _)
  exact if_neg (by simpa using (List.mem_filter.1 hx).2)

/-- A handle that is released before it is dropped gives its slot back once only. -/
theorem Sound.drop_release (hs : h.Sound) (n : Nat) :
    ((h.apply (.release n)).1.apply (.drop n)).1 = (h.apply (.drop n)).1 := by
  have hagain : (h.release n).release n = h.release n := by
    cases hx : (h.release n).handle? n with
    | none => rw [Pool.release, hx]
    | some x =>
      obtain ⟨hmem, hnumber⟩ := Sound.mem_of_handle? hx
      rw [Pool.release, hx]
      exact if_pos (hs.released_of_mem hmem hnumber)
  simp only [Pool.apply, hagain]

theorem places_drop (hs : h.Sound) (ho : h.registry.Ordered) (n : Nat) :
    (h.apply (.drop n)).1.places = h.places :=
  places_apply hs ho (.drop n)

theorem generation_release (h : Pool) (n : Nat) :
    (h.release n).registry.generation = h.registry.generation := by
  unfold Pool.release
  split
  · rfl
  · split
    · rfl
    · exact (h.registry.sameTerms_release _ _).2

/-- Only a reset and the end of the registry move the generation on. -/
theorem generation_apply (h : Pool) {op : Op} (hr : op ≠ .resetGeneration) (hd : op ≠ .dispose) :
    (h.apply op).1.registry.generation = h.registry.generation := by
  cases op with
  | acquire key =>
    have hterms := (h.registry.sameTerms_acquire key).2
    unfold apply
    dsimp only
    split <;> exact hterms
  | collect t =>
    unfold apply
    dsimp only
    rw [registry_settle]
    exact (h.registry.sameTerms_collect t).2
  | expire t waitedMs =>
    unfold apply
    dsimp only
    rw [registry_settle]
    exact (h.registry.sameTerms_expire t waitedMs).2
  | abandon t => exact (h.registry.sameTerms_abandon t).2
  | release n => exact generation_release h n
  | drop n => exact generation_release h n
  | resetGeneration => exact absurd rfl hr
  | clearWaiters key => exact (h.registry.sameTerms_clearWaiters key).2
  | dispose => exact absurd rfl hd

/-! ## Asking for a slot -/

/-- A handle for a key comes in. -/
def HandsOut (h h' : Pool) (key : String) (y : Handle) : Prop :=
  y.key = key ∧ y.released = false ∧ h'.handles = h.handles ++ [y]

/-- Whoever asks for a slot gets it, or is refused, or has a place in the queue. -/
theorem acquire_answers (hs : h.Sound) (ho : h.registry.Ordered) (key : String) :
    let p := h.apply (.acquire key)
    (∃ y, p.2 = .handle y ∧ h.HandsOut p.1 key y ∧ p.1.places = h.places) ∨
    (∃ e, p.2 = .failed e ∧ p.1.handles = h.handles ∧ p.1.places = h.places) ∨
    (∃ t, p.2 = .ticket t ∧ p.1.handles = h.handles ∧ p.1.places = h.places ++ [(t, key)]) := by
  have hplaces := places_apply hs ho (.acquire key)
  rcases h.registry.acquire_cases key with ⟨-, -, he⟩ | ⟨-, -, he⟩ | ⟨-, -, he⟩ <;>
    simp only [apply, he] at hplaces ⊢
  · exact .inl ⟨_, rfl, ⟨rfl, rfl, rfl⟩, hplaces⟩
  · exact .inr (.inl ⟨_, rfl, trivial, trivial⟩)
  · exact .inr (.inr ⟨_, rfl, trivial, hplaces⟩)

/-- Whoever waits and looks into its box, be it when its time is up, waits on, or is gone with a
handle or without. -/
theorem looks_answers (hs : h.Sound) (ho : h.registry.Ordered) {t : Nat} {key : String}
    (ht : (t, key) ∈ h.places) {op : Op}
    (hop : op = .collect t ∨ ∃ waitedMs, op = .expire t waitedMs) :
    let p := h.apply op
    p = (h, .waiting) ∨
    (p.1.places = h.places.filter fun q => q.1 ≠ t) ∧
      ((∃ y, p.2 = .handle y ∧ h.HandsOut p.1 key y) ∨
        ∃ e, p.2 = .failed e ∧ p.1.handles = h.handles) := by
  obtain ⟨c, hc, rfl, rfl⟩ := mem_places.1 ht
  have hplaces := places_apply hs ho op
  rcases hop with rfl | ⟨waitedMs, rfl⟩
  · rw [apply_collect hs hc] at hplaces ⊢
    rcases hl : c.letter with _ | g | _ <;> rw [hl] at hplaces
    · exact .inl rfl
    · exact .inr ⟨hplaces, .inl ⟨_, rfl, rfl, rfl, rfl⟩⟩
    · exact .inr ⟨hplaces, .inr ⟨_, rfl, rfl⟩⟩
  · rw [apply_expire hs hc] at hplaces ⊢
    rcases hl : c.letter with _ | g | _ <;> rw [hl] at hplaces
    · exact .inr ⟨hplaces, .inr ⟨_, rfl, rfl⟩⟩
    · exact .inr ⟨hplaces, .inl ⟨_, rfl, rfl, rfl, rfl⟩⟩
    · exact .inr ⟨hplaces, .inr ⟨_, rfl, rfl⟩⟩

/-! ## Numbers are used once -/

/-- Later numbers are above, and whoever is gone is gone for good. -/
structure Later (h h' : Pool) : Prop where
  tickets : h.registry.nextTicket ≤ h'.registry.nextTicket
  handles : h.nextHandle ≤ h'.nextHandle
  callers : ∀ t < h.registry.nextTicket, (∀ c ∈ h.registry.callers, c.ticket ≠ t) →
    ∀ c ∈ h'.registry.callers, c.ticket ≠ t
  out : ∀ n < h.nextHandle, (∀ x ∈ h.handles, x.number ≠ n) → ∀ x ∈ h'.handles, x.number ≠ n

theorem Later.refl (h : Pool) : h.Later h :=
  ⟨Nat.le_refl _, Nat.le_refl _, fun _ _ habsent => habsent, fun _ _ habsent => habsent⟩

theorem Later.trans {h h' h'' : Pool} (h₁ : h.Later h') (h₂ : h'.Later h'') : h.Later h'' where
  tickets := Nat.le_trans h₁.tickets h₂.tickets
  handles := Nat.le_trans h₁.handles h₂.handles
  callers t ht habsent :=
    h₂.callers t (Nat.lt_of_lt_of_le ht h₁.tickets) (h₁.callers t ht habsent)
  out n hn habsent := h₂.out n (Nat.lt_of_lt_of_le hn h₁.handles) (h₁.out n hn habsent)

theorem apply_later (hs : h.Sound) (ho : h.registry.Ordered) (op : Op) :
    h.Later (h.apply op).1 := by
  obtain ⟨htickets, hcallers⟩ := (incidents_pass hs ho op).1.absent
  have hout : h.nextHandle ≤ (h.apply op).1.nextHandle ∧ ∀ n < h.nextHandle,
      (∀ x ∈ h.handles, x.number ≠ n) → ∀ x ∈ (h.apply op).1.handles, x.number ≠ n := by
    have hmark : ∀ m n, (∀ x ∈ h.handles, x.number ≠ n) → ∀ x ∈ h.mark m, x.number ≠ n := by
      intro m n habsent x hx
      obtain ⟨y, hy, rfl⟩ := List.mem_map.1 hx
      have := habsent y hy
      split <;> exact this
    -- releasing and dropping take no number, everything else takes the next one or none
    by_cases hrel : ∃ m, op = .release m
    · obtain ⟨m, rfl⟩ := hrel
      refine ⟨Nat.le_of_eq (nextHandle_release h m).symm, fun n _ habsent => ?_⟩
      show ∀ x ∈ (h.release m).handles, _
      rw [handles_release hs]
      exact hmark m n habsent
    by_cases hdrop : ∃ m, op = .drop m
    · obtain ⟨m, rfl⟩ := hdrop
      refine ⟨Nat.le_of_eq (nextHandle_release h m).symm, fun n _ habsent => ?_⟩
      rw [handles_drop hs]
      exact fun x hx => habsent x (List.mem_of_mem_filter hx)
    · have hissues := h.apply_issues op (fun n hn => hrel ⟨n, hn⟩)
        fun n hn => hdrop ⟨n, hn⟩
      generalize h.apply op = p at hissues ⊢
      cases hissues with
      | nothing hh hn =>
        rw [hh, hn]
        exact ⟨Nat.le_refl _, fun _ _ habsent => habsent⟩
      | handle hh hn hx =>
        rw [hh, hn]
        refine ⟨Nat.le_succ _, fun n hlt habsent y hy => ?_⟩
        rcases List.mem_append.1 hy with hy | hy
        · exact habsent y hy
        · rw [List.mem_singleton.1 hy, hx]
          exact Nat.ne_of_gt hlt
  exact ⟨htickets, hout.1, hcallers, hout.2⟩

theorem run_later (hs : h.Sound) (ho : h.registry.Ordered) (ops : List Op) :
    h.Later (h.run ops) := by
  induction ops generalizing h with
  | nil => exact Later.refl h
  | cons op ops ih =>
    exact (apply_later hs ho op).trans (ih (hs.apply op) (incidents_pass hs ho op).2)

end Pool

end TurnEngine.Lane
