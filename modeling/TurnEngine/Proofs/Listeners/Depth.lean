import TurnEngine.Proofs.Listeners.Roster

/-!
# Depths

Emissions inside emissions are followed to a depth. The depth does not show in an outcome: what has
an outcome has the same one with more depth (`run_more`). There is an outcome where listeners only
emit events of a lower rank than the one that they are called with (`exists_run`).
-/

namespace TurnEngine.Switchboard

variable {ε : Type} {s t : Switchboard ε}

/-! ## More depth -/

/-- What has an outcome has the same one with more depth. -/
def More (emit emit' : Nat → ε → Switchboard ε → Option (Switchboard ε)) : Prop :=
  ∀ hub event s t, emit hub event s = some t → emit' hub event s = some t

theorem foldlM_more {α σ : Type} {f g : σ → α → Option σ}
    (hfg : ∀ s a t, f s a = some t → g s a = some t) {xs : List α} {s t : σ}
    (h : xs.foldlM f s = some t) : xs.foldlM g s = some t := by
  induction xs generalizing s with
  | nil => exact h
  | cons x xs ih =>
    rw [List.foldlM_cons] at h ⊢
    obtain ⟨u, hfirst, hrest⟩ := Option.bind_eq_some_iff.1 h
    exact Option.bind_eq_some_iff.2 ⟨u, hfg s x u hfirst, ih hrest⟩

theorem call_more {emit emit' : Nat → ε → Switchboard ε → Option (Switchboard ε)}
    (hmore : More emit emit') {hub k n : Nat} {event : ε} {c : Callback ε}
    (h : call emit hub k event n c s = some t) : call emit' hub k event n c s = some t := by
  refine foldlM_more (fun s r t hr => ?_) h
  cases r with
  | emit event => exact hmore hub event s t hr
  | _ => exact hr

theorem emit_more (depth : Nat) : More (ε := ε) (emit depth) (emit (depth + 1)) := by
  induction depth with
  | zero => intro _ _ _ _ h; cases h
  | succ depth ih =>
    intro hub event s t h
    obtain ⟨u, hcalls, rfl⟩ := Option.map_eq_some_iff.1 h
    exact Option.map_eq_some_iff.2 ⟨u, foldlM_more (fun _ _ _ hc => call_more ih hc) hcalls, rfl⟩

theorem act_more {depth : Nat} {a : Act ε} (h : act depth s a = some t) :
    act (depth + 1) s a = some t := by
  cases a with
  | emit registry event =>
    cases hhub : s.hubOf? registry with
    | none =>
      rw [act, hhub] at h ⊢
      exact h
    | some hub =>
      rw [act, hhub] at h ⊢
      exact emit_more depth hub event s t h
  | _ => exact h

theorem run_more {depth more : Nat} (hmore : depth ≤ more) {acts : List (Act ε)}
    (h : run depth acts s = some t) : run more acts s = some t := by
  induction hmore with
  | refl => exact h
  | step _ ih => exact foldlM_more (fun _ _ _ ha => act_more ha) ih

/-! ## Enough depth -/

/-- A listener that only emits events of a lower rank than the one it is called with, like all
listeners that it registers. -/
inductive Falling (rank : ε → Nat) : Callback ε → Prop
  | mk {name : String} {reflexes : Nat → ε → List (Reflex ε)}
      (emits : ∀ moment event lower, .emit lower ∈ reflexes moment event → rank lower < rank event)
      (registers : ∀ moment event c, .register c ∈ reflexes moment event → Falling rank c) :
      Falling rank (.mk name reflexes)

/-- All listeners of all hubs are falling. -/
def AllFalling (rank : ε → Nat) (s : Switchboard ε) : Prop :=
  ∀ i, ∀ x ∈ (s.hub i).entries, Falling rank x.2

section
variable {rank : ε → Nat}

theorem allFalling_new (rank : ε → Nat) : AllFalling rank ({} : Switchboard ε) := by
  intro i x hx
  cases i <;> cases hx

theorem AllFalling.setHub {i : Nat} {h : Hub (Callback ε)} (hs : AllFalling rank s)
    (hh : ∀ x ∈ h.entries, Falling rank x.2) : AllFalling rank (s.setHub i h) := by
  intro j x hx
  by_cases hij : i = j
  · subst hij
    rcases hub_setHub s i h with hself | hself
    · exact hh x (hself ▸ hx)
    · exact hs i x (hself ▸ hx)
  · exact hs j x (hub_setHub_of_ne hij h ▸ hx)

theorem AllFalling.register (hs : AllFalling rank s) {hub : Nat} {c : Callback ε}
    (hc : Falling rank c) : AllFalling rank (s.register hub c) := by
  refine setHub hs fun x hx => ?_
  rcases List.mem_append.1 hx with hx | hx
  · exact hs hub x hx
  · rw [List.mem_singleton.1 hx]
    exact hc

theorem AllFalling.unregister (hs : AllFalling rank s) (name : String) :
    AllFalling rank (s.unregister name) := by
  unfold Switchboard.unregister
  split
  · exact hs
  · rename_i handle _
    unfold giveUp
    split
    · exact setHub hs fun x hx => hs handle.hub x (List.mem_of_mem_filter hx)
    · exact hs

theorem exists_foldlM {α σ : Type} {P : σ → Prop} {f : σ → α → Option σ} {xs : List α}
    (hf : ∀ s, ∀ a ∈ xs, P s → ∃ t, f s a = some t ∧ P t) {s : σ} (hs : P s) :
    ∃ t, xs.foldlM f s = some t ∧ P t := by
  induction xs generalizing s with
  | nil => exact ⟨s, rfl, hs⟩
  | cons x xs ih =>
    obtain ⟨u, hfirst, hu⟩ := hf s x List.mem_cons_self hs
    obtain ⟨t, hrest, ht⟩ := ih (fun s a ha => hf s a (List.mem_cons_of_mem x ha)) hu
    rw [List.foldlM_cons]
    exact ⟨t, Option.bind_eq_some_iff.2 ⟨u, hfirst, hrest⟩, ht⟩

/-- A falling listener can be called where events of a lower rank can be emitted. -/
theorem exists_call {emit : Nat → ε → Switchboard ε → Option (Switchboard ε)} {event : ε}
    (hemit : ∀ hub lower s, rank lower < rank event → AllFalling rank s →
      ∃ t, emit hub lower s = some t ∧ AllFalling rank t)
    {c : Callback ε} (hc : Falling rank c) (hub k n : Nat) (hs : AllFalling rank s) :
    ∃ t, call emit hub k event n c s = some t ∧ AllFalling rank t := by
  obtain ⟨emits, registers⟩ := hc
  refine exists_foldlM (fun s r hr hs => ?_) (s := s.note _) hs
  have hr := (List.takeWhile_sublist _).subset hr
  cases r with
  | panic => exact ⟨s, rfl, hs⟩
  | unregister name => exact ⟨_, rfl, hs.unregister name⟩
  | register c => exact ⟨_, rfl, hs.register (registers _ _ c hr)⟩
  | emit lower => exact hemit hub lower s (emits _ _ lower hr) hs

/-- Where all listeners are falling, an emission has an outcome at every depth above its rank. -/
theorem exists_emit {depth : Nat} {event : ε} (hdepth : rank event < depth) (hub : Nat)
    (hs : AllFalling rank s) : ∃ t, emit depth hub event s = some t ∧ AllFalling rank t := by
  induction depth generalizing event hub s with
  | zero => exact absurd hdepth (Nat.not_lt_zero _)
  | succ depth ih =>
    have hemit : ∀ i lower s, rank lower < rank event → AllFalling rank s →
        ∃ t, emit depth i lower s = some t ∧ AllFalling rank t := fun i lower s hlower hs =>
      ih (Nat.lt_of_lt_of_le hlower (Nat.le_of_lt_succ hdepth)) i hs
    obtain ⟨t, ht, hfalling⟩ := exists_foldlM (s := s.note (.begun hub event))
      (fun u x hx hu => exists_call hemit (hs hub x hx) hub s.log.length x.1 hu) hs
    exact ⟨t.note (.ended s.log.length), Option.map_eq_some_iff.2 ⟨t, ht, rfl⟩, hfalling⟩

/-- Something that is done with falling listeners, and events of a rank below a depth. -/
def Act.Falling (rank : ε → Nat) (depth : Nat) : Act ε → Prop
  | .register _ c => Switchboard.Falling rank c
  | .emit _ event => rank event < depth
  | _ => True

/-- A history of falling listeners has an outcome. -/
theorem exists_run {depth : Nat} {acts : List (Act ε)}
    (hacts : ∀ a ∈ acts, a.Falling rank depth) (hs : AllFalling rank s) :
    ∃ t, run depth acts s = some t ∧ AllFalling rank t := by
  refine exists_foldlM (fun s a ha hs => ?_) hs
  have ha := hacts a ha
  cases a with
  | register registry c =>
    refine ⟨_, rfl, ?_⟩
    cases s.hubOf? registry with
    | none => exact hs
    | some hub => exact hs.register ha
  | unregister name => exact ⟨_, rfl, hs.unregister name⟩
  | forget name => exact ⟨_, rfl, hs⟩
  | emit registry event =>
    rw [act]
    cases s.hubOf? registry with
    | none => exact ⟨s, rfl, hs⟩
    | some hub => exact exists_emit ha hub hs
  | clone registry => exact ⟨_, rfl, hs⟩
  | fresh => exact ⟨_, rfl, fun i x hx => hs i x (hub_fresh s i ▸ hx)⟩
  | drop registry => exact ⟨_, rfl, hs⟩

end

end TurnEngine.Switchboard
