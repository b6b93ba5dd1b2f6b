import TurnEngine.Listeners.Switchboard
import TurnEngine.Proofs.Listeners.Numbers

/-!
# Rosters

What the history of a switchboard says about its hubs: who was registered on a hub and not
unregistered since, in order of registration (`roster`), and which listeners an emission called
(`calls`). A hub that is still there agrees with its history (`Agrees`), by one lemma for each way
it can change, and so do all hubs of a switchboard (`Sound`).
-/

namespace TurnEngine.Switchboard

variable {ε : Type} {log more : List (Incident ε)} {hub entry : Nat} {c : Callback ε}

/-- The listeners that were ever registered on a hub, in order, with their numbers. -/
def registrations (hub : Nat) (log : List (Incident ε)) : List (Nat × Callback ε) :=
  log.filterMap fun
    | .registered i entry c => if i = hub then some (entry, c) else none
    | _ => none

/-- The numbers on a hub whose handles were used up. -/
def gone (hub : Nat) (log : List (Incident ε)) : List Nat :=
  log.filterMap fun
    | .unregistered i entry => if i = hub then some entry else none
    | _ => none

/-- The listeners of a hub: all that were registered, without those whose handles were used up. -/
def roster (hub : Nat) (log : List (Incident ε)) : List (Nat × Callback ε) :=
  (registrations hub log).filter fun x => x.1 ∉ gone hub log

/-- The calls that an emission made, in order. -/
def calls (emission : Nat) (log : List (Incident ε)) : List (Nat × Callback ε × ε) :=
  log.filterMap fun
    | .called k entry c event => if k = emission then some (entry, c, event) else none
    | _ => none

theorem registrations_append (hub : Nat) (log more : List (Incident ε)) :
    registrations hub (log ++ more) = registrations hub log ++ registrations hub more :=
  List.filterMap_append

theorem gone_append (hub : Nat) (log more : List (Incident ε)) :
    gone hub (log ++ more) = gone hub log ++ gone hub more :=
  List.filterMap_append

theorem calls_append (emission : Nat) (log more : List (Incident ε)) :
    calls emission (log ++ more) = calls emission log ++ calls emission more :=
  List.filterMap_append

theorem roster_append_of_gone (h : gone hub more = []) :
    roster hub (log ++ more) =
      roster hub log ++ (registrations hub more).filter fun x => x.1 ∉ gone hub log := by
  rw [roster, registrations_append, gone_append, h, List.append_nil, List.filter_append]
  rfl

/-- What is neither a registration nor the end of one leaves the rosters as they are. -/
theorem roster_append_of_quiet (hnew : registrations hub more = []) (hgone : gone hub more = []) :
    roster hub (log ++ more) = roster hub log := by
  rw [roster_append_of_gone hgone, hnew, List.filter_nil, List.append_nil]

theorem roster_registered (h : entry ∉ gone hub log) :
    roster hub (log ++ [.registered hub entry c]) = roster hub log ++ [(entry, c)] := by
  rw [roster_append_of_gone rfl]
  simp [registrations, h]

theorem roster_unregistered :
    roster hub (log ++ [.unregistered hub entry]) =
      (roster hub log).filter fun x => x.1 ≠ entry := by
  rw [roster, roster, registrations_append, gone_append, List.filter_filter]
  simp [registrations, gone, Bool.and_comm]

theorem mem_gone_unregistered {n : Nat} :
    n ∈ gone hub (log ++ [.unregistered hub entry]) ↔ n ∈ gone hub log ∨ n = entry := by
  simp [gone]

theorem calls_called {k : Nat} {event : ε} (xs : List (Nat × Callback ε)) :
    calls k (xs.map fun x => .called k x.1 x.2 event) = xs.map fun x => (x.1, x.2, event) := by
  simp [calls, List.filterMap_map]

theorem calls_called_of_ne {j k : Nat} (h : k ≠ j) {event : ε} (xs : List (Nat × Callback ε)) :
    calls j (xs.map fun x => .called k x.1 x.2 event) = [] := by
  simp [calls, List.filterMap_map, h]

/-! ## Hubs and what happened to them -/

section
variable {live : Bool} {h : Hub (Callback ε)}

/-- A hub and a history: while the hub is there its listeners are those that the history says, and
every number in the history was given out. -/
structure Agrees (i : Nat) (live : Bool) (h : Hub (Callback ε)) (log : List (Incident ε)) :
    Prop where
  entries : live = true → h.entries = roster i log
  numbered : h.Numbered
  gone : ∀ n ∈ gone i log, n < h.nextId

namespace Agrees

theorem quiet (ha : Agrees hub live h log) (hnew : registrations hub more = [])
    (hgone : Switchboard.gone hub more = []) : Agrees hub live h (log ++ more) where
  entries hlive := (ha.entries hlive).trans (roster_append_of_quiet hnew hgone).symm
  numbered := ha.numbered
  gone n hn := by
    rw [gone_append, hgone, List.append_nil] at hn
    exact ha.gone n hn

theorem register (ha : Agrees hub true h log) (c : Callback ε) :
    Agrees hub true (h.register c).2 (log ++ [.registered hub h.nextId c]) where
  entries _ := by
    have hfresh : h.nextId ∉ Switchboard.gone hub log := fun hmem =>
      Nat.lt_irrefl _ (ha.gone _ hmem)
    rw [roster_registered hfresh, ← ha.entries rfl]
    rfl
  numbered := ha.numbered.register c
  gone n hn := by
    rw [gone_append, show Switchboard.gone hub [.registered hub h.nextId c] = [] from rfl,
      List.append_nil] at hn
    exact Nat.lt_succ_of_lt (ha.gone n hn)

/-- The listener of a handle is removed, if the hub is there. -/
theorem unregister (ha : Agrees hub live h log) (hentry : entry < h.nextId) :
    Agrees hub live (if live then h.unregister entry else h)
      (log ++ [.unregistered hub entry]) := by
  have hgone : ∀ n ∈ Switchboard.gone hub (log ++ [.unregistered hub entry]), n < h.nextId := by
    intro n hn
    rcases mem_gone_unregistered.1 hn with hn | rfl
    · exact ha.gone n hn
    · exact hentry
  cases live with
  | true =>
    refine ⟨fun _ => ?_, ha.numbered.unregister entry, hgone⟩
    rw [roster_unregistered, ← ha.entries rfl]
    rfl
  | false => exact ⟨nofun, ha.numbered, hgone⟩

end Agrees

end

/-! ## Switchboards and what happened to them -/

section
variable {s : Switchboard ε} {i j k : Nat}

theorem hub_setHub_self (hi : i < s.hubs.length) (h : Hub (Callback ε)) :
    (s.setHub i h).hub i = h := by
  simp [Switchboard.hub, setHub, hi]

theorem hub_setHub_of_ne (hne : i ≠ j) (h : Hub (Callback ε)) :
    (s.setHub i h).hub j = s.hub j := by
  simp [Switchboard.hub, setHub, hne]

theorem hub_setHub (s : Switchboard ε) (i : Nat) (h : Hub (Callback ε)) :
    (s.setHub i h).hub i = h ∨ (s.setHub i h).hub i = s.hub i := by
  by_cases hi : i < s.hubs.length
  · exact .inl (hub_setHub_self hi h)
  · refine .inr ?_
    rw [setHub, List.set_eq_of_length_le (Nat.le_of_not_lt hi)]

theorem hub_fresh (s : Switchboard ε) (i : Nat) : s.fresh.hub i = s.hub i := by
  unfold Switchboard.hub fresh
  rcases Nat.lt_trichotomy i s.hubs.length with hi | rfl | hi
  · rw [List.getElem?_append_left hi]
  · simp
  · have hlength : (s.hubs ++ [({} : Hub (Callback ε))]).length ≤ i := by
      simpa using Nat.succ_le_of_lt hi
    rw [List.getElem?_eq_none (Nat.le_of_lt hi), List.getElem?_eq_none hlength]

theorem note_log (s : Switchboard ε) (x : Incident ε) : (s.note x).log = s.log ++ [x] := rfl

/-- All hubs agree with the history, and every handle is that of a listener that was registered. -/
structure Sound (s : Switchboard ε) : Prop where
  there : ∀ i, s.live i = true → i < s.hubs.length
  ahead : ∀ i, s.hubs.length ≤ i → registrations i s.log = []
  hubs : ∀ i, Agrees i (s.live i) (s.hub i) s.log
  handles : ∀ h ∈ s.handles, h.entry < (s.hub h.hub).nextId
  calls : ∀ k, s.log.length ≤ k → calls k s.log = []

namespace Sound

theorem new : Sound ({} : Switchboard ε) where
  there i hi := by
    have hi : i = 0 := by simpa [live] using hi
    exact hi ▸ Nat.zero_lt_one
  ahead _ _ := rfl
  hubs i := by
    cases i <;> exact ⟨fun _ => rfl, Hub.numbered_new, fun _ hn => nomatch hn⟩
  handles _ hh := nomatch hh
  calls _ _ := rfl

/-- The calls of an emission that is yet to begin, with one more incident. -/
theorem calls_note (h : Sound s) {x : Incident ε}
    (hcalls : ∀ k, s.log.length < k → Switchboard.calls k [x] = []) {k : Nat}
    (hk : (s.note x).log.length ≤ k) : Switchboard.calls k (s.note x).log = [] := by
  rw [note_log, List.length_append] at hk
  rw [note_log, calls_append, h.calls k (Nat.le_of_succ_le hk), hcalls k hk, List.append_nil]

/-- Notes about emissions leave the hubs as they are. -/
theorem note (h : Sound s) {x : Incident ε} (hnew : ∀ i, registrations i [x] = [])
    (hgone : ∀ i, Switchboard.gone i [x] = [])
    (hcalls : ∀ k, s.log.length < k → Switchboard.calls k [x] = []) : Sound (s.note x) where
  there := h.there
  ahead i hi := by rw [note_log, registrations_append, h.ahead i hi, hnew i, List.append_nil]
  hubs i := (h.hubs i).quiet (hnew i) (hgone i)
  handles := h.handles
  calls _ hk := h.calls_note hcalls hk

/-- One hub changes, and the history says how. -/
theorem change (h : Sound s) (hi : i < s.hubs.length) {x : Incident ε} {new : Hub (Callback ε)}
    {handles : List ListenerHandle} (hagrees : Agrees i (s.live i) new (s.log ++ [x]))
    (hnextId : (s.hub i).nextId ≤ new.nextId)
    (hnew : ∀ j, i ≠ j → registrations j [x] = [])
    (hgone : ∀ j, i ≠ j → Switchboard.gone j [x] = [])
    (hhandles : ∀ hd ∈ handles, hd ∈ s.handles ∨ hd.hub = i ∧ hd.entry < new.nextId)
    (hcalls : ∀ k, Switchboard.calls k [x] = []) :
    Sound ((({ s with handles } : Switchboard ε).setHub i new).note x) := by
  have hself : ((s.setHub i new).note x).hub i = new := hub_setHub_self hi new
  have hother : ∀ j, i ≠ j → ((s.setHub i new).note x).hub j = s.hub j := fun j hj =>
    hub_setHub_of_ne hj new
  have hlength : (s.hubs.set i new).length = s.hubs.length := List.length_set
  refine ⟨fun j hj => ?_, fun j hj => ?_, fun j => ?_, fun hd hhd => ?_,
    fun k hk => h.calls_note (fun k _ => hcalls k) hk⟩
  · show j < (s.hubs.set i new).length
    rw [hlength]
    exact h.there j hj
  · have hj : s.hubs.length ≤ j := hlength ▸ hj
    rw [note_log, registrations_append, hnew j (Nat.ne_of_lt (Nat.lt_of_lt_of_le hi hj)),
      List.append_nil]
    exact h.ahead j hj
  · show Agrees j (s.live j) (((s.setHub i new).note x).hub j) (s.log ++ [x])
    by_cases hij : i = j
    · subst hij
      rw [hself]
      exact hagrees
    · rw [hother j hij]
      exact (h.hubs j).quiet (hnew j hij) (hgone j hij)
  · show hd.entry < (((s.setHub i new).note x).hub hd.hub).nextId
    by_cases hhub : i = hd.hub
    · rw [← hhub, hself]
      rcases hhandles hd hhd with hold | ⟨-, hentry⟩
      · exact Nat.lt_of_lt_of_le (hhub ▸ h.handles hd hold) hnextId
      · exact hentry
    · rw [hother _ hhub]
      exact h.handles hd ((hhandles hd hhd).resolve_right fun hnew => hhub hnew.1.symm)

theorem register (h : Sound s) (hlive : s.live i = true) (c : Callback ε) :
    Sound (s.register i c) := by
  have hagrees := (hlive ▸ h.hubs i : Agrees i true (s.hub i) s.log).register c
  refine h.change (h.there i hlive) (hlive ▸ hagrees) (Nat.le_succ _) (fun j hj => ?_)
    (fun _ _ => rfl) (fun hd hhd => ?_) fun _ => rfl
  · simp [registrations, hj]
  · refine (List.mem_append.1 hhd).imp_right fun hhd => ?_
    rw [List.mem_singleton.1 hhd]
    exact ⟨rfl, Nat.lt_succ_self _⟩

theorem giveUp (h : Sound s) {hd : ListenerHandle} (hhd : hd.entry < (s.hub hd.hub).nextId) :
    Sound (s.giveUp hd) := by
  have hagrees := (h.hubs hd.hub).unregister hhd
  have hgone : ∀ j, hd.hub ≠ j → Switchboard.gone j [.unregistered (ε := ε) hd.hub hd.entry] = [] :=
    fun j hj => by simp [Switchboard.gone, hj]
  unfold Switchboard.giveUp
  split
  · rename_i hlive
    rw [if_pos hlive] at hagrees
    exact h.change (h.there _ hlive) hagrees (Nat.le_refl _) (fun _ _ => rfl) hgone
      (fun _ hx => .inl hx) fun _ => rfl
  · rename_i hdead
    rw [if_neg hdead] at hagrees
    refine ⟨h.there, fun j hj => ?_, fun j => ?_, h.handles,
      fun k hk => h.calls_note (fun _ _ => rfl) hk⟩
    · rw [note_log, registrations_append, h.ahead j hj]
      rfl
    · by_cases hj : hd.hub = j
      · exact hj ▸ hagrees
      · exact (h.hubs j).quiet rfl (hgone j hj)

theorem fewer (h : Sound s) {handles : List ListenerHandle} (hsub : handles ⊆ s.handles) :
    Sound { s with handles } :=
  { h with handles := fun hd hhd => h.handles hd (hsub hhd) }

/-- Registries may go, and come if they share a hub with one that is there. -/
theorem registries (h : Sound s) {registries : List (Option Nat)}
    (hlive : ∀ i, some i ∈ registries → s.live i = true) : Sound { s with registries } where
  there i hi := h.there i (hlive i (List.contains_iff_mem.1 hi))
  ahead := h.ahead
  hubs i := { h.hubs i with
    entries := fun hi => (h.hubs i).entries (hlive i (List.contains_iff_mem.1 hi)) }
  handles := h.handles
  calls := h.calls

theorem fresh (h : Sound s) : Sound s.fresh := by
  have hlive : ∀ i, s.fresh.live i = true → s.live i = true ∨ i = s.hubs.length := fun i hi => by
    refine (List.mem_append.1 (List.contains_iff_mem.1 hi)).imp List.contains_iff_mem.2 fun hi => ?_
    exact Option.some.inj (List.mem_singleton.1 hi)
  have hlength : s.fresh.hubs.length = s.hubs.length + 1 := List.length_append
  refine ⟨fun i hi => ?_, fun i hi => h.ahead i ?_, fun i => ?_, fun hd => ?_, h.calls⟩
  · rw [hlength]
    rcases hlive i hi with hi | rfl
    · exact Nat.lt_succ_of_lt (h.there i hi)
    · exact Nat.lt_succ_self _
  · rw [hlength] at hi
    exact Nat.le_of_succ_le hi
  · rw [hub_fresh]
    refine { h.hubs i with entries := fun hi => ?_ }
    rcases hlive i hi with hi | rfl
    · exact (h.hubs i).entries hi
    · have hhub : s.hub s.hubs.length = {} := by simp [Switchboard.hub]
      rw [hhub, roster, show s.fresh.log = s.log from rfl, h.ahead _ (Nat.le_refl _)]
      rfl
  · exact (hub_fresh s hd.hub).symm ▸ h.handles hd

theorem unregister (h : Sound s) (name : String) : Sound (s.unregister name) := by
  unfold Switchboard.unregister
  split
  · exact h
  · rename_i hd hfind
    exact (h.fewer List.eraseP_subset).giveUp (h.handles hd (List.mem_of_find?_eq_some hfind))

end Sound

end

end TurnEngine.Switchboard
