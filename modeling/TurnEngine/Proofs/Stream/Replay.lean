import Mathlib.Logic.Basic
import TurnEngine.Stream.Protocol

/-!
# What the log of a machine tells

The log of a machine has what was done and who was called, and nothing of what came of it. That
follows from what listeners do when they are told of an event, by replaying the calls: the world
after a log (`worldAfter`), the listeners that were removed in its course (`removals`), and what
went on until one of them was (`whileThere`). A log can be replayed part by part
(`worldAfter_append`, `removals_append`, `whileThere_append`).
-/

namespace TurnEngine.Protocol

variable {κ σ : Type}

/-! ## Events -/

/-- The events that happened. -/
def announcements (log : List (Entry κ)) : List ProtocolEvent :=
  log.filterMap fun
    | .announced e => some e
    | _ => none

/-- What the listener with a number was told. -/
def heardBy (n : Nat) (log : List (Entry κ)) : List ProtocolEvent :=
  log.filterMap fun
    | .told k _ e => if k = n then some e else none
    | _ => none

@[simp] theorem announcements_append (a b : List (Entry κ)) :
    announcements (a ++ b) = announcements a ++ announcements b :=
  List.filterMap_append

@[simp] theorem heardBy_append (n : Nat) (a b : List (Entry κ)) :
    heardBy n (a ++ b) = heardBy n a ++ heardBy n b :=
  List.filterMap_append

theorem heardBy_told (n k : Nat) (c : κ) (e : ProtocolEvent) (log : List (Entry κ)) :
    heardBy n (.told k c e :: log) = (if k = n then [e] else []) ++ heardBy n log := by
  by_cases hk : k = n <;> simp [heardBy, hk]

theorem mem_heardBy {n : Nat} {c : κ} {e : ProtocolEvent} {log : List (Entry κ)}
    (h : .told n c e ∈ log) : e ∈ heardBy n log :=
  List.mem_filterMap.2 ⟨_, h, if_pos rfl⟩

/-! ### The tellings of an event -/

/-- What goes on when some listeners are told of an event, one after the other. -/
def tellings (xs : List (Nat × κ)) (e : ProtocolEvent) : List (Entry κ) :=
  xs.map fun x => .told x.1 x.2 e

theorem announcements_tellings (xs : List (Nat × κ)) (e : ProtocolEvent) :
    announcements (tellings xs e) = [] := by
  simp [announcements, tellings]

/-- Everybody is told once. -/
theorem heardBy_tellings {xs : List (Nat × κ)} (hxs : (xs.map (·.1)).Nodup) (n : Nat)
    (e : ProtocolEvent) :
    heardBy n (tellings xs e) = if n ∈ xs.map (·.1) then [e] else [] := by
  induction xs with
  | nil => rfl
  | cons x xs ih =>
    obtain ⟨hx, hxs⟩ := List.nodup_cons.1 hxs
    rw [show tellings (x :: xs) e = .told x.1 x.2 e :: tellings xs e from rfl, heardBy_told, ih hxs,
      List.map_cons]
    by_cases hn : x.1 = n
    · rw [if_pos hn, if_neg (hn ▸ hx), if_pos (hn ▸ List.mem_cons_self), List.append_nil]
    · rw [if_neg hn, List.nil_append]
      exact if_congr (by simp [Ne.symm hn]) rfl rfl

/-! ## Replays -/

section
variable (hear : Behaviour κ σ)

/-- The world after something went on in it. -/
def Entry.after (s : σ) : Entry κ → σ
  | .told _ c e => (guarded (hear c e s)).world
  | _ => s

/-- The numbers of the listeners that something removes which goes on in a world: one by hand, or
those that a listener removes when it is told of an event. -/
def Entry.removed (s : σ) : Entry κ → List Nat
  | .dismissed n => [n]
  | .told _ c e => (guarded (hear c e s)).removed
  | _ => []

/-- The world after a log. -/
def worldAfter (s : σ) (log : List (Entry κ)) : σ :=
  log.foldl (fun s x => x.after hear s) s

/-- The numbers of the listeners that are removed in the course of a log. -/
def removals : σ → List (Entry κ) → List Nat
  | _, [] => []
  | s, x :: log => x.removed hear s ++ removals (x.after hear s) log

/-- What went on until the listener with a number was removed. -/
def whileThere (n : Nat) : σ → List (Entry κ) → List (Entry κ)
  | _, [] => []
  | s, x :: log => if n ∈ x.removed hear s then [] else x :: whileThere n (x.after hear s) log

theorem worldAfter_append (s : σ) (a b : List (Entry κ)) :
    worldAfter hear s (a ++ b) = worldAfter hear (worldAfter hear s a) b :=
  List.foldl_append

theorem removals_append (s : σ) (a b : List (Entry κ)) :
    removals hear s (a ++ b) = removals hear s a ++ removals hear (worldAfter hear s a) b := by
  induction a generalizing s with
  | nil => rfl
  | cons x a ih =>
    rw [List.cons_append, removals, ih, removals, List.append_assoc]
    rfl

theorem whileThere_append (n : Nat) (s : σ) (a b : List (Entry κ)) :
    whileThere hear n s (a ++ b) =
      if n ∈ removals hear s a then whileThere hear n s a
      else a ++ whileThere hear n (worldAfter hear s a) b := by
  induction a generalizing s with
  | nil => rfl
  | cons x a ih =>
    rw [List.cons_append, whileThere, ih, removals, whileThere]
    by_cases hx : n ∈ x.removed hear s
    · rw [if_pos hx, if_pos (List.mem_append_left _ hx), if_pos hx]
    · rw [if_neg hx, if_neg hx]
      by_cases ha : n ∈ removals hear (x.after hear s) a
      · rw [if_pos ha, if_pos (List.mem_append_right _ ha)]
      · rw [if_neg ha, if_neg (by simp [hx, ha])]
        rfl

theorem whileThere_initial (n : Nat) (s : σ) (log : List (Entry κ)) :
    whileThere hear n s log <+: log := by
  induction log generalizing s with
  | nil => exact List.nil_prefix
  | cons x log ih =>
    rw [whileThere]
    split
    · exact List.nil_prefix
    · exact List.cons_prefix_cons.2 ⟨rfl, ih _⟩

/-- A listener that is not removed is there all the time. -/
theorem whileThere_of_not_mem {n : Nat} {s : σ} {log : List (Entry κ)}
    (h : n ∉ removals hear s log) : whileThere hear n s log = log := by
  have happend := whileThere_append hear n s log []
  rwa [List.append_nil, if_neg h, whileThere, List.append_nil] at happend

/-- Nothing happens in a part of a time in which nothing happens. -/
theorem announcements_whileThere {log : List (Entry κ)} (h : announcements log = []) (n : Nat)
    (s : σ) : announcements (whileThere hear n s log) = [] :=
  List.sublist_nil.1 (h ▸ (whileThere_initial hear n s log).sublist.filterMap _)

end

end TurnEngine.Protocol
