import TurnEngine.Fallback.Subscribers

/-!
# What listeners do to a run

Listeners reach a run through the world and in no other way. What they keep of the world, all that
is announced to them keeps (`Subscribers.Keeps`). Two runs with different listeners stay in step as
long as their worlds, with who was called in them, stay related (`Lockstep`): so it makes no
difference to a run who panics (`Subscribers.Alike.lockstep`), nor to it and the other listeners
whether one is there who leaves the world alone (`Subscribers.SameBut.lockstep`), and with listeners
who all do that it is the run of the chain (`runWith_of_idle`).
-/

namespace TurnEngine.Fallback

variable {σ α : Type} {listeners : Subscribers σ}

/-! ## What is announced -/

/-- The listeners do not leave some states, whatever they hear. -/
def Subscribers.Keeps (listeners : Subscribers σ) (calm : σ → Prop) : Prop :=
  ∀ s, ∀ l ∈ (listeners s).callbacks, ∀ n s', calm s' → calm (l.hear n s').2

/-- Everybody who is there is told, also after a panic. -/
theorem Subscribers.tell_eq (listeners : Subscribers σ) (n : Notice) (r : Notified σ) :
    listeners.tell n r =
      { world := (listeners r.world).callbacks.foldl (fun s l => (l.hear n s).2) r.world
        heard := r.heard ++ (listeners r.world).callbacks.map fun l => (l.name, n) } := by
  unfold Subscribers.tell Hub.emit
  generalize (listeners r.world).callbacks = ls
  induction ls generalizing r with
  | nil => simp
  | cons l ls ih =>
    rw [List.foldl_cons, ih]
    simp

theorem Subscribers.Keeps.tell {calm : σ → Prop} (h : listeners.Keeps calm) (n : Notice)
    {r : Notified σ} (hr : calm r.world) : calm (listeners.tell n r).world := by
  rw [Subscribers.tell_eq]
  exact List.foldlRecOn (motive := calm) _ _ hr fun s hs l hl => h r.world l hl n s hs

theorem Subscribers.Keeps.announce {calm : σ → Prop} (h : listeners.Keeps calm)
    (events : List Event) {r : Notified σ} (hr : calm r.world) :
    calm (listeners.announce events r).world :=
  List.foldlRecOn (motive := fun r : Notified σ => calm r.world) _ _ hr fun _ hr n _ => h.tell n hr

/-- Those who are there all the time hear of every notice, one after the other. -/
theorem Subscribers.announce_heard {ls : List (Listener σ)} (h : ∀ s, (listeners s).callbacks = ls)
    (events : List Event) (r : Notified σ) :
    (listeners.announce events r).heard =
      r.heard ++ (notices events).flatMap fun n => ls.map fun l => (l.name, n) := by
  unfold Subscribers.announce
  induction notices events generalizing r with
  | nil => simp
  | cons n ns ih =>
    rw [List.foldl_cons, ih, Subscribers.tell_eq, h]
    simp

/-! ## Runs with two sets of listeners -/

/-- Two worlds that stay related with who was called in them, each with listeners of its own, while
the same happens in them. -/
structure Lockstep (xs ys : Subscribers σ) (R : Notified σ → Notified σ → Prop) : Prop where
  world : ∀ r r', R r r' → r.world = r'.world
  move : ∀ r r' s, R r r' → R { r with world := s } { r' with world := s }
  tell : ∀ n r r', R r r' → R (xs.tell n r) (ys.tell n r')

section
variable {xs ys : Subscribers σ} {R : Notified σ → Notified σ → Prop} (hR : Lockstep xs ys R)
include hR

theorem Lockstep.announce (events : List Event) {r r' : Notified σ} (h : R r r') :
    R (xs.announce events r) (ys.announce events r') := by
  unfold Subscribers.announce
  induction notices events generalizing r r' with
  | nil => exact h
  | cons n ns ih => exact ih (hR.tell n r r' h)

theorem Lockstep.runFromWith (c : Chain) (w : World σ α) (candidates : List String) (index : Nat)
    (rest : List String) (done : List Event) {r r' : Notified σ} (h : R r r') :
    let (course, ending, after) := c.runFromWith w xs candidates index rest done r
    let (course', ending', after') := c.runFromWith w ys candidates index rest done r'
    course' = course ∧ ending' = ending ∧ R after after' := by
  induction rest generalizing index done r r' with
  | nil => exact ⟨rfl, rfl, h⟩
  | cons reference rest ih =>
    unfold Chain.runFromWith
    rw [← hR.world r r' h]
    by_cases hfired : w.cancelled r.world = true
    · rw [if_pos hfired, if_pos hfired]
      exact ⟨rfl, rfl, h⟩
    · rw [if_neg hfired, if_neg hfired]
      obtain ⟨events, name, verdict, s⟩ := c.tryCandidate w reference r.world
      have hmoved := hR.move r r' s h
      cases verdict with
      | ended e => exact ⟨rfl, rfl, hmoved⟩
      | spent reason => exact ih (index + 1) _ (hR.announce _ hmoved)

theorem Lockstep.runWith (c : Chain) (w : World σ α) (candidates : List String) {r r' : Notified σ}
    (h : R r r') :
    let (course, ending, after) := c.runWith w xs candidates r
    let (course', ending', after') := c.runWith w ys candidates r'
    course' = course ∧ ending' = ending ∧ R after after' := by
  unfold Chain.runWith
  by_cases hnone : candidates.isEmpty = true
  · rw [if_pos hnone, if_pos hnone]
    exact ⟨rfl, rfl, h⟩
  · rw [if_neg hnone, if_neg hnone]
    exact hR.runFromWith c w candidates 0 candidates [] h

end

/-- What a listener does, whether it comes back or panics. -/
def Listener.effect (l : Listener σ) : Nat × (Notice → σ → σ) :=
  (l.name, fun n s => (l.hear n s).2)

/-- Listeners that do the same on both sides, but not all that panic on one side need to panic on
the other. -/
def Subscribers.Alike (xs ys : Subscribers σ) : Prop :=
  ∀ s, (xs s).callbacks.map Listener.effect = (ys s).callbacks.map Listener.effect

/-- Both sides differ in the listeners of one name, which leave the world alone: they come back or
panic, or are there on one side and not on the other. -/
structure Subscribers.SameBut (name : Nat) (xs ys : Subscribers σ) : Prop where
  others : ∀ s, (xs s).callbacks.filter (·.name ≠ name) = (ys s).callbacks.filter (·.name ≠ name)
  idle : ∀ s, ∀ l ∈ (xs s).callbacks ++ (ys s).callbacks, l.name = name →
    ∀ n s', (l.hear n s').2 = s'

theorem Subscribers.Alike.lockstep {xs ys : Subscribers σ} (h : xs.Alike ys) :
    Lockstep xs ys Eq where
  world _ _ hr := by rw [hr]
  move _ _ _ hr := by rw [hr]
  tell n r r' hr := by
    subst hr
    have heffects (zs : Subscribers σ) : zs.tell n r =
        { world := ((zs r.world).callbacks.map Listener.effect).foldl (fun s d => d.2 n s) r.world
          heard := r.heard ++
            ((zs r.world).callbacks.map Listener.effect).map fun d => (d.1, n) } := by
      rw [Subscribers.tell_eq, List.foldl_map, List.map_map]
      rfl
    rw [heffects xs, heffects ys, h r.world]

/-- One world on both sides, in which all but the listeners of one name have heard the same. -/
def Notified.SameBut (name : Nat) (r r' : Notified σ) : Prop :=
  r.world = r'.world ∧ r.heard.filter (·.1 ≠ name) = r'.heard.filter (·.1 ≠ name)

/-- What idle listeners do may be left out. -/
theorem foldl_hear_of_idle {name : Nat} (n : Notice) {ls : List (Listener σ)}
    (h : ∀ l ∈ ls, l.name = name → ∀ s, (l.hear n s).2 = s) (s : σ) :
    ls.foldl (fun s l => (l.hear n s).2) s =
      (ls.filter (·.name ≠ name)).foldl (fun s l => (l.hear n s).2) s := by
  induction ls generalizing s with
  | nil => rfl
  | cons l ls ih =>
    have hrest := ih fun l' hl' => h l' (List.mem_cons_of_mem l hl')
    by_cases hname : l.name = name
    · rw [List.foldl_cons, h l List.mem_cons_self hname s, hrest,
        List.filter_cons_of_neg (by simpa)]
    · rw [List.filter_cons_of_pos (by simpa), List.foldl_cons, List.foldl_cons, hrest]

theorem Subscribers.SameBut.lockstep {name : Nat} {xs ys : Subscribers σ} (h : xs.SameBut name ys) :
    Lockstep xs ys (Notified.SameBut name) where
  world _ _ hr := hr.1
  move _ _ _ hr := ⟨rfl, hr.2⟩
  tell n r r' hr := by
    obtain ⟨hworld, hheard⟩ := hr
    have hxs := fun l hl hname => h.idle r.world l (List.mem_append_left _ hl) hname n
    have hys := fun l hl hname => h.idle r.world l (List.mem_append_right _ hl) hname n
    have hrest (ls : List (Listener σ)) :
        (ls.map fun l => (l.name, n)).filter (·.1 ≠ name) =
          (ls.filter (·.name ≠ name)).map fun l => (l.name, n) := List.filter_map
    rw [Subscribers.tell_eq, Subscribers.tell_eq, ← hworld]
    constructor
    · rw [foldl_hear_of_idle n hxs, foldl_hear_of_idle n hys, h.others]
    · simp only [List.filter_append, hheard, hrest, h.others]

/-- Before listeners who leave the world alone, a run is the run of the chain. -/
theorem runWith_of_idle (c : Chain) (w : World σ α)
    (h : ∀ s, ∀ l ∈ (listeners s).callbacks, ∀ n s', (l.hear n s').2 = s')
    (candidates : List String) (r : Notified σ) :
    let (course, ending, after) := c.runWith w listeners candidates r
    c.run w candidates r.world = (course, ending, after.world) := by
  have hidle (n : Notice) (s : σ) :
      (listeners s).callbacks.foldl (fun s l => (l.hear n s).2) s = s :=
    List.foldlRecOn (motive := (· = s)) _ _ rfl fun s' hs' l hl => (h s l hl n s').trans hs'
  have hlockstep : Lockstep listeners silence fun r r' => r.world = r'.world :=
    { world := fun _ _ hr => hr
      move := fun _ _ _ _ => rfl
      tell := fun n r r' hr => by
        rw [Subscribers.tell_eq, Subscribers.tell_eq]
        exact (hidle n r.world).trans hr }
  have hrun := hlockstep.runWith c w candidates (rfl : r.world = r.world)
  rw [runWith_silence] at hrun
  obtain ⟨hcourse, hending, hworld⟩ := hrun
  simp only [Prod.ext_iff]
  exact ⟨hcourse, hending, hworld.symm⟩

end TurnEngine.Fallback
