import TurnEngine.Lane.Pool
import TurnEngine.Proofs.Keyed
import TurnEngine.Proofs.Lane.Boxes

/-!
# What befalls the callers of a pool

A caller that has to wait enters a queue, may be sent a letter, and ends its wait one way or
another. The log of a run (`Pool.log`) has these incidents in order, read off from the outside:
what the pool answered, and which letters lie in boxes that did not lie there before.

`Waiters.Takes` are the rules of one incident: tickets go up, a letter goes to somebody who has
none, a grant to whoever has waited longest for the key, and a wait ends in a way that fits the
letter in the box (`Fits`). What follows from the rules alone is here (`Recorded`): in any list of incidents
that keeps them, no caller gets a second letter or a second end, and grants go out in the order in
which callers entered (`granted_in_order`).
-/

namespace TurnEngine.Lane

/-- How the wait of a caller ends. -/
inductive Ending where
  /-- It has a handle. -/
  | handle (x : Handle)
  | failed (f : Failure)
  /-- It goes away. -/
  | dropped
  deriving DecidableEq, Repr

/-- Something that befalls a caller. -/
inductive Incident where
  /-- It waits in the queue of a key. -/
  | enqueued (ticket : Nat) (key : String)
  | sent (ticket : Nat) (letter : Letter)
  | ended (ticket : Nat) (ending : Ending)
  deriving DecidableEq, Repr

/-! ## The log -/

/-- The letter in the box of a caller. -/
def boxed (callers : List Caller) (ticket : Nat) : Option Letter :=
  (callers.find? fun c => c.ticket = ticket).bind (·.letter)

/-- The letters that lie in boxes now and did not before. -/
def mail (before now : List Caller) : List Incident :=
  now.filterMap fun c =>
    if c.letter = boxed before c.ticket then none else c.letter.map (.sent c.ticket)

namespace Pool

/-- What an answer of a pool means for the caller that gets it. -/
def told (h : Pool) : Op → Reply → List Incident
  | .acquire key, .ticket t => [.enqueued t key]
  | .collect t, .handle x => [.ended t (.handle x)]
  | .collect t, .failed f => [.ended t (.failed f)]
  | .expire t _, .handle x => [.ended t (.handle x)]
  | .expire t _, .failed f => [.ended t (.failed f)]
  | .abandon t, _ => if isListening h.registry.callers t then [.ended t .dropped] else []
  | _, _ => []

/-- What an operation brings: whoever acts learns how it fares, others get letters. -/
def incidents (h : Pool) (op : Op) : List Incident :=
  h.told op (h.apply op).2 ++ mail h.registry.callers (h.apply op).1.registry.callers

/-- All that befalls callers while some operations are performed. -/
def log (h : Pool) : List Op → List Incident
  | [] => []
  | op :: ops => h.incidents op ++ (h.apply op).1.log ops

end Pool

/-- The tickets that were given out, in order. -/
def tickets (log : List Incident) : List Nat :=
  log.filterMap fun
    | .enqueued t _ => some t
    | _ => none

/-- The letters sent to a caller. -/
def lettersTo (log : List Incident) (ticket : Nat) : List Letter :=
  log.filterMap fun
    | .sent t letter => if t = ticket then some letter else none
    | _ => none

/-- How the wait of a caller ended. -/
def endingsOf (log : List Incident) (ticket : Nat) : List Ending :=
  log.filterMap fun
    | .ended t e => if t = ticket then some e else none
    | _ => none

theorem mem_of_lettersTo {log : List Incident} {t : Nat} {letter : Letter}
    (h : letter ∈ lettersTo log t) : .sent t letter ∈ log := by
  obtain ⟨i, hi, he⟩ := List.mem_filterMap.1 h
  cases i with
  | sent u l =>
    simp only [Option.ite_none_right_eq_some, Option.some.injEq] at he
    obtain ⟨rfl, rfl⟩ := he
    exact hi
  | enqueued => cases he
  | ended => cases he

theorem mem_of_endingsOf {log : List Incident} {t : Nat} {e : Ending} (h : e ∈ endingsOf log t) :
    .ended t e ∈ log := by
  obtain ⟨i, hi, he⟩ := List.mem_filterMap.1 h
  cases i with
  | ended u e' =>
    simp only [Option.ite_none_right_eq_some, Option.some.injEq] at he
    obtain ⟨rfl, rfl⟩ := he
    exact hi
  | enqueued => cases he
  | sent => cases he

theorem lettersTo_append (log log' : List Incident) (t : Nat) :
    lettersTo (log ++ log') t = lettersTo log t ++ lettersTo log' t :=
  List.filterMap_append

theorem endingsOf_append (log log' : List Incident) (t : Nat) :
    endingsOf (log ++ log') t = endingsOf log t ++ endingsOf log' t :=
  List.filterMap_append

/-! ## The rules -/

/-- The ends that fit what lies in the box of a caller of a key. -/
inductive Fits (key : String) : Option Letter → Ending → Prop
  | timedOut (waitedMs : Nat) : Fits key none (.failed (.laneTimeout key waitedMs))
  | admitted {generation : Nat} {x : Handle} (hk : x.key = key) (hg : x.generation = generation)
      (hr : x.released = false) : Fits key (some (.granted generation)) (.handle x)
  | cleared : Fits key (some .cleared) (.failed (.laneCleared key))
  | dropped (letter : Option Letter) : Fits key letter .dropped

/-- The callers that are there, and the ticket of the next one. -/
structure Waiters where
  next : Nat := 0
  callers : List Caller := []

namespace Waiters

/-- An incident by the rules, and who waits after it. -/
inductive Takes : Waiters → Incident → Waiters → Prop
  | enqueued (r : Waiters) (key : String) :
      Takes r (.enqueued r.next key) ⟨r.next + 1, r.callers ++ [{ ticket := r.next, key }]⟩
  | sent {r : Waiters} {c : Caller} (hc : c ∈ r.callers) (hl : c.letter = none) (letter : Letter)
      (hfirst : ∀ g, letter = .granted g → ∀ d ∈ r.callers, d.key = c.key → d.letter = none →
        c.ticket ≤ d.ticket) :
      Takes r (.sent c.ticket letter) { r with callers := postAll r.callers [c.ticket] letter }
  | ended {r : Waiters} {c : Caller} (hc : c ∈ r.callers) {e : Ending}
      (he : Fits c.key c.letter e) :
      Takes r (.ended c.ticket e)
        { r with callers := r.callers.filter fun d => d.ticket ≠ c.ticket }

/-- Incidents by the rules, one after the other. -/
inductive Passes : Waiters → List Incident → Waiters → Prop
  | nil (r : Waiters) : Passes r [] r
  | cons {r r' r'' : Waiters} {i : Incident} {is : List Incident} (h : Takes r i r')
      (hs : Passes r' is r'') : Passes r (i :: is) r''

theorem Passes.append {r r' r'' : Waiters} {is js : List Incident} (h : r.Passes is r')
    (h' : r'.Passes js r'') : r.Passes (is ++ js) r'' := by
  induction h with
  | nil => exact h'
  | cons hi _ ih => exact .cons hi (ih h')

theorem Takes.passes {r r' : Waiters} {i : Incident} (h : r.Takes i r') : r.Passes [i] r' :=
  .cons h (.nil _)

theorem Passes.split {r r'' : Waiters} {is js : List Incident} (h : r.Passes (is ++ js) r'') :
    ∃ r', r.Passes is r' ∧ r'.Passes js r'' := by
  induction is generalizing r with
  | nil => exact ⟨r, .nil r, h⟩
  | cons i is ih =>
    cases h with
    | cons hi hs =>
      obtain ⟨r', h₁, h₂⟩ := ih hs
      exact ⟨r', .cons hi h₁, h₂⟩

end Waiters

/-! ## What a log says of a caller -/

/-- A caller that is there: its wait has not ended, and what it was sent lies in its box. -/
structure IsHere (log : List Incident) (r : Waiters) (t : Nat) (c : Caller) : Prop where
  mem : c ∈ r.callers
  ticket : c.ticket = t
  letters : lettersTo log t = c.letter.toList
  waiting : endingsOf log t = []

/-- A caller of a key that is gone: its wait ended once, as fits what it was sent. -/
structure IsGone (log : List Incident) (r : Waiters) (t : Nat) (key : String) : Prop where
  absent : ∀ c ∈ r.callers, c.ticket ≠ t
  ended : ∃ letter e, lettersTo log t = letter.toList ∧ endingsOf log t = [e] ∧ Fits key letter e

/-- Who waits, as the log has it. -/
structure Recorded (log : List Incident) (r : Waiters) : Prop where
  unique : (r.callers.map (·.ticket)).Nodup
  ascending : (tickets log).Pairwise (· < ·)
  issued : ∀ t key, .enqueued t key ∈ log → t < r.next
  entered : ∀ c ∈ r.callers, .enqueued c.ticket c.key ∈ log
  known : ∀ t key, .enqueued t key ∈ log →
    (∃ c, IsHere log r t c ∧ c.key = key) ∨ IsGone log r t key
  unknown : ∀ t, r.next ≤ t → lettersTo log t = [] ∧ endingsOf log t = []

theorem recorded_nil : Recorded [] {} := by
  constructor <;> simp [tickets, lettersTo, endingsOf]

namespace Recorded

variable {log : List Incident} {r r' : Waiters}

theorem here (h : Recorded log r) {c : Caller} (hc : c ∈ r.callers) : IsHere log r c.ticket c := by
  rcases h.known c.ticket c.key (h.entered c hc) with ⟨d, hd, -⟩ | hgone
  · rw [List.inj_on_of_nodup_map h.unique hc hd.mem hd.ticket.symm]
    exact ⟨hd.mem, rfl, hd.ticket ▸ hd.letters, hd.ticket ▸ hd.waiting⟩
  · exact absurd rfl (hgone.absent c hc)

theorem lt_next_of_mem (h : Recorded log r) {t : Nat} (ht : t ∈ tickets log) : t < r.next := by
  obtain ⟨i, hi, he⟩ := List.mem_filterMap.1 ht
  cases i with
  | enqueued u key =>
    obtain rfl : u = t := Option.some.inj he
    exact h.issued u key hi
  | sent => cases he
  | ended => cases he

theorem enqueue (h : Recorded log r) (key : String) :
    Recorded (log ++ [.enqueued r.next key])
      ⟨r.next + 1, r.callers ++ [{ ticket := r.next, key }]⟩ := by
  have hlt : ∀ c ∈ r.callers, c.ticket < r.next := fun c hc => h.issued _ _ (h.entered c hc)
  have hl (t : Nat) : lettersTo (log ++ [.enqueued r.next key]) t = lettersTo log t := by
    simp [lettersTo]
  have he (t : Nat) : endingsOf (log ++ [.enqueued r.next key]) t = endingsOf log t := by
    simp [endingsOf]
  have hmem {t : Nat} {k : String} (ht : .enqueued t k ∈ log ++ [.enqueued r.next key]) :
      .enqueued t k ∈ log ∨ (t = r.next ∧ k = key) := by simpa using ht
  refine ⟨Keyed.nodup_concat h.unique hlt, ?_, fun t k ht => ?_, fun c hc => ?_, fun t k ht => ?_,
    fun t ht => ?_⟩
  · simp only [tickets, List.filterMap_append, List.filterMap_cons, List.filterMap_nil]
    refine List.pairwise_append.2 ⟨h.ascending, List.pairwise_singleton _ _, fun t ht u hu => ?_⟩
    obtain rfl := List.mem_singleton.1 hu
    exact h.lt_next_of_mem ht
  · rcases hmem ht with ht | ⟨rfl, -⟩
    · exact Nat.lt_succ_of_lt (h.issued t k ht)
    · exact Nat.lt_succ_self _
  · rcases List.mem_append.1 hc with hc | hc
    · exact List.mem_append_left _ (h.entered c hc)
    · rw [List.mem_singleton.1 hc]
      simp
  · rcases hmem ht with ht | ⟨rfl, rfl⟩
    · rcases h.known t k ht with ⟨c, hc, hk⟩ | hgone
      · exact .inl ⟨c, ⟨List.mem_append_left _ hc.mem, hc.ticket, (hl t).trans hc.letters,
          (he t).trans hc.waiting⟩, hk⟩
      · obtain ⟨letter, e, hletters, hendings, hfits⟩ := hgone.ended
        refine .inr ⟨fun c hc => ?_, letter, e, (hl t).trans hletters, (he t).trans hendings, hfits⟩
        rcases List.mem_append.1 hc with hc | hc
        · exact hgone.absent c hc
        · rw [List.mem_singleton.1 hc]
          exact Nat.ne_of_gt (h.issued t k ht)
    · obtain ⟨hletters, hendings⟩ := h.unknown r.next (Nat.le_refl _)
      exact .inl ⟨{ ticket := r.next, key := k }, ⟨by simp, rfl, (hl _).trans hletters,
        (he _).trans hendings⟩, rfl⟩
  · rw [hl, he]
    exact h.unknown t (Nat.le_of_succ_le ht)

theorem send (h : Recorded log r) {c : Caller} (hc : c ∈ r.callers) (hl : c.letter = none)
    (letter : Letter) :
    Recorded (log ++ [.sent c.ticket letter])
      { r with callers := postAll r.callers [c.ticket] letter } := by
  have hletters {t : Nat} (ht : t ≠ c.ticket) :
      lettersTo (log ++ [.sent c.ticket letter]) t = lettersTo log t := by
    simp [lettersTo, ht.symm]
  have hendings (t : Nat) : endingsOf (log ++ [.sent c.ticket letter]) t = endingsOf log t := by
    simp [endingsOf]
  have hmem {t : Nat} {k : String} (ht : .enqueued t k ∈ log ++ [.sent c.ticket letter]) :
      .enqueued t k ∈ log := by simpa using ht
  refine ⟨?_, ?_, fun t k ht => h.issued t k (hmem ht), fun d hd => ?_, fun t k ht => ?_,
    fun t ht => ?_⟩
  · dsimp only
    rw [map_ticket_postAll]
    exact h.unique
  · simpa [tickets] using h.ascending
  · rcases mem_postAll.1 hd with ⟨hd, -⟩ | ⟨d, hd', -, rfl⟩
    · exact List.mem_append_left _ (h.entered d hd)
    · exact List.mem_append_left _ (h.entered d hd')
  · by_cases he : t = c.ticket
    · subst he
      have hhere := h.here hc
      -- whoever is sent a letter is there, and has none so far
      rcases h.known c.ticket k (hmem ht) with ⟨d, hd, hk⟩ | hgone
      · obtain rfl := List.inj_on_of_nodup_map h.unique hc hd.mem hd.ticket.symm
        refine .inl ⟨{ c with letter := some letter }, ⟨mem_postAll.2 (.inr ⟨c, hc, by simp, rfl⟩),
          rfl, ?_, (hendings _).trans hhere.waiting⟩, hk⟩
        rw [lettersTo_append, hhere.letters, hl]
        simp [lettersTo]
      · exact absurd rfl (hgone.absent c hc)
    · have hts : ∀ d : Caller, d.ticket = t → d.ticket ∉ [c.ticket] := fun d hd => by
        rw [hd, List.mem_singleton]
        exact he
      rcases h.known t k (hmem ht) with ⟨d, hd, hk⟩ | hgone
      · exact .inl ⟨d, ⟨mem_postAll.2 (.inl ⟨hd.mem, hts d hd.ticket⟩), hd.ticket,
          (hletters he).trans hd.letters, (hendings t).trans hd.waiting⟩, hk⟩
      · obtain ⟨letter', e, hletters', hendings', hfits⟩ := hgone.ended
        refine .inr ⟨fun d hd => ?_, letter', e, (hletters he).trans hletters',
          (hendings t).trans hendings', hfits⟩
        rcases mem_postAll.1 hd with ⟨hd, -⟩ | ⟨d, hd', -, rfl⟩
        · exact hgone.absent d hd
        · exact hgone.absent d hd'
  · have hlt := h.issued _ _ (h.entered c hc)
    dsimp only at ht
    rw [hletters (by omega), hendings]
    exact h.unknown t ht

theorem depart (h : Recorded log r) {c : Caller} (hc : c ∈ r.callers) {e : Ending}
    (he : Fits c.key c.letter e) :
    Recorded (log ++ [.ended c.ticket e])
      { r with callers := r.callers.filter fun d => d.ticket ≠ c.ticket } := by
  have hletters (t : Nat) : lettersTo (log ++ [.ended c.ticket e]) t = lettersTo log t := by
    simp [lettersTo]
  have hendings {t : Nat} (ht : t ≠ c.ticket) :
      endingsOf (log ++ [.ended c.ticket e]) t = endingsOf log t := by
    simp [endingsOf, ht.symm]
  have hmem {t : Nat} {k : String} (ht : .enqueued t k ∈ log ++ [.ended c.ticket e]) :
      .enqueued t k ∈ log := by simpa using ht
  refine ⟨Keyed.nodup_remove h.unique c.ticket, ?_, fun t k ht => h.issued t k (hmem ht),
    fun d hd => List.mem_append_left _ (h.entered d (List.mem_of_mem_filter hd)), fun t k ht => ?_,
    fun t ht => ?_⟩
  · simpa [tickets] using h.ascending
  · by_cases hte : t = c.ticket
    · subst hte
      have hhere := h.here hc
      rcases h.known c.ticket k (hmem ht) with ⟨d, hd, rfl⟩ | hgone
      · obtain rfl := List.inj_on_of_nodup_map h.unique hc hd.mem hd.ticket.symm
        refine .inr ⟨fun d hd => by simpa using (List.mem_filter.1 hd).2, c.letter, e,
          (hletters _).trans hhere.letters, ?_, he⟩
        rw [endingsOf_append, hhere.waiting]
        simp [endingsOf]
      · exact absurd rfl (hgone.absent c hc)
    · rcases h.known t k (hmem ht) with ⟨d, hd, hk⟩ | hgone
      · refine .inl ⟨d, ⟨List.mem_filter.2 ⟨hd.mem, ?_⟩, hd.ticket, (hletters t).trans hd.letters,
          (hendings hte).trans hd.waiting⟩, hk⟩
        simpa [hd.ticket] using hte
      · obtain ⟨letter, e', hletters', hendings', hfits⟩ := hgone.ended
        exact .inr ⟨fun d hd => hgone.absent d (List.mem_of_mem_filter hd), letter, e',
          (hletters t).trans hletters', (hendings hte).trans hendings', hfits⟩
  · have hlt := h.issued _ _ (h.entered c hc)
    dsimp only at ht
    rw [hletters, hendings (by omega)]
    exact h.unknown t ht

/-- What every incident keeps. -/
theorem next (h : Recorded log r) {i : Incident} (hi : r.Takes i r') :
    Recorded (log ++ [i]) r' := by
  cases hi with
  | enqueued key => exact h.enqueue key
  | sent hc hl letter => exact h.send hc hl letter
  | ended hc he => exact h.depart hc he

theorem passes (h : Recorded log r) {is : List Incident} (hs : r.Passes is r') :
    Recorded (log ++ is) r' := by
  induction hs generalizing log with
  | nil =>
    rw [List.append_nil]
    exact h
  | @cons _ _ _ i is hi _ ih =>
    rw [show log ++ i :: is = log ++ [i] ++ is by simp]
    exact ih (h.next hi)

end Recorded

/-! ## Order -/

/-- Something by which a caller leaves its queue: a letter, or an end that needs none. -/
inductive Leaves (t : Nat) : Incident → Prop
  | granted (generation : Nat) : Leaves t (.sent t (.granted generation))
  | cleared : Leaves t (.sent t .cleared)
  | timedOut (key : String) (waitedMs : Nat) :
      Leaves t (.ended t (.failed (.laneTimeout key waitedMs)))
  | dropped : Leaves t (.ended t .dropped)

/-- A caller that is gone or has a letter has left its queue. -/
theorem IsGone.leaves {log : List Incident} {r : Waiters} {t : Nat} {key : String}
    (h : IsGone log r t key) : ∃ i ∈ log, Leaves t i := by
  obtain ⟨letter, e, hletters, hendings, hfits⟩ := h.ended
  have he : .ended t e ∈ log := mem_of_endingsOf (by rw [hendings]; simp)
  cases letter with
  | some letter =>
    have hl : .sent t letter ∈ log := mem_of_lettersTo (by rw [hletters]; simp)
    cases letter with
    | granted g => exact ⟨_, hl, .granted g⟩
    | cleared => exact ⟨_, hl, .cleared⟩
  | none =>
    cases hfits with
    | timedOut waitedMs => exact ⟨_, he, .timedOut key waitedMs⟩
    | dropped => exact ⟨_, he, .dropped⟩

theorem IsHere.leaves {log : List Incident} {r : Waiters} {t : Nat} {c : Caller}
    (h : IsHere log r t c) (hl : c.letter ≠ none) : ∃ i ∈ log, Leaves t i := by
  obtain ⟨letter, hletter⟩ := Option.ne_none_iff_exists'.1 hl
  have hsent : .sent t letter ∈ log := mem_of_lettersTo (by rw [h.letters, hletter]; simp)
  cases letter with
  | granted g => exact ⟨_, hsent, .granted g⟩
  | cleared => exact ⟨_, hsent, .cleared⟩

/-- Whoever entered the queue of a key before somebody who is granted a slot has left it. -/
theorem granted_in_order {r : Waiters} {before after : List Incident} {a b g : Nat} {key : String}
    (h : Waiters.Passes {} (before ++ .sent b (.granted g) :: after) r)
    (hab : [.enqueued a key, .enqueued b key].Sublist before) : ∃ i ∈ before, Leaves a i := by
  obtain ⟨waiters, hbefore, hafter⟩ := h.split
  have hrec : Recorded before waiters := recorded_nil.passes hbefore
  have hlt : a < b := by
    have hsub : (tickets [.enqueued a key, .enqueued b key]).Sublist (tickets before) :=
      hab.filterMap _
    simpa [tickets] using hrec.ascending.sublist hsub
  have ha : .enqueued a key ∈ before := hab.subset (by simp)
  have hb : .enqueued b key ∈ before := hab.subset (by simp)
  rcases hrec.known a key ha with ⟨c, hc, rfl⟩ | hgone
  · refine hc.leaves fun hl => ?_
    -- a caller without a letter would have been granted the slot
    cases hafter with
    | cons hi =>
      cases hi with
      | @sent d hd hdl _ hfirst =>
        rcases hrec.known d.ticket c.key hb with ⟨d', hd', hk⟩ | hgone
        · obtain rfl := List.inj_on_of_nodup_map hrec.unique hd hd'.mem hd'.ticket.symm
          have := hfirst g rfl c hc.mem hk.symm hl
          have := hc.ticket
          omega
        · exact absurd rfl (hgone.absent d hd)
  · exact hgone.leaves

end TurnEngine.Lane
