import TurnEngine.Proofs.Fallback.Listeners
import TurnEngine.Proofs.Fallback.Tours

/-!
# The notices of a run

A run with listeners goes from candidate to candidate as any run does, except that its listeners are
called in between (`NotifiedTour`, `runWith_tour`). What it says is told candidate by candidate,
each that was looked at with the notice of its giving up after it (`courseOf`, `NotifiedTour.told`).
With the signal never fired, every candidate but the last one has such a notice, whether the run
ends there or all candidates are spent; who is announced, in whose place and for what reason is said
by `Visit.Handover`. `notices_run` is the whole account, with what the listeners hear and with what a
panic changes: nothing.
-/

namespace TurnEngine.Fallback

variable {σ α : Type}

/-- A run with listeners from the candidate at an index on: the visits, the events, the ending,
unless all candidates are spent, and the world after it, with who was called. -/
inductive NotifiedTour (c : Chain) (w : World σ α) (listeners : Subscribers σ)
    (candidates : List String) :
    Nat → List String → Notified σ → List (Visit σ α) → List Event → Option (Ending α) →
      Notified σ → Prop
  | allSpent {index : Nat} {r : Notified σ} :
      NotifiedTour c w listeners candidates index [] r [] [] none r
  | fired {index : Nat} {reference : String} {rest : List String} {r : Notified σ} :
      w.cancelled r.world = true →
      NotifiedTour c w listeners candidates index (reference :: rest) r [] []
        (some (.failed .cancelled)) r
  | ended {index : Nat} {v : Visit σ α} {e : Ending α} {rest : List String} {r : Notified σ} :
      v.found = r.world → w.cancelled v.found = false → v.Goes c w (.ended e) →
      NotifiedTour c w listeners candidates index (v.reference :: rest) r [v]
        (.visit index :: v.events c w) (some e) { r with world := v.left }
  | next {index : Nat} {v : Visit σ α} {reason : Reason} {vs : List (Visit σ α)}
      {rest : List String} {course : List Event} {ending : Option (Ending α)}
      {r after : Notified σ} :
      v.found = r.world → w.cancelled v.found = false → v.Goes c w (.spent reason) →
      NotifiedTour c w listeners candidates (index + 1) rest
        (listeners.announce (Chain.advance candidates index (v.name c) reason)
          { r with world := v.left }) vs course ending after →
      NotifiedTour c w listeners candidates index (v.reference :: rest) r (v :: vs)
        (.visit index :: v.events c w ++
          Chain.advance candidates index (v.name c) reason ++ course) ending after

/-- What is said of some candidates one after the other, each followed by the notice of its giving
up if there is one. -/
def courseOf (c : Chain) (w : World σ α) : Nat → List (Visit σ α) → List Notice → List Event
  | _, [], _ => []
  | index, v :: vs, [] => .visit index :: v.events c w ++ courseOf c w (index + 1) vs []
  | index, v :: vs, n :: ns =>
    .visit index :: v.events c w ++ .notice n :: courseOf c w (index + 1) vs ns

/-- Why a candidate is given up. -/
inductive Visit.GivenUp (c : Chain) (w : World σ α) (v : Visit σ α) : Reason → Prop
  | unresolved : c.resolve v.reference = none → GivenUp c w v .modelUnavailable
  /-- The circuit was open when the candidate was reached. -/
  | skipped {m : Model} : c.resolve v.reference = some m → (v.look w m.provider).2 = .tripped →
      GivenUp c w v .modelUnavailable
  /-- The last call ended with an open circuit or too many probes. -/
  | turnedAway {ts : List (Try σ α)} {t : Try σ α} {f : Failure} : v.tries = ts ++ [t] →
      t.result = .back (.error f) → f.isBreakerRejection = true → GivenUp c w v .modelUnavailable
  /-- The last call failed in another way. -/
  | failed {ts : List (Try σ α)} {t : Try σ α} {f : Failure} {reason : Reason} :
      v.tries = ts ++ [t] → t.result = .back (.error f) → f.isBreakerRejection = false →
      c.classify f = some reason → GivenUp c w v reason

/-- The notice with a number tells that the candidate of this number is given up for the next
one. -/
structure Visit.Handover (c : Chain) (w : World σ α) (candidates : List String) (index : Nat)
    (v : Visit σ α) (n : Notice) : Prop where
  previous : n.previousModel = v.name c
  next : candidates[index + 1]? = some n.nextModel
  reason : v.GivenUp c w n.reason

/-- How a run ends, and how many notices it makes by then. -/
inductive NoticeCount (c : Chain) (w : World σ α) (candidates : List String)
    (visits : List (Visit σ α)) (course : List Event) : Ending α → Prop
  | nobody : candidates = [] → course = [] →
      NoticeCount c w candidates visits course (.failed (.config "no fallback candidates given"))
  /-- It ends at the candidate that is reached after some others. -/
  | settled {vs : List (Visit σ α)} {v : Visit σ α} {e : Ending α} : visits = vs ++ [v] →
      v.Goes c w (.ended e) → (notices course).length = vs.length →
      NoticeCount c w candidates visits course e
  | exhausted : candidates ≠ [] → visits.length = candidates.length →
      (notices course).length = candidates.length - 1 →
      NoticeCount c w candidates visits course (.failed (.exhausted (trail course)))

variable {c : Chain} {w : World σ α} {listeners : Subscribers σ} {candidates : List String}

/-! ## Every run is a tour with notices -/

theorem runFromWith_tour (c : Chain) (w : World σ α) (listeners : Subscribers σ)
    (candidates : List String) (index : Nat) (rest : List String) (done : List Event)
    (r : Notified σ) :
    let (course, ending, after) := c.runFromWith w listeners candidates index rest done r
    ∃ visits more e, NotifiedTour c w listeners candidates index rest r visits more e after ∧
      course = done ++ more ∧ ending = e.getD (.failed (.exhausted (trail course))) := by
  induction rest generalizing index done r with
  | nil => exact ⟨[], [], none, .allSpent, by simp, rfl⟩
  | cons reference rest ih =>
    have hvisit := tryCandidate_goes c w reference r.world
    unfold Chain.runFromWith
    by_cases hfired : w.cancelled r.world = true
    · rw [if_pos hfired]
      exact ⟨[], [], _, .fired hfired, by simp, rfl⟩
    · rw [if_neg hfired]
      cases hcandidate : c.tryCandidate w reference r.world with
      | mk events answer =>
        obtain ⟨name, verdict, left⟩ := answer
        rw [hcandidate] at hvisit
        obtain ⟨v, rfl, hfound, rfl, hgoes, rfl, rfl⟩ := hvisit
        have hunfired : w.cancelled v.found = false := by
          rw [hfound]
          exact Bool.eq_false_iff.2 hfired
        dsimp only
        cases verdict with
        | ended e => exact ⟨[v], _, some e, .ended hfound hunfired hgoes, rfl, rfl⟩
        | spent reason =>
          obtain ⟨visits, more, e, htour, hcourse, hending⟩ := ih (index + 1)
            (done ++ .visit index :: v.events c w ++
              Chain.advance candidates index (v.name c) reason)
            (listeners.announce (Chain.advance candidates index (v.name c) reason)
              { r with world := v.left })
          refine ⟨v :: visits, _, e, .next hfound hunfired hgoes htour, ?_, hending⟩
          rw [hcourse]
          simp

theorem runWith_tour (c : Chain) (w : World σ α) (listeners : Subscribers σ)
    (hne : candidates ≠ []) (r : Notified σ) :
    let (course, ending, after) := c.runWith w listeners candidates r
    ∃ visits e, NotifiedTour c w listeners candidates 0 candidates r visits course e after ∧
      ending = e.getD (.failed (.exhausted (trail course))) := by
  have hrun : c.runWith w listeners candidates r =
      c.runFromWith w listeners candidates 0 candidates [] r := by
    rw [Chain.runWith, if_neg (by simpa using hne)]
  obtain ⟨visits, more, e, htour, hcourse, hending⟩ :=
    runFromWith_tour c w listeners candidates 0 candidates [] r
  rw [List.nil_append] at hcourse
  rw [hrun]
  exact ⟨visits, e, hcourse ▸ htour, hending⟩

/-! ## Why a candidate is given up -/

/-- The last call of a candidate that is given up was turned away, or failed for the reason. -/
theorem Spell.last_of_spent {m : Model} {held : Breaker.Ref} {left : Nat} {s s' : σ}
    {ts : List (Try σ α)} {reason : Reason} (h : Spell c w m held left s ts (.spent reason) s') :
    ∃ earlier t, ts = earlier ++ [t] ∧
      (t.Rejected ∧ reason = .modelUnavailable ∨ t.Worthy c reason) := by
  generalize hv : (Verdict.spent reason : Verdict α) = v at h
  induction h with
  | fired _ => cases hv
  | @last left t v s _ hcloses =>
    cases hcloses with
    | settled _ => cases hv
    | turnedAway hrejected =>
      cases hv
      exact ⟨[], t, rfl, .inl ⟨hrejected, rfl⟩⟩
    | usedUp _ hworthy =>
      cases hv
      exact ⟨[], t, rfl, .inr hworthy⟩
    | dropped _ _ _ => cases hv
    | woken _ _ _ => cases hv
  | @again left ms t _ s s' ts v _ _ _ _ ih =>
    obtain ⟨earlier, last, rfl, hlast⟩ := ih hv
    exact ⟨t :: earlier, last, rfl, hlast⟩

theorem Visit.Goes.givenUp {v : Visit σ α} {reason : Reason} (h : v.Goes c w (.spent reason)) :
    v.GivenUp c w reason := by
  cases h with
  | unresolved hm _ _ => exact .unresolved hm
  | skipped hm hopen _ _ => exact .skipped hm hopen
  | tried _ _ hspell =>
    obtain ⟨ts, t, htries, ⟨⟨f, hf, hrejection⟩, rfl⟩ | ⟨f, hf, -, hrejection, hreason, -⟩⟩ :=
      hspell.last_of_spent
    · exact .turnedAway htries hf hrejection
    · exact .failed htries hf hrejection hreason

/-! ## What is said of one candidate -/

/-- Calls and entries are all that is said of a candidate while it is tried. -/
theorem Visit.event_cases (c : Chain) (w : World σ α) (v : Visit σ α) :
    ∀ e ∈ v.events c w, (∃ m, e = .call m) ∨ ∃ a, e = .attempt a := by
  have hentries (as : List Attempt) :
      ∀ e ∈ as.map Event.attempt, (∃ m, e = .call m) ∨ ∃ a, e = .attempt a := by
    intro e he
    obtain ⟨a, -, rfl⟩ := List.mem_map.1 he
    exact .inr ⟨a, rfl⟩
  intro e he
  unfold Visit.events at he
  split at he
  · exact hentries _ e he
  · split at he
    · exact hentries _ e he
    · obtain ⟨t, -, he⟩ := List.mem_flatMap.1 he
      rcases List.mem_append.1 he with he | he
      · split at he
        · exact .inl ⟨_, List.mem_singleton.1 he⟩
        · cases he
      · exact hentries _ e he

theorem Visit.notices_events (c : Chain) (w : World σ α) (v : Visit σ α) :
    notices (v.events c w) = [] := by
  refine List.filterMap_eq_nil_iff.2 fun e he => ?_
  obtain ⟨m, rfl⟩ | ⟨a, rfl⟩ := v.event_cases c w e he <;> rfl

theorem notices_visit (c : Chain) (w : World σ α) (index : Nat) (v : Visit σ α) :
    notices (.visit index :: v.events c w) = [] := v.notices_events c w

theorem notices_visit_append (c : Chain) (w : World σ α) (index : Nat) (v : Visit σ α)
    (more : List Event) :
    notices (.visit index :: v.events c w ++ more) = notices more := by
  rw [notices_append, notices_visit, List.nil_append]

/-! ## All candidates -/

theorem drop_succ_of_drop {index : Nat} {reference : String} {rest : List String}
    (h : candidates.drop index = reference :: rest) : candidates.drop (index + 1) = rest := by
  rw [← List.tail_drop, h, List.tail_cons]

/-- A candidate is given up for the one after it, if there is one. -/
theorem advance_of_drop {index : Nat} {reference : String} {rest : List String}
    (h : candidates.drop index = reference :: rest) (name : String) (reason : Reason) :
    candidates[index + 1]? = rest.head? ∧
      Chain.advance candidates index name reason =
        (rest.head?.map fun next => Event.notice ⟨name, next, reason⟩).toList := by
  have hnext : candidates[index + 1]? = rest.head? := by
    rw [← List.head?_drop, drop_succ_of_drop h]
  refine ⟨hnext, ?_⟩
  unfold Chain.advance
  rw [hnext]
  cases rest.head? <;> rfl

/-- What a run says is told candidate by candidate, whatever the signal and the listeners do. -/
theorem NotifiedTour.told {index : Nat} {rest : List String} {r after : Notified σ}
    {visits : List (Visit σ α)} {course : List Event} {ending : Option (Ending α)}
    (h : NotifiedTour c w listeners candidates index rest r visits course ending after)
    (hrest : candidates.drop index = rest) :
    visits.map (·.reference) <+: rest ∧ course = courseOf c w index visits (notices course) ∧
      ∀ (i : Nat) (v : Visit σ α) (n : Notice), visits[i]? = some v →
        (notices course)[i]? = some n → v.Handover c w candidates (index + i) n := by
  induction h with
  | allSpent => exact ⟨List.prefix_refl _, rfl, by simp⟩
  | fired => exact ⟨List.nil_prefix, rfl, by simp⟩
  | @ended index v e rest r _ _ _ =>
    rw [notices_visit]
    exact ⟨by simp, by simp [courseOf], by simp⟩
  | @next index v reason vs rest course ending r after _ _ hgoes hmore ih =>
    obtain ⟨hnext, hadvance⟩ := advance_of_drop hrest (v.name c) reason
    obtain ⟨horder, hcourse, hhandovers⟩ := ih (drop_succ_of_drop hrest)
    have hfollow : (v :: vs).map (·.reference) <+: v.reference :: rest := by simpa using horder
    rw [hadvance, List.append_assoc, notices_visit_append]
    cases rest with
    | nil =>
      -- The last candidate is given up for nobody, and nothing comes after it.
      cases hmore
      exact ⟨hfollow, by simp [courseOf, notices], by simp [notices]⟩
    | cons next rest =>
      let n : Notice := ⟨v.name c, next, reason⟩
      have hnotices : notices ([Event.notice n] ++ course) = n :: notices course := rfl
      simp only [List.head?_cons, Option.map_some, Option.toList_some] at hnext ⊢
      rw [hnotices]
      refine ⟨hfollow, ?_, ?_⟩
      · rw [courseOf, ← hcourse]
        rfl
      · intro i u n' hu hn'
        cases i with
        | zero =>
          simp only [List.getElem?_cons_zero, Option.some.injEq] at hu hn'
          subst hu hn'
          exact ⟨rfl, hnext, hgoes.givenUp⟩
        | succ i =>
          simp only [List.getElem?_cons_succ] at hu hn'
          have hhandover := hhandovers i u n' hu hn'
          rwa [show index + (i + 1) = index + 1 + i by omega]

/-! ## Where the signal never fires -/

section
variable {calm : σ → Prop} (hw : w.Quiet calm)
include hw

theorem World.Quiet.made {m : Model} {held : Breaker.Ref} {t : Try σ α} (ht : t.Made w m held)
    (h : calm t.before) : calm t.after := by
  obtain ⟨t', hbefore, ht', hcalm, -⟩ := exists_made hw h m held
  rw [Try.Made, hbefore, ht] at ht'
  simp only [Prod.mk.injEq] at ht'
  rwa [ht'.2.2]

theorem World.Quiet.woken {ms : Nat} {waited : Waited Bool} {s s' : σ}
    (hsleep : w.sleep ms s = (waited, s')) (h : calm s) : calm s' := by
  have hcalm := (hw.sleep ms s h).1
  rwa [hsleep] at hcalm

theorem World.Quiet.closes {m : Model} {left : Nat} {t : Try σ α} {v : Verdict α} {s : σ}
    (hcloses : Closes c w m left t v s) (h : calm t.after) : calm s := by
  cases hcloses with
  | settled _ => exact h
  | turnedAway _ => exact h
  | usedUp _ _ => exact h
  | dropped _ _ hsleep => exact hw.woken hsleep h
  | woken _ _ hsleep => exact hw.woken hsleep h

theorem World.Quiet.spell {m : Model} {held : Breaker.Ref} {left : Nat} {s s' : σ}
    {ts : List (Try σ α)} {v : Verdict α} (hspell : Spell c w m held left s ts v s')
    (h : calm s) : calm s' := by
  induction hspell with
  | fired _ => exact h
  | last hbegun hcloses => exact hw.closes hcloses (hw.made hbegun.made h)
  | again hbegun _ hsleep _ ih => exact ih (hw.woken hsleep (hw.made hbegun.made h))

theorem World.Quiet.goes {v : Visit σ α} {verdict : Verdict α} (hgoes : v.Goes c w verdict)
    (h : calm v.found) : calm v.left := by
  cases hgoes with
  | unresolved _ _ hleft => rwa [hleft]
  | skipped _ _ _ hleft =>
    rw [hleft]
    exact hw.setBreakers _ _ h
  | tried _ _ hspell => exact hw.spell hspell (hw.setBreakers _ _ h)

end

/-- Every candidate but the one at which the run ends is given up with a notice, and if they are
all given up, every one but the last. -/
theorem NotifiedTour.count {calm : σ → Prop} (hw : w.Quiet calm) (hlisteners : listeners.Keeps calm)
    {index : Nat} {rest : List String} {r after : Notified σ} {visits : List (Visit σ α)}
    {course : List Event} {ending : Option (Ending α)}
    (h : NotifiedTour c w listeners candidates index rest r visits course ending after)
    (hrest : candidates.drop index = rest) (hr : calm r.world) :
    (∀ e, ending = some e → ∃ vs v, visits = vs ++ [v] ∧ v.Goes c w (.ended e) ∧
      (notices course).length = vs.length) ∧
    (ending = none → visits.length = rest.length ∧
      (notices course).length = rest.length - 1) := by
  induction h with
  | allSpent => exact ⟨fun e he => by simp at he, fun _ => ⟨rfl, rfl⟩⟩
  | fired hfired => simp [hw.unfired _ hr] at hfired
  | @ended index v e rest r _ _ hgoes =>
    refine ⟨fun e' he => ?_, fun he => by simp at he⟩
    obtain rfl := Option.some.inj he
    exact ⟨[], v, rfl, hgoes, by rw [notices_visit]; rfl⟩
  | @next index v reason vs rest course ending r after hfound _ hgoes hmore ih =>
    have hleft : calm v.left := hw.goes hgoes (hfound ▸ hr)
    obtain ⟨hsettled, hspent⟩ := ih (drop_succ_of_drop hrest) (hlisteners.announce _ hleft)
    rw [(advance_of_drop hrest (v.name c) reason).2, List.append_assoc, notices_visit_append]
    -- Whether this candidate has a notice depends on whether another one follows.
    cases rest with
    | nil =>
      cases hmore
      exact ⟨fun e he => by simp at he, fun _ => ⟨rfl, rfl⟩⟩
    | cons next rest =>
      have hone : (notices ([Event.notice ⟨v.name c, next, reason⟩] ++ course)).length =
          (notices course).length + 1 := rfl
      simp only [List.head?_cons, Option.map_some, Option.toList_some]
      rw [hone]
      constructor
      · intro e he
        obtain ⟨us, u, rfl, hends, hcount⟩ := hsettled e he
        exact ⟨v :: us, u, rfl, hends, by simp [hcount]⟩
      · intro he
        obtain ⟨hvisits, hcount⟩ := hspent he
        simp only [List.length_cons] at hvisits hcount ⊢
        omega

/-! ## Who hears of it -/

theorem NotifiedTour.heard {ls : List (Listener σ)} (hls : ∀ s, (listeners s).callbacks = ls)
    {index : Nat} {rest : List String} {r after : Notified σ} {visits : List (Visit σ α)}
    {course : List Event} {ending : Option (Ending α)}
    (h : NotifiedTour c w listeners candidates index rest r visits course ending after) :
    after.heard = r.heard ++ (notices course).flatMap fun n => ls.map fun l => (l.name, n) := by
  induction h with
  | allSpent => simp [notices]
  | fired => simp [notices]
  | @ended index v e rest r _ _ _ =>
    rw [notices_visit]
    simp
  | @next index v reason vs rest course ending r after _ _ _ _ ih =>
    rw [ih, Subscribers.announce_heard hls, List.append_assoc, List.append_assoc,
      notices_visit_append]
    simp [notices]

/-! ## The whole account -/

/-- What a run says of its candidates, and who hears of it. -/
structure NoticeAccount (c : Chain) (w : World σ α) (listeners : Subscribers σ)
    (candidates : List String) (r : Notified σ) (course : List Event) (ending : Ending α)
    (after : Notified σ) : Prop where
  told : ∃ visits e, NotifiedTour c w listeners candidates 0 candidates r visits course e after ∧
    visits.map (·.reference) <+: candidates ∧ course = courseOf c w 0 visits (notices course) ∧
    (∀ (i : Nat) (v : Visit σ α) (n : Notice), visits[i]? = some v →
      (notices course)[i]? = some n → v.Handover c w candidates i n) ∧
    NoticeCount c w candidates visits course ending
  /-- It makes no difference who panics. -/
  panics : ∀ others, listeners.Alike others →
    c.runWith w others candidates r = (course, ending, after)
  /-- To the others it makes no difference whether an idle listener is there. -/
  idle : ∀ name others, listeners.SameBut name others →
    ∃ after', c.runWith w others candidates r = (course, ending, after') ∧
      after.SameBut name after'
  heard : ∀ ls, (∀ s, (listeners s).callbacks = ls) →
    after.heard = r.heard ++ (notices course).flatMap fun n => ls.map fun l => (l.name, n)

/-- Every run whose signal never fires gives its candidates up one by one, each with a notice to
everybody who listens, except for the one at which it ends. -/
theorem notices_run (c : Chain) {w : World σ α} {calm : σ → Prop} (hw : w.Quiet calm)
    {listeners : Subscribers σ} (hlisteners : listeners.Keeps calm) (candidates : List String)
    {r : Notified σ} (hr : calm r.world) :
    let (course, ending, after) := c.runWith w listeners candidates r
    NoticeAccount c w listeners candidates r course ending after := by
  have htour : ∃ visits e, NotifiedTour c w listeners candidates 0 candidates r visits
      (c.runWith w listeners candidates r).1 e (c.runWith w listeners candidates r).2.2 ∧
      NoticeCount c w candidates visits (c.runWith w listeners candidates r).1
        (c.runWith w listeners candidates r).2.1 := by
    by_cases hne : candidates = []
    · subst hne
      exact ⟨[], none, .allSpent, .nobody rfl rfl⟩
    · obtain ⟨visits, e, htour, hending⟩ := runWith_tour c w listeners hne r
      obtain ⟨hsettled, hspent⟩ := htour.count hw hlisteners List.drop_zero hr
      refine ⟨visits, e, htour, ?_⟩
      cases e with
      | some e =>
        obtain ⟨vs, v, hvisits, hends, hcount⟩ := hsettled e rfl
        rw [show (c.runWith w listeners candidates r).2.1 = e from hending]
        exact .settled hvisits hends hcount
      | none =>
        obtain ⟨hvisits, hcount⟩ := hspent rfl
        rw [show (c.runWith w listeners candidates r).2.1 = _ from hending]
        exact .exhausted hne hvisits hcount
  obtain ⟨visits, e, htour, hcount⟩ := htour
  obtain ⟨horder, hcourse, hhandovers⟩ := htour.told List.drop_zero
  simp only [Nat.zero_add] at hhandovers
  refine ⟨⟨visits, e, htour, horder, hcourse, hhandovers, hcount⟩, ?_, ?_,
    fun ls hls => htour.heard hls⟩
  · intro others hothers
    obtain ⟨hcourse, hending, hafter⟩ := hothers.lockstep.runWith c w candidates (rfl : r = r)
    simp only [Prod.ext_iff]
    exact ⟨hcourse, hending, hafter.symm⟩
  · intro name others hothers
    obtain ⟨hcourse, hending, hafter⟩ := hothers.lockstep.runWith c w candidates
      (⟨rfl, rfl⟩ : r.SameBut name r)
    refine ⟨_, ?_, hafter⟩
    simp only [Prod.ext_iff]
    exact ⟨hcourse, hending, rfl⟩

/-- Two listeners, the first of which panics at every notice. -/
def disturbed : Subscribers (Breaker.Registry × List (Except Failure Nat)) := fun _ =>
  { nextId := 2
    entries := [(0, ⟨0, fun _ s => (.error .panic, s)⟩), (1, ⟨1, fun _ s => (.ok (), s)⟩)] }

/-- The first candidate names no model. The only call of the second one resets all breakers and
fails, which opens the circuit of the breaker that was taken for it; so its other attempt is turned
away, and it is given up as unavailable, not for the failure. The third one takes the breaker that
the provider has since the reset, and succeeds. Both listeners hear both notices. -/
theorem notices_run_reset_all :
    let c : Chain :=
      { resolve := fun r => if r = "ghost" then none else some ⟨r, "p", r⟩
        classify := fun _ => some .timeout }
    let r : Notified (Breaker.Registry × List (Except Failure Nat)) :=
      { world := ({ config := { failureThreshold := 1 } }, [.error (.http "a"), .ok 7]) }
    let run := c.runWith resetting disturbed ["ghost", "x", "y"] r
    let first : Notice := ⟨"ghost", "x", .modelUnavailable⟩
    let second : Notice := ⟨"p/x", "y", .modelUnavailable⟩
    resetting.Quiet (fun _ => True) ∧ disturbed.Keeps (fun _ => True) ∧
      NoticeAccount c resetting disturbed ["ghost", "x", "y"] r run.1 run.2.1 run.2.2 ∧
      calls run.1 = [⟨"x", "p", "x"⟩, ⟨"y", "p", "y"⟩] ∧
      notices run.1 = [first, second] ∧
      run.2.2.heard = [(0, first), (1, first), (0, second), (1, second)] :=
  ⟨quiet_resetting, fun _ _ _ _ _ _ => trivial,
    notices_run _ quiet_resetting (fun _ _ _ _ _ _ => trivial) _ trivial, by decide +kernel,
    by decide +kernel, by decide +kernel⟩

end TurnEngine.Fallback
