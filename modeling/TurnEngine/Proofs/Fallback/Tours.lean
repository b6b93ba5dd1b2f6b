import TurnEngine.Proofs.Fallback.Visits

/-!
# Runs of a chain, whatever the signal does

`Spell`, `Visit.Goes` and `Tour` are a chain's calls on one model, its look at one candidate, and
its way along the candidates, each with the world it begins in and the one it leaves. Nothing is
assumed of the world: the signal may fire at any moment, and the run may be dropped in every wait.
What a chain does for one model is such a spell (`tryModel_spell`), and what it does for one
candidate such a visit (`tryCandidate_goes`), with the events that tell of it.

What the calls keep, a run keeps: by induction on a spell, whose last call is one of the five of
`Closes`, and then on the tour.
-/

namespace TurnEngine.Fallback

variable {σ α : Type}

/-- The call was made, and the signal had not fired by then. -/
structure Try.Begun (w : World σ α) (m : Model) (held : Breaker.Ref) (t : Try σ α) : Prop where
  made : t.Made w m held
  unfired : w.cancelled t.before = false

/-- A call on a model is the last one for its candidate, with `left` attempts left after it: how
the candidate ends, and in which world. -/
inductive Closes (c : Chain) (w : World σ α) (m : Model) (left : Nat) (t : Try σ α) :
    Verdict α → σ → Prop
  | settled {e : Ending α} : c.settles m t.result = some e → Closes c w m left t (.ended e) t.after
  | turnedAway : t.Rejected → Closes c w m left t (.spent .modelUnavailable) t.after
  | usedUp {reason : Reason} : left = 0 → t.Worthy c reason →
      Closes c w m left t (.spent reason) t.after
  | dropped {reason : Reason} {ms : Nat} {s : σ} : 0 < left → t.Worthy c reason →
      w.sleep ms t.after = (.dropped, s) → Closes c w m left t (.ended .dropped) s
  /-- The signal cut the wait short. -/
  | woken {reason : Reason} {ms : Nat} {s : σ} : 0 < left → t.Worthy c reason →
      w.sleep ms t.after = (.back false, s) →
      Closes c w m left t (.ended (.failed .cancelled)) s

/-- The calls on a model through one breaker with `left` attempts left: from a world, the calls, how
they end the candidate, and the world after them. -/
inductive Spell (c : Chain) (w : World σ α) (m : Model) (held : Breaker.Ref) :
    Nat → σ → List (Try σ α) → Verdict α → σ → Prop
  /-- The signal has fired; there is no further call. -/
  | fired {left : Nat} {s : σ} : w.cancelled s = true →
      Spell c w m held (left + 1) s [] (.ended (.failed .cancelled)) s
  | last {left : Nat} {t : Try σ α} {v : Verdict α} {s : σ} : t.Begun w m held →
      Closes c w m left t v s → Spell c w m held (left + 1) t.before [t] v s
  | again {left ms : Nat} {t : Try σ α} {reason : Reason} {s s' : σ} {ts : List (Try σ α)}
      {v : Verdict α} : t.Begun w m held → t.Worthy c reason →
      w.sleep ms t.after = (.back true, s) → Spell c w m held left s ts v s' →
      Spell c w m held (left + 1) t.before (t :: ts) v s'

/-- The name under which a candidate is called and given up. -/
def Visit.name (c : Chain) (v : Visit σ α) : String :=
  match c.resolve v.reference with
  | none => v.reference
  | some m => m.qualifiedName

/-- What the chain says about a candidate. -/
def Visit.events (c : Chain) (w : World σ α) (v : Visit σ α) : List Event :=
  match c.resolve v.reference with
  | none => (v.entries c w).map .attempt
  | some m =>
    if v.skipped c w then (v.entries c w).map .attempt else v.tries.flatMap (·.events w m)

/-- The world after a look at the circuit of a model's provider. -/
def Visit.looked (v : Visit σ α) (w : World σ α) (m : Model) : σ :=
  w.setBreakers (v.look w m.provider).1 v.found

/-- A look at a candidate and what it leads to, with its end. -/
inductive Visit.Goes (c : Chain) (w : World σ α) (v : Visit σ α) : Verdict α → Prop
  | unresolved : c.resolve v.reference = none → v.tries = [] → v.left = v.found →
      Goes c w v (.spent .modelUnavailable)
  | skipped {m : Model} : c.resolve v.reference = some m → (v.look w m.provider).2 = .tripped →
      v.tries = [] → v.left = v.looked w m → Goes c w v (.spent .modelUnavailable)
  | tried {m : Model} {verdict : Verdict α} : c.resolve v.reference = some m →
      (v.look w m.provider).2 ≠ .tripped →
      Spell c w m (v.held w m.provider) c.maxAttempts (v.looked w m) v.tries verdict v.left →
      Goes c w v verdict

/-- The visits to a list of candidates, each beginning in the world that the one before left. -/
inductive Tour (c : Chain) (w : World σ α) : List String → σ → List (Visit σ α) → σ → Prop
  | nil {s : σ} : Tour c w [] s [] s
  | fired {candidates : List String} {s : σ} : w.cancelled s = true → Tour c w candidates s [] s
  | ended {v : Visit σ α} {e : Ending α} {rest : List String} : w.cancelled v.found = false →
      v.Goes c w (.ended e) → Tour c w (v.reference :: rest) v.found [v] v.left
  | next {v : Visit σ α} {reason : Reason} {vs : List (Visit σ α)} {rest : List String} {s : σ} :
      w.cancelled v.found = false → v.Goes c w (.spent reason) → Tour c w rest v.left vs s →
      Tour c w (v.reference :: rest) v.found (v :: vs) s

/-- A tour of the candidates, and what the course of a run says about it. -/
structure Recount (c : Chain) (w : World σ α) (candidates : List String) (s : σ)
    (visits : List (Visit σ α)) (course : List Event) (after : σ) : Prop where
  tour : Tour c w candidates s visits after
  trail : trail course = visits.flatMap (·.entries c w)
  calls : calls course = visits.flatMap (·.calls c)

/-! ## Every run is a tour -/

theorem tryModel_spell (c : Chain) (w : World σ α) (m : Model) (held : Breaker.Ref) {left : Nat}
    (hleft : 0 < left) (n : Nat) (s : σ) :
    let (events, verdict, after) := c.tryModel w m held left n s
    ∃ tries : List (Try σ α), Spell c w m held left s tries verdict after ∧
      events = tries.flatMap (·.events w m) := by
  induction left generalizing n s with
  | zero => omega
  | succ left ih =>
    by_cases hfired : w.cancelled s = true
    · rw [Chain.tryModel, if_pos hfired]
      exact ⟨[], .fired hfired, rfl⟩
    · have hunfired := Bool.eq_false_iff.2 hfired
      obtain ⟨t, rfl, hmade, -⟩ := exists_call w m held s
      have hbegun : t.Begun w m held := ⟨hmade, hunfired⟩
      have htold : t.events w m = [t].flatMap (·.events w m) := by simp
      obtain ⟨e, hsettles, he⟩ | ⟨hrejected, he⟩ | ⟨reason, ms, hworthy, he⟩ :=
        tryModel_succ c hmade hunfired left n
      · rw [he]
        exact ⟨[t], .last hbegun (.settled hsettles), htold⟩
      · rw [he]
        exact ⟨[t], .last hbegun (.turnedAway hrejected), htold⟩
      · by_cases hlast : left = 0
        · rw [he, if_pos hlast]
          exact ⟨[t], .last hbegun (.usedUp hlast hworthy), htold⟩
        · have hpos := Nat.pos_of_ne_zero hlast
          rw [he, if_neg hlast]
          cases hsleep : w.sleep ms t.after with
          | mk waited s =>
            cases waited with
            | dropped => exact ⟨[t], .last hbegun (.dropped hpos hworthy hsleep), htold⟩
            | back toItsEnd =>
              cases toItsEnd with
              | false => exact ⟨[t], .last hbegun (.woken hpos hworthy hsleep), htold⟩
              | true =>
                obtain ⟨ts, hspell, hmore⟩ := ih hpos (n + 1) s
                exact ⟨t :: ts, .again hbegun hworthy hsleep hspell, by simp [hmore]⟩

theorem tryCandidate_goes (c : Chain) (w : World σ α) (reference : String) (s : σ) :
    let (events, name, verdict, after) := c.tryCandidate w reference s
    ∃ v : Visit σ α, v.reference = reference ∧ v.found = s ∧ v.left = after ∧
      v.Goes c w verdict ∧ events = v.events c w ∧ name = v.name c := by
  unfold Chain.tryCandidate
  cases hm : c.resolve reference with
  | none =>
    refine ⟨⟨reference, s, [], s⟩, rfl, rfl, rfl, .unresolved hm rfl rfl, ?_, ?_⟩
    · simp [Visit.events, Visit.entries, hm]
    · simp [Visit.name, hm]
  | some m =>
    let held := ((w.breakers s).take m.provider).2
    cases hobserve : ((w.breakers s).take m.provider).1.observeAt (w.now s) held with
    | mk r circuit =>
      have hlook (ts : List (Try σ α)) (after : σ) :
          Visit.look w ⟨reference, s, ts, after⟩ m.provider = (r, circuit) := hobserve
      dsimp only
      rw [hobserve]
      dsimp only
      by_cases hopen : circuit = .tripped
      · rw [if_pos hopen]
        refine ⟨⟨reference, s, [], w.setBreakers r s⟩, rfl, rfl, rfl, .skipped hm ?_ rfl ?_, ?_, ?_⟩
        · rw [hlook, hopen]
        · rw [Visit.looked, hlook]
        · simp [Visit.events, Visit.entries, Visit.skipped, hm, hlook, hopen]
        · simp [Visit.name, hm]
      · rw [if_neg hopen]
        obtain ⟨ts, hspell, htold⟩ :=
          tryModel_spell c w m held (maxAttempts_pos c) 0 (w.setBreakers r s)
        refine ⟨⟨reference, s, ts, _⟩, rfl, rfl, rfl, .tried hm ?_ ?_, ?_, ?_⟩
        · rw [hlook]
          exact hopen
        · rw [Visit.looked, hlook]
          exact hspell
        · simpa [Visit.events, Visit.skipped, hm, hlook, hopen] using htold
        · simp [Visit.name, hm]

end TurnEngine.Fallback
