import TurnEngine.Proofs.Fallback.Tries

/-!
# What a run of a chain does

A run looks at its candidates one after the other. A `Visit` is one such look with the calls that
it led to, and `Visits` connects them, each beginning in the world that the one before left. With
the signal never fired, `run_account` says which visits there are and what the run makes of them:
they follow the list of candidates, a skipped one makes no call and the others stay within their
budget, all but the last are spent, and the last one settles the run unless all candidates are
spent (`Concluded`, on top of `Tried`).
-/

namespace TurnEngine.Fallback

variable {σ α : Type}

/-- A look at a candidate, and the calls made for it. -/
structure Visit (σ α : Type) where
  reference : String
  found : σ
  tries : List (Try σ α)
  left : σ

namespace Visit

variable (c : Chain) (w : World σ α) (v : Visit σ α)

/-- The breaker of a provider that the candidate has, once it was looked at. -/
def held (provider : String) : Breaker.Ref :=
  ((w.breakers v.found).take provider).2

/-- The breakers after a look at the circuit of a provider, and the circuit. -/
def look (provider : String) : Breaker.Registry × Circuit :=
  ((w.breakers v.found).take provider).1.observeAt (w.now v.found) (v.held w provider)

/-- Whether the candidate names no model, or one whose circuit was open when it was reached. -/
def skipped : Bool :=
  match c.resolve v.reference with
  | none => true
  | some m => (v.look w m.provider).2 = .tripped

/-- The calls were made one after the other, from the world that was found to the one left, and all
through the breaker that the provider had when the candidate was reached. -/
def Happened : Prop :=
  match c.resolve v.reference with
  | none => v.tries = [] ∧ v.left = v.found
  | some m =>
    let looked := w.setBreakers (v.look w m.provider).1 v.found
    if v.skipped c w then v.tries = [] ∧ v.left = looked
    else Tries w m (v.held w m.provider) looked v.tries v.left

/-- The entries of the audit trail. -/
def entries : List Attempt :=
  match c.resolve v.reference with
  | none => [.failed v.reference "unresolvable model reference" 0]
  | some m =>
    if v.skipped c w then
      [.failed m.qualifiedName s!"circuit open for provider '{m.provider}'" 0]
    else v.tries.flatMap (·.entries w m.qualifiedName)

/-- The invocations of the work. -/
def calls : List Model :=
  match c.resolve v.reference with
  | none => []
  | some m => (v.tries.filter (·.invoked)).map fun _ => m

/-- How the candidate ends. -/
inductive Ends : Verdict α → Prop
  | skipped : v.skipped c w = true → v.tries = [] → Ends (.spent .modelUnavailable)
  | tried {m : Model} {verdict : Verdict α} : v.skipped c w = false →
      c.resolve v.reference = some m → Tried c m c.maxAttempts v.tries verdict → Ends verdict

/-- The candidate is given up, and the run goes on. -/
def Spent : Prop := ∃ reason, v.Ends c w (.spent reason)

end Visit

/-- Visits one after the other. -/
inductive Visits (c : Chain) (w : World σ α) : σ → List (Visit σ α) → σ → Prop
  | none {s : σ} : Visits c w s [] s
  | some {v : Visit σ α} {vs : List (Visit σ α)} {s : σ} : v.Happened c w →
      Visits c w v.left vs s → Visits c w v.found (v :: vs) s

/-- How a run ends after its visits, given the audit trail. -/
inductive Concluded (c : Chain) (w : World σ α) (candidates : List String)
    (visits : List (Visit σ α)) (entries : List Attempt) : Ending α → Prop
  | settled {vs : List (Visit σ α)} {v : Visit σ α} {e : Ending α} : visits = vs ++ [v] →
      (∀ u ∈ vs, u.Spent c w) → v.Ends c w (.ended e) → Concluded c w candidates visits entries e
  | exhausted : visits.length = candidates.length → (∀ u ∈ visits, u.Spent c w) →
      Concluded c w candidates visits entries (.failed (.exhausted entries))

theorem Concluded.cons {c : Chain} {w : World σ α} {candidates : List String}
    {vs : List (Visit σ α)} {entries : List Attempt} {e : Ending α}
    (h : Concluded c w candidates vs entries e) {v : Visit σ α} (hv : v.Spent c w)
    (reference : String) : Concluded c w (reference :: candidates) (v :: vs) entries e := by
  have hcons : ∀ us : List (Visit σ α), (∀ u ∈ us, u.Spent c w) → ∀ u ∈ v :: us, u.Spent c w := by
    intro us hus u hu
    rcases List.mem_cons.1 hu with rfl | hu
    · exact hv
    · exact hus u hu
  cases h with
  | settled he hspent hends => exact .settled (by rw [he]; rfl) (hcons _ hspent) hends
  | exhausted hl hspent => exact .exhausted (by simp [hl]) (hcons _ hspent)

theorem maxAttempts_pos (c : Chain) : 0 < c.maxAttempts := by
  unfold Chain.maxAttempts
  omega

/-! ## One candidate -/

theorem tryCandidate_visited (c : Chain) {w : World σ α} {calm : σ → Prop} (hw : w.Quiet calm)
    (reference : String) {s : σ} (hs : calm s) :
    let (events, _, verdict, after) := c.tryCandidate w reference s
    ∃ v : Visit σ α, v.reference = reference ∧ v.found = s ∧ v.left = after ∧ calm after ∧
      v.Happened c w ∧ v.Ends c w verdict ∧ (∀ t ∈ v.tries, t.invoked = false → t.Rejected) ∧
      trail events = v.entries c w ∧ calls events = v.calls c ∧ indices events = [] := by
  unfold Chain.tryCandidate
  cases hm : c.resolve reference with
  | none =>
    refine ⟨⟨reference, s, [], s⟩, rfl, rfl, rfl, hs, ?_, ?_, by simp, ?_, ?_, rfl⟩
    · simp [Visit.Happened, hm]
    · exact .skipped (by simp [Visit.skipped, hm]) rfl
    · simp [Visit.entries, hm, trail]
    · simp [Visit.calls, hm, calls]
  | some m =>
    let held := ((w.breakers s).take m.provider).2
    cases hobserve : ((w.breakers s).take m.provider).1.observeAt (w.now s) held with
    | mk r circuit =>
      have hlooked := hw.setBreakers r s hs
      have hlook (ts : List (Try σ α)) (after : σ) :
          Visit.look w ⟨reference, s, ts, after⟩ m.provider = (r, circuit) := hobserve
      dsimp only
      rw [hobserve]
      dsimp only
      by_cases hopen : circuit = .tripped
      · rw [if_pos hopen]
        have hskip :
            Visit.skipped c w (⟨reference, s, [], w.setBreakers r s⟩ : Visit σ α) = true := by
          simp [Visit.skipped, hm, hlook, hopen]
        refine ⟨⟨reference, s, [], w.setBreakers r s⟩, rfl, rfl, rfl, hlooked, ?_,
          .skipped hskip rfl, by simp, ?_, ?_, rfl⟩
        · simp [Visit.Happened, hm, hskip, hlook]
        · simp [Visit.entries, hm, hskip, trail]
        · simp [Visit.calls, hm, calls]
      · rw [if_neg hopen]
        obtain ⟨ts, hts, hafter, hrefused, htold, htried⟩ :=
          tryModel_tried c hw m held (maxAttempts_pos c) 0 hlooked
        have hskip : ∀ after,
            Visit.skipped c w (⟨reference, s, ts, after⟩ : Visit σ α) = false := by
          intro after
          simp [Visit.skipped, hm, hlook, hopen]
        refine ⟨⟨reference, s, ts, _⟩, rfl, rfl, rfl, hafter, ?_, .tried (hskip _) hm htried,
          hrefused, ?_, ?_, htold.indices⟩
        · simp only [Visit.Happened, hm, hskip, hlook]
          exact hts
        · simpa [Visit.entries, hm, hskip] using htold.trail
        · simpa [Visit.calls, hm] using htold.calls

/-! ## All candidates -/

/-- Announcements are no calls, no entries and no visits. -/
theorem advance_silent (candidates : List String) (index : Nat) (name : String)
    (reason : Reason) :
    trail (Chain.advance candidates index name reason) = [] ∧
      calls (Chain.advance candidates index name reason) = [] ∧
      indices (Chain.advance candidates index name reason) = [] := by
  unfold Chain.advance
  split <;> exact ⟨rfl, rfl, rfl⟩

/-- What a run does from a candidate on. -/
structure Follows (c : Chain) (w : World σ α) (index : Nat) (rest : List String) (s : σ)
    (visits : List (Visit σ α)) (course : List Event) (after : σ) : Prop where
  happened : Visits c w s visits after
  order : visits.map (·.reference) <+: rest
  indices : indices course = List.range' index visits.length
  trail : trail course = visits.flatMap (·.entries c w)
  calls : calls course = visits.flatMap (·.calls c)
  refused : ∀ v ∈ visits, ∀ t ∈ v.tries, t.invoked = false → t.Rejected

theorem Follows.cons {c : Chain} {w : World σ α} {index : Nat} {rest : List String}
    {v : Visit σ α} {visits : List (Visit σ α)} {events silent course : List Event} {after : σ}
    (hv : v.Happened c w) (hrefused : ∀ t ∈ v.tries, t.invoked = false → t.Rejected)
    (htrail : Fallback.trail events = v.entries c w) (hcalls : Fallback.calls events = v.calls c)
    (hindices : Fallback.indices events = [])
    (hsilent : Fallback.trail silent = [] ∧ Fallback.calls silent = [] ∧
      Fallback.indices silent = [])
    (h : Follows c w (index + 1) rest v.left visits course after) :
    Follows c w index (v.reference :: rest) v.found (v :: visits)
      (.visit index :: events ++ silent ++ course) after where
  happened := .some hv h.happened
  order := by simpa using h.order
  indices := by simp [hindices, hsilent, h.indices, List.range'_succ]
  trail := by simp [htrail, hsilent, h.trail]
  calls := by simp [hcalls, hsilent, h.calls]
  refused := by
    intro u hu
    rcases List.mem_cons.1 hu with rfl | hu
    · exact hrefused
    · exact h.refused u hu

theorem follows_nil (c : Chain) (w : World σ α) (index : Nat) (rest : List String) (s : σ) :
    Follows c w index rest s [] [] s :=
  ⟨.none, by simp, rfl, rfl, rfl, by simp⟩

theorem runFrom_follows (c : Chain) {w : World σ α} {calm : σ → Prop} (hw : w.Quiet calm)
    (candidates : List String) (index : Nat) (rest : List String) (done : List Event) {s : σ}
    (hs : calm s) :
    let (course, ending, after) := c.runFrom w candidates index rest done s
    ∃ visits more, course = done ++ more ∧ Follows c w index rest s visits more after ∧
      Concluded c w rest visits (trail course) ending := by
  induction rest generalizing index done s with
  | nil =>
    exact ⟨[], [], (List.append_nil _).symm, follows_nil c w index [] s, .exhausted rfl (by simp)⟩
  | cons reference rest ih =>
    have hvisit := tryCandidate_visited c hw reference hs
    unfold Chain.runFrom
    rw [if_neg (by simp [hw.unfired s hs])]
    cases hcandidate : c.tryCandidate w reference s with
    | mk events answer =>
      obtain ⟨name, verdict, after⟩ := answer
      rw [hcandidate] at hvisit
      obtain ⟨v, rfl, rfl, rfl, hcalm, hv, hends, hrefused, htrail, hcalls, hindices⟩ := hvisit
      dsimp only
      cases verdict with
      | ended e =>
        have hnone : trail [] = [] ∧ calls [] = [] ∧ indices [] = [] := ⟨rfl, rfl, rfl⟩
        have hfollows := Follows.cons hv hrefused htrail hcalls hindices hnone
          (follows_nil c w (index + 1) rest v.left)
        exact ⟨[v], _, rfl, by simpa using hfollows, .settled (List.nil_append _).symm (by simp)
          hends⟩
      | spent reason =>
        have hsilent := advance_silent candidates index name reason
        obtain ⟨visits, more, hcourse, hfollows, hconcluded⟩ :=
          ih (index + 1) (done ++ .visit index :: events ++
            Chain.advance candidates index name reason) hcalm
        refine ⟨v :: visits, _, ?_,
          Follows.cons hv hrefused htrail hcalls hindices hsilent hfollows,
          hconcluded.cons ⟨reason, hends⟩ v.reference⟩
        rw [hcourse]
        simp

/-! ## Runs -/

/-- Calls that all failed leave no successful entry. -/
theorem failed_of_errors {w : World σ α} {ts : List (Try σ α)}
    (h : ∀ t ∈ ts, ∃ f, t.result = .back (.error f)) (name : String) :
    ∀ a ∈ ts.flatMap (·.entries w name), a.success = false := by
  intro a ha
  obtain ⟨t, ht, ha⟩ := List.mem_flatMap.1 ha
  obtain ⟨f, hf⟩ := h t ht
  exact failed_of_error hf name a ha

theorem Visit.Spent.failed {c : Chain} {w : World σ α} {v : Visit σ α} (h : v.Spent c w) :
    ∀ a ∈ v.entries c w, a.success = false := by
  obtain ⟨reason, hends⟩ := h
  cases hends with
  | skipped hskip _ =>
    cases hm : c.resolve v.reference with
    | none => simp [Visit.entries, hm, Attempt.failed]
    | some m => simp [Visit.entries, hm, hskip, Attempt.failed]
  | tried hskip hm htried =>
    simpa [Visit.entries, hm, hskip] using failed_of_errors htried.error_of_spent _

theorem Visit.Ends.calls_length_le {c : Chain} {w : World σ α} {v : Visit σ α}
    {verdict : Verdict α} (h : v.Ends c w verdict) : (v.calls c).length ≤ c.maxAttempts := by
  cases h with
  | skipped hskip hnone => cases hm : c.resolve v.reference <;> simp [Visit.calls, hm, hnone]
  | tried hskip hm htried =>
    have hfilter := List.length_filter_le (·.invoked) v.tries
    have hle := htried.length_le
    simp only [Visit.calls, hm, List.length_map]
    omega

theorem Concluded.ends {c : Chain} {w : World σ α} {candidates : List String}
    {visits : List (Visit σ α)} {entries : List Attempt} {e : Ending α}
    (h : Concluded c w candidates visits entries e) :
    ∀ v ∈ visits, ∃ verdict, v.Ends c w verdict := by
  intro u hu
  cases h with
  | settled he hspent hends =>
    rw [he, List.mem_append, List.mem_singleton] at hu
    rcases hu with hu | rfl
    · obtain ⟨reason, h⟩ := hspent u hu
      exact ⟨_, h⟩
    · exact ⟨_, hends⟩
  | exhausted _ hspent =>
    obtain ⟨reason, h⟩ := hspent u hu
    exact ⟨_, h⟩

/-- A skipped candidate makes no call and leaves one failed entry. -/
theorem Visit.Ends.skipped_entry {c : Chain} {w : World σ α} {v : Visit σ α}
    {verdict : Verdict α} (h : v.Ends c w verdict) (hskip : v.skipped c w = true) :
    v.tries = [] ∧ ∃ name text, v.entries c w = [.failed name text 0] := by
  cases h with
  | skipped _ hnone =>
    refine ⟨hnone, ?_⟩
    cases hm : c.resolve v.reference with
    | none => exact ⟨_, _, by rw [Visit.entries, hm]⟩
    | some m => exact ⟨_, _, by rw [Visit.entries, hm]; exact if_pos hskip⟩
  | tried hskip' => simp [hskip] at hskip'

/-- Where a run that gives a value ends: with the one successful entry of its audit trail. -/
theorem Concluded.value {c : Chain} {w : World σ α} {candidates : List String}
    {visits : List (Visit σ α)} {entries : List Attempt} {a : α} {m : Model}
    (h : Concluded c w candidates visits entries (.value a m)) :
    ∃ vs v earlier ms, visits = vs ++ [v] ∧ c.resolve v.reference = some m ∧
      visits.flatMap (·.entries c w) = earlier ++ [.succeeded m.qualifiedName ms] ∧
      ∀ x ∈ earlier, x.success = false := by
  cases h with
  | @settled vs v e he hspent hends =>
    cases hends with
    | @tried m' verdict hskip hm htried =>
      obtain ⟨rfl, ts, t, hts, hresult, herrors⟩ := htried.value
      refine ⟨vs, v, vs.flatMap (·.entries c w) ++ ts.flatMap (·.entries w m.qualifiedName),
        Chain.since w (w.now t.before) t.after, he, hm, ?_, ?_⟩
      · have hv : v.entries c w = ts.flatMap (·.entries w m.qualifiedName) ++
            t.entries w m.qualifiedName := by
          simp [Visit.entries, hm, hskip, hts]
        simp [he, hv, Try.entries, hresult]
      · intro x hx
        rcases List.mem_append.1 hx with hx | hx
        · obtain ⟨u, hu, hx⟩ := List.mem_flatMap.1 hx
          exact (hspent u hu).failed x hx
        · exact failed_of_errors herrors _ x hx

/-- What a run does and says, in its visits. -/
structure Account (c : Chain) (w : World σ α) (candidates : List String) (s : σ)
    (visits : List (Visit σ α)) (course : List Event) (ending : Ending α) (after : σ) : Prop
    extends Follows c w 0 candidates s visits course after where
  skipped : ∀ v ∈ visits, v.skipped c w = true →
    v.tries = [] ∧ ∃ name text, v.entries c w = [.failed name text 0]
  budget : ∀ v ∈ visits, (v.calls c).length ≤
    min (c.config.maxRetriesPerModel.toNat + 1) (UInt32.size - 1)
  concluded : Concluded c w candidates visits (Fallback.trail course) ending
  value : ∀ a m, ending = .value a m → ∃ vs v earlier ms, visits = vs ++ [v] ∧
    c.resolve v.reference = some m ∧
    Fallback.trail course = earlier ++ [.succeeded m.qualifiedName ms] ∧
    ∀ x ∈ earlier, x.success = false

/-- A run whose signal never fires goes through its candidates as it should. -/
theorem run_account (c : Chain) {w : World σ α} {calm : σ → Prop} (hw : w.Quiet calm)
    {candidates : List String} (hne : candidates ≠ []) {s : σ} (hs : calm s) :
    ∃ visits : List (Visit σ α), Account c w candidates s visits (c.run w candidates s).1
      (c.run w candidates s).2.1 (c.run w candidates s).2.2 := by
  have hrun : c.run w candidates s = c.runFrom w candidates 0 candidates [] s := by
    cases candidates with
    | nil => exact absurd rfl hne
    | cons => rfl
  rw [hrun]
  obtain ⟨visits, more, hcourse, hfollows, hconcluded⟩ :=
    runFrom_follows c hw candidates 0 candidates [] hs
  rw [List.nil_append] at hcourse
  rw [← hcourse] at hfollows
  refine ⟨visits, hfollows, fun v hv hskip => ?_, fun v hv => ?_, hconcluded, ?_⟩
  · obtain ⟨verdict, hends⟩ := hconcluded.ends v hv
    exact hends.skipped_entry hskip
  · obtain ⟨verdict, hends⟩ := hconcluded.ends v hv
    exact hends.calls_length_le
  · intro a m he
    rw [he] at hconcluded
    obtain ⟨vs, v, earlier, ms, hvisits, hm, htrail, hfailed⟩ := hconcluded.value
    exact ⟨vs, v, earlier, ms, hvisits, hm, hfollows.trail.trans htrail, hfailed⟩

/-! ## A run that resets its own breakers -/

/-- A world without time, in which the work gives the answers of a list. -/
def scripted : World (Breaker.Registry × List (Except Failure Nat)) Nat where
  now _ := 0
  cancelled _ := false
  breakers s := s.1
  setBreakers r s := (r, s.2)
  work _ s :=
    match s.2 with
    | [] => (.dropped, s)
    | answer :: answers => (.back answer, (s.1, answers))
  sleep _ s := (.back true, s)

/-- The same world, with all breakers reset whenever the work begins. -/
def resetting : World (Breaker.Registry × List (Except Failure Nat)) Nat :=
  { scripted with work := fun m s => scripted.work m (s.1.resetAll, s.2) }

theorem quiet_resetting : resetting.Quiet fun _ => True where
  unfired _ _ := rfl
  setBreakers _ _ _ := trivial
  work _ _ _ := trivial
  sleep _ _ _ := ⟨trivial, by simp [resetting, scripted]⟩

/-- The first candidate names no model, the others have one provider. The only call of the second
candidate resets all breakers and fails, which opens the circuit of the breaker that was taken for
it, and the other attempt is turned away. The third candidate takes the breaker that the provider
has since the reset, and succeeds. -/
theorem run_account_reset_all :
    let c : Chain :=
      { resolve := fun r => if r = "ghost" then none else some ⟨r, "p", r⟩
        classify := fun _ => some .timeout }
    let s : Breaker.Registry × List (Except Failure Nat) :=
      ({ config := { failureThreshold := 1 } }, [.error (.http "a"), .ok 7])
    let run := c.run resetting ["ghost", "x", "y"] s
    ["ghost", "x", "y"] ≠ [] ∧ resetting.Quiet (fun _ => True) ∧
      (∃ visits, Account c resetting ["ghost", "x", "y"] s visits run.1 run.2.1 run.2.2) ∧
      run.2.1 = .value 7 ⟨"y", "p", "y"⟩ ∧
      calls run.1 = [⟨"x", "p", "x"⟩, ⟨"y", "p", "y"⟩] ∧
      trail run.1 = [.failed "ghost" "unresolvable model reference" 0,
        .failed "p/x" "HTTP error: a" 0,
        .failed "p/x" (Failure.circuitOpen "p" 30000).message 0, .succeeded "p/y" 0] :=
  ⟨by simp, quiet_resetting, run_account _ quiet_resetting (by simp) trivial, rfl, rfl,
    by decide +kernel⟩

end TurnEngine.Fallback
