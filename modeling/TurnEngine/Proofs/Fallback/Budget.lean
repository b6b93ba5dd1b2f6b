import TurnEngine.Proofs.Fallback.Exclusive
import TurnEngine.Proofs.Fallback.Timeline

/-!
# The breakers' budget

A chain that has the breakers to itself, and that is done before a reset timeout is over, cannot
wear out a provider: the work is invoked on its models no more often than its breaker has failures
to spare, and once the circuit has opened it is not invoked at all (`run_budget`). It does not
matter how the candidates are shared out among the providers, what the work does or when the signal
fires.

The potential is `Breaker.allowance`. In a run that goes on, every invocation failed, so it took at
least one from the allowance of its provider and nothing from the others; an invocation that ends
the run needed one, too. Spells and tours add this up (`Spell.spends`, `Tour.spends`).
-/

namespace TurnEngine.Fallback

open Breaker (Registry)

variable {σ α : Type} {c : Chain} {w : World σ α} {config : Breaker.Config} {era start : Nat}

/-! ## The calls on one model -/

theorem World.Exclusive.wait (hw : w.Exclusive) {ms : Nat} {s s' : σ} {waited : Waited Bool}
    (h : w.sleep ms s = (waited, s')) : w.breakers s' = w.breakers s ∧ w.now s ≤ w.now s' := by
  have hbreakers := hw.breakers_sleep ms s
  have hnow := hw.now_sleep ms s
  rw [h] at hbreakers hnow
  exact ⟨hbreakers, hnow⟩

section
variable {m : Model} {left : Nat} {t : Try σ α} {v : Verdict α} {s : σ}

/-- After the last call for a candidate there is a wait at most. -/
theorem Closes.wait (h : Closes c w m left t v s) (hw : w.Exclusive) :
    w.breakers s = w.breakers t.after ∧ w.now t.after ≤ w.now s := by
  cases h with
  | settled _ => exact ⟨rfl, Nat.le_refl _⟩
  | turnedAway _ => exact ⟨rfl, Nat.le_refl _⟩
  | usedUp _ _ => exact ⟨rfl, Nat.le_refl _⟩
  | dropped _ _ hsleep => exact hw.wait hsleep
  | woken _ _ hsleep => exact hw.wait hsleep

theorem Closes.failed {reason : Reason} (h : Closes c w m left t (.spent reason) s) :
    t.Failed := by
  cases h with
  | turnedAway hrejected => exact hrejected.failed
  | usedUp _ hworthy => exact hworthy.failed

end

/-- What a verdict leaves to the rest of the run. -/
def Verdict.leaves : Verdict α → Nat → Nat
  | .spent _, n => n
  | .ended _, _ => 0

theorem Verdict.leaves_le (v : Verdict α) {n n' : Nat} (h : n ≤ n') : v.leaves n ≤ n' := by
  cases v with
  | spent reason => exact h
  | ended e => exact Nat.zero_le n'

namespace Spell

variable {m : Model} {held : Breaker.Ref} {left : Nat} {s s' : σ} {tries : List (Try σ α)}
  {v : Verdict α}

theorem now_le (h : Spell c w m held left s tries v s') (hw : w.Exclusive) :
    w.now s ≤ w.now s' := by
  induction h with
  | fired _ => exact Nat.le_refl _
  | last hbegun hcloses => exact Nat.le_trans (hbegun.made.now_le hw) (hcloses.wait hw).2
  | again hbegun _ hsleep _ ih =>
    exact Nat.le_trans (hbegun.made.now_le hw) (Nat.le_trans (hw.wait hsleep).2 ih)

theorem breaker_other (h : Spell c w m held left s tries v s') (hw : w.Exclusive)
    {provider : String} (hp : provider ≠ held.key) :
    w.breaker s' provider = w.breaker s provider := by
  induction h with
  | fired _ => rfl
  | last hbegun hcloses =>
    rw [← hbegun.made.breaker_other hw hp, World.breaker, (hcloses.wait hw).1]
    rfl
  | again hbegun _ hsleep _ ih =>
    rw [ih, ← hbegun.made.breaker_other hw hp, World.breaker, (hw.wait hsleep).1]
    rfl

section
variable (hw : w.Exclusive) (hend : w.now s' < start + config.resetTimeoutMs.toNat)
include hw hend

theorem within (h : Spell c w m ⟨m.provider, era⟩ left s tries v s')
    (hs : Within w config era start s) :
    Within w config era start s' := by
  induction h with
  | fired _ => exact hs
  | last hbegun hcloses =>
    obtain ⟨hbreakers, hnow⟩ := hcloses.wait hw
    exact (hbegun.made.within hw hs (by omega)).wait hbreakers hnow hend
  | again hbegun _ hsleep hspell ih =>
    obtain ⟨hbreakers, hnow⟩ := hw.wait hsleep
    have hrest := hspell.now_le hw
    exact ih hend ((hbegun.made.within hw hs (by omega)).wait hbreakers hnow (by omega))

/-- The invocations of a spell come out of the allowance of its provider. -/
theorem spends (h : Spell c w m ⟨m.provider, era⟩ left s tries v s')
    (hs : Within w config era start s) :
    (tries.filter (·.invoked)).length +
        v.leaves ((w.breaker s' m.provider).allowance start) ≤
      (w.breaker s m.provider).allowance start := by
  induction h with
  | fired _ => simp [Verdict.leaves]
  | @last left t v s' hbegun hcloses =>
    have hmade := hbegun.made
    have hcount : ([t].filter (·.invoked)).length = if t.invoked then 1 else 0 := by
      cases ht : t.invoked <;> simp [ht]
    rw [hcount]
    cases v with
    | spent reason =>
      have hspends := hmade.spends hw hs hcloses.failed
      rwa [Verdict.leaves, World.breaker, (hcloses.wait hw).1]
    | ended e =>
      cases ht : t.invoked with
      | false => simp [Verdict.leaves]
      | true => exact hmade.allowance_pos hw hs ht
  | @again left ms t reason s s' ts v hbegun hworthy hsleep hspell ih =>
    have hmade := hbegun.made
    obtain ⟨hbreakers, hnow⟩ := hw.wait hsleep
    have hrest := hspell.now_le hw
    have hspends := hmade.spends hw hs hworthy.failed
    have hlater := ih hend ((hmade.within hw hs (by omega)).wait hbreakers hnow (by omega))
    have hcount : ((t :: ts).filter (·.invoked)).length =
        (if t.invoked then 1 else 0) + (ts.filter (·.invoked)).length := by
      cases ht : t.invoked <;> simp [ht, Nat.add_comm]
    rw [World.breaker, World.breaker, hbreakers] at hlater
    rw [World.breaker, World.breaker] at hspends
    rw [hcount, World.breaker, World.breaker]
    omega

end

/-- On a provider whose circuit has opened there is one more call at most, and it is turned away. -/
theorem of_opened (h : Spell c w m ⟨m.provider, era⟩ left s tries v s') (hw : w.Exclusive)
    (hs : Within w config era start s) (hopen : (w.breaker s m.provider).openedSince start = true) :
    (tries = [] ∨ ∃ u, tries = [u] ∧ u.FoundOpen m.provider) ∧
      w.breaker s' m.provider = w.breaker s m.provider := by
  cases h with
  | fired _ => exact ⟨.inl rfl, rfl⟩
  | last hbegun hcloses =>
    obtain ⟨hfound, hsame⟩ := hbegun.made.of_opened hw hs hopen
    refine ⟨.inr ⟨_, rfl, hfound⟩, ?_⟩
    rw [← hsame, World.breaker, (hcloses.wait hw).1]
    rfl
  | again hbegun hworthy _ _ =>
    -- a rejection is not worth another call
    obtain ⟨⟨-, ms, hresult⟩, -⟩ := hbegun.made.of_opened hw hs hopen
    obtain ⟨f, hf, -, hrejection, -⟩ := hworthy
    rw [hf] at hresult
    cases hresult
    cases hrejection

/-- What follows a call that left the circuit of its provider open. -/
theorem after_opening (h : Spell c w m ⟨m.provider, era⟩ left s tries v s') (hw : w.Exclusive)
    (hs : Within w config era start s) (hend : w.now s' < start + config.resetTimeoutMs.toNat)
    {ts rest : List (Try σ α)} {t : Try σ α} (htries : tries = ts ++ t :: rest)
    (hopen : (w.breaker t.after m.provider).openedSince start = true) :
    (rest = [] ∨ ∃ u, rest = [u] ∧ u.FoundOpen m.provider) ∧
      (w.breaker s' m.provider).openedSince start = true := by
  induction h generalizing ts with
  | fired _ => simp at htries
  | @last left t' v s' hbegun hcloses =>
    obtain ⟨rfl, rfl, rfl⟩ : ts = [] ∧ t = t' ∧ rest = [] := by
      cases ts <;> simp_all
    rw [World.breaker, (hcloses.wait hw).1]
    exact ⟨.inl rfl, hopen⟩
  | @again left ms t' reason s s' ts' v hbegun hworthy hsleep hspell ih =>
    obtain ⟨hbreakers, hnow⟩ := hw.wait hsleep
    have hrest := hspell.now_le hw
    have hthere := (hbegun.made.within hw hs (by omega)).wait hbreakers hnow (by omega)
    cases ts with
    | nil =>
      obtain ⟨rfl, rfl⟩ : t' = t ∧ ts' = rest := by simpa using htries
      have hsame : w.breaker s m.provider = w.breaker t'.after m.provider := by
        rw [World.breaker, hbreakers]
        rfl
      rw [← hsame] at hopen
      obtain ⟨hcalls, hkept⟩ := hspell.of_opened hw hthere hopen
      exact ⟨hcalls, hkept ▸ hopen⟩
    | cons t'' ts =>
      obtain ⟨rfl, rfl⟩ : t' = t'' ∧ ts' = ts ++ t :: rest := by simpa using htries
      exact ih hthere hend rfl

end Spell

/-! ## One candidate -/

namespace Visit

variable {v : Visit σ α} {verdict : Verdict α}

theorem look_eq (provider : String) : v.look w provider =
    ((w.breakers v.found).put provider ((w.breaker v.found provider).refresh (w.now v.found)),
      ((w.breaker v.found provider).refresh (w.now v.found)).circuit) :=
  Registry.observeAt_take _ _ _

/-- The breaker that the candidate has is of the era. -/
theorem held_eq (m : Model) (hs : Within w config era start v.found) :
    v.held w m.provider = ⟨m.provider, era⟩ :=
  (hs.ref_eq m.provider).symm

section
variable (hw : w.Exclusive)
include hw

theorem now_looked (m : Model) : w.now (v.looked w m) = w.now v.found := by
  rw [looked, hw.now_setBreakers]

theorem breaker_looked (m : Model) (provider : String) :
    w.breaker (v.looked w m) provider =
      if provider = m.provider then (w.breaker v.found provider).refresh (w.now v.found)
      else w.breaker v.found provider := by
  rw [World.breaker, looked, hw.breakers_setBreakers, look_eq, Registry.get_put]
  split
  · rename_i hp
    rw [hp]
  · rfl

theorem within_looked (m : Model) (hs : Within w config era start v.found) :
    Within w config era start (v.looked w m) := by
  have hnow := now_looked (v := v) hw m
  have hbegun := hs.begun
  have hearly := hs.early
  refine ⟨?_, ?_, by omega, by omega⟩ <;> rw [looked, hw.breakers_setBreakers, look_eq]
  · exact hs.era
  · exact hs.tame.put ((hs.tame.breakers m.provider).refresh _)

theorem allowance_looked_le (m : Model) (hs : Within w config era start v.found)
    (provider : String) :
    (w.breaker (v.looked w m) provider).allowance start ≤
      (w.breaker v.found provider).allowance start := by
  rw [breaker_looked hw]
  split
  · exact Breaker.allowance_refresh_le hs.begun (hs.early_for provider)
  · exact Nat.le_refl _

theorem opened_looked (m : Model) (hs : Within w config era start v.found) {provider : String}
    (hopen : (w.breaker v.found provider).openedSince start = true) :
    w.breaker (v.looked w m) provider = w.breaker v.found provider := by
  rw [breaker_looked hw]
  split
  · exact Breaker.refresh_of_openedSince hopen hs.begun (hs.early_for provider)
  · rfl

end

namespace Goes

variable (h : v.Goes c w verdict) (hw : w.Exclusive)
include h hw

theorem now_le : w.now v.found ≤ w.now v.left := by
  cases h with
  | unresolved _ _ hleft => exact Nat.le_of_eq (by rw [hleft])
  | @skipped m _ _ _ hleft =>
    exact Nat.le_of_eq (by rw [hleft, now_looked hw])
  | @tried m _ _ _ hspell =>
    rw [← now_looked hw m]
    exact hspell.now_le hw

variable (hs : Within w config era start v.found)
  (hend : w.now v.left < start + config.resetTimeoutMs.toNat)
include hs hend

theorem within : Within w config era start v.left := by
  cases h with
  | unresolved _ _ hleft => exact hleft ▸ hs
  | skipped _ _ _ hleft => exact hleft ▸ within_looked hw _ hs
  | @tried m _ _ _ hspell =>
    rw [held_eq m hs] at hspell
    exact hspell.within hw hend (within_looked hw m hs)

/-- The invocations for a candidate come out of the allowance of its provider. -/
theorem spends (provider : String) :
    (v.calls c).countP (·.provider = provider) +
        verdict.leaves ((w.breaker v.left provider).allowance start) ≤
      (w.breaker v.found provider).allowance start := by
  cases h with
  | unresolved hm _ hleft => simp [Visit.calls, hm, hleft, Verdict.leaves]
  | @skipped m hm _ hnone hleft =>
    have hle := allowance_looked_le hw m hs provider
    simpa [Visit.calls, hm, hnone, hleft, Verdict.leaves] using hle
  | @tried m _ hm _ hspell =>
    have hle := allowance_looked_le hw m hs provider
    have hcalls : (v.calls c).countP (·.provider = provider) =
        if provider = m.provider then (v.tries.filter (·.invoked)).length else 0 := by
      by_cases hp : m.provider = provider
      · simp [Visit.calls, hm, List.countP_replicate, hp]
      · simp [Visit.calls, hm, List.countP_replicate, hp, Ne.symm hp]
    rw [hcalls]
    split
    · rename_i hp
      subst hp
      rw [held_eq m hs] at hspell
      exact Nat.le_trans (hspell.spends hw hend (within_looked hw m hs)) hle
    · rename_i hp
      rw [hspell.breaker_other hw hp, Nat.zero_add]
      exact verdict.leaves_le hle

omit hend in
/-- A candidate whose circuit has opened is skipped, and one of another provider changes nothing. -/
theorem of_opened {provider : String}
    (hopen : (w.breaker v.found provider).openedSince start = true) :
    w.breaker v.left provider = w.breaker v.found provider ∧
      ∀ m, c.resolve v.reference = some m → m.provider = provider → v.tries = [] ∧
        v.entries c w =
          [.failed m.qualifiedName s!"circuit open for provider '{provider}'" 0] := by
  cases h with
  | unresolved hm _ hleft =>
    refine ⟨by rw [hleft], fun m' hm' => ?_⟩
    rw [hm] at hm'
    cases hm'
  | @skipped m hm hlook hnone hleft =>
    refine ⟨by rw [hleft, opened_looked hw m hs hopen], fun m' hm' hp => ⟨hnone, ?_⟩⟩
    cases hm.symm.trans hm'
    subst hp
    simp [Visit.entries, Visit.skipped, hm, hlook]
  | @tried m _ hm hlook hspell =>
    have hp : provider ≠ m.provider := by
      rintro rfl
      rw [look_eq, Breaker.refresh_of_openedSince hopen hs.begun (hs.early_for m.provider)] at hlook
      simp [Breaker.openedSince, hlook] at hopen
    refine ⟨by rw [hspell.breaker_other hw hp, opened_looked hw m hs hopen], fun m' hm' hp' => ?_⟩
    cases hm.symm.trans hm'
    exact absurd hp'.symm hp

/-- After a call that left the circuit open, the candidate gets one more call at most, which is
turned away, and leaves the circuit open. -/
theorem after_opening {m : Model} (hm : c.resolve v.reference = some m) {ts rest : List (Try σ α)}
    {t : Try σ α} (htries : v.tries = ts ++ t :: rest)
    (hopen : (w.breaker t.after m.provider).openedSince start = true) :
    (rest = [] ∨ ∃ u, rest = [u] ∧ u.FoundOpen m.provider) ∧
      (w.breaker v.left m.provider).openedSince start = true := by
  cases h with
  | unresolved _ hnone _ => simp [hnone] at htries
  | skipped _ _ hnone _ => simp [hnone] at htries
  | tried hm' _ hspell =>
    cases hm.symm.trans hm'
    rw [held_eq m hs] at hspell
    exact hspell.after_opening hw (within_looked hw m hs) hend htries hopen

end Goes

end Visit

/-! ## The whole run -/

namespace Tour

variable {candidates : List String} {s after : σ} {visits : List (Visit σ α)}

theorem now_le (h : Tour c w candidates s visits after) (hw : w.Exclusive) :
    w.now s ≤ w.now after := by
  induction h with
  | nil => exact Nat.le_refl _
  | fired _ => exact Nat.le_refl _
  | ended _ hgoes => exact hgoes.now_le hw
  | next _ hgoes _ ih => exact Nat.le_trans (hgoes.now_le hw) ih

/-- The invocations of a run come out of the allowances that it found. -/
theorem spends (h : Tour c w candidates s visits after) (hw : w.Exclusive)
    (hs : Within w config era start s) (hend : w.now after < start + config.resetTimeoutMs.toNat)
    (provider : String) :
    (visits.flatMap (·.calls c)).countP (·.provider = provider) ≤
      (w.breaker s provider).allowance start := by
  induction h with
  | nil => simp
  | fired _ => simp
  | ended _ hgoes =>
    have hspends := hgoes.spends hw hs hend provider
    rw [List.flatMap_singleton]
    exact Nat.le_of_add_right_le hspends
  | next _ hgoes htour ih =>
    have hlater := htour.now_le hw
    have hspends := hgoes.spends hw hs (by omega) provider
    have hrest := ih (hgoes.within hw hs (by omega)) hend
    rw [Verdict.leaves] at hspends
    rw [List.flatMap_cons, List.countP_append]
    omega

/-- Once a circuit has opened, every candidate of its provider is skipped. -/
theorem of_opened (h : Tour c w candidates s visits after) (hw : w.Exclusive)
    (hs : Within w config era start s) (hend : w.now after < start + config.resetTimeoutMs.toNat)
    {provider : String} (hopen : (w.breaker s provider).openedSince start = true) :
    ∀ v ∈ visits, ∀ m, c.resolve v.reference = some m → m.provider = provider → v.tries = [] ∧
      v.entries c w = [.failed m.qualifiedName s!"circuit open for provider '{provider}'" 0] := by
  induction h with
  | nil => simp
  | fired _ => simp
  | ended _ hgoes => simpa using (hgoes.of_opened hw hs hopen).2
  | next _ hgoes htour ih =>
    have hlater := htour.now_le hw
    obtain ⟨hsame, hskipped⟩ := hgoes.of_opened hw hs hopen
    have hrest := ih (hgoes.within hw hs (by omega)) hend (hsame ▸ hopen)
    intro u hu
    rcases List.mem_cons.1 hu with rfl | hu
    · exact hskipped
    · exact hrest u hu

/-- What follows a call that left the circuit of its provider open: for its candidate one more
call at most, which is turned away, and for the others of the provider none at all. -/
theorem after_opening (h : Tour c w candidates s visits after) (hw : w.Exclusive)
    (hs : Within w config era start s) (hend : w.now after < start + config.resetTimeoutMs.toNat)
    {earlier later : List (Visit σ α)} {v : Visit σ α} (hvisits : visits = earlier ++ v :: later)
    {m : Model} (hm : c.resolve v.reference = some m) {ts rest : List (Try σ α)} {t : Try σ α}
    (htries : v.tries = ts ++ t :: rest)
    (hopen : (w.breaker t.after m.provider).openedSince start = true) :
    (rest = [] ∨ ∃ u, rest = [u] ∧ u.FoundOpen m.provider) ∧
      ∀ u ∈ later, ∀ m', c.resolve u.reference = some m' → m'.provider = m.provider →
        u.tries = [] ∧ u.entries c w =
          [.failed m'.qualifiedName s!"circuit open for provider '{m.provider}'" 0] := by
  induction h generalizing earlier with
  | nil => simp at hvisits
  | fired _ => simp at hvisits
  | @ended v' _ _ _ hgoes =>
    obtain ⟨rfl, rfl, rfl⟩ : earlier = [] ∧ v = v' ∧ later = [] := by
      cases earlier <;> simp_all
    exact ⟨(hgoes.after_opening hw hs hend hm htries hopen).1, by simp⟩
  | @next v' _ _ _ _ _ hgoes htour ih =>
    have hlater := htour.now_le hw
    have hleft := hgoes.within hw hs (by omega)
    cases earlier with
    | nil =>
      obtain ⟨rfl, rfl⟩ : v' = v ∧ _ = later := by simpa using hvisits
      obtain ⟨hcalls, hopened⟩ := hgoes.after_opening hw hs (by omega) hm htries hopen
      exact ⟨hcalls, htour.of_opened hw hleft hend hopened⟩
    | cons v'' earlier =>
      obtain ⟨rfl, rfl⟩ : v' = v'' ∧ _ = earlier ++ v :: later := by simpa using hvisits
      exact ih hleft hend rfl

end Tour

/-- A run that is over before a reset timeout respects the breakers: on the models of a provider
the work is invoked no more often than the failures that its closed breaker has to spare, or once
if the circuit was not closed. After an opening of its circuit, the candidate at hand gets at most
one more call, which is turned away, and every later one of the provider is skipped. -/
theorem run_budget (c : Chain) {w : World σ α} (hw : w.Exclusive) {config : Breaker.Config} {s : σ}
    (hs : (w.breakers s).Reached config) (candidates : List String)
    (hend : w.now (c.run w candidates s).2.2 < w.now s + config.resetTimeoutMs.toNat) :
    (∀ provider, (calls (c.run w candidates s).1).countP (·.provider = provider) ≤
      if (w.breaker s provider).circuit = .closed then
        max 1 config.failureThreshold.toNat - (w.breaker s provider).failures
      else 1) ∧
    ∃ visits, Recount c w candidates s visits (c.run w candidates s).1 (c.run w candidates s).2.2 ∧
      ∀ earlier v later m, visits = earlier ++ v :: later → c.resolve v.reference = some m →
        ∀ ts t rest, v.tries = ts ++ t :: rest →
          (w.breaker t.after m.provider).openedSince (w.now s) = true →
          (rest = [] ∨ ∃ u retry ms, rest = [u] ∧ u.invoked = false ∧
            u.entries w m.qualifiedName =
              [.failed m.qualifiedName (Failure.circuitOpen m.provider retry).message ms]) ∧
          ∀ u ∈ later, ∀ m', c.resolve u.reference = some m' → m'.provider = m.provider →
            u.tries = [] ∧ u.entries c w =
              [.failed m'.qualifiedName s!"circuit open for provider '{m.provider}'" 0] := by
  obtain ⟨visits, hrecount⟩ := run_recount c w candidates s
  have hnow := hrecount.tour.now_le hw
  have hthere : Within w config (w.breakers s).era (w.now s) s :=
    ⟨rfl, hs.tame, Nat.le_refl _, by omega⟩
  refine ⟨fun provider => ?_, visits, hrecount, ?_⟩
  · have hspends := hrecount.tour.spends hw hthere hend provider
    have hallowed := (w.breaker s provider).allowance_le (w.now s)
    have hlimit : (w.breaker s provider).failureLimit = max 1 config.failureThreshold.toNat :=
      (hthere.tame.breakers provider).failureLimit
    rw [hlimit] at hallowed
    rw [hrecount.calls]
    exact Nat.le_trans hspends hallowed
  · intro earlier v later m hvisits hm ts t rest htries hopen
    obtain ⟨hrest, hlater⟩ :=
      hrecount.tour.after_opening hw hthere hend hvisits hm htries hopen
    refine ⟨?_, hlater⟩
    obtain hnone | ⟨u, hu, hfound⟩ := hrest
    · exact .inl hnone
    · obtain ⟨retry, ms, hentries⟩ := hfound.entries w m.qualifiedName
      exact .inr ⟨u, retry, ms, hu, hfound.1, hentries⟩

theorem exclusive_scripted : scripted.Exclusive where
  breakers_setBreakers _ _ := rfl
  breakers_work _ s := by
    obtain ⟨r, answers⟩ := s
    cases answers <;> rfl
  breakers_sleep _ _ := rfl
  now_setBreakers _ _ := rfl
  now_work _ _ := Nat.le_refl _
  now_sleep _ _ := Nat.le_refl _

/-- Three candidates of one provider, two attempts each: the third failure opens the circuit in the
middle of the second candidate, whose other attempt is turned away; the third one is skipped. -/
theorem run_budget_shared_provider :
    let config : Breaker.Config := { failureThreshold := 3 }
    let c : Chain :=
      { resolve := fun r => some ⟨r, "shared", r⟩, classify := fun _ => some .timeout }
    let s : Registry × List (Except Failure Nat) :=
      ({ config }, [.error (.http "a"), .error (.http "b"), .error (.http "c"), .ok 7])
    (scripted.Exclusive ∧ Registry.Reached config (scripted.breakers s) ∧
      scripted.now (c.run scripted ["x", "y", "z"] s).2.2 <
        scripted.now s + config.resetTimeoutMs.toNat) ∧
      (calls (c.run scripted ["x", "y", "z"] s).1).countP (·.provider = "shared") ≤ 3 ∧
      calls (c.run scripted ["x", "y", "z"] s).1 =
        [⟨"x", "shared", "x"⟩, ⟨"x", "shared", "x"⟩, ⟨"y", "shared", "y"⟩] ∧
      (trail (c.run scripted ["x", "y", "z"] s).1).length = 5 := by
  intro config c s
  have hreached : Registry.Reached config (scripted.breakers s) := .new
  have hfast : scripted.now (c.run scripted ["x", "y", "z"] s).2.2 <
      scripted.now s + config.resetTimeoutMs.toNat := by
    show 0 < 0 + (30000 : UInt64).toNat
    decide
  have hbudget := (run_budget c exclusive_scripted hreached ["x", "y", "z"] hfast).1 "shared"
  exact ⟨⟨exclusive_scripted, hreached, hfast⟩, Nat.le_trans hbudget (by decide), by decide +kernel,
    by decide +kernel⟩

end TurnEngine.Fallback
