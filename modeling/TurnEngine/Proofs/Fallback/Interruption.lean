import TurnEngine.Proofs.Fallback.Timeline

/-!
# Runs whose signal fires

What is left of a run once its signal has fired. No call begins any more, and the run ends with a
cancellation or with what the call in flight at that moment settled (`Halts`). The one call that
does not end the run so is one that uses up its candidate: after it the next candidate is announced
before the run stops, and without a next candidate the run ends exhausted as if nothing had
happened. `run_after_signal` is the whole account, read off the timeline of the run.

A world is `Latched` if its signal fires once and for all. Nothing else is assumed of it, in
particular not when the signal fires. In such a world the moments at which the signal has fired are
the last ones of a run (`StaysFired`).
-/

namespace TurnEngine.Fallback

variable {σ α : Type}

/-- The signal stays fired in a wait, and nothing but the work and the waits gives it time to
fire. -/
structure World.Latched (w : World σ α) : Prop where
  setBreakers : ∀ r s, w.cancelled (w.setBreakers r s) = w.cancelled s
  sleep : ∀ ms s, w.cancelled s = true → w.cancelled (w.sleep ms s).2 = true

/-- The signal fired while the work of a call was under way. -/
structure Try.Hit (w : World σ α) (m : Model) (held : Breaker.Ref) (t : Try σ α) : Prop where
  begun : t.Begun w m held
  invoked : t.invoked = true
  fired : w.cancelled t.after = true

/-- A call is the last one for its candidate because it was turned away, or because it failed for a
reason worth another call when no attempt was left. -/
def Try.UsesUp (c : Chain) (made : Nat) (t : Try σ α) : Prop :=
  t.Rejected ∨ made = c.maxAttempts ∧ ∃ reason, t.Worthy c reason

/-- The last call of some visits, and the breaker that its candidate has. -/
def LastCall (c : Chain) (w : World σ α) (visits : List (Visit σ α)) (m : Model)
    (held : Breaker.Ref) (made : Nat) (t : Try σ α) : Prop :=
  ∃ earlier v ts, visits = earlier ++ [v] ∧ c.resolve v.reference = some m ∧
    held = v.held w m.provider ∧ v.tries = ts ++ [t] ∧ made = v.tries.length

/-- How a run ends whose signal has fired, and what it announced since then. -/
inductive Halts (c : Chain) (w : World σ α) (candidates : List String)
    (visits : List (Visit σ α)) : List Notice → Ending α → Prop
  | cancelled : Halts c w candidates visits [] (.failed .cancelled)
  /-- It was dropped while it waited. -/
  | dropped : Halts c w candidates visits [] .dropped
  /-- The call in flight settled the run. -/
  | settled {m : Model} {held : Breaker.Ref} {made : Nat} {t : Try σ α} {e : Ending α} :
      LastCall c w visits m held made t → t.Hit w m held → c.settles m t.result = some e →
      Halts c w candidates visits [] e
  /-- The call in flight used up its candidate, and another one was there. -/
  | announced {m : Model} {held : Breaker.Ref} {made : Nat} {t : Try σ α} {next : String}
      {reason : Reason} :
      LastCall c w visits m held made t → t.Hit w m held → t.UsesUp c made →
      candidates[visits.length]? = some next →
      Halts c w candidates visits [⟨m.qualifiedName, next, reason⟩] (.failed .cancelled)
  /-- The call in flight used up the last candidate. -/
  | exhausted {m : Model} {held : Breaker.Ref} {made : Nat} {t : Try σ α} {entries : List Attempt} :
      LastCall c w visits m held made t → t.Hit w m held → t.UsesUp c made →
      visits.length = candidates.length →
      Halts c w candidates visits [] (.failed (.exhausted entries))

/-- The events of a log that happened when the signal had fired. -/
def afterSignal (w : World σ α) (log : List (Moment σ)) : List Event :=
  (log.filter fun x => w.cancelled x.world).map (·.event)

section
variable (w : World σ α) (xs ys : List (Moment σ))

@[simp] theorem afterSignal_append :
    afterSignal w (xs ++ ys) = afterSignal w xs ++ afterSignal w ys := by
  simp [afterSignal]

theorem afterSignal_cons (x : Moment σ) : afterSignal w (x :: xs) =
    (if w.cancelled x.world then [x.event] else []) ++ afterSignal w xs := by
  cases hx : w.cancelled x.world <;> simp [afterSignal, hx]

end

/-- The signal does not go back, from the moments of a log to the world after them. -/
structure StaysFired (w : World σ α) (log : List (Moment σ)) (after : σ) : Prop where
  moments : log.Pairwise fun x y => w.cancelled x.world = true → w.cancelled y.world = true
  after : ∀ x ∈ log, w.cancelled x.world = true → w.cancelled after = true

variable {c : Chain} {w : World σ α} {m : Model} {held : Breaker.Ref}

/-! ## The signal stays fired -/

theorem StaysFired.nil (s : σ) : StaysFired w [] s :=
  ⟨.nil, nofun⟩

theorem StaysFired.wait {log : List (Moment σ)} {s s' : σ} (h : StaysFired w log s)
    (hs : w.cancelled s = true → w.cancelled s' = true) : StaysFired w log s' :=
  ⟨h.moments, fun x hx hfired => hs (h.after x hx hfired)⟩

theorem StaysFired.append {xs ys : List (Moment σ)} {s s' : σ} (hxs : StaysFired w xs s)
    (hys : StaysFired w ys s')
    (hlater : w.cancelled s = true →
      (∀ y ∈ ys, w.cancelled y.world = true) ∧ w.cancelled s' = true) :
    StaysFired w (xs ++ ys) s' := by
  refine ⟨List.pairwise_append.2 ⟨hxs.moments, hys.moments, ?_⟩, ?_⟩
  · intro x hx y hy hfired
    exact (hlater (hxs.after x hx hfired)).1 y hy
  · intro x hx hfired
    rcases List.mem_append.1 hx with hx | hx
    · exact (hlater (hxs.after x hx hfired)).2
    · exact hys.after x hx hfired

/-- Whatever happens in one world. -/
theorem staysFired_map {β : Type} (xs : List β) (s : σ) (f : β → Event) :
    StaysFired w (xs.map fun x => ⟨s, f x⟩) s := by
  refine ⟨List.pairwise_map.2 (List.pairwise_of_forall fun _ _ => id), ?_⟩
  intro x hx
  obtain ⟨_, -, rfl⟩ := List.mem_map.1 hx
  exact id

/-- An event before the signal. -/
theorem StaysFired.cons {log : List (Moment σ)} {s : σ} (h : StaysFired w log s)
    {x : Moment σ} (hx : w.cancelled x.world = false) : StaysFired w (x :: log) s := by
  refine ⟨List.pairwise_cons.2 ⟨?_, h.moments⟩, ?_⟩
  · intro y _ hfired
    simp [hx] at hfired
  · intro y hy hfired
    rcases List.mem_cons.1 hy with rfl | hy
    · simp [hx] at hfired
    · exact h.after y hy hfired

/-- What happens once the signal has fired are the last events. -/
theorem StaysFired.suffix {log : List (Moment σ)} {s : σ} (h : StaysFired w log s) :
    afterSignal w log <:+ log.map (·.event) := by
  obtain ⟨hmoments, -⟩ := h
  induction log with
  | nil => exact List.suffix_refl _
  | cons x log ih =>
    obtain ⟨hx, hlog⟩ := List.pairwise_cons.1 hmoments
    cases hfired : w.cancelled x.world with
    | true =>
      have hall : (x :: log).filter (fun y => w.cancelled y.world) = x :: log := by
        refine List.filter_eq_self.2 fun y hy => ?_
        rcases List.mem_cons.1 hy with rfl | hy
        · exact hfired
        · exact hx y hy hfired
      have hsame : afterSignal w (x :: log) = (x :: log).map (·.event) := by
        rw [afterSignal, hall]
      exact hsame ▸ List.suffix_refl _
    | false =>
      rw [afterSignal_cons, hfired]
      exact (ih hlog).trans (List.suffix_cons x.event _)

/-! ## One call -/

/-- The signal does not fire in a call that is turned away. -/
theorem Try.Begun.hit (hw : w.Latched) {t : Try σ α} (h : t.Begun w m held)
    (hfired : w.cancelled t.after = true) : t.Hit w m held := by
  refine ⟨h, ?_, hfired⟩
  have hmade := h.made
  unfold Try.Made Chain.callThrough at hmade
  cases hr : (w.breakers t.before).requestAt (w.now t.before) held with
  | mk r answer =>
    cases answer with
    | error f =>
      simp only [hr, Prod.mk.injEq] at hmade
      rw [← hmade.2.2, hw.setBreakers, h.unfired] at hfired
      cases hfired
    | ok pass =>
      simp only [hr, Prod.mk.injEq] at hmade
      cases hinvoked : t.invoked with
      | true => rfl
      | false => simp [hinvoked] at hmade

theorem Try.Begun.staysFired {t : Try σ α} (h : t.Begun w m held) :
    StaysFired w (t.moments w m) t.after := by
  have hentries := staysFired_map (w := w) (t.entries w m.qualifiedName) t.after .attempt
  cases hinvoked : t.invoked with
  | true => simpa [Try.moments, hinvoked] using hentries.cons h.unfired
  | false => simpa [Try.moments, hinvoked] using hentries

/-- After the signal a call leaves entries at most. -/
theorem Try.Begun.onlyEntries {t : Try σ α} (h : t.Begun w m held) {x : Moment σ}
    (hx : x ∈ t.moments w m) (hfired : w.cancelled x.world = true) :
    ∃ a, x.event = .attempt a := by
  rcases List.mem_append.1 hx with hx | hx
  · split at hx
    · rw [List.mem_singleton.1 hx, h.unfired] at hfired
      cases hfired
    · cases hx
  · obtain ⟨a, -, rfl⟩ := List.mem_map.1 hx
    exact ⟨a, rfl⟩

/-! ## The calls on a model -/

/-- How calls on a model end during which the signal fired, `left` of them allowed. -/
inductive Stopped (c : Chain) (w : World σ α) (m : Model) (held : Breaker.Ref) (left : Nat)
    (tries : List (Try σ α)) : Verdict α → Prop
  | cancelled : Stopped c w m held left tries (.ended (.failed .cancelled))
  | dropped : Stopped c w m held left tries (.ended .dropped)
  | settled {ts : List (Try σ α)} {t : Try σ α} {e : Ending α} :
      tries = ts ++ [t] → t.Hit w m held →
      c.settles m t.result = some e → Stopped c w m held left tries (.ended e)
  | spent {ts : List (Try σ α)} {t : Try σ α} {reason : Reason} :
      tries = ts ++ [t] → t.Hit w m held →
      (t.Rejected ∨ tries.length = left ∧ ∃ reason, t.Worthy c reason) →
      Stopped c w m held left tries (.spent reason)

theorem Stopped.cons {left : Nat} {tries : List (Try σ α)} {v : Verdict α}
    (h : Stopped c w m held left tries v) (u : Try σ α) :
    Stopped c w m held (left + 1) (u :: tries) v := by
  cases h with
  | cancelled => exact .cancelled
  | dropped => exact .dropped
  | @settled ts t e he hhit hsettles =>
    have hcons : u :: tries = (u :: ts) ++ [t] := by rw [he, List.cons_append]
    exact .settled hcons hhit hsettles
  | @spent ts t reason he hhit hlast =>
    have hcons : u :: tries = (u :: ts) ++ [t] := by rw [he, List.cons_append]
    exact .spent hcons hhit (hlast.imp_right fun h => ⟨by simp [h.1], h.2⟩)

theorem Spell.begun {left : Nat} {s s' : σ} {ts : List (Try σ α)} {v : Verdict α}
    (h : Spell c w m held left s ts v s') : ∀ t ∈ ts, t.Begun w m held := by
  induction h with
  | fired _ => simp
  | last hbegun _ => simpa using hbegun
  | again hbegun _ _ _ ih => simpa using ⟨hbegun, ih⟩

/-- In a world whose signal has fired there is no call. -/
theorem Spell.of_fired {left : Nat} {s s' : σ} {ts : List (Try σ α)} {v : Verdict α}
    (h : Spell c w m held left s ts v s') (hs : w.cancelled s = true) :
    ts = [] ∧ v = .ended (.failed .cancelled) ∧ s' = s := by
  cases h with
  | fired _ => exact ⟨rfl, rfl, rfl⟩
  | last hbegun _ => simp [hbegun.unfired] at hs
  | again hbegun _ _ _ => simp [hbegun.unfired] at hs

theorem Closes.stays (hw : w.Latched) {left : Nat} {t : Try σ α} {v : Verdict α} {s : σ}
    (h : Closes c w m left t v s) (hfired : w.cancelled t.after = true) :
    w.cancelled s = true := by
  cases h with
  | settled _ => exact hfired
  | turnedAway _ => exact hfired
  | usedUp _ _ => exact hfired
  | @dropped reason ms s _ _ hsleep =>
    have hwaited := hw.sleep ms t.after hfired
    rwa [hsleep] at hwaited
  | @woken reason ms s _ _ hsleep =>
    have hwaited := hw.sleep ms t.after hfired
    rwa [hsleep] at hwaited

theorem Spell.staysFired (hw : w.Latched) {left : Nat} {s s' : σ} {ts : List (Try σ α)}
    {v : Verdict α} (h : Spell c w m held left s ts v s') :
    StaysFired w (ts.flatMap (·.moments w m)) s' := by
  induction h with
  | fired _ => exact .nil _
  | last hbegun hcloses =>
    rw [List.flatMap_singleton]
    exact hbegun.staysFired.wait (hcloses.stays hw)
  | @again left ms t reason s s' ts v hbegun _ hsleep hspell ih =>
    rw [List.flatMap_cons]
    refine hbegun.staysFired.append ih fun hfired => ?_
    -- there is no call after a wait in which the signal has fired
    have hwaited := hw.sleep ms t.after hfired
    rw [hsleep] at hwaited
    obtain ⟨rfl, -, rfl⟩ := hspell.of_fired hwaited
    exact ⟨nofun, hwaited⟩

theorem Spell.stopped (hw : w.Latched) {left : Nat} {s s' : σ} {ts : List (Try σ α)}
    {v : Verdict α} (h : Spell c w m held left s ts v s') (hs : w.cancelled s = false)
    (hfired : w.cancelled s' = true) : Stopped c w m held left ts v := by
  induction h with
  | fired hnow => simp [hs] at hnow
  | @last left t v s hbegun hcloses =>
    cases hcloses with
    | settled hsettles => exact .settled (List.nil_append [t]).symm (hbegun.hit hw hfired) hsettles
    | turnedAway hrejected =>
      exact .spent (List.nil_append [t]).symm (hbegun.hit hw hfired) (.inl hrejected)
    | usedUp hnone hworthy =>
      exact .spent (List.nil_append [t]).symm (hbegun.hit hw hfired)
        (.inr ⟨by simp [hnone], _, hworthy⟩)
    | dropped _ _ _ => exact .dropped
    | woken _ _ _ => exact .cancelled
  | @again left ms t reason s s' ts v hbegun hworthy hsleep hspell ih =>
    cases hnow : w.cancelled s with
    | true =>
      obtain ⟨-, rfl, -⟩ := hspell.of_fired hnow
      exact .cancelled
    | false => exact (ih hnow hfired).cons t

/-! ## One candidate -/

theorem Visit.Goes.onlyEntries {v : Visit σ α} {verdict : Verdict α} (h : v.Goes c w verdict)
    {x : Moment σ} (hx : x ∈ v.moments c w) (hfired : w.cancelled x.world = true) :
    ∃ a, x.event = .attempt a := by
  unfold Visit.moments at hx
  cases h with
  | unresolved hm _ _ =>
    simp only [hm] at hx
    obtain ⟨a, -, rfl⟩ := List.mem_map.1 hx
    exact ⟨a, rfl⟩
  | skipped hm hopen _ _ =>
    simp only [hm, Visit.skipped, hopen, decide_true, if_true] at hx
    obtain ⟨a, -, rfl⟩ := List.mem_map.1 hx
    exact ⟨a, rfl⟩
  | tried hm hopen hspell =>
    simp only [hm, Visit.skipped, decide_eq_true_eq, hopen, if_false] at hx
    obtain ⟨t, ht, hx⟩ := List.mem_flatMap.1 hx
    exact (hspell.begun t ht).onlyEntries hx hfired

theorem Visit.Goes.staysFired (hw : w.Latched) {v : Visit σ α} {verdict : Verdict α}
    (h : v.Goes c w verdict) : StaysFired w (v.moments c w) v.left := by
  have hentries := staysFired_map (w := w) (v.entries c w) v.left .attempt
  unfold Visit.moments
  cases h with
  | unresolved hm _ _ =>
    rw [hm]
    exact hentries
  | skipped hm hopen _ _ =>
    simp only [hm, Visit.skipped, hopen, decide_true, if_true]
    exact hentries
  | tried hm hopen hspell =>
    simp only [hm, Visit.skipped, decide_eq_true_eq, hopen, if_false]
    exact hspell.staysFired hw

/-- A candidate during which the signal fired was called. -/
theorem Visit.Goes.stopped (hw : w.Latched) {v : Visit σ α} {verdict : Verdict α}
    (h : v.Goes c w verdict) (hfound : w.cancelled v.found = false)
    (hfired : w.cancelled v.left = true) :
    ∃ m, c.resolve v.reference = some m ∧
      Stopped c w m (v.held w m.provider) c.maxAttempts v.tries verdict := by
  cases h with
  | unresolved _ _ hleft => simp [hleft, hfound] at hfired
  | skipped _ _ _ hleft => simp [hleft, Visit.looked, hw.setBreakers, hfound] at hfired
  | @tried m _ hm _ hspell =>
    have hlooked : w.cancelled (v.looked w m) = false := by
      rw [Visit.looked, hw.setBreakers, hfound]
    exact ⟨m, hm, hspell.stopped hw hlooked hfired⟩

/-! ## All candidates -/

theorem LastCall.cons {visits : List (Visit σ α)} {made : Nat} {t : Try σ α}
    (h : LastCall c w visits m held made t) (v : Visit σ α) :
    LastCall c w (v :: visits) m held made t := by
  obtain ⟨earlier, u, ts, rfl, hrest⟩ := h
  exact ⟨v :: earlier, u, ts, rfl, hrest⟩

theorem Halts.cons {candidates : List String} {visits : List (Visit σ α)} {announced : List Notice}
    {e : Ending α} (h : Halts c w candidates visits announced e) (v : Visit σ α)
    (reference : String) : Halts c w (reference :: candidates) (v :: visits) announced e := by
  cases h with
  | cancelled => exact .cancelled
  | dropped => exact .dropped
  | settled hlast hhit hsettles => exact .settled (hlast.cons v) hhit hsettles
  | announced hlast hhit hused hnext => exact .announced (hlast.cons v) hhit hused (by simpa)
  | exhausted hlast hhit hused hall => exact .exhausted (hlast.cons v) hhit hused (by simpa)

/-- Entries are neither calls nor announcements. -/
theorem silent_of_onlyEntries {log : List (Moment σ)}
    (h : ∀ x ∈ log, w.cancelled x.world = true → ∃ a, x.event = .attempt a) :
    calls (afterSignal w log) = [] ∧ notices (afterSignal w log) = [] := by
  induction log with
  | nil => exact ⟨rfl, rfl⟩
  | cons x log ih =>
    obtain ⟨hcalls, hnotices⟩ := ih fun y hy => h y (List.mem_cons_of_mem _ hy)
    rw [afterSignal_cons]
    split
    · rename_i hfired
      obtain ⟨a, ha⟩ := h x List.mem_cons_self hfired
      rw [ha]
      exact ⟨hcalls, hnotices⟩
    · exact ⟨hcalls, hnotices⟩

/-- After the signal a look at a candidate leaves neither calls nor announcements. -/
theorem Visit.Goes.silent {v : Visit σ α} {verdict : Verdict α} (h : v.Goes c w verdict)
    (hfound : w.cancelled v.found = false) (index : Nat) :
    Fallback.calls (afterSignal w (⟨v.found, .visit index⟩ :: v.moments c w)) = [] ∧
      notices (afterSignal w (⟨v.found, .visit index⟩ :: v.moments c w)) = [] := by
  rw [afterSignal_cons, hfound]
  exact silent_of_onlyEntries fun x hx => h.onlyEntries hx

/-- Where the signal has fired, a run goes no further. -/
theorem Timeline.of_fired {candidates rest : List String} {index : Nat} {s after : σ}
    {visits : List (Visit σ α)} {log : List (Moment σ)} {ending : Option (Ending α)}
    (h : Timeline c w candidates index rest s visits log ending after)
    (hs : w.cancelled s = true) :
    visits = [] ∧ log = [] ∧ after = s ∧ (rest = [] ∧ ending = none ∨
      ∃ next later, rest = next :: later ∧ ending = some (.failed .cancelled)) := by
  cases h with
  | allSpent => exact ⟨rfl, rfl, rfl, .inl ⟨rfl, rfl⟩⟩
  | fired _ => exact ⟨rfl, rfl, rfl, .inr ⟨_, _, rfl, rfl⟩⟩
  | ended hunfired _ => simp [hunfired] at hs
  | next hunfired _ _ => simp [hunfired] at hs

/-- A candidate that is found before the signal, from the first look at it on. -/
theorem Visit.Goes.staysFired_found (hw : w.Latched) {v : Visit σ α} {verdict : Verdict α}
    (h : v.Goes c w verdict) (hfound : w.cancelled v.found = false) (index : Nat) :
    StaysFired w (⟨v.found, .visit index⟩ :: v.moments c w) v.left :=
  (h.staysFired hw).cons hfound

theorem Timeline.staysFired (hw : w.Latched) {candidates rest : List String} {index : Nat}
    {s after : σ} {visits : List (Visit σ α)} {log : List (Moment σ)} {ending : Option (Ending α)}
    (h : Timeline c w candidates index rest s visits log ending after) :
    StaysFired w log after := by
  induction h with
  | allSpent => exact .nil _
  | fired _ => exact .nil _
  | ended hunfired hgoes => exact hgoes.staysFired_found hw hunfired _
  | @next index v reason vs rest log ending s hunfired hgoes hlater ih =>
    have hhandover : StaysFired w (v.handover c candidates index reason) v.left :=
      staysFired_map _ v.left id
    have hsaid (hfired : w.cancelled v.left = true) :
        ∀ x ∈ v.handover c candidates index reason, w.cancelled x.world = true := by
      intro x hx
      obtain ⟨_, -, rfl⟩ := List.mem_map.1 hx
      exact hfired
    have hvisit := (hgoes.staysFired_found hw hunfired index).append hhandover
      fun hfired => ⟨hsaid hfired, hfired⟩
    refine hvisit.append ih fun hfired => ?_
    -- the run goes no further from a world where the signal has fired
    obtain ⟨-, rfl, rfl, -⟩ := hlater.of_fired hfired
    exact ⟨nofun, hfired⟩

/-- Where the call in flight used its candidate up, the next one is announced, if there is one, and
nothing else happens. -/
theorem Timeline.usedUp (hw : w.Latched) {candidates rest : List String} {index : Nat}
    {v : Visit σ α} {reason : Reason} {vs : List (Visit σ α)} {log : List (Moment σ)}
    {ending : Option (Ending α)} {after : σ}
    (hlater : Timeline c w candidates (index + 1) rest v.left vs log ending after)
    (hnext : candidates.drop (index + 1) = rest) (hgoes : v.Goes c w (.spent reason))
    (hunfired : w.cancelled v.found = false) (hleft : w.cancelled v.left = true)
    (entries : List Attempt) :
    let said := afterSignal w (v.handover c candidates index reason)
    calls said ++ calls (afterSignal w log) = [] ∧
      Halts c w (v.reference :: rest) (v :: vs) (notices said ++ notices (afterSignal w log))
        (ending.getD (.failed (.exhausted entries))) := by
  intro said
  obtain ⟨m, hm, hstopped⟩ := hgoes.stopped hw hunfired hleft
  cases hstopped with
  | @spent ts t _ he hhit hlast =>
    have hcall : LastCall c w [v] m (v.held w m.provider) v.tries.length t :=
      ⟨[], v, ts, rfl, hm, rfl, he, rfl⟩
    obtain ⟨rfl, rfl, -, ⟨rfl, rfl⟩ | ⟨next, later, rfl, rfl⟩⟩ := hlater.of_fired hleft
    · have hnone : candidates[index + 1]? = none := by
        rw [← List.head?_drop, hnext]
        rfl
      have hsaid : said = [] := by
        simp [said, afterSignal, Visit.handover, Chain.advance, hnone]
      rw [hsaid]
      exact ⟨rfl, .exhausted hcall hhit hlast rfl⟩
    · have hsome : candidates[index + 1]? = some next := by
        rw [← List.head?_drop, hnext]
        rfl
      have hname : v.name c = m.qualifiedName := by rw [Visit.name, hm]
      have hsaid : said = [.notice ⟨m.qualifiedName, next, reason⟩] := by
        simp [said, afterSignal, Visit.handover, Chain.advance, hsome, hleft, hname]
      rw [hsaid]
      exact ⟨rfl, .announced hcall hhit hlast rfl⟩

theorem Timeline.halts (hw : w.Latched) {candidates rest : List String} {index : Nat}
    {s after : σ} {visits : List (Visit σ α)} {log : List (Moment σ)} {ending : Option (Ending α)}
    (h : Timeline c w candidates index rest s visits log ending after)
    (hrest : candidates.drop index = rest) (hs : w.cancelled s = false)
    (hfired : w.cancelled after = true) (entries : List Attempt) :
    calls (afterSignal w log) = [] ∧
      Halts c w rest visits (notices (afterSignal w log))
        (ending.getD (.failed (.exhausted entries))) := by
  induction h with
  | allSpent => simp [hs] at hfired
  | fired hnow => simp [hs] at hnow
  | @ended index v e rest hunfired hgoes =>
    obtain ⟨hcalls, hnotices⟩ := hgoes.silent hunfired index
    refine ⟨hcalls, ?_⟩
    rw [hnotices]
    obtain ⟨m, hm, hstopped⟩ := hgoes.stopped hw hunfired hfired
    cases hstopped with
    | cancelled => exact .cancelled
    | dropped => exact .dropped
    | @settled ts t _ he hhit hsettles =>
      exact .settled ⟨[], v, ts, rfl, hm, rfl, he, rfl⟩ hhit hsettles
  | @next index v reason vs rest log ending s hunfired hgoes hlater ih =>
    obtain ⟨hcalls, hnotices⟩ := hgoes.silent hunfired index
    have hnext : candidates.drop (index + 1) = rest := by
      rw [← List.tail_drop, hrest]
      rfl
    rw [afterSignal_append, afterSignal_append, calls_append, calls_append, notices_append,
      notices_append, hcalls, hnotices]
    cases hleft : w.cancelled v.left with
    | false =>
      have hquiet : afterSignal w (v.handover c candidates index reason) = [] := by
        simp [afterSignal, Visit.handover, hleft]
      obtain ⟨hcalls', hhalts⟩ := ih hnext hleft hfired
      rw [hquiet]
      exact ⟨hcalls', hhalts.cons v _⟩
    | true => exact hlater.usedUp hw hnext hgoes hunfired hleft entries

/-- The events since the signal fired are the last ones of a run, and no call begins among them. The
run ends cancelled, or as the call in flight settled it, without a further announcement; unless that
call used up its candidate. Then the next candidate is announced before the run ends cancelled, and
without a next candidate the run ends exhausted. -/
theorem run_after_signal (c : Chain) {w : World σ α} (hw : w.Latched) (candidates : List String)
    {s : σ} (hs : w.cancelled s = false)
    (hfired : w.cancelled (c.run w candidates s).2.2 = true) :
    let (course, ending, after) := c.run w candidates s
    ∃ visits log e, Timeline c w candidates 0 candidates s visits log e after ∧
      log.map (·.event) = course ∧ afterSignal w log <:+ course ∧
      calls (afterSignal w log) = [] ∧
      Halts c w candidates visits (notices (afterSignal w log)) ending := by
  have hne : candidates ≠ [] := by
    rintro rfl
    exact Bool.false_ne_true (hs.symm.trans hfired)
  obtain ⟨visits, log, e, htimeline, hcourse, hending⟩ := run_timeline c w hne s
  obtain ⟨hcalls, hhalts⟩ := htimeline.halts hw List.drop_zero hs hfired
    (trail (c.run w candidates s).1)
  have hsuffix := (htimeline.staysFired hw).suffix
  rw [hcourse] at hsuffix
  exact ⟨visits, log, e, htimeline, hcourse, hsuffix, hcalls, hending ▸ hhalts⟩

/-! ## A signal that fires in a call -/

/-- A world in which the signal fires during the first call, and every call fails. -/
def hasty : World (Breaker.Registry × Bool) Nat where
  now _ := 0
  cancelled s := s.2
  breakers s := s.1
  setBreakers r s := (r, s.2)
  work _ s := (.back (.error (.http "overloaded")), (s.1, true))
  sleep _ s := (.back !s.2, s)

theorem latched_hasty : hasty.Latched where
  setBreakers _ _ := rfl
  sleep _ _ h := h

/-- The signal fires in the only attempt on the first of two candidates. -/
theorem run_after_signal_announced :
    let c : Chain :=
      { config := { maxRetriesPerModel := 0 }, resolve := fun r => some ⟨r, r, r⟩
        classify := fun _ => some .timeout }
    hasty.Latched ∧ hasty.cancelled ({}, false) = false ∧
      hasty.cancelled (c.run hasty ["a", "b"] ({}, false)).2.2 = true ∧
      ∃ visits log e, Timeline c hasty ["a", "b"] 0 ["a", "b"] ({}, false) visits log e
          (c.run hasty ["a", "b"] ({}, false)).2.2 ∧
        log.map (·.event) = (c.run hasty ["a", "b"] ({}, false)).1 ∧
        afterSignal hasty log <:+ (c.run hasty ["a", "b"] ({}, false)).1 ∧
        calls (afterSignal hasty log) = [] ∧
        Halts c hasty ["a", "b"] visits (notices (afterSignal hasty log))
          (c.run hasty ["a", "b"] ({}, false)).2.1 :=
  ⟨latched_hasty, rfl, rfl, run_after_signal _ latched_hasty ["a", "b"] rfl rfl⟩

/-- It is not so that no run ends exhausted once its signal has fired, and not so that none makes an
announcement. -/
theorem exhausted_after_signal :
    let c : Chain :=
      { config := { maxRetriesPerModel := 0 }, resolve := fun r => some ⟨r, r, r⟩
        classify := fun _ => some .timeout }
    hasty.Latched ∧
      (¬ ∀ candidates s, hasty.cancelled s = false →
        hasty.cancelled (c.run hasty candidates s).2.2 = true →
        ∀ entries, (c.run hasty candidates s).2.1 ≠ .failed (.exhausted entries)) ∧
      (c.run hasty ["a", "b"] ({}, false)).1 =
        [.visit 0, .call ⟨"a", "a", "a"⟩, .attempt (.failed "a/a" "HTTP error: overloaded" 0),
          .notice ⟨"a/a", "b", .timeout⟩] :=
  ⟨latched_hasty, fun h => h ["a"] ({}, false) rfl rfl _ rfl, by decide +kernel⟩

end TurnEngine.Fallback
