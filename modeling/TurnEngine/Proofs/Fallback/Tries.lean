import TurnEngine.Fallback.Chain
import TurnEngine.Proofs.Breaker.Keys

/-!
# The calls made for one candidate

A candidate that is not skipped is called one or more times, each time through the breaker that was
taken for it and with a wait in between. A `Try` is one such call with the worlds before and after
it, and `Tries` says that some calls were made one after the other; neither knows when a chain
stops. The rules for that are `tryModel_tried`: every call but the last failed in a way worth
another one, and the last one used up the budget, was turned away, or settles how the whole run
ends.
-/

namespace TurnEngine.Fallback

variable {σ α : Type}

/-- One call for a candidate. -/
structure Try (σ α : Type) where
  before : σ
  /-- Whether the work was invoked; if not, the breaker turned the call away. -/
  invoked : Bool
  result : Waited (Except Failure α)
  after : σ

namespace Try

/-- The call was made on a model in its world, through a breaker. -/
def Made (w : World σ α) (m : Model) (held : Breaker.Ref) (t : Try σ α) : Prop :=
  Chain.callThrough w m held t.before = (if t.invoked then [.call m] else [], t.result, t.after)

/-- What the call adds to the audit trail. -/
def entries (w : World σ α) (name : String) (t : Try σ α) : List Attempt :=
  let ms := Chain.since w (w.now t.before) t.after
  match t.result with
  | .dropped => []
  | .back (.ok _) => [.succeeded name ms]
  | .back (.error f) => if f.isCancelled then [] else [.failed name f.message ms]

/-- What the chain says about the call. -/
def events (w : World σ α) (m : Model) (t : Try σ α) : List Event :=
  (if t.invoked then [.call m] else []) ++ (t.entries w m.qualifiedName).map .attempt

/-- It failed for a reason worth another call. -/
def Worthy (c : Chain) (reason : Reason) (t : Try σ α) : Prop :=
  ∃ f, t.result = .back (.error f) ∧ f.isCancelled = false ∧ f.isBreakerRejection = false ∧
    c.classify f = some reason ∧ reason ∈ c.config.fallbackOn

/-- It was turned away, by the breaker of its model or by another one behind the work. -/
def Rejected (t : Try σ α) : Prop :=
  ∃ f, t.result = .back (.error f) ∧ f.isBreakerRejection = true

end Try

/-- Calls on a model through one breaker, one after the other, each but the first after a wait that
came back. A wait after the last one was dropped, if there was one. -/
inductive Tries (w : World σ α) (m : Model) (held : Breaker.Ref) : σ → List (Try σ α) → σ → Prop
  | last {t : Try σ α} : t.Made w m held → Tries w m held t.before [t] t.after
  | again {t : Try σ α} {ms : Nat} {s s' : σ} {ts : List (Try σ α)} : t.Made w m held →
      w.sleep ms t.after = (.back true, s) → Tries w m held s ts s' →
      Tries w m held t.before (t :: ts) s'
  | cut {t : Try σ α} {ms : Nat} {s : σ} : t.Made w m held →
      w.sleep ms t.after = (.dropped, s) → Tries w m held t.before [t] s

/-- How the whole run ends if a call on a model has this result; `none` if it goes on. -/
def Chain.settles (c : Chain) (m : Model) : Waited (Except Failure α) → Option (Ending α)
  | .dropped => some .dropped
  | .back (.ok a) => some (.value a m)
  | .back (.error f) =>
    if f.isCancelled ||
        !f.isBreakerRejection && !Classifier.finds c.classify c.config.fallbackOn f then
      some (.failed f)
    else none

/-- The states in which the signal has not fired, and that a run does not leave. -/
structure World.Quiet (w : World σ α) (calm : σ → Prop) : Prop where
  unfired : ∀ s, calm s → w.cancelled s = false
  setBreakers : ∀ r s, calm s → calm (w.setBreakers r s)
  work : ∀ m s, calm s → calm (w.work m s).2
  sleep : ∀ ms s, calm s → calm (w.sleep ms s).2 ∧ (w.sleep ms s).1 ≠ .back false

/-- The models on which the work was invoked. -/
def calls (course : List Event) : List Model :=
  course.filterMap fun
    | .call m => some m
    | _ => none

/-- The indices of the candidates that were looked at. -/
def indices (course : List Event) : List Nat :=
  course.filterMap fun
    | .visit i => some i
    | _ => none

section
variable (xs ys : List Event)

@[simp] theorem trail_visit (i : Nat) : trail (.visit i :: xs) = trail xs := rfl

@[simp] theorem trail_call (m : Model) : trail (.call m :: xs) = trail xs := rfl

@[simp] theorem trail_attempt (a : Attempt) : trail (.attempt a :: xs) = a :: trail xs := rfl

@[simp] theorem calls_visit (i : Nat) : calls (.visit i :: xs) = calls xs := rfl

@[simp] theorem calls_call (m : Model) : calls (.call m :: xs) = m :: calls xs := rfl

@[simp] theorem calls_attempt (a : Attempt) : calls (.attempt a :: xs) = calls xs := rfl

@[simp] theorem indices_visit (i : Nat) : indices (.visit i :: xs) = i :: indices xs := rfl

@[simp] theorem indices_call (m : Model) : indices (.call m :: xs) = indices xs := rfl

@[simp] theorem indices_attempt (a : Attempt) : indices (.attempt a :: xs) = indices xs := rfl

@[simp] theorem trail_append : trail (xs ++ ys) = trail xs ++ trail ys := List.filterMap_append

@[simp] theorem calls_append : calls (xs ++ ys) = calls xs ++ calls ys := List.filterMap_append

@[simp] theorem indices_append : indices (xs ++ ys) = indices xs ++ indices ys :=
  List.filterMap_append

theorem notices_append : notices (xs ++ ys) = notices xs ++ notices ys := List.filterMap_append

end

/-! ## One call -/

theorem failed_of_error {w : World σ α} {t : Try σ α} {f : Failure}
    (h : t.result = .back (.error f)) (name : String) :
    ∀ a ∈ t.entries w name, a.success = false := by
  intro a ha
  cases hf : f.isCancelled <;> simp [Try.entries, h, hf] at ha
  rw [ha]
  rfl

/-- A breaker turns calls away with failures of its own only. -/
theorem isBreakerRejection_of_request {b : Breaker} {now : Nat} {f : Failure}
    (h : (b.request now).2 = .error f) : f.isBreakerRejection = true := by
  unfold Breaker.request at h
  dsimp only at h
  split at h
  · cases h
  · cases h
    rfl
  · split at h
    · cases h
      rfl
    · cases h

/-- Asking a breaker for a call makes one, if only to be turned away. -/
theorem exists_call (w : World σ α) (m : Model) (held : Breaker.Ref) (s : σ) :
    ∃ t : Try σ α, t.before = s ∧ t.Made w m held ∧ (t.invoked = false → t.Rejected) := by
  cases hanswer : (((w.breakers s).lookup held).request (w.now s)).2 with
  | error f =>
    have hrequest := Breaker.Registry.requestAt_of_error _ _ held hanswer
    refine ⟨⟨s, false, .back (.error f),
        w.setBreakers ((w.breakers s).requestAt (w.now s) held).1 s⟩,
      rfl, ?_, fun _ => ⟨f, rfl, isBreakerRejection_of_request hanswer⟩⟩
    rw [Try.Made, Chain.callThrough, hrequest]
    rfl
  | ok a =>
    have hrequest := Breaker.Registry.requestAt_of_ok _ _ held hanswer
    refine ⟨⟨s, true, (Chain.callThrough w m held s).2.1, (Chain.callThrough w m held s).2.2⟩,
      rfl, ?_,
      nofun⟩
    rw [Try.Made, Chain.callThrough, hrequest]
    rfl

theorem exists_made {w : World σ α} {calm : σ → Prop} (hw : w.Quiet calm) {s : σ} (hs : calm s)
    (m : Model) (held : Breaker.Ref) :
    ∃ t : Try σ α, t.before = s ∧ t.Made w m held ∧ calm t.after ∧
      (t.invoked = false → t.Rejected) := by
  obtain ⟨t, rfl, hmade, hrefused⟩ := exists_call w m held s
  have hafter : t.after = (Chain.callThrough w m held t.before).2.2 := by rw [hmade]
  refine ⟨t, rfl, hmade, ?_, hrefused⟩
  rw [hafter]
  unfold Chain.callThrough
  split
  · exact hw.setBreakers _ _ hs
  · exact hw.setBreakers _ _ (hw.work m _ (hw.setBreakers _ _ hs))

/-! ## All calls of a candidate -/

/-- How the calls for a candidate came to their end, with `left` of them allowed. -/
inductive Tried (c : Chain) (m : Model) (left : Nat) (tries : List (Try σ α)) : Verdict α → Prop
  | usedUp {reason : Reason} {ts : List (Try σ α)} {t : Try σ α} : tries = ts ++ [t] →
      tries.length = left → (∀ u ∈ ts, ∃ r, u.Worthy c r) → t.Worthy c reason →
      Tried c m left tries (.spent reason)
  | turnedAway {ts : List (Try σ α)} {t : Try σ α} : tries = ts ++ [t] → tries.length ≤ left →
      (∀ u ∈ ts, ∃ r, u.Worthy c r) → t.Rejected → Tried c m left tries (.spent .modelUnavailable)
  | settled {ts : List (Try σ α)} {t : Try σ α} {e : Ending α} : tries = ts ++ [t] →
      tries.length ≤ left → (∀ u ∈ ts, ∃ r, u.Worthy c r) → c.settles m t.result = some e →
      Tried c m left tries (.ended e)
  | dropped : tries ≠ [] → tries.length ≤ left → (∀ u ∈ tries, ∃ r, u.Worthy c r) →
      Tried c m left tries (.ended .dropped)

theorem Tried.cons {c : Chain} {m : Model} {left : Nat} {ts : List (Try σ α)} {v : Verdict α}
    (h : Tried c m left ts v) {t : Try σ α} {r : Reason} (ht : t.Worthy c r) :
    Tried c m (left + 1) (t :: ts) v := by
  have hcons : ∀ us : List (Try σ α), (∀ u ∈ us, ∃ r, u.Worthy c r) →
      ∀ u ∈ t :: us, ∃ r, u.Worthy c r := by
    intro us hus u hu
    rcases List.mem_cons.1 hu with rfl | hu
    · exact ⟨r, ht⟩
    · exact hus u hu
  cases h with
  | usedUp he hl hw hlast =>
    exact .usedUp (by rw [he]; rfl) (by simp [hl]) (hcons _ hw) hlast
  | turnedAway he hl hw hlast =>
    exact .turnedAway (by rw [he]; rfl) (by simp [hl]) (hcons _ hw) hlast
  | settled he hl hw hlast =>
    exact .settled (by rw [he]; rfl) (by simp [hl]) (hcons _ hw) hlast
  | dropped hne hl hw => exact .dropped (by simp) (by simp [hl]) (hcons _ hw)

theorem Tried.length_le {c : Chain} {m : Model} {left : Nat} {ts : List (Try σ α)}
    {v : Verdict α} (h : Tried c m left ts v) : ts.length ≤ left := by
  cases h with
  | usedUp _ hl => exact Nat.le_of_eq hl
  | turnedAway _ hl => exact hl
  | settled _ hl => exact hl
  | dropped _ hl => exact hl

theorem Tried.error_of_spent {c : Chain} {m : Model} {left : Nat} {ts : List (Try σ α)}
    {reason : Reason} (h : Tried c m left ts (.spent reason)) :
    ∀ t ∈ ts, ∃ f, t.result = .back (.error f) := by
  cases h with
  | usedUp he _ hworthy hlast =>
    intro t ht
    rw [he, List.mem_append, List.mem_singleton] at ht
    rcases ht with ht | rfl
    · obtain ⟨r, f, hf, -⟩ := hworthy t ht
      exact ⟨f, hf⟩
    · exact hlast.imp fun f hf => hf.1
  | turnedAway he _ hworthy hlast =>
    intro t ht
    rw [he, List.mem_append, List.mem_singleton] at ht
    rcases ht with ht | rfl
    · obtain ⟨r, f, hf, -⟩ := hworthy t ht
      exact ⟨f, hf⟩
    · exact hlast.imp fun f hf => hf.1

/-- A call that gives a value is the last one, and the run gives that value. -/
theorem Tried.value {c : Chain} {m m' : Model} {left : Nat} {tries : List (Try σ α)} {a : α}
    (h : Tried c m left tries (.ended (.value a m'))) :
    m' = m ∧ ∃ ts t, tries = ts ++ [t] ∧ t.result = .back (.ok a) ∧
      ∀ u ∈ ts, ∃ f, u.result = .back (.error f) := by
  cases h with
  | @settled ts t e he _ hworthy hsettles =>
    have hresult : m' = m ∧ t.result = .back (.ok a) := by
      unfold Chain.settles at hsettles
      split at hsettles
      · cases hsettles
      · cases hsettles
        exact ⟨rfl, by assumption⟩
      · split at hsettles <;> cases hsettles
    refine ⟨hresult.1, ts, t, he, hresult.2, fun u hu => ?_⟩
    obtain ⟨r, f, hf, -⟩ := hworthy u hu
    exact ⟨f, hf⟩

/-- What the chain says about calls on a model. -/
structure Told (w : World σ α) (m : Model) (tries : List (Try σ α)) (events : List Event) :
    Prop where
  trail : trail events = tries.flatMap (·.entries w m.qualifiedName)
  calls : calls events = (tries.filter (·.invoked)).map fun _ => m
  indices : indices events = []

theorem told_events (w : World σ α) (m : Model) (t : Try σ α) : Told w m [t] (t.events w m) := by
  have htrail : ∀ as : List Attempt, trail (as.map Event.attempt) = as := by
    intro as
    induction as with
    | nil => rfl
    | cons a as ih => rw [List.map_cons, trail_attempt, ih]
  have hcalls : ∀ as : List Attempt, calls (as.map Event.attempt) = [] := by
    intro as
    induction as with
    | nil => rfl
    | cons a as ih => rw [List.map_cons, calls_attempt, ih]
  have hindices : ∀ as : List Attempt, indices (as.map Event.attempt) = [] := by
    intro as
    induction as with
    | nil => rfl
    | cons a as ih => rw [List.map_cons, indices_attempt, ih]
  unfold Try.events
  constructor
  · cases t.invoked <;> simp [htrail]
  · cases ht : t.invoked <;> simp [hcalls, ht]
  · cases t.invoked <;> simp [hindices]

theorem Told.append {w : World σ α} {m : Model} {ts us : List (Try σ α)} {xs ys : List Event}
    (h : Told w m ts xs) (h' : Told w m us ys) : Told w m (ts ++ us) (xs ++ ys) where
  trail := by simp [h.trail, h'.trail]
  calls := by simp [h.calls, h'.calls]
  indices := by simp [h.indices, h'.indices]

/-- All that one call can lead to. -/
theorem tryModel_succ (c : Chain) {w : World σ α} {m : Model} {held : Breaker.Ref} {t : Try σ α}
    (ht : t.Made w m held) (hquiet : w.cancelled t.before = false) (left n : Nat) :
    (∃ e, c.settles m t.result = some e ∧
      c.tryModel w m held (left + 1) n t.before = (t.events w m, .ended e, t.after)) ∨
    (t.Rejected ∧
      c.tryModel w m held (left + 1) n t.before =
        (t.events w m, .spent .modelUnavailable, t.after)) ∨
    ∃ reason ms, t.Worthy c reason ∧
      c.tryModel w m held (left + 1) n t.before =
        if left = 0 then (t.events w m, .spent reason, t.after)
        else match w.sleep ms t.after with
          | (.dropped, s) => (t.events w m, .ended .dropped, s)
          | (.back false, s) => (t.events w m, .ended (.failed .cancelled), s)
          | (.back true, s) =>
            let (more, verdict, s) := c.tryModel w m held left (n + 1) s
            (t.events w m ++ more, verdict, s) := by
  rw [Chain.tryModel, if_neg (by simp [hquiet]), ht]
  cases hresult : t.result with
  | dropped => exact .inl ⟨.dropped, rfl, by simp [Try.events, Try.entries, hresult]⟩
  | back answer =>
    cases answer with
    | ok a => exact .inl ⟨.value a m, rfl, by simp [Try.events, Try.entries, hresult]⟩
    | error f =>
      cases hcancelled : f.isCancelled with
      | true =>
        refine .inl ⟨.failed f, by simp [Chain.settles, hcancelled], ?_⟩
        simp [Try.events, Try.entries, hresult, hcancelled]
      | false =>
        cases hrejection : f.isBreakerRejection with
        | true =>
          refine .inr (.inl ⟨⟨f, hresult, hrejection⟩, ?_⟩)
          simp [Try.events, Try.entries, hresult, hcancelled, hrejection]
        | false =>
          cases hclass : c.classify f with
          | none =>
            refine .inl ⟨.failed f, ?_, ?_⟩
            · simp [Chain.settles, Classifier.finds, hrejection, hclass]
            · simp [Try.events, Try.entries, hresult, hcancelled, hrejection, hclass]
          | some reason =>
            by_cases hworthy : reason ∈ c.config.fallbackOn
            · let ms := c.config.backoff.delay 0 n (f.retryAfterMs?.map UInt64.toNat)
              refine .inr (.inr ⟨reason, ms,
                ⟨f, hresult, hcancelled, hrejection, hclass, hworthy⟩, ?_⟩)
              obtain ⟨waited, s, hsleep⟩ : ∃ waited s, w.sleep ms t.after = (waited, s) :=
                ⟨_, _, rfl⟩
              cases waited with
              | dropped =>
                simp [Try.events, Try.entries, hresult, hcancelled, hrejection, hclass, hworthy, ms,
                  hsleep]
              | back woken =>
                cases woken <;>
                  simp [Try.events, Try.entries, hresult, hcancelled, hrejection, hclass, hworthy,
                    ms, hsleep]
            · refine .inl ⟨.failed f, ?_, ?_⟩
              · simp [Chain.settles, Classifier.finds, hrejection, hclass, hworthy]
              · simp [Try.events, Try.entries, hresult, hcancelled, hrejection, hclass, hworthy]

theorem tryModel_tried (c : Chain) {w : World σ α} {calm : σ → Prop} (hw : w.Quiet calm)
    (m : Model) (held : Breaker.Ref) {left : Nat} (hleft : 0 < left) (n : Nat) {s : σ}
    (hs : calm s) :
    let (events, verdict, after) := c.tryModel w m held left n s
    ∃ tries : List (Try σ α), Tries w m held s tries after ∧ calm after ∧
      (∀ t ∈ tries, t.invoked = false → t.Rejected) ∧ Told w m tries events ∧
      Tried c m left tries verdict := by
  induction left generalizing n s with
  | zero => omega
  | succ left ih =>
    obtain ⟨t, rfl, hmade, hafter, hrefused⟩ := exists_made hw hs m held
    have hone : ∀ u ∈ [t], u.invoked = false → u.Rejected := by simpa using hrefused
    obtain ⟨e, hsettles, he⟩ | ⟨hrejected, he⟩ | ⟨reason, ms, hworthy, he⟩ :=
      tryModel_succ c hmade (hw.unfired _ hs) left n
    · rw [he]
      exact ⟨[t], .last hmade, hafter, hone, told_events w m t,
        .settled (List.nil_append [t]).symm (by simp) (by simp) hsettles⟩
    · rw [he]
      exact ⟨[t], .last hmade, hafter, hone, told_events w m t,
        .turnedAway (List.nil_append [t]).symm (by simp) (by simp) hrejected⟩
    · by_cases hlast : left = 0
      · rw [he, if_pos hlast]
        exact ⟨[t], .last hmade, hafter, hone, told_events w m t,
          .usedUp (List.nil_append [t]).symm (by simp [hlast]) (by simp) hworthy⟩
      · rw [he, if_neg hlast]
        obtain ⟨hcalm, hback⟩ := hw.sleep ms _ hafter
        cases hsleep : w.sleep ms t.after with
        | mk waited s =>
          rw [hsleep] at hcalm hback
          cases waited with
          | dropped =>
            exact ⟨[t], .cut hmade hsleep, hcalm, hone, told_events w m t,
              .dropped (by simp) (by simp) (by simpa using ⟨reason, hworthy⟩)⟩
          | back woken =>
            cases woken with
            | false => exact absurd rfl hback
            | true =>
              obtain ⟨ts, hts, hcalm', hrefused', htold, htried⟩ :=
                ih (Nat.pos_of_ne_zero hlast) (n + 1) hcalm
              refine ⟨t :: ts, .again hmade hsleep hts, hcalm', ?_, ?_, htried.cons hworthy⟩
              · intro u hu
                rcases List.mem_cons.1 hu with rfl | hu
                · exact hrefused
                · exact hrefused' u hu
              · exact (told_events w m t).append htold

end TurnEngine.Fallback
