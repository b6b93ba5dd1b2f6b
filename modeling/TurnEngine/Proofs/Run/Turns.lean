import TurnEngine.Proofs.Run.Bookkeeping

/-!
# The turns and the status of an execution

How an execution ends is decided in one of its turns, and the books say which: the turn whose
answer asks for no calls, the turn whose retry loop ends in a failure, or the last turn that the
setup allows. An execution whose signal is not fired ends in no other way (`turns_run`).
-/

namespace TurnEngine.Run

/-- The turn of a number, counted from 1. -/
def Books.turn? (b : Books) (n : Nat) : Option Turn := if n = 0 then none else b.turns[n - 1]?

/-- The execution has ended with a status after a number of turns. -/
def EndsIn (x : Execution) (status : Status) (n : Nat) : Prop :=
  ∃ result, x.phase = .ended (.ok result) ∧ result.status = status ∧ result.turns = n

instance (x : Execution) (status : Status) (n : Nat) : Decidable (EndsIn x status n) :=
  decidable_of_iff (∃ result ∈ x.phase.result?, result.status = status ∧ result.turns = n)
    (by simp [EndsIn, Phase.result?_eq_some])

variable {setup : Setup} {history : List Message} {b : Books} {x : Execution} {fired : Bool}
  {t : Turn} {status : Status}

theorem Books.turn?_last (hl : b.last = some t) : b.turn? b.turns.length = some t := by
  simp [turn?, turns_of_last hl]

/-- A turn is one that others came after, or the last one. -/
theorem Books.turn?_cases {n : Nat} (ht : b.turn? n = some t) :
    t ∈ b.earlier ∨ b.last = some t ∧ n = b.turns.length := by
  unfold turn? at ht
  split at ht
  · cases ht
  · rename_i hn
    rcases Nat.lt_or_ge (n - 1) b.earlier.length with hlt | hge
    · rw [turns, List.getElem?_append_left hlt] at ht
      exact .inl (List.mem_of_getElem? ht)
    · rw [turns, List.getElem?_append_right hge] at ht
      cases hl : b.last with
      | none => simp [hl] at ht
      | some u =>
        rw [hl, Option.toList_some] at ht
        obtain ⟨hlast, rfl⟩ := List.getElem?_eq_some_iff.1 ht
        rw [List.length_singleton] at hlast
        refine .inr ⟨by simp, ?_⟩
        rw [turns_of_last hl, List.length_append, List.length_singleton]
        omega

theorem Books.turn?_le {n : Nat} (ht : b.turn? n = some t) : n ≤ b.turns.length := by
  unfold turn? at ht
  split at ht
  · cases ht
  · have hlt := (List.getElem?_eq_some_iff.1 ht).1
    omega

namespace Journal

/-- A turn ends its execution with a status. -/
def EndsAs (setup : Setup) (t : Turn) : Status → Prop
  | .completed => ∃ r, t.progress = .answered r ∧ r.calls = []
  | .error => ∃ f, Spent setup t f ∧ f ≠ .cancelled
  | .aborted => Spent setup t .cancelled
  | .maxTurns => False

/-! ## One turn -/

/-- It ends it with an answer that asks for no calls, or with its last failure. -/
theorem EndsAs.answered_or_spent (h : EndsAs setup t status) :
    (∃ r, t.progress = .answered r ∧ r.calls = [] ∧ status = .completed) ∨
      ∃ f, Spent setup t f ∧ status = if f.isCancelled then .aborted else .error := by
  cases status with
  | completed =>
    obtain ⟨r, hr, hc⟩ := h
    exact .inl ⟨r, hr, hc, rfl⟩
  | error =>
    obtain ⟨f, hf, hne⟩ := h
    exact .inr ⟨f, hf, (if_neg (mt Failure.isCancelled_iff.1 hne)).symm⟩
  | aborted => exact .inr ⟨.cancelled, h, rfl⟩
  | maxTurns => cases h

/-- A turn does not end an execution in two ways. -/
theorem EndsAs.unique {status' : Status} (h : EndsAs setup t status)
    (h' : EndsAs setup t status') : status = status' := by
  -- how far the last attempt has come decides
  obtain ⟨r, hr, -, hs⟩ | ⟨f, hf, hs⟩ := h.answered_or_spent <;>
    obtain ⟨r', hr', -, hs'⟩ | ⟨f', hf', hs'⟩ := h'.answered_or_spent
  · exact hs.trans hs'.symm
  · cases hr.symm.trans hf'.1
  · cases hr'.symm.trans hf.1
  · cases hf.1.symm.trans hf'.1
    exact hs.trans hs'.symm

theorem EndsAs.calls_nil (h : EndsAs setup t status) {r : RoundTrip}
    (hr : t.progress = .answered r) : r.calls = [] := by
  obtain ⟨r', hr', hc, -⟩ | ⟨f, hf, -⟩ := h.answered_or_spent
  · cases hr.symm.trans hr'
    exact hc
  · cases hr.symm.trans hf.1

theorem EndsAs.not_carries (h : EndsAs setup t status) : ¬ Carries setup t := by
  intro hcarries
  cases hcarries with
  | underWay hr =>
    obtain ⟨r', hr', -⟩ | ⟨f, hf, -⟩ := h.answered_or_spent
    · cases hr.symm.trans hr'
    · cases hr.symm.trans hf.1
  | again hf hagain =>
    obtain ⟨r', hr', -⟩ | ⟨f, hspent, -⟩ := h.answered_or_spent
    · cases hf.symm.trans hr'
    · cases hf.symm.trans hspent.1
      exact hspent.2 hagain
  | finished hfinished =>
    obtain ⟨r, hr, hne, -⟩ := hfinished
    exact hne (h.calls_nil hr)

/-! ## The last turn -/

/-- Any turn but the last one is finished. -/
theorem Sound.last_of_not_finished (h : Sound setup b) {n : Nat} (ht : b.turn? n = some t)
    (hf : ¬ t.Finished) : b.last = some t ∧ n = b.turns.length := by
  obtain hearlier | hlast := Books.turn?_cases ht
  · exact absurd (h.finished t hearlier) hf
  · exact hlast

/-! ## The end -/

theorem Kept.closes (h : Kept setup history b fired x) {n : Nat} (he : EndsIn x status n) :
    n = b.turns.length ∧ ∃ error, Closes setup b fired status error := by
  obtain ⟨result, hp, rfl, rfl⟩ := he
  obtain ⟨-, -, hturns, hc⟩ := standsAt h hp
  exact ⟨hturns.trans h.agrees.turns, _, hc⟩

/-- An execution has ended with a result, or has no turns, or its last turn waits for something. -/
theorem Kept.cases_last (h : Kept setup history b fired x) :
    (∃ result, x.phase = .ended (.ok result) ∧ result.turns = b.turns.length ∧
      Closes setup b fired result.status result.error) ∨ b.turns = [] ∨
    ∃ t, b.last = some t ∧ t.results = none ∧
      (Carries setup t ∨ ∃ r, t.progress = .answered r ∧ r.calls ≠ []) := by
  have hstands := h.stands
  cases hp : x.phase with
  | admission =>
    rw [hp] at hstands
    exact .inr (.inl hstands.1)
  | opening r =>
    rw [hp] at hstands
    obtain ⟨t, ht, hr⟩ := hstands
    exact .inr (.inr ⟨t, ht.last, ht.results, .inl (.underWay hr)⟩)
  | reading r =>
    rw [hp] at hstands
    obtain ⟨t, ht, hr⟩ := hstands
    exact .inr (.inr ⟨t, ht.last, ht.results, .inl (.underWay hr)⟩)
  | pausing =>
    rw [hp] at hstands
    obtain ⟨t, f, ht, hf, hagain⟩ := hstands
    exact .inr (.inr ⟨t, ht.last, ht.results, .inl (.again hf hagain)⟩)
  | dispatching calls =>
    rw [hp] at hstands
    obtain ⟨t, r, ht, hr, rfl, hc⟩ := hstands
    exact .inr (.inr ⟨t, ht.last, ht.results, .inr ⟨r, hr, hc⟩⟩)
  | ended outcome =>
    rw [hp] at hstands
    cases outcome with
    | ok result =>
      obtain ⟨-, -, hturns, hc⟩ := hstands
      exact .inl ⟨result, rfl, hturns.trans h.agrees.turns, hc⟩
    | error f => exact .inr (.inl hstands)

/-- The status of an execution and the way in which its last turn ended. -/
theorem Closes.endsAs {error : Option String} (h : Closes setup b fired status error)
    (hl : b.last = some t) (hc : ¬ Carries setup t) : EndsAs setup t status := by
  have hlast {u : Turn} (hu : b.last = some u) : u = t := Option.some.inj (hu.symm.trans hl)
  cases h with
  | completed hu hr hnil => exact ⟨_, hlast hu ▸ hr, hnil⟩
  | error hu hs hf => exact ⟨_, hlast hu ▸ hs, hf⟩
  | cancelled hu hs =>
    rw [hlast hu] at hs
    exact hs
  | maxTurns hn hf => exact absurd (.finished (hf t (by simp [Books.turns_of_last hl]))) hc
  | aborted hf hall => exact absurd (hall t hl) hc

/-- A turn that ends its execution ends it there and then. -/
theorem Kept.endsIn_of_endsAs (h : Kept setup history b fired x) {n : Nat}
    (ht : b.turn? n = some t) (hends : EndsAs setup t status) : EndsIn x status n := by
  have hc := hends.not_carries
  obtain ⟨hl, rfl⟩ := h.sound.last_of_not_finished ht fun hf => hc (.finished hf)
  obtain ⟨result, hp, hturns, hcloses⟩ | hnone | ⟨u, hu, -, hwaits⟩ := h.cases_last
  · exact ⟨result, hp, (hcloses.endsAs hl hc).unique hends, hturns⟩
  · simp [Books.turns_of_last hl] at hnone
  · obtain rfl : u = t := Option.some.inj (hu.symm.trans hl)
    rcases hwaits with hcarries | ⟨r, hr, hne⟩
    · exact absurd hcarries hc
    · exact absurd (hends.calls_nil hr) hne

/-- An execution that nobody cancelled, and that did not use up its turns, was ended by a turn. -/
theorem Kept.endsIn_iff (h : Kept setup history b false x) (hs : status ≠ .maxTurns) (n : Nat) :
    EndsIn x status n ↔ ∃ t, b.turn? n = some t ∧ EndsAs setup t status := by
  refine ⟨fun he => ?_, fun ⟨t, ht, hends⟩ => h.endsIn_of_endsAs ht hends⟩
  obtain ⟨rfl, error, hc⟩ := h.closes he
  cases hc with
  | completed hl hr hnil => exact ⟨_, Books.turn?_last hl, _, hr, hnil⟩
  | error hl hspent hf => exact ⟨_, Books.turn?_last hl, _, hspent, hf⟩
  | cancelled hl hspent => exact ⟨_, Books.turn?_last hl, hspent⟩
  | maxTurns => exact absurd rfl hs
  | aborted hf => cases hf

/-- The turns are used up when all of them are finished. -/
theorem Kept.maxTurns_iff (h : Kept setup history b false x) (hlimit : 0 < setup.turnLimit)
    (n : Nat) : EndsIn x .maxTurns n ↔
      n = setup.turnLimit ∧ b.turns.length = setup.turnLimit ∧ ∀ t ∈ b.turns, t.Finished := by
  constructor
  · intro he
    obtain ⟨rfl, error, hc⟩ := h.closes he
    cases hc with
    | maxTurns hn hf => exact ⟨hn, hn, hf⟩
  · rintro ⟨rfl, hn, hf⟩
    have hlast {t : Turn} (hl : b.last = some t) : t.Finished :=
      hf t (by simp [Books.turns_of_last hl])
    obtain ⟨result, hp, hturns, hc⟩ | hnone | ⟨t, hl, hres, -⟩ := h.cases_last
    · refine ⟨result, hp, ?_, hturns.trans hn⟩
      generalize result.status = status, result.error = error at hc
      cases hc with
      | maxTurns => rfl
      | aborted hfired => cases hfired
      | completed hl hr hnil =>
        obtain ⟨r', hr', hne, -⟩ := hlast hl
        cases hr.symm.trans hr'
        exact absurd hnil hne
      | error hl hs =>
        obtain ⟨r', hr', -⟩ := hlast hl
        cases hs.1.symm.trans hr'
      | cancelled hl hs =>
        obtain ⟨r', hr', -⟩ := hlast hl
        cases hs.1.symm.trans hr'
    · rw [hnone] at hn
      exact absurd hn (Nat.ne_of_lt hlimit)
    · obtain ⟨r, -, -, hsome⟩ := hlast hl
      rw [hres] at hsome
      cases hsome

/-- A failed turn leaves the conversation and the usage as the turns before it had left them. -/
theorem Kept.failed (h : Kept setup history b fired x) {result : Result Message}
    (hp : x.phase = .ended (.ok result)) (hs : result.status = .error) :
    ∃ t f, b.turn? result.turns = some t ∧ Spent setup t f ∧ result.error = some f.message ∧
      result.messages
        = history ++ (b.turns.take (result.turns - 1)).flatMap Turn.messages ∧
      result.usage = ((b.turns.take (result.turns - 1)).flatMap Turn.deltas).sum := by
  obtain ⟨hmessages, husage, hturns, hc⟩ := standsAt h hp
  rw [h.agrees.turns] at hturns
  rw [h.agrees.messages] at hmessages
  rw [h.agrees.usage] at husage
  rw [hs] at hc
  generalize hresult : result.error = error at hc
  cases hc with
  | @error t f hl hspent hf =>
    have hno : ∀ r, t.progress ≠ .answered r := by simp [hspent.1]
    have htake : b.turns.take (result.turns - 1) = b.earlier := by
      rw [hturns, Books.turns_of_last hl, List.length_append]
      exact List.take_left' rfl
    refine ⟨t, f, hturns ▸ Books.turn?_last hl, hspent, rfl, ?_, ?_⟩
    · rw [hmessages, htake, Books.messages, Books.turns_of_last hl]
      simp [Turn.messages_of_not_answered hno]
    · rw [husage, htake, Books.deltas, Books.turns_of_last hl]
      simp [Turn.deltas_of_not_answered hno]

/-! ## Runs -/

/-- The requests of a record are those of its books. -/
theorem requests_run (now : Nat) (setup : Setup) (history : List Message)
    (cancelled : Bool) (happenings : List (Nat × Stimulus)) :
    (run now setup history cancelled happenings).record.requests
      = (run now setup history cancelled happenings).books.requests := by
  refine run_induct (P := fun j => j.record.requests = j.books.requests) ?_
    (fun j now s hj => ?_) happenings
  · exact (Execution.start_same now now setup history cancelled).2.2
  · simp only [next]
    rw [Record.requests_next, Books.requests_ask, Books.requests_take, hj]

/-- What the turns of a run are, and what they make of its end. -/
structure TurnRules (setup : Setup) (history : List Message) (j : Journal) : Prop where
  /-- Every call of the backend is an attempt of a turn. -/
  requests : j.record.requests = j.books.requests
  retried : ∀ t ∈ j.books.turns, Retried setup t
  /-- A turn begins after others that were answered with calls. -/
  finished : ∀ n t, j.books.turn? n = some t → n < j.books.turns.length → t.Finished
  within : j.books.turns.length ≤ setup.turnLimit
  completed : ∀ n, EndsIn j.record.execution .completed n ↔
    n ≤ setup.turnLimit ∧ ∃ t r, j.books.turn? n = some t ∧ t.progress = .answered r ∧ r.calls = []
  error : ∀ n, EndsIn j.record.execution .error n ↔
    ∃ t f, j.books.turn? n = some t ∧ Spent setup t f ∧ f ≠ .cancelled
  aborted : ∀ n, EndsIn j.record.execution .aborted n ↔
    ∃ t, j.books.turn? n = some t ∧ Spent setup t .cancelled
  maxTurns : ∀ n, EndsIn j.record.execution .maxTurns n ↔ n = setup.turnLimit ∧
    j.books.turns.length = setup.turnLimit ∧ ∀ t ∈ j.books.turns, t.Finished
  /-- The result of a turn that failed: the text of its last failure, and otherwise what the turns
  before it came to. -/
  failed : ∀ result, j.record.execution.phase = .ended (.ok result) → result.status = .error →
    ∃ t f, j.books.turn? result.turns = some t ∧ Spent setup t f ∧
      result.error = some f.message ∧
      result.messages
        = history ++ (j.books.turns.take (result.turns - 1)).flatMap Turn.messages ∧
      result.usage = ((j.books.turns.take (result.turns - 1)).flatMap Turn.deltas).sum

/-- The turns of an execution that may have turns, and whose signal nobody fires, keep the rules,
and decide how it ends. -/
theorem turns_run (now : Nat) (setup : Setup) (history : List Message) (cancelled : Bool)
    (happenings : List (Nat × Stimulus)) (hlimit : 0 < setup.turnLimit)
    (hfired : (Journal.run now setup history cancelled happenings).fired = false) :
    (Journal.run now setup history cancelled happenings).record
        = Record.run now setup history cancelled happenings ∧
      TurnRules setup history (Journal.run now setup history cancelled happenings) := by
  have hkept := Journal.run_kept now setup history cancelled happenings
  have hrequests := Journal.requests_run now setup history cancelled happenings
  refine ⟨Journal.record_run now setup history cancelled happenings, ?_⟩
  generalize Journal.run now setup history cancelled happenings = j at hfired hkept hrequests ⊢
  rw [hfired] at hkept
  have hsound := hkept.sound
  refine ⟨hrequests, hsound.retried, fun n t ht hn => ?_, hsound.within, fun n => ?_, fun n => ?_,
    hkept.endsIn_iff (by simp), hkept.maxTurns_iff hlimit, fun result => hkept.failed⟩
  · by_contra hf
    exact Nat.ne_of_lt hn (hsound.last_of_not_finished ht hf).2
  · rw [hkept.endsIn_iff (by simp)]
    constructor
    · rintro ⟨t, ht, r, hr, hc⟩
      exact ⟨Nat.le_trans (Books.turn?_le ht) hsound.within, t, r, ht, hr, hc⟩
    · rintro ⟨-, t, r, ht, hr, hc⟩
      exact ⟨t, ht, r, hr, hc⟩
  · rw [hkept.endsIn_iff (by simp)]
    exact ⟨fun ⟨t, ht, f, hf⟩ => ⟨t, f, ht, hf⟩, fun ⟨t, f, ht, hf⟩ => ⟨t, ht, f, hf⟩⟩

/-- One retry allowed: a turn that needs it and asks for a call, then a turn that fails twice. The
listener fires the signal when all is over, which is too late. -/
theorem turns_run_second_fails :
    let setup : Setup :=
      { config := { usageThresholds := [], retry := { maxRetries := 1 } }
        classify := fun _ => some .serverError, session := "s", model := "m", maxTurns := some 2
        listener := some fun e => (.ok (), e.isDone) }
    let happenings : List (Nat × Stimulus) :=
      [(0, .admitted), (1, .opened (.error (.http "eof"))), (2, .awake), (3, .opened (.ok ())),
        (4, .item (some (.ok (.toolCallStart "a" "look")))),
        (5, .item (some (.ok (.toolCallEnd "a")))),
        (6, .item (some (.ok (.usage { input := 3 })))), (7, .item (some (.ok (.done none)))),
        (8, .results [⟨"a", "", false⟩]), (9, .opened (.ok ())),
        (10, .item (some (.ok (.usage { input := 5 })))),
        (11, .item (some (.error (.http "gone")))),
        (12, .awake), (13, .opened (.error (.http "gone")))]
    let j := Journal.run 0 setup [.user "go"] false happenings
    0 < setup.turnLimit ∧ j.fired = false ∧ j.record.execution.cancelled = true ∧
      EndsIn j.record.execution .error 2 ∧ j.record.requests.length = 4 ∧
      (j.books.turns.map (·.tries.length)) = [2, 2] ∧
      (j.books.turns.flatMap Turn.deltas) = [{ input := 3 }] ∧
      TurnRules setup [.user "go"] j := by
  intro setup happenings j
  have hfired : j.fired = false := by decide +kernel
  refine ⟨by decide, hfired, by decide +kernel, by decide +kernel, by decide +kernel,
    by decide +kernel, by decide +kernel, ?_⟩
  exact (turns_run 0 setup [.user "go"] false happenings (by decide) hfired).2

end Journal

end TurnEngine.Run
