import TurnEngine.Proofs.Run.Counting
import TurnEngine.Proofs.Usage.Crossings

/-!
# What a listener hears

The events of an execution are the image of its books (`Books.heard`): attempt by attempt what is
said of the events that it accepted (`image`), after an answer the thresholds that are newly crossed
(`Meter.crossings`), and when the execution has ended with a result, that it is done. Every move
adds what its stimulus adds to the image, no more and no less (`Overheard.on`); that the meter knows
which thresholds were crossed before is part of the induction.
-/

namespace TurnEngine.Run

open RoundTrip (Arrival Progress)

/-! ## The image of an attempt -/

/-- What is said of the events that an attempt accepts, given the call that is open and the usage so
far. Text within a call is not accepted. -/
def image : Assembler → Usage → List Arrival → List Report
  | call, used, .item (some (.ok e)) :: later =>
    match e with
    | .textDelta text => if call.isSome then [] else .textDelta text :: image call used later
    | .toolCallStart id name => .toolCallStart id name :: image (call.start id name) used later
    | .toolCallDelta _ fragment => image (call.push fragment) used later
    | .toolCallEnd _ =>
      match call.finish with
      | (_, none) => image call used later
      | (rest, some complete) => .toolCallEnd complete :: image rest used later
    | .usage u => .usage (used + u) :: image call (used + u) later
    | .done _ => []
  | _, _, _ => []

/-- A report as listeners hear it, given the usage of the turns before. -/
def heardAs (before : Usage) : Report → LiveEvent
  | .usage soFar => .report (.usage (before + soFar))
  | r => .report r

theorem liveReport_eq (x : Execution) : x.liveReport = heardAs x.meter.usage := by
  funext r
  cases r <;> rfl

section
variable {r r' : RoundTrip} {a : Arrival} {arrivals : List Arrival}

theorem advance_assembler {step : Protocol.Step} (h : r.advance step = .ok r') :
    r'.assembler = r.assembler := by
  unfold RoundTrip.advance at h
  split at h <;> cases h
  rfl

/-- An accepted event is heard of, and the next one finds the round trip as it is then. -/
theorem image_accept {e : StreamEvent} {said : List Report} (h : r.accept e = .ok (r', said))
    (hd : e.isDone = false) (ht : ∀ text, e = .textDelta text → r.assembler = none)
    (later : List Arrival) :
    image r.assembler r.usage (.event e :: later) = said ++ image r'.assembler r'.usage later := by
  have husage := (RoundTrip.accept_usage h).1
  cases e with
  | textDelta text =>
    obtain ⟨r₁, h₁, h⟩ := RoundTrip.bind_ok h
    cases h
    have hnone := ht text rfl
    have hcall : r₁.assembler = none := (advance_assembler h₁).trans hnone
    have hsame : r₁.usage = r.usage := RoundTrip.advance_usage h₁
    simp only [image, hnone, hcall, hsame, Option.isSome_none, Bool.false_eq_true, if_false,
      List.singleton_append]
  | toolCallStart id name =>
    obtain ⟨r₁, h₁, h⟩ := RoundTrip.bind_ok h
    obtain ⟨r₂, h₂, h⟩ := RoundTrip.bind_ok h
    cases h
    have hsame : r₂.usage = r.usage :=
      (RoundTrip.advance_usage h₂).trans (RoundTrip.abandon_usage h₁)
    simp only [image, hsame, Assembler.start, List.singleton_append]
  | toolCallDelta id fragment =>
    cases h
    rfl
  | toolCallEnd id =>
    simp only [RoundTrip.accept] at h
    cases hcall : r.assembler with
    | none =>
      simp only [hcall, Assembler.finish, Option.map_none] at h
      cases h
      simp only [image, Assembler.finish, Option.map_none, hcall, List.nil_append]
    | some call =>
      simp only [hcall, Assembler.finish, Option.map_some] at h
      obtain ⟨r₁, h₁, h⟩ := RoundTrip.bind_ok h
      cases h
      have hsame : r₁.usage = r.usage := (RoundTrip.advance_usage h₁ :)
      have hnone : r₁.assembler = none := (advance_assembler h₁ :)
      simp only [image, Assembler.finish, Option.map_some, hsame, hnone, List.singleton_append]
  | usage u =>
    cases h
    rfl
  | done stopReason => cases hd

/-- What an arrival adds is what the round trip says about it; nothing comes after the end. -/
theorem image_cons (h : r.InStep) (a : Arrival) (later : List Arrival) :
    image r.assembler r.usage (a :: later) = Execution.reports r a ++
      match r.meet a with
      | .underWay r' => image r'.assembler r'.usage later
      | _ => [] := by
  rcases a with (_ | f | e) | _
  · rw [show r.meet (.item none) = r.close from rfl, h.close]
    rfl
  · rfl
  · rcases h.meet_event e with ⟨text, rfl, hopen, hm⟩ | ⟨r', hd, hm, -⟩ | ⟨r', hd, hm, -⟩
    · rw [hm]
      simp only [image, Execution.reports, h.accept_text_in_call hopen, hopen, if_true,
        List.append_nil]
    · rw [hm]
      cases e with
      | done stopReason => rfl
      | _ => cases hd
    · rw [hm]
      obtain ⟨e', said, he, -, ha⟩ := RoundTrip.meet_underWay hm
      cases he
      rw [show Execution.reports r (.event e) = said by simp only [Execution.reports, ha]]
      refine image_accept ha hd (fun text he => ?_) later
      subst he
      refine Option.not_isSome_iff_eq_none.1 fun hopen => ?_
      rw [h.accept_text_in_call hopen] at ha
      cases ha
  · rfl

theorem image_concat (h : r.InStep) (hr : r.through arrivals = .underWay r') (a : Arrival) :
    image r.assembler r.usage (arrivals ++ [a]) =
      image r.assembler r.usage arrivals ++ Execution.reports r' a := by
  induction arrivals generalizing r with
  | nil =>
    cases hr
    rw [List.nil_append, image_cons h]
    have hnil (p : Progress) : (match p with
        | .underWay r' => image r'.assembler r'.usage []
        | _ => []) = [] := by
      cases p <;> rfl
    rw [hnil, List.append_nil]
    rfl
  | cons b arrivals ih =>
    simp only [RoundTrip.through] at hr
    cases hm : r.meet b with
    | failed f =>
      rw [hm] at hr
      cases hr
    | answered r₁ =>
      rw [hm] at hr
      cases hr
    | underWay r₁ =>
      rw [hm] at hr
      have hlater := ih (h.meet hm) hr
      rw [List.cons_append, image_cons h, image_cons h, hm]
      simp only [hlater, List.append_assoc]

theorem image_course (hr : RoundTrip.course arrivals = .underWay r) (a : Arrival) :
    image none {} (arrivals ++ [a]) = image none {} arrivals ++ Execution.reports r a := by
  unfold RoundTrip.course at hr
  rw [RoundTrip.begin_eq] at hr
  exact image_concat RoundTrip.InStep.started hr a

/-- A failure is not heard of. -/
theorem reports_of_failed {f : Failure} (h : r.meet a = .failed f) :
    Execution.reports r a = [] := by
  rcases a with (_ | _ | e) | _
  · rfl
  · rfl
  · cases ha : r.accept e with
    | error f' => simp only [Execution.reports, ha]
    | ok p =>
      simp only [RoundTrip.meet, ha] at h
      cases e with
      | done stopReason => rfl
      | _ => simp [StreamEvent.isDone] at h
  · rfl

end

/-! ## The image of the books -/

/-- What is heard of an attempt, given the usage of the turns before. -/
def Try.heard (before : Usage) (t : Try) : List LiveEvent :=
  (image none {} t.arrivals).map (heardAs before)

namespace Turn

/-- The usage at which the thresholds are checked after a turn, given that of the turns before. -/
def count? (before : Usage) (t : Turn) : Option Usage :=
  match t.progress with
  | .answered _ => some (before + t.deltas.sum)
  | _ => none

/-- The counts after a turn, given those before. -/
def counts (before : List Usage) (t : Turn) : List Usage :=
  before ++ (t.count? (Meter.lastCount before)).toList

/-- What is heard of a turn, given the counts before: its attempts in order, and after an answer the
thresholds that are newly crossed. -/
def heard (m : Meter) (before : List Usage) (t : Turn) : List LiveEvent :=
  t.tries.flatMap (Try.heard (Meter.lastCount before)) ++
    (t.count? (Meter.lastCount before)).toList.flatMap fun u =>
      (m.crossings before u).map .usageWarning

/-- What is heard of turns one after the other. -/
def heardAll (m : Meter) : List Usage → List Turn → List LiveEvent
  | _, [] => []
  | before, t :: later => t.heard m before ++ heardAll m (t.counts before) later

end Turn

namespace Books

/-- The counts at which thresholds were checked. -/
def counts (b : Books) : List Usage := b.turns.foldl Turn.counts []

/-- What is heard of all turns. -/
def heard (m : Meter) (b : Books) : List LiveEvent := Turn.heardAll m [] b.turns

end Books

/-- Nothing of the image is the end. -/
theorem Books.heard_not_done (m : Meter) (b : Books) : ∀ e ∈ b.heard m, e.isDone = false := by
  have hturn (before : List Usage) (t : Turn) : ∀ e ∈ t.heard m before, e.isDone = false := by
    intro e he
    rcases List.mem_append.1 he with he | he
    · obtain ⟨a, -, he⟩ := List.mem_flatMap.1 he
      obtain ⟨report, -, rfl⟩ := List.mem_map.1 he
      cases report <;> rfl
    · obtain ⟨u, -, he⟩ := List.mem_flatMap.1 he
      obtain ⟨w, -, rfl⟩ := List.mem_map.1 he
      rfl
  have hall (before : List Usage) (ts : List Turn) :
      ∀ e ∈ Turn.heardAll m before ts, e.isDone = false := by
    induction ts generalizing before with
    | nil => exact fun e he => by cases he
    | cons t later ih =>
      intro e he
      exact (List.mem_append.1 he).elim (hturn before t e) (ih _ e)
  exact hall [] b.turns

/-! ### Turning a page -/

section
variable {b : Books} {t t' : Turn} {r r' : RoundTrip} {a : Arrival}

theorem Turn.heardAll_concat (m : Meter) (before : List Usage) (ts : List Turn) (t : Turn) :
    Turn.heardAll m before (ts ++ [t]) =
      Turn.heardAll m before ts ++ t.heard m (ts.foldl Turn.counts before) := by
  induction ts generalizing before with
  | nil => exact List.append_nil _
  | cons u later ih =>
    rw [List.cons_append, Turn.heardAll, Turn.heardAll, ih, List.append_assoc]
    rfl

/-- The counts of the turns that others came after. -/
def Books.earlierCounts (b : Books) : List Usage := b.earlier.foldl Turn.counts []

theorem Books.heard_of_last (m : Meter) (h : b.last = some t) :
    b.heard m = Turn.heardAll m [] b.earlier ++ t.heard m b.earlierCounts := by
  rw [Books.heard, Books.turns_of_last h]
  exact Turn.heardAll_concat m [] b.earlier t

theorem Books.counts_of_last (h : b.last = some t) : b.counts = t.counts b.earlierCounts := by
  rw [Books.counts, Books.turns_of_last h, List.foldl_append]
  rfl

/-- Two turns that sound alike. -/
structure Turn.Echoes (t t' : Turn) : Prop where
  heard : ∀ m before, t'.heard m before = t.heard m before
  counts : ∀ before, t'.counts before = t.counts before

theorem Books.withLast_echoes (h : b.last = some t) (he : t.Echoes t') (m : Meter) :
    (b.withLast t').heard m = b.heard m ∧ (b.withLast t').counts = b.counts := by
  rw [Books.heard_of_last m h, Books.counts_of_last h,
    Books.heard_of_last m (show (b.withLast t').last = some t' from rfl),
    Books.counts_of_last (show (b.withLast t').last = some t' from rfl)]
  exact ⟨congrArg _ (he.heard m _), he.counts _⟩

theorem Turn.count?_of_not_answered (h : ∀ r, t.progress ≠ .answered r) (before : Usage) :
    t.count? before = none := by
  unfold Turn.count?
  split
  · exact absurd ‹_› (h _)
  · rfl

/-- A turn with the same arrivals sounds alike. -/
theorem Turn.Echoes.of_last (hearlier : t'.earlier = t.earlier) (hlast : t'.last = t.last) :
    t.Echoes t' := by
  have hcount (before : Usage) : t'.count? before = t.count? before := by
    simp only [Turn.count?, Turn.progress, Turn.deltas, hlast]
  refine ⟨fun m before => ?_, fun before => ?_⟩
  · simp only [Turn.heard, Turn.tries, hearlier, hlast, hcount]
  · simp only [Turn.counts, hcount]

/-- An attempt that begins is not heard of. -/
theorem Turn.Echoes.again (h : ∀ r, t.progress ≠ .answered r) (q : Request) :
    t.Echoes (t.again q) := by
  have hnew : ∀ r, (t.again q).progress ≠ .answered r := fun r hr => by cases hr
  refine ⟨fun m before => ?_, fun before => ?_⟩
  · simp only [Turn.heard, Turn.count?_of_not_answered h, Turn.count?_of_not_answered hnew]
    rw [show (t.again q).tries = t.tries ++ [{ request := q }] from rfl, List.flatMap_append]
    rw [show [({ request := q } : Try)].flatMap (Try.heard (Meter.lastCount before)) = [] from rfl,
      List.append_nil]
  · simp only [Turn.counts, Turn.count?_of_not_answered h, Turn.count?_of_not_answered hnew]

theorem Books.begin_heard (b : Books) (q : Request) (m : Meter) :
    (b.begin q).heard m = b.heard m ∧ (b.begin q).counts = b.counts := by
  rw [Books.heard, Books.counts, Books.turns_begin, Turn.heardAll_concat, List.foldl_append]
  exact ⟨List.append_nil _, List.append_nil _⟩

/-- A request is not heard of, if the turn that it repeats was not answered. -/
theorem Books.ask_heard {s : Stimulus} {c : Option Command}
    (h : s = .awake → c.isSome → ∀ t, b.last = some t → ∀ r, t.progress ≠ .answered r) (m : Meter) :
    (b.ask s c).heard m = b.heard m ∧ (b.ask s c).counts = b.counts := by
  unfold Books.ask
  split
  · split
    · exact Books.withLast_echoes ‹_› (.again (h rfl rfl _ ‹_›) _) m
    · exact b.begin_heard _ m
  · exact ⟨rfl, rfl⟩

/-- What reaches an attempt is heard of, and the thresholds that are crossed when it is
answered. -/
theorem Turn.heard_arrive (hr : t.progress = .underWay r) (a : Arrival) (m : Meter)
    (before : List Usage) :
    (t.arrive a).heard m before = t.heard m before ++
      ((Execution.reports r a).map (heardAs (Meter.lastCount before)) ++
        ((t.arrive a).count? (Meter.lastCount before)).toList.flatMap fun u =>
          (m.crossings before u).map .usageWarning) := by
  have hlast : (t.arrive a).last.heard (Meter.lastCount before) =
      t.last.heard (Meter.lastCount before) ++
        (Execution.reports r a).map (heardAs (Meter.lastCount before)) := by
    rw [Try.heard, Try.heard, ← List.map_append]
    exact congrArg _ (image_course (hr : RoundTrip.course _ = _) a)
  have hno : ∀ r', t.progress ≠ .answered r' := by simp [hr]
  simp only [Turn.heard, Turn.tries, List.flatMap_append, List.flatMap_singleton,
    Turn.count?_of_not_answered hno, hlast, Option.toList_none, List.flatMap_nil, List.append_nil,
    List.append_assoc]
  rfl

/-- A failure is not heard of. -/
theorem Turn.Echoes.fail (hr : t.progress = .underWay r) {f : Failure} (hm : r.meet a = .failed f) :
    t.Echoes (t.arrive a) := by
  have hp := (Turn.progress_arrive hr a).trans hm
  have hno : ∀ r', t.progress ≠ .answered r' := by simp [hr]
  have hno' : ∀ r', (t.arrive a).progress ≠ .answered r' := by simp [hp]
  refine ⟨fun m before => ?_, fun before => ?_⟩
  · rw [Turn.heard_arrive hr, reports_of_failed hm, Turn.count?_of_not_answered hno']
    exact List.append_nil _
  · rw [Turn.counts, Turn.counts, Turn.count?_of_not_answered hno, Turn.count?_of_not_answered hno']

end

end TurnEngine.Run
