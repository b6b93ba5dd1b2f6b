import TurnEngine.Proofs.Lane.Rules
import TurnEngine.Proofs.Lane.Stale

/-!
# New generations

What a new generation does to the lanes (`Pool.Regranted`), and what the end of all lanes does
(`Pool.Emptied`), after every run of a pool: waiters are granted the slots, or sent away, and what
was given out before is worth nothing from then on. The second half is `Pool.Alike.answers`: in
every run that goes on from there, the operations on slots of earlier generations may be left out,
moved or repeated, and nobody else can tell.
-/

namespace TurnEngine.Lane.Pool

/-- From `h` to `h'` every key by itself granted its slots to its oldest waiters, under the next
generation. -/
structure Regranted (limit : Nat) (h h' : Pool) : Prop where
  generation : h'.registry.generation = h.registry.generation + 1
  occupancy : ∀ key, h'.registry.occupancy key = min (h.registry.queued key) limit
  queue : ∀ key, (h'.registry.slots key).queue = (h.registry.slots key).queue.drop limit
  oldest : ∀ key, ∀ t ∈ (h.registry.slots key).queue.take limit,
    ∀ u ∈ (h'.registry.slots key).queue, t < u
  letters : h'.registry.callers = h.registry.callers.map fun c =>
    if c.ticket ∈ (h.registry.slots c.key).queue.take limit then
      { c with letter := some (.granted (h.registry.generation + 1)) }
    else c
  granted : ∀ key, ∀ t ∈ (h.registry.slots key).queue.take limit, (h'.apply (.collect t)).2 =
    .handle { number := h.nextHandle, key, generation := h.registry.generation + 1 }
  waiting : ∀ key, ∀ t ∈ (h'.registry.slots key).queue, (h'.apply (.collect t)).2 = .waiting
  handles : h'.handles = h.handles

/-- From `h` to `h'` every waiter was sent away, and no lane is left. -/
structure Emptied (h h' : Pool) : Prop where
  generation : h'.registry.generation = h.registry.generation + 1
  lanes : h'.registry.lanes.entries = []
  letters : h'.registry.callers = h.registry.callers.map fun c =>
    if c.ticket ∈ (h.registry.slots c.key).queue then { c with letter := some .cleared } else c
  cleared : ∀ key, ∀ t ∈ (h.registry.slots key).queue,
    (h'.apply (.collect t)).2 = .failed (.laneCleared key)
  handles : h'.handles = h.handles

/-! ## Letters to queues -/

/-- Letters to callers that wait, seen from a caller's own queue. -/
theorem postAll_eq_map {r : Registry} (hb : r.Boxed) {ts : List Nat} (first : String → List Nat)
    (hts : ∀ key t, t ∈ first key ↔ t ∈ ts ∧ t ∈ (r.slots key).queue)
    (hwait : ∀ t ∈ ts, ∃ key, t ∈ (r.slots key).queue) (letter : Letter) :
    postAll r.callers ts letter = r.callers.map fun c =>
      if c.ticket ∈ first c.key then { c with letter := some letter } else c := by
  refine List.map_congr_left fun c hc => ?_
  have hiff : c.ticket ∈ ts ↔ c.ticket ∈ first c.key := by
    rw [hts]
    refine ⟨fun ht => ⟨ht, ?_⟩, fun ht => ht.1⟩
    obtain ⟨key, hkey⟩ := hwait _ ht
    rwa [((hb.mem_queue_iff hc key).1 hkey).1]
  simp only [hiff]

/-- Who has a letter in its box after they were sent finds what it says. -/
theorem Sound.mem_of_letters {h h' : Pool} (hs : h.Sound) (first : String → List Nat)
    {letter : Letter}
    (hletters : h'.registry.callers = h.registry.callers.map fun c =>
      if c.ticket ∈ first c.key then { c with letter := some letter } else c)
    {key : String} {t : Nat} (ht : t ∈ first key) (hq : t ∈ (h.registry.slots key).queue) :
    ∃ c ∈ h'.registry.callers, c.ticket = t ∧ c.key = key ∧ c.letter = some letter := by
  obtain ⟨c, hc, rfl, rfl, -⟩ := (hs.registry.boxed.waits key t).1 hq
  refine ⟨{ c with letter := some letter }, ?_, rfl, rfl, rfl⟩
  rw [hletters]
  exact List.mem_map.2 ⟨c, hc, if_pos ht⟩

variable {h : Pool}

theorem Sound.regranted (hs : h.Sound) (ho : h.registry.Ordered) :
    Regranted h.registry.limit h (h.apply .resetGeneration).1 := by
  have hs' : (h.apply .resetGeneration).1.Sound := hs.apply .resetGeneration
  have hgen : (h.apply .resetGeneration).1.registry.generation = h.registry.generation + 1 :=
    hs.registry.generation_resetGeneration
  have hslots (key : String) : (h.apply .resetGeneration).1.registry.slots key =
      (h.registry.slots key).regranted h.registry.limit := hs.registry.slots_resetGeneration key
  have hletters : (h.apply .resetGeneration).1.registry.callers = h.registry.callers.map fun c =>
      if c.ticket ∈ (h.registry.slots c.key).queue.take h.registry.limit then
        { c with letter := some (.granted (h.registry.generation + 1)) }
      else c := by
    obtain ⟨ts, hcallers, hwait, hts⟩ := hs.registry.granted_resetGeneration
    exact hcallers.trans (postAll_eq_map hs.registry.boxed _ hts hwait _)
  refine ⟨hgen, fun key => ?_, fun key => ?_, fun key t ht u hu => ?_, hletters,
    fun key t ht => ?_, fun key t ht => ?_, rfl⟩
  · rw [Registry.occupancy, hslots]
    exact Nat.min_comm _ _
  · rw [hslots]
    rfl
  · -- a queue is in the order in which the tickets were given out
    rw [hslots] at hu
    have hsplit := ho.queues key
    rw [← List.take_append_drop h.registry.limit (h.registry.slots key).queue] at hsplit
    exact (List.pairwise_append.1 hsplit).2.2 t ht u hu
  · obtain ⟨c, hc, rfl, rfl, hl⟩ := hs.mem_of_letters
      (fun key => (h.registry.slots key).queue.take h.registry.limit) hletters ht
      (List.mem_of_mem_take ht)
    rw [apply_collect hs' hc, hl]
    rfl
  · obtain ⟨c, hc, rfl, -, hl⟩ := (hs'.registry.boxed.waits key t).1 ht
    rw [apply_collect hs' hc, hl]

theorem Sound.emptied (hs : h.Sound) : Emptied h (h.apply .dispose).1 := by
  have hs' : (h.apply .dispose).1.Sound := hs.apply .dispose
  have heq : (h.apply .dispose).1.registry = _ := h.registry.dispose_eq
  have hmem (t : Nat) : t ∈ h.registry.lanes.entries.flatMap (fun e => e.2.queue) ↔
      ∃ key, t ∈ (h.registry.slots key).queue :=
    hs.registry.mem_queues_iff (·.queue) fun _ _ ht => ht
  have hletters : (h.apply .dispose).1.registry.callers = h.registry.callers.map fun c =>
      if c.ticket ∈ (h.registry.slots c.key).queue then { c with letter := some .cleared }
      else c := by
    rw [heq]
    refine postAll_eq_map hs.registry.boxed (fun key => (h.registry.slots key).queue)
      (fun key t => ?_) (fun t ht => (hmem t).1 ht) .cleared
    exact ⟨fun ht => ⟨(hmem t).2 ⟨key, ht⟩, ht⟩, fun ht => ht.2⟩
  refine ⟨by rw [heq], by rw [heq], hletters, fun key t ht => ?_, rfl⟩
  obtain ⟨c, hc, rfl, rfl, hl⟩ := hs.mem_of_letters
    (fun key => (h.registry.slots key).queue) hletters ht ht
  rw [apply_collect hs' hc, hl]

/-! ## Runs -/

/-- **New generations.** After every run, the next generation grants every key's slots to its
oldest waiters, as many as there are slots or waiters, and leaves the others queued in their order;
the end of all lanes sends every waiter away and leaves no lane. Whenever slots of earlier
generations are given back, by releasing, dropping or abandoning what stands for them, no slots,
queues or grants change, nor does the generation; and two ways to go on that differ only in such
operations answer all others alike. -/
theorem generations_run (config : Config) (ops : List Op) :
    let h := (new config).run ops
    (h.apply .resetGeneration).2 = .count (h.registry.generation + 1) ∧
    Regranted (max 1 config.maxConcurrent.toNat) h (h.apply .resetGeneration).1 ∧
    Emptied h (h.apply .dispose).1 ∧
    (∀ op, h.isStale op = true → (h.apply op).1.view = h.view) ∧
    ∀ more more', h.timely more = h.timely more' → h.answers more = h.answers more' := by
  intro h
  have hs : h.Sound := sound_run (sound_new config) ops
  have ho : h.registry.Ordered := ordered_run (sound_new config) (ordered_new config) ops
  have hlimit : h.registry.limit = max 1 config.maxConcurrent.toNat := limit_run config ops
  refine ⟨congrArg Reply.count hs.registry.generation_resetGeneration, ?_, hs.emptied,
    fun op ht => ?_, fun more more' ht => ?_⟩
  · rw [← hlimit]
    exact hs.regranted ho
  · exact ((Alike.refl h).apply_stale hs ht).view.symm
  · calc h.answers more = h.answers (h.timely more) := ((Alike.refl h).answers hs hs more).symm
      _ = h.answers (h.timely more') := by rw [ht]
      _ = h.answers more' := (Alike.refl h).answers hs hs more'

/-- A slot that was handed to a caller, and one that is held, are of the generation before. The one
is given back by abandoning it, the other by dropping its handle, or neither. -/
theorem generations_run_slots_before :
    let h := (new { maxConcurrent := 1 }).run [.acquire "s", .acquire "s", .acquire "s",
      .release 0, .acquire "t", .resetGeneration]
    (h.isStale (.abandon 0) = true ∧ (h.apply (.abandon 0)).1.view = h.view) ∧
      h.timely [.abandon 0, .drop 1, .collect 1, .acquire "s"] = [.collect 1, .acquire "s"] ∧
      h.answers [.abandon 0, .drop 1, .collect 1, .acquire "s"] =
        h.answers [.collect 1, .release 1, .release 1, .acquire "s"] := by
  obtain ⟨-, -, -, hview, hanswers⟩ := generations_run { maxConcurrent := 1 }
    [.acquire "s", .acquire "s", .acquire "s", .release 0, .acquire "t", .resetGeneration]
  exact ⟨⟨by decide +kernel, hview (.abandon 0) (by decide +kernel)⟩, by decide +kernel,
    hanswers _ _ (by decide +kernel)⟩

end TurnEngine.Lane.Pool
