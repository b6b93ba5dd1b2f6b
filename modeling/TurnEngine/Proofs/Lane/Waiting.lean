import TurnEngine.Proofs.Lane.Rules

/-!
# Callers that wait

What every run of a pool does for those who have to wait:

* `served_in_order_run`: slots are granted in the order in which callers were enqueued, and nobody
  gets one at once while somebody waits;
* `settled_once_run`: a caller stands in the queue until it is sent its one letter or goes away, its
  wait ends once, and a grant becomes one handle or is given back once.

Both are read off the log of the run, which keeps the rules (`Pool.log_passes`).
-/

namespace TurnEngine.Lane.Pool

variable {h : Pool}

/-- A caller that is there without a letter stands in the queue of its key. -/
theorem Sound.mem_queue_of_here (hs : h.Sound) {log : List Incident} {t : Nat} {c : Caller}
    (hc : IsHere log h.registry.waiters t c) (hl : lettersTo log t = []) :
    t ∈ (h.registry.slots c.key).queue := by
  have hnone : c.letter = none := by
    have := hc.letters
    rw [hl] at this
    cases hletter : c.letter with
    | none => rfl
    | some letter => simp [hletter] at this
  rw [← hc.ticket]
  exact (hs.registry.boxed.mem_queue_iff hc.mem c.key).2 ⟨rfl, hnone⟩

/-! ## Order -/

/-- **First come, first served.** When a caller is granted a slot, everybody who was enqueued on
its key before it has been granted one, or has left the queue by a timeout, a clearing or by going
away; and a caller is granted a slot at once only when everybody who was ever enqueued on the key
has left its queue. -/
theorem served_in_order_run (config : Config) (ops : List Op) :
    (∀ before after a b g key,
      (new config).log ops = before ++ .sent b (.granted g) :: after →
      [.enqueued a key, .enqueued b key].Sublist before → ∃ i ∈ before, Leaves a i) ∧
    ∀ key x, (((new config).run ops).apply (.acquire key)).2 = .handle x →
      ((new config).run ops).registry.queued key = 0 ∧
      ∀ t, .enqueued t key ∈ (new config).log ops → ∃ i ∈ (new config).log ops, Leaves t i := by
  have hs : ((new config).run ops).Sound := sound_run (sound_new config) ops
  have hrec := recorded_run config ops
  refine ⟨fun before after a b g key hlog hab => ?_, fun key x hx => ?_⟩
  · have hpasses := log_passes (sound_new config) (ordered_new config) ops
    rw [hlog] at hpasses
    exact granted_in_order hpasses hab
  · have hq : (((new config).run ops).registry.slots key).queue = [] := by
      rcases ((new config).run ops).registry.acquire_cases key with ⟨-, hq, -⟩ | ⟨-, -, he⟩ |
        ⟨-, -, he⟩
      · exact hq
      · simp [apply, he] at hx
      · simp [apply, he] at hx
    refine ⟨List.length_eq_zero_iff.2 hq, fun t ht => ?_⟩
    rcases hrec.known t key ht with ⟨c, hc, rfl⟩ | hgone
    · refine hc.leaves fun hl => ?_
      have := hs.mem_queue_of_here hc (by rw [hc.letters, hl]; rfl)
      rw [hq] at this
      cases this
    · exact hgone.leaves

/-- One holder and three callers: the first runs out of time, the second is granted the slot by a
reset and goes away with it, and so the third gets it. -/
theorem served_in_order_run_third_caller :
    let log := (new { maxConcurrent := 1 }).log
      [.acquire "s", .acquire "s", .acquire "s", .acquire "s", .expire 0 5, .resetGeneration,
        .abandon 1]
    log = [.enqueued 0 "s", .enqueued 1 "s", .enqueued 2 "s",
        .ended 0 (.failed (.laneTimeout "s" 5)), .sent 1 (.granted 1), .ended 1 .dropped,
        .sent 2 (.granted 1)] ∧
      (∃ i ∈ log.take 6, Leaves 0 i) ∧ ∃ i ∈ log.take 6, Leaves 1 i := by
  have hserved := (served_in_order_run { maxConcurrent := 1 }
    [.acquire "s", .acquire "s", .acquire "s", .acquire "s", .expire 0 5, .resetGeneration,
      .abandon 1]).1
  refine ⟨by decide, ?_, ?_⟩
  · exact hserved _ [] 0 2 1 "s" (by decide) (by decide)
  · exact hserved _ [] 1 2 1 "s" (by decide) (by decide)

/-! ## One letter, one end -/

/-- What becomes of the grant in the box of a caller: a handle if the caller looks, be it when its
time is up; if it goes away, nothing when the generation has passed, or else the next one's grant,
or else a free slot. -/
structure GrantKept (h : Pool) (c : Caller) (generation : Nat) : Prop where
  taken : ∀ op, op = .collect c.ticket ∨ (∃ waitedMs, op = .expire c.ticket waitedMs) →
    (h.apply op).2 = .handle ⟨h.nextHandle, c.key, generation, false⟩ ∧
    (h.apply op).1.handles = h.handles ++ [⟨h.nextHandle, c.key, generation, false⟩]
  stale : generation ≠ h.registry.generation →
    (h.apply (.abandon c.ticket)).1.registry = h.registry.dismiss c.ticket
  handed : generation = h.registry.generation → ∀ u queue,
    (h.registry.slots c.key).queue = u :: queue →
    h.incidents (.abandon c.ticket) =
      [.ended c.ticket .dropped, .sent u (.granted generation)] ∧
    (h.apply (.abandon c.ticket)).1.registry.occupancy c.key = h.registry.occupancy c.key
  freed : generation = h.registry.generation → (h.registry.slots c.key).queue = [] →
    h.incidents (.abandon c.ticket) = [.ended c.ticket .dropped] ∧
    (h.apply (.abandon c.ticket)).1.registry.occupancy c.key + 1 = h.registry.occupancy c.key

/-- What a caller can count on: its box is empty just as long as it stands in the queue, so that
its place is never lost without a letter, and its wait ends when its time is up, if not before. -/
structure Attended (h : Pool) (c : Caller) : Prop where
  placed : (h.registry.withdraw c.key c.ticket).2 = c.letter.isNone
  quiet : c.letter = none → (h.apply (.collect c.ticket)).2 = .waiting
  ends : ∀ waitedMs, ∃ e, h.incidents (.expire c.ticket waitedMs) = [.ended c.ticket e]
  kept : ∀ generation, c.letter = some (.granted generation) → h.GrantKept c generation

/-- Who is told that a slot was given back: the oldest waiter, or nobody. -/
theorem mail_release {r : Registry} (hb : r.Boxed) {key : String} (hpos : 0 < r.occupancy key) :
    (∀ u queue, (r.slots key).queue = u :: queue →
      mail r.callers (r.release key r.generation).callers = [.sent u (.granted r.generation)] ∧
      (r.release key r.generation).occupancy key = r.occupancy key) ∧
    ((r.slots key).queue = [] →
      mail r.callers (r.release key r.generation).callers = [] ∧
      (r.release key r.generation).occupancy key + 1 = r.occupancy key) := by
  have hcount := Registry.occupancy_release hb hpos
  rcases Registry.release_cases hb hpos with ⟨v, rest, hq, he⟩ | ⟨hq, he⟩
  · rw [hq, List.isEmpty_cons, if_neg Bool.false_ne_true, Nat.add_zero] at hcount
    refine ⟨fun u queue hu => ⟨?_, hcount⟩,
      fun hnone => absurd (hq.symm.trans hnone) (List.cons_ne_nil _ _)⟩
    obtain ⟨rfl, rfl⟩ : u = v ∧ queue = rest := List.cons.inj (hu.symm.trans hq)
    obtain ⟨d, hd, rfl, -, hdl⟩ := (hb.waits key u).1 (hq ▸ List.mem_cons_self)
    have hone : (r.callers.filter fun e => decide (e.ticket ∈ [d.ticket])) = [d] := by
      simpa using Keyed.filter_eq_singleton hb.tickets hd
    rw [he]
    refine (mail_postAll hb.tickets fun e hmem ht => ?_).trans (by rw [hone]; rfl)
    rwa [hb.caller_unique hmem hd (List.mem_singleton.1 ht)]
  · rw [hq, List.isEmpty_nil, if_pos rfl] at hcount
    refine ⟨fun u queue hu => absurd (hu.symm.trans hq) (List.cons_ne_nil _ _),
      fun _ => ⟨?_, hcount⟩⟩
    rw [he]
    exact mail_self hb.tickets

theorem Sound.grantKept (hs : h.Sound) {c : Caller} (hc : c ∈ h.registry.callers)
    {generation : Nat} (hl : c.letter = some (.granted generation)) : h.GrantKept c generation := by
  obtain ⟨hregistry, hboxed, hpos⟩ := hs.gives_abandon hc hl
  have hincidents : h.incidents (.abandon c.ticket) = .ended c.ticket .dropped ::
      mail (h.registry.dismiss c.ticket).callers
        ((h.registry.dismiss c.ticket).release c.key generation).callers := by
    have hgone := Registry.absent_release hboxed hpos (h.registry.absent_dismiss c.ticket)
    have hmail : mail (h.registry.dismiss c.ticket).callers _ = mail h.registry.callers _ :=
      mail_remove hgone
    rw [incidents, told_abandon hc, List.singleton_append]
    exact congrArg (_ :: ·) ((congrArg (fun r => mail _ (Registry.callers r)) hregistry).trans
      hmail.symm)
  refine ⟨fun op hop => ?_, fun hg => ?_, fun hg u queue hq => ?_, fun hg hq => ?_⟩
  · rcases hop with rfl | ⟨waitedMs, rfl⟩
    · rw [apply_collect hs hc, hl]
      exact ⟨rfl, rfl⟩
    · rw [apply_expire hs hc, hl]
      exact ⟨rfl, rfl⟩
  · exact hregistry.trans (Registry.release_stale (r := h.registry.dismiss c.ticket) c.key hg)
  · subst hg
    obtain ⟨hmail, hcount⟩ := (mail_release hboxed (hpos rfl)).1 u queue hq
    exact ⟨hincidents.trans (congrArg (_ :: ·) hmail),
      (congrArg (Registry.occupancy · c.key) hregistry).trans hcount⟩
  · subst hg
    obtain ⟨hmail, hcount⟩ := (mail_release hboxed (hpos rfl)).2 hq
    exact ⟨hincidents.trans (congrArg (_ :: ·) hmail),
      (congrArg (Registry.occupancy · c.key + 1) hregistry).trans hcount⟩

/-- Whoever is there is attended to. -/
theorem Sound.attended (hs : h.Sound) (ho : h.registry.Ordered) {c : Caller}
    (hc : c ∈ h.registry.callers) : h.Attended c where
  placed := by
    rw [Registry.withdraw_eq hs.registry.boxed hc]
    cases c.letter <;> rfl
  quiet hl := by rw [apply_collect hs hc, hl]
  ends waitedMs := by
    unfold incidents
    rw [apply_expire hs hc]
    cases hl : c.letter with
    | none => exact ⟨_, congrArg (_ :: ·) (mail_filter ho.nodup c.ticket)⟩
    | some letter =>
      cases letter with
      | granted g => exact ⟨_, congrArg (_ :: ·) (mail_filter ho.nodup c.ticket)⟩
      | cleared => exact ⟨_, congrArg (_ :: ·) (mail_filter ho.nodup c.ticket)⟩
  kept _ hl := hs.grantKept hc hl

/-- Nothing happens any more to whoever is gone. -/
structure Forgotten (h : Pool) (t : Nat) : Prop where
  collect : h.apply (.collect t) = (h, .waiting)
  expire : ∀ waitedMs, h.apply (.expire t waitedMs) = (h, .waiting)
  abandon : h.apply (.abandon t) = (h, .nothing)

theorem forgotten {t : Nat} (ht : ∀ c ∈ h.registry.callers, c.ticket ≠ t) : h.Forgotten t := by
  have hnone : h.registry.caller? t = none :=
    List.find?_eq_none.2 fun c hc => by simpa using ht c hc
  exact ⟨apply_collect_absent hnone, apply_expire_absent hnone, apply_abandon_absent hnone⟩

/-- **Every queued caller settles exactly once.** Whoever was enqueued is either there and attended
to, without an end so far, or is gone for good with one end that fits the one letter it was sent,
or fits that it was sent none. It stands in the queue until it is sent that letter or its wait
ends. -/
theorem settled_once_run (config : Config) (ops : List Op) :
    let h := (new config).run ops
    let log := (new config).log ops
    (tickets log).Nodup ∧
    (∀ t key, .enqueued t key ∈ log →
      (∃ c, IsHere log h.registry.waiters t c ∧ c.key = key ∧ h.Attended c) ∨
      IsGone log h.registry.waiters t key ∧ h.Forgotten t) ∧
    ∀ t key, t ∈ (h.registry.slots key).queue ↔
      .enqueued t key ∈ log ∧ lettersTo log t = [] ∧ endingsOf log t = [] := by
  have hs : ((new config).run ops).Sound := sound_run (sound_new config) ops
  have ho : ((new config).run ops).registry.Ordered :=
    ordered_run (sound_new config) (ordered_new config) ops
  have hrec := recorded_run config ops
  refine ⟨hrec.ascending.imp Nat.ne_of_lt, fun t key ht => ?_, fun t key => ⟨fun ht => ?_, ?_⟩⟩
  · rcases hrec.known t key ht with ⟨c, hc, hk⟩ | hgone
    · exact .inl ⟨c, hc, hk, hs.attended ho hc.mem⟩
    · exact .inr ⟨hgone, forgotten hgone.absent⟩
  · obtain ⟨c, hc, rfl, rfl, hl⟩ := (hs.registry.boxed.waits key t).1 ht
    have hhere := hrec.here hc
    exact ⟨hrec.entered c hc, by rw [hhere.letters, hl]; rfl, hhere.waiting⟩
  · rintro ⟨ht, hletters, hendings⟩
    rcases hrec.known t key ht with ⟨c, hc, rfl⟩ | hgone
    · exact hs.mem_queue_of_here hc hletters
    · obtain ⟨-, e, -, he, -⟩ := hgone.ended
      rw [hendings] at he
      cases he

/-- One holder and three callers: the first goes away with the slot in its box, the time of the
second is up just after it was granted that slot, and the third waits on. -/
theorem settled_once_run_grant_races_timer :
    let config : Config := { maxConcurrent := 1 }
    let ops : List Op := [.acquire "s", .acquire "s", .acquire "s", .acquire "s", .release 0,
      .abandon 0, .expire 1 7]
    let log := (new config).log ops
    let h := (new config).run ops
    log = [.enqueued 0 "s", .enqueued 1 "s", .enqueued 2 "s", .sent 0 (.granted 0),
        .ended 0 .dropped, .sent 1 (.granted 0), .ended 1 (.handle ⟨1, "s", 0, false⟩)] ∧
      (∃ letter e, lettersTo log 1 = letter.toList ∧ endingsOf log 1 = [e] ∧ Fits "s" letter e) ∧
      h.Forgotten 0 ∧ 2 ∈ (h.registry.slots "s").queue := by
  obtain ⟨-, hends, hqueue⟩ := settled_once_run { maxConcurrent := 1 }
    [.acquire "s", .acquire "s", .acquire "s", .acquire "s", .release 0, .abandon 0, .expire 1 7]
  refine ⟨by decide, ?_, ?_, (hqueue 2 "s").2 (by decide)⟩
  · rcases hends 1 "s" (by decide) with ⟨c, hc, -⟩ | ⟨hgone, -⟩
    · exact absurd hc.waiting (by decide)
    · exact hgone.ended
  · rcases hends 0 "s" (by decide) with ⟨c, hc, -⟩ | ⟨-, hforgotten⟩
    · exact absurd hc.waiting (by decide)
    · exact hforgotten

end TurnEngine.Lane.Pool
