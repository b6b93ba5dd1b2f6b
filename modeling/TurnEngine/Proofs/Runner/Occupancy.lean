import TurnEngine.Proofs.Runner.Cancelling
import Mathlib.Data.List.Perm.Basic

/-!
# Jobs and slots

As long as nobody moves the generation of the pool on and only jobs take slots, the handles that
are out are those that the jobs hold, and the callers that wait are those jobs that wait
(`Booked`): one entry for each job, on the key of its session. Whatever happens to a job changes
its entry alone, so every happening keeps that (`Runner.step_booked`).

Hence `Trace.sessions_bounded`: no session has more executions under way than slots, each of them
has exactly one slot from its admission to its end, and nothing is left of jobs that are gone.
-/

namespace TurnEngine.Run

open Lane (Pool Registry)

/-- The handle that a job holds, with the key of its session. -/
def Job.hold (g : Job) : Option (Nat × String) :=
  match g.lane with
  | .holding n => some (n, g.execution.setup.session)
  | _ => none

/-- The ticket with which a job waits, with the key of its session. -/
def Job.place (g : Job) : Option (Nat × String) :=
  match g.lane with
  | .waiting t => some (t, g.execution.setup.session)
  | _ => none

/-- The status of a job with an answer of the pool, before it acts on it. -/
def LaneStatus.afterAnswer (lane : LaneStatus) : Lane.Reply → LaneStatus
  | .handle z => .holding z.number
  | .ticket t => .waiting t
  | .failed _ => .outside
  | _ => lane

/-- The handles out are those of the jobs, and the callers that wait are jobs. -/
structure Booked (h : Pool) (jobs : List Job) : Prop where
  sound : h.Sound
  ordered : h.registry.Ordered
  generation : h.registry.generation = 0
  handles : (jobs.filterMap Job.hold).Perm (h.handles.map fun y => (y.number, y.key))
  unreleased : ∀ y ∈ h.handles, y.released = false
  places : (jobs.filterMap Job.place).Perm h.places

/-- What is left when the entry of one number is taken out. -/
theorem perm_remove {p : Nat × String} {ps qs : List (Nat × String)} (h : (p :: ps).Perm qs)
    (hn : (qs.map Prod.fst).Nodup) : ps.Perm (qs.filter fun q => q.1 ≠ p.1) := by
  have hp : ((p :: ps).map Prod.fst).Nodup := (h.map Prod.fst).nodup_iff.2 hn
  obtain ⟨hnot, -⟩ := List.nodup_cons.1 hp
  have hkeep : (ps.filter fun q => q.1 ≠ p.1) = ps :=
    List.filter_eq_self.2 fun q hq => by
      simpa using fun he : q.1 = p.1 => hnot (he ▸ List.mem_map_of_mem hq)
  have hfilter := h.filter fun q => q.1 ≠ p.1
  rwa [List.filter_cons_of_neg (by simp), hkeep] at hfilter

namespace Booked

variable {h h' : Pool} {jobs jobs' rest : List Job} {g : Job} {x y : Execution}
  {lane : LaneStatus}

theorem perm (hb : Booked h jobs) (hp : jobs.Perm jobs') : Booked h jobs' where
  sound := hb.sound
  ordered := hb.ordered
  generation := hb.generation
  handles := (hp.symm.filterMap _).trans hb.handles
  unreleased := hb.unreleased
  places := (hp.symm.filterMap _).trans hb.places

theorem nodup_places (hs : h.Sound) : (h.places.map Prod.fst).Nodup := by
  have : h.places.map Prod.fst = h.registry.callers.map (·.ticket) := by
    simp [Lane.Pool.places, Lane.placesOf, Function.comp_def]
  rw [this]
  exact hs.registry.boxed.tickets

/-- The places of the others, once a job that waits is gone. -/
theorem places_without {t : Nat} (hb : Booked h (⟨x, .waiting t⟩ :: rest)) :
    (rest.filterMap Job.place).Perm (h.places.filter fun q => q.1 ≠ t) :=
  perm_remove hb.places (nodup_places hb.sound)

theorem nodup_handles (hs : h.Sound) :
    ((h.handles.map fun y => (y.number, y.key)).map Prod.fst).Nodup := by
  rw [List.map_map]
  exact hs.numbered.numbers

theorem generation_eq (hb : Booked h jobs) {z : Lane.Handle} (hz : z ∈ h.handles) :
    z.generation = h.registry.generation := by
  have hle := hb.sound.numbered.stamps z hz
  rw [hb.generation] at hle ⊢
  exact Nat.le_zero.1 hle

theorem goesOn (hb : Booked h (⟨x, lane⟩ :: rest)) (hy : y.setup = x.setup) :
    Booked h (⟨y, lane⟩ :: rest) := by
  have hhold : Job.hold ⟨y, lane⟩ = Job.hold ⟨x, lane⟩ := by
    unfold Job.hold
    rw [hy]
  have hplace : Job.place ⟨y, lane⟩ = Job.place ⟨x, lane⟩ := by
    unfold Job.place
    rw [hy]
  refine ⟨hb.sound, hb.ordered, hb.generation, ?_, hb.unreleased, ?_⟩
  · rw [List.filterMap_cons, hhold, ← List.filterMap_cons]
    exact hb.handles
  · rw [List.filterMap_cons, hplace, ← List.filterMap_cons]
    exact hb.places

/-- The pool stays sound, and in its first generation. -/
theorem pool (hb : Booked h jobs) (op : Lane.Op) (hr : op ≠ .resetGeneration)
    (hd : op ≠ .dispose) : (h.apply op).1.Sound ∧ (h.apply op).1.registry.Ordered ∧
      (h.apply op).1.registry.generation = 0 :=
  ⟨hb.sound.apply op, (Lane.Pool.incidents_pass hb.sound hb.ordered op).2,
    (h.generation_apply hr hd).trans hb.generation⟩

/-- A job that parts from its lane takes its entry with it. -/
theorem parts (hb : Booked h (⟨x, lane⟩ :: rest)) (y : Execution) :
    Booked (h.run lane.parting) (⟨y, .left⟩ :: rest) := by
  cases lane with
  | waiting t =>
    obtain ⟨hs, ho, hg⟩ := hb.pool (.abandon t) nofun nofun
    exact ⟨hs, ho, hg, hb.handles, hb.unreleased,
      Lane.Pool.places_abandon hb.sound hb.ordered t ▸ hb.places_without⟩
  | holding n =>
    obtain ⟨hs, ho, hg⟩ := hb.pool (.drop n) nofun nofun
    have hout := Lane.Pool.handles_drop hb.sound n
    have hhandles := perm_remove hb.handles (nodup_handles hb.sound)
    rw [List.filter_map] at hhandles
    refine ⟨hs, ho, hg, hout ▸ hhandles, hout ▸ fun z hz => ?_,
      (Lane.Pool.places_drop hb.sound hb.ordered n).symm ▸ hb.places⟩
    exact hb.unreleased z (List.mem_of_mem_filter hz)
  | outside => exact ⟨hb.sound, hb.ordered, hb.generation, hb.handles, hb.unreleased, hb.places⟩
  | left => exact ⟨hb.sound, hb.ordered, hb.generation, hb.handles, hb.unreleased, hb.places⟩

/-! ## Answers -/

/-- A job that gets a handle for its session. -/
theorem handles_out {z : Lane.Handle} (hb : Booked h (⟨x, lane⟩ :: rest))
    (hz : h.HandsOut h' x.setup.session z) (hlane : Job.hold ⟨x, lane⟩ = none) :
    (((⟨x, .holding z.number⟩ : Job) :: rest).filterMap Job.hold).Perm
        (h'.handles.map fun y => (y.number, y.key)) ∧
      ∀ y ∈ h'.handles, y.released = false := by
  obtain ⟨hkey, hrel, hout⟩ := hz
  have hrest := hb.handles
  rw [List.filterMap_cons_none hlane] at hrest
  rw [hout, List.map_append]
  refine ⟨?_, fun y hy => ?_⟩
  · show ((z.number, x.setup.session) :: rest.filterMap Job.hold).Perm
      (h.handles.map _ ++ [(z.number, z.key)])
    rw [hkey]
    exact (hrest.cons _).trans (List.perm_append_singleton _ _).symm
  · rcases List.mem_append.1 hy with hy | hy
    · exact hb.unreleased y hy
    · rw [List.mem_singleton.1 hy]
      exact hrel

theorem acquires (hb : Booked h (⟨x, .outside⟩ :: rest)) :
    Booked (h.apply (.acquire x.setup.session)).1
      (⟨x, LaneStatus.outside.afterAnswer (h.apply (.acquire x.setup.session)).2⟩ :: rest) := by
  obtain ⟨hs, ho, hg⟩ := hb.pool (.acquire x.setup.session) nofun nofun
  rcases Lane.Pool.acquire_answers hb.sound hb.ordered x.setup.session with
    ⟨z, hreply, hz, hplaces⟩ | ⟨e, hreply, hout, hplaces⟩ | ⟨t, hreply, hout, hplaces⟩ <;>
    rw [hreply]
  · obtain ⟨hhandles, hrel⟩ := hb.handles_out hz rfl
    exact ⟨hs, ho, hg, hhandles, hrel, hplaces ▸ hb.places⟩
  · exact ⟨hs, ho, hg, hout ▸ hb.handles, hout ▸ hb.unreleased, hplaces ▸ hb.places⟩
  · refine ⟨hs, ho, hg, hout ▸ hb.handles, hout ▸ hb.unreleased, ?_⟩
    rw [hplaces]
    exact (hb.places.cons _).trans (List.perm_append_singleton _ _).symm

theorem looks {t : Nat} {op : Lane.Op} (hb : Booked h (⟨x, .waiting t⟩ :: rest))
    (hop : op = .collect t ∨ ∃ waitedMs, op = .expire t waitedMs) :
    Booked (h.apply op).1 (⟨x, (LaneStatus.waiting t).afterAnswer (h.apply op).2⟩ :: rest) := by
  have ht : (t, x.setup.session) ∈ h.places := hb.places.subset List.mem_cons_self
  obtain ⟨hs, ho, hg⟩ := hb.pool op (by rintro rfl; simp at hop) (by rintro rfl; simp at hop)
  rcases Lane.Pool.looks_answers hb.sound hb.ordered ht hop with
    he | ⟨hplaces, ⟨z, hreply, hz⟩ | ⟨e, hreply, hout⟩⟩
  · rw [he]
    exact hb
  · obtain ⟨hhandles, hrel⟩ := hb.handles_out hz rfl
    rw [hreply]
    exact ⟨hs, ho, hg, hhandles, hrel, hplaces ▸ hb.places_without⟩
  · rw [hreply]
    exact ⟨hs, ho, hg, hout ▸ hb.handles, hout ▸ hb.unreleased, hplaces ▸ hb.places_without⟩

/-- Waiters that are sent away stay where they are until they look. -/
theorem clears (hb : Booked h jobs) (key : String) :
    Booked (h.apply (.clearWaiters key)).1 jobs := by
  obtain ⟨hs, ho, hg⟩ := hb.pool (.clearWaiters key) nofun nofun
  have hplaces := Lane.Pool.places_apply hb.sound hb.ordered (.clearWaiters key)
  exact ⟨hs, ho, hg, hb.handles, hb.unreleased, hplaces ▸ hb.places⟩

/-- Somebody comes who has nothing to do with the pool so far. -/
theorem joins (hb : Booked h jobs) (hhold : g.hold = none) (hplace : g.place = none) :
    Booked h (g :: jobs) := by
  refine ⟨hb.sound, hb.ordered, hb.generation, ?_, hb.unreleased, ?_⟩
  · rw [List.filterMap_cons_none hhold]
    exact hb.handles
  · rw [List.filterMap_cons_none hplace]
    exact hb.places

end Booked

/-! ## Every happening -/

/-- Nobody but jobs takes slots or moves the generation on; waiters may be sent away. -/
def Happening.isPeaceful : Happening → Bool
  | .use (.clearWaiters _) => true
  | .use _ => false
  | _ => true

namespace Runner

variable {f : Runner} {i : Nat} {x : Execution} {lane : LaneStatus}

def IsBooked (f : Runner) : Prop := Booked f.pool f.jobs

theorem settle_booked {m : Move} (hb : Booked f.pool (⟨x, lane⟩ :: f.jobs.eraseIdx i))
    (hi : i < f.jobs.length) (hm : m.execution.setup = x.setup) :
    (f.settle i lane m).runner.IsBooked := by
  rcases settle_cases f i lane m with ⟨-, he⟩ | ⟨-, he⟩ <;> rw [he]
  · exact (hb.parts m.execution).perm (List.set_perm_cons_eraseIdx hi _).symm
  · exact (hb.goesOn hm).perm (List.set_perm_cons_eraseIdx hi _).symm

theorem answer_booked {reply : Lane.Reply}
    (hb : Booked f.pool (⟨x, lane.afterAnswer reply⟩ :: f.jobs.eraseIdx i))
    (hi : i < f.jobs.length) (now : Nat) : (answer f now i x lane reply).runner.IsBooked := by
  have hput : Booked f.pool (f.jobs.set i ⟨x, lane.afterAnswer reply⟩) :=
    hb.perm (List.set_perm_cons_eraseIdx hi _).symm
  cases reply with
  | handle z => exact settle_booked hb hi (Execution.on_setup now x _)
  | failed e => exact settle_booked hb hi (Execution.on_setup now x _)
  | _ => exact hput

theorem step_booked (hb : f.IsBooked) {h : Happening} (hh : h.isPeaceful = true) :
    (f.step h).runner.IsBooked := by
  have hmoves := f.step_moves h
  generalize f.step h = r at hmoves ⊢
  have hfront {j : Nat} {g : Job} (hg : f.jobs[j]? = some g) :
      Booked f.pool (g :: f.jobs.eraseIdx j) := by
    obtain ⟨hj, rfl⟩ := List.getElem?_eq_some_iff.1 hg
    exact hb.perm (List.getElem_cons_eraseIdx_perm hj).symm
  have hlt {j : Nat} {g : Job} (hg : f.jobs[j]? = some g) : j < f.jobs.length :=
    (List.getElem?_eq_some_iff.1 hg).1
  cases hmoves with
  | unmoved => exact hb
  | ended => exact (hb.joins rfl rfl).perm (List.perm_append_singleton _ _).symm
  | @asks now setup messages cancelled x hx hp hs =>
    -- the newcomer joins without an entry, and the answer gives it one
    have hjoins : Booked f.pool (⟨x, .outside⟩ :: f.jobs) := hb.joins rfl rfl
    have herase : (f.jobs ++ [(⟨x, .outside⟩ : Job)]).eraseIdx f.jobs.length = f.jobs := by
      rw [List.eraseIdx_append_of_length_le (Nat.le_refl _), Nat.sub_self]
      exact List.append_nil _
    have hacquires := hjoins.acquires
    rw [hs] at hacquires
    have hlast : f.jobs.length < (f.jobs ++ [(⟨x, .outside⟩ : Job)]).length := by simp
    refine answer_booked (f := ⟨_, f.jobs ++ [⟨x, .outside⟩]⟩) ?_ hlast now
    rw [herase]
    exact hacquires
  | deliver now hg => exact settle_booked (hfront hg) (hlt hg) (Execution.on_setup now _ _)
  | @looks _ now i t op x hg hop =>
    have hop' : op = .collect t ∨ ∃ waitedMs, op = .expire t waitedMs := by
      cases hop with
      | collect => exact .inl rfl
      | expire _ _ waitedMs => exact .inr ⟨waitedMs, rfl⟩
    exact answer_booked (f := { f with pool := (f.pool.apply op).1 }) ((hfront hg).looks hop')
      (hlt hg) now
  | drop hg =>
    exact ((hfront hg).parts _).perm (List.set_perm_cons_eraseIdx (hlt hg) _).symm
  | use op =>
    cases op with
    | clearWaiters key => exact hb.clears key
    | _ => cases hh

end Runner

/-! ## Counting -/

/-- Whether a job is between its admission and its end. -/
def Job.isInside (g : Job) (key : String) : Bool :=
  g.lane ≠ .left && g.execution.phase.isUnderWay && g.execution.setup.session = key

/-- Whether nothing more happens to a job: it has ended, or was dropped. -/
def Job.IsOver (g : Job) : Prop :=
  g.lane = .left ∨ ∃ outcome, g.execution.phase = .ended outcome

/-- Whoever is over has left its lane. -/
theorem Job.Fits.left_of_isOver {h : Pool} {history : List Message} {l : Ledger} {g : Job}
    (hg : g.Fits h history l) (hover : g.IsOver) : g.lane = .left := by
  cases hg with
  | @waiting x t hp =>
    rcases hover with hlane | ⟨outcome, he⟩
    · exact hlane
    · cases hp.symm.trans he
  | @holding x n hp =>
    rcases hover with hlane | ⟨outcome, he⟩
    · exact hlane
    · replace he : x.phase = .ended outcome := he
      rw [he] at hp
      cases hp
  | left => rfl

/-- How many executions of a session are between their admission and their end. -/
def Runner.inside (f : Runner) (key : String) : Nat := f.jobs.countP fun g => g.isInside key

namespace Trace

variable {s : Trace} {i n : Nat} {x : Execution}

/-- As many handles are held on a key as executions of the session are under way. -/
theorem held_eq_inside (hs : s.Sound) (hb : s.runner.IsBooked) (key : String) :
    s.runner.pool.held key = s.runner.inside key := by
  have hheld : s.runner.pool.held key =
      (s.runner.pool.handles.map fun y => (y.number, y.key)).countP fun p => p.2 = key := by
    rw [List.countP_map]
    refine List.countP_congr fun y hy => ?_
    simp [Lane.Handle.isHeld, hb.unreleased y hy, hb.generation_eq hy]
  -- one handle for each job that holds one, on the key of its session
  rw [hheld, ← hb.handles.countP_eq, List.countP_filterMap, Runner.inside]
  refine List.countP_congr fun g hg => ?_
  obtain ⟨j, hj⟩ := List.getElem?_of_mem hg
  cases hs.jobs j g hj with
  | waiting hp => simp [Job.hold, Job.isInside, hp, Phase.isUnderWay]
  | holding hp => simp [Job.hold, Job.isInside, hp]
  | left => simp [Job.hold, Job.isInside]

/-- Nothing is left of jobs that are gone. -/
theorem emptied (hs : s.Sound) (hb : s.runner.IsBooked) (hover : ∀ g ∈ s.runner.jobs, g.IsOver)
    (key : String) :
    s.runner.pool.registry.occupancy key = 0 ∧ s.runner.pool.registry.queued key = 0 := by
  have hleft : ∀ g ∈ s.runner.jobs, g.hold = none ∧ g.place = none := by
    intro g hg
    obtain ⟨j, hj⟩ := List.getElem?_of_mem hg
    have hlane := (hs.jobs j g hj).left_of_isOver (hover g hg)
    simp [Job.hold, Job.place, hlane]
  have hhandles : s.runner.pool.handles = [] := by
    have hperm := hb.handles
    rw [List.filterMap_eq_nil_iff.2 fun g hg => (hleft g hg).1] at hperm
    exact List.map_eq_nil_iff.1 hperm.symm.eq_nil
  have hcallers : s.runner.pool.registry.callers = [] := by
    have hperm := hb.places
    rw [List.filterMap_eq_nil_iff.2 fun g hg => (hleft g hg).2] at hperm
    exact List.map_eq_nil_iff.1 hperm.symm.eq_nil
  refine ⟨?_, ?_⟩
  · rw [hb.sound.registry.counted.balance, Lane.Pool.held, Registry.pending, hhandles, hcallers]
    rfl
  · refine List.length_eq_zero_iff.2 (List.eq_nil_iff_forall_not_mem.2 fun t => ?_)
    exact hb.sound.not_mem_queue (by simp [hcallers]) key

/-! ## One slot each -/

/-- A job that holds a handle stays on it, or leaves and drops it. -/
theorem holding_next (hg : s.runner.jobs[i]? = some ⟨x, .holding n⟩) (h : Happening) :
    (∃ y, y.setup = x.setup ∧ (s.next h).runner.jobs[i]? = some ⟨y, .holding n⟩) ∨
    (∃ y, (s.next h).runner.jobs[i]? = some ⟨y, .left⟩) ∧
      (s.next h).runner.pool = (s.runner.pool.apply (.drop n)).1 := by
  have hi : i < s.runner.jobs.length := (List.getElem?_eq_some_iff.1 hg).1
  by_cases hh : s.runner.concerned h = some i
  · have hrunner : (s.next h).runner = (s.runner.step h).runner := rfl
    have hconcerns := Runner.step_concerns hg hh
    generalize s.runner.step h = r at hrunner hconcerns
    rw [hrunner]
    cases hconcerns with
    | unmoved => exact .inl ⟨x, rfl, hg⟩
    | @deliver now st =>
      rcases Runner.settle_cases s.runner i (.holding n) (x.on now st) with ⟨-, he⟩ | ⟨-, he⟩ <;>
        rw [he]
      · exact .inr ⟨⟨_, List.getElem?_set_self hi⟩, rfl⟩
      · exact .inl ⟨_, Execution.on_setup now x st, List.getElem?_set_self hi⟩
    | looks hlane => cases hlane
    | drop => exact .inr ⟨⟨_, List.getElem?_set_self hi⟩, rfl⟩
  · exact .inl ⟨x, rfl, (others_next s hi hh).job.trans hg⟩

/-- A job that holds a handle has one slot of its session. It is counted, and giving it back
lowers the count or hands it on; the job keeps it until it leaves, and leaves by giving it back,
after which the handle is not out any more. -/
structure HasOneSlot (s : Trace) (i n : Nat) (x : Execution) : Prop where
  out : s.runner.pool.givesBack (.drop n) =
    some (s.runner.pool.registry, x.setup.session, s.runner.pool.registry.generation)
  counts : (s.runner.pool.apply (.drop n)).1.registry.occupancy x.setup.session +
    (if (s.runner.pool.registry.slots x.setup.session).queue.isEmpty then 1 else 0) =
      s.runner.pool.registry.occupancy x.setup.session
  next : ∀ h, (∃ y, y.setup = x.setup ∧ (s.next h).runner.jobs[i]? = some ⟨y, .holding n⟩) ∨
    (s.next h).runner.pool = (s.runner.pool.apply (.drop n)).1 ∧
      ∀ later, (∃ y, ((s.next h).after later).runner.jobs[i]? = some ⟨y, .left⟩) ∧
        ((s.next h).after later).runner.pool.givesBack (.drop n) = none

theorem givesBack_hold (hb : s.runner.IsBooked) (hg : s.runner.jobs[i]? = some ⟨x, .holding n⟩) :
    s.runner.pool.givesBack (.drop n) =
      some (s.runner.pool.registry, x.setup.session, s.runner.pool.registry.generation) := by
  have hhold : (n, x.setup.session) ∈ s.runner.jobs.filterMap Job.hold :=
    List.mem_filterMap.2 ⟨_, List.mem_of_getElem? hg, rfl⟩
  obtain ⟨z, hz, he⟩ := List.mem_map.1 (hb.handles.subset hhold)
  obtain ⟨rfl, hkey⟩ := Prod.mk.inj he
  have hfind : s.runner.pool.handle? z.number = some z :=
    Keyed.find?_of_mem hb.sound.numbered.numbers hz
  simp [Pool.givesBack, hfind, hb.unreleased z hz, hkey, hb.generation_eq hz]

theorem hasOneSlot (hs : s.Sound) (hb : s.runner.IsBooked)
    (hg : s.runner.jobs[i]? = some ⟨x, .holding n⟩) : s.HasOneSlot i n x := by
  have hout := givesBack_hold hb hg
  obtain ⟨hrelease, hcounts⟩ := hs.pool.givesBack hout
  obtain ⟨hboxed, hpos⟩ := hcounts rfl
  refine ⟨hout, ?_, fun h => ?_⟩
  · rw [hrelease]
    exact Registry.occupancy_release hboxed hpos
  · refine (holding_next hg h).imp_right fun ⟨⟨y, hleft⟩, hpool⟩ => ⟨hpool, fun later => ?_⟩
    refine ⟨⟨y, (left_after hleft later).job.trans hleft⟩, ?_⟩
    have hgone : (LaneStatus.holding n).GivenUp (s.next h).runner.pool := by
      rw [hpool]
      exact (hs.jobs i _ hg).givenUp hs.pool hs.ordered
    have hs' := sound_next hs h
    have hnone := (hgone.later (sound_after hs' later).pool (hs'.later_after later)).2
    refine Option.bind_eq_none_iff.2 fun z hz => ?_
    obtain ⟨hmem, hnumber⟩ := Pool.Sound.mem_of_handle? hz
    exact absurd hnumber (hnone z hmem)

theorem slot_of_underWay (hs : s.Sound) (hb : s.runner.IsBooked) {lane : LaneStatus}
    (hg : s.runner.jobs[i]? = some ⟨x, lane⟩) (hlane : lane ≠ .left)
    (hp : x.phase.isUnderWay = true) : ∃ n, lane = .holding n ∧ s.HasOneSlot i n x := by
  cases hs.jobs i _ hg with
  | waiting hq =>
    rw [hq] at hp
    cases hp
  | @holding _ n => exact ⟨n, rfl, hasOneSlot hs hb hg⟩
  | left => exact absurd rfl hlane

/-! ## The sessions of a runner -/

theorem booked_after (config : Lane.Config) {happenings : List Happening}
    (hp : ∀ h ∈ happenings, h.isPeaceful = true) :
    ((new config).after happenings).runner.IsBooked := by
  have hnew : (new config).runner.IsBooked :=
    ⟨Lane.Pool.sound_new config, Lane.Pool.ordered_new config, rfl, .nil, nofun, .nil⟩
  generalize new config = s at hnew ⊢
  induction happenings generalizing s with
  | nil => exact hnew
  | cons h rest ih =>
    have hstep : (s.next h).runner.IsBooked := Runner.step_booked hnew (hp h List.mem_cons_self)
    exact ih (fun h' hh' => hp h' (List.mem_cons_of_mem _ hh')) _ hstep

theorem limit_after (config : Lane.Config) (happenings : List Happening) :
    ((new config).after happenings).runner.pool.registry.limit =
      max 1 config.maxConcurrent.toNat := by
  obtain ⟨ops, he⟩ :
      ∃ ops, ((new config).after happenings).runner.pool = (Pool.new config).run ops := by
    refine after_induct (P := fun s => ∃ ops, s.runner.pool = (Pool.new config).run ops)
      ⟨[], rfl⟩ (fun s h ⟨ops, hs⟩ => ?_) happenings
    obtain ⟨ops', hnext⟩ : ∃ ops', (s.next h).runner.pool = s.runner.pool.run ops' :=
      s.runner.pool_step h
    refine ⟨ops ++ ops', ?_⟩
    rw [hnext, hs, Pool.run, Pool.run, Pool.run, List.foldl_append]
  rw [he]
  exact Pool.limit_run config ops

/-- **Bounded concurrency per session.** Executions enter and come to their ends in whatever order,
and waiters may be sent away. No session has more of them between admission and end than slots, nor
more than its lane counts, and the lane counts no more than these and the callers that have not
looked into their boxes yet. Each has one slot, which it gives back once; a handle that is
released before it is dropped gives back nothing twice. Nothing is left when all are over. -/
theorem sessions_bounded (config : Lane.Config) (happenings : List Happening)
    (hp : ∀ h ∈ happenings, h.isPeaceful = true) :
    let s := (new config).after happenings
    let r := s.runner.pool.registry
    (∀ key, s.runner.inside key ≤ max 1 config.maxConcurrent.toNat ∧
      s.runner.inside key ≤ r.occupancy key ∧
      r.occupancy key = s.runner.inside key + r.pending key) ∧
    (∀ (i : Nat) (x : Execution) (lane : LaneStatus), s.runner.jobs[i]? = some ⟨x, lane⟩ →
      lane ≠ .left → x.phase.isUnderWay = true →
        ∃ n, lane = .holding n ∧ s.HasOneSlot i n x) ∧
    (∀ n, ((s.runner.pool.apply (.release n)).1.apply (.drop n)).1 =
      (s.runner.pool.apply (.drop n)).1) ∧
    ((∀ g ∈ s.runner.jobs, g.IsOver) →
      ∀ key, r.occupancy key = 0 ∧ r.queued key = 0) := by
  intro s r
  have hs : s.Sound := sound_after (sound_new config) happenings
  have hb : s.runner.IsBooked := booked_after config hp
  have hbalance (key : String) : r.occupancy key = s.runner.inside key + r.pending key := by
    rw [← held_eq_inside hs hb]
    exact hs.pool.registry.counted.balance key
  have hlimit (key : String) : r.occupancy key ≤ max 1 config.maxConcurrent.toNat := by
    rw [← limit_after config happenings]
    exact hs.pool.registry.counted.bounded key
  refine ⟨fun key => ?_, fun i x lane hg hlane hx => slot_of_underWay hs hb hg hlane hx,
    hs.pool.drop_release, fun hover key => emptied hs hb hover key⟩
  have hle : s.runner.inside key ≤ r.occupancy key := hbalance key ▸ Nat.le_add_right _ _
  exact ⟨Nat.le_trans hle (hlimit key), hle, hbalance key⟩

/-- Two executions of one session enter, and the second waits; the signal of the first fires, and
the second gets its slot. -/
def handedOn : List Happening :=
  let setup : Setup := { config := {}, session := "s", model := "m" }
  [.enter 0 setup [.user "go"] false, .enter 1 setup [.user "me too"] false, .deliver 2 0 .cancel,
    .collect 3 1]

/-- There is one slot; the second execution is dropped on it in the end. -/
theorem sessions_bounded_handed_on :
    let s := (new { maxConcurrent := 1 }).after handedOn
    let gone := (new { maxConcurrent := 1 }).after (handedOn ++ [.drop 1])
    s.runner.inside "s" = 1 ∧ s.runner.inside "s" ≤ s.runner.pool.registry.occupancy "s" ∧
      s.runner.pool.registry.occupancy "s" = 1 + s.runner.pool.registry.pending "s" ∧
      (∃ x, s.runner.jobs[1]? = some ⟨x, .holding 1⟩ ∧ s.HasOneSlot 1 1 x) ∧
      (∀ g ∈ gone.runner.jobs, g.IsOver) ∧ gone.runner.pool.registry.occupancy "s" = 0 := by
  have hbounded := sessions_bounded { maxConcurrent := 1 } handedOn (by decide)
  have hinside : ((new { maxConcurrent := 1 }).after handedOn).runner.inside "s" = 1 := rfl
  obtain ⟨-, hle, hbalance⟩ := hbounded.1 "s"
  rw [hinside] at hbalance
  obtain ⟨x, hx, hp⟩ : ∃ x,
      ((new { maxConcurrent := 1 }).after handedOn).runner.jobs[1]? = some ⟨x, .holding 1⟩ ∧
        x.phase.isUnderWay = true := ⟨_, rfl, rfl⟩
  obtain ⟨n, hn, hslot⟩ := hbounded.2.1 1 x _ hx nofun hp
  cases hn
  have hover : ∀ g ∈ ((new { maxConcurrent := 1 }).after (handedOn ++ [.drop 1])).runner.jobs,
      g.IsOver := by
    rw [after_append]
    exact List.forall_mem_cons.2 ⟨.inl rfl, List.forall_mem_singleton.2 (.inl rfl)⟩
  have hgone := sessions_bounded { maxConcurrent := 1 } (handedOn ++ [.drop 1]) (by decide)
  exact ⟨hinside, hle, hbalance, ⟨x, hx, hslot⟩, hover, (hgone.2.2.2 hover "s").1⟩

end Trace

end TurnEngine.Run
