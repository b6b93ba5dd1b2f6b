import TurnEngine.Proofs.Lane.Places
import TurnEngine.Proofs.Run.Ledger
import TurnEngine.Proofs.Run.Stages
import TurnEngine.Run.Runner

/-!
# What happens at a runner

A trace is a runner with what its jobs have been through: the conversation each one came with, the
turns it has finished and everything it asked for. It grows by one happening after the other, in
any order: executions enter, things happen to them, they look into their boxes, their time is up,
they are dropped, and somebody else uses the pool.

Each happening moves one job at most (`Runner.step_moves`), and the pool by its operations only.
In a trace that is sound, jobs that wait have not been admitted, jobs that hold a handle are
under way, and what they keep is what their ledgers say; every happening keeps that
(`Trace.sound_after`).
-/

namespace TurnEngine.Run

open Lane (Pool)

/-- Something that happens at a runner. -/
inductive Happening where
  | enter (now : Nat) (setup : Setup) (messages : List Message) (cancelled : Bool)
  | deliver (now job : Nat) (s : Stimulus)
  | collect (now job : Nat)
  | expire (now job waitedMs : Nat)
  | drop (job : Nat)
  /-- Somebody who is no job uses the pool. -/
  | use (op : Lane.Op)

namespace Runner

/-- What comes of a happening. -/
def step (f : Runner) : Happening → Response
  | .enter now setup messages cancelled => f.enter now setup messages cancelled
  | .deliver now i s => f.deliver now i s
  | .collect now i => f.collect now i
  | .expire now i waitedMs => f.expire now i waitedMs
  | .drop i => { runner := f.drop i }
  | .use op => { runner := (f.use op).1 }

/-- The job whose happening it is. -/
def concerned (f : Runner) : Happening → Option Nat
  | .enter .. => some f.jobs.length
  | .deliver _ i _ => some i
  | .collect _ i => some i
  | .expire _ i _ => some i
  | .drop i => some i
  | .use _ => none

/-- The ledger of a job after a happening. -/
def noted (f : Runner) (i : Nat) (l : Ledger) : Happening → Ledger
  | .deliver _ j s =>
    match f.jobs[j]? with
    | some ⟨x, lane⟩ => if i = j ∧ lane ≠ .left then l.note x s else l
    | none => l
  | _ => l

end Runner

/-- A runner, with what its jobs have been through. -/
structure Trace where
  runner : Runner
  /-- The conversation that a job came with. -/
  came : Nat → List Message := fun _ => []
  ledger : Nat → Ledger := fun _ => {}
  asked : Nat → List Command := fun _ => []

namespace Trace

/-- Nobody has come yet. -/
def new (config : Lane.Config) : Trace := { runner := { pool := Pool.new config } }

/-- Something more happens. -/
def next (s : Trace) (h : Happening) : Trace where
  runner := (s.runner.step h).runner
  came i :=
    match h with
    | .enter _ _ messages _ => if i = s.runner.jobs.length then messages else s.came i
    | _ => s.came i
  ledger i := s.runner.noted i (s.ledger i) h
  asked i :=
    s.asked i ++ if s.runner.concerned h = some i then (s.runner.step h).command.toList else []

/-- All that happens, one after the other. -/
def after (s : Trace) (hs : List Happening) : Trace :=
  hs.foldl next s

/-- What the model was asked for a job. -/
def requests (s : Trace) (i : Nat) : List Request :=
  (s.asked i).filterMap fun
    | .openStream q => some q
    | _ => none

theorem after_append (s : Trace) (hs hs' : List Happening) :
    s.after (hs ++ hs') = (s.after hs).after hs' :=
  List.foldl_append

/-- What every happening keeps holds in the end. -/
theorem after_induct {P : Trace → Prop} {s : Trace} (hs : P s)
    (hnext : ∀ s h, P s → P (s.next h)) (happenings : List Happening) : P (s.after happenings) := by
  induction happenings generalizing s with
  | nil => exact hs
  | cons h rest ih => exact ih (hnext s h hs)

end Trace

/-! ## The moves of a runner -/

/-- What is done to the pool when a job gives up its lane. -/
def LaneStatus.parting : LaneStatus → List Lane.Op
  | .waiting t => [.abandon t]
  | .holding n => [.drop n]
  | .outside => []
  | .left => []

namespace Runner

variable {f : Runner}

theorem vacate_eq (f : Runner) (lane : LaneStatus) :
    f.vacate lane = { f with pool := f.pool.run lane.parting } := by
  cases lane <;> rfl

/-- A job whose move is its last leaves, any other one stays where it is. -/
theorem settle_cases (f : Runner) (i : Nat) (lane : LaneStatus) (m : Move) :
    (m.command = some .finish ∧ f.settle i lane m =
      { runner := ⟨f.pool.run lane.parting, f.jobs.set i ⟨m.execution, .left⟩⟩
        events := m.events
        command := m.command }) ∨
    (m.command ≠ some .finish ∧ f.settle i lane m =
      { runner := ⟨f.pool, f.jobs.set i ⟨m.execution, lane⟩⟩
        events := m.events
        command := m.command }) := by
  unfold settle
  split
  · rename_i hc
    refine .inl ⟨hc, ?_⟩
    rw [vacate_eq]
    rfl
  · rename_i hc
    exact .inr ⟨hc, rfl⟩

theorem settle_moved (f : Runner) (i : Nat) (lane : LaneStatus) (m : Move) :
    ∃ ops g, (f.settle i lane m).runner = ⟨f.pool.run ops, f.jobs.set i g⟩ := by
  rcases settle_cases f i lane m with ⟨-, he⟩ | ⟨-, he⟩ <;> rw [he]
  · exact ⟨_, _, rfl⟩
  · exact ⟨[], _, rfl⟩

theorem answer_moved (f : Runner) (now i : Nat) (x : Execution) (lane : LaneStatus)
    (reply : Lane.Reply) :
    ∃ ops g, (answer f now i x lane reply).runner = ⟨f.pool.run ops, f.jobs.set i g⟩ := by
  cases reply with
  | handle y => exact settle_moved f i _ _
  | failed e => exact settle_moved f i _ _
  | _ => exact ⟨[], _, rfl⟩

/-- The operation on its ticket with which a job that waits looks into its box. -/
inductive LooksBy (t : Nat) : Happening → Nat → Nat → Lane.Op → Prop
  | collect (now i : Nat) : LooksBy t (.collect now i) now i (.collect t)
  | expire (now i waitedMs : Nat) : LooksBy t (.expire now i waitedMs) now i (.expire t waitedMs)

/-- What a happening comes to: one job moves, or somebody uses the pool, or nothing happens. -/
inductive Moves (f : Runner) : Happening → Response → Prop
  | unmoved {h : Happening} (hn : ∀ i l, f.noted i l h = l) : Moves f h f.unmoved
  | ended {now : Nat} {setup : Setup} {messages : List Message} {cancelled : Bool}
      (hc : (Execution.start now setup messages cancelled).command = some .finish) :
      Moves f (.enter now setup messages cancelled)
        { runner := { f with jobs := f.jobs ++
            [⟨(Execution.start now setup messages cancelled).execution, .left⟩] }
          events := (Execution.start now setup messages cancelled).events
          command := some .finish }
  | asks {now : Nat} {setup : Setup} {messages : List Message} {cancelled : Bool} {x : Execution}
      (hx : x = (Execution.start now setup messages cancelled).execution)
      (hp : x.phase = .admission) (hs : x.setup = setup) :
      Moves f (.enter now setup messages cancelled)
        (answer ⟨(f.pool.apply (.acquire setup.session)).1, f.jobs ++ [⟨x, .outside⟩]⟩ now
          f.jobs.length x .outside (f.pool.apply (.acquire setup.session)).2)
  | deliver (now : Nat) {i : Nat} {x : Execution} {lane : LaneStatus} {s : Stimulus}
      (hg : f.jobs[i]? = some ⟨x, lane⟩) (hlane : lane ≠ .left) (ha : s ≠ .admitted)
      (hr : ∀ e, s ≠ .refused e) : Moves f (.deliver now i s) (f.settle i lane (x.on now s))
  | looks {h : Happening} {now i t : Nat} {op : Lane.Op} {x : Execution}
      (hg : f.jobs[i]? = some ⟨x, .waiting t⟩) (hop : LooksBy t h now i op) :
      Moves f h (answer { f with pool := (f.pool.apply op).1 } now i x (.waiting t)
        (f.pool.apply op).2)
  | drop {i : Nat} {x : Execution} {lane : LaneStatus} (hg : f.jobs[i]? = some ⟨x, lane⟩) :
      Moves f (.drop i) { runner := ⟨f.pool.run lane.parting, f.jobs.set i ⟨x, .left⟩⟩ }
  | use (op : Lane.Op) : Moves f (.use op) { runner := { f with pool := (f.pool.apply op).1 } }

theorem set_last (jobs : List Job) (g g' : Job) :
    (jobs ++ [g]).set jobs.length g' = jobs ++ [g'] := by
  rw [List.set_append_right _ _ (Nat.le_refl _), Nat.sub_self]
  rfl

theorem enter_moves (f : Runner) (now : Nat) (setup : Setup) (messages : List Message)
    (cancelled : Bool) :
    Moves f (.enter now setup messages cancelled) (f.enter now setup messages cancelled) := by
  obtain ⟨hsetup, ⟨hc, hp⟩ | ⟨hc, -⟩⟩ := Execution.start_cases now setup messages cancelled
  · unfold enter
    simp only [hc]
    exact .asks rfl hp hsetup
  · have hover := Moves.ended (f := f) hc
    rw [← set_last f.jobs ⟨_, .outside⟩] at hover
    unfold enter settle
    simp only [hc]
    exact hover

theorem deliver_eq {i : Nat} {x : Execution} {lane : LaneStatus} {s : Stimulus} (now : Nat)
    (hg : f.jobs[i]? = some ⟨x, lane⟩) (hlane : lane ≠ .left) (ha : s ≠ .admitted)
    (hr : ∀ e, s ≠ .refused e) : f.deliver now i s = f.settle i lane (x.on now s) := by
  unfold deliver
  rw [hg]
  cases s with
  | admitted => exact absurd rfl ha
  | refused e => exact absurd rfl (hr e)
  | _ => cases lane <;> first | rfl | exact absurd rfl hlane

theorem deliver_moves (f : Runner) (now i : Nat) (s : Stimulus) :
    Moves f (.deliver now i s) (f.deliver now i s) := by
  have hignored (hl : ∀ l x, Ledger.note l x s = l) (j : Nat) (l : Ledger) :
      f.noted j l (.deliver now i s) = l := by
    simp only [noted]
    split
    · split
      · exact hl l _
      · rfl
    · rfl
  unfold deliver
  split
  · rename_i hg
    exact .unmoved fun j l => by simp only [noted, hg]
  · exact .unmoved (hignored fun _ _ => rfl)
  · exact .unmoved (hignored fun _ _ => rfl)
  · rename_i hg _ _
    exact .unmoved fun j l => by simp [noted, hg]
  · rename_i x lane hlane hg ha hr
    exact .deliver now hg hlane ha hr

theorem step_moves (f : Runner) (h : Happening) : Moves f h (f.step h) := by
  cases h with
  | enter now setup messages cancelled => exact enter_moves f now setup messages cancelled
  | deliver now i s => exact deliver_moves f now i s
  | collect now i =>
    unfold step collect useTicket
    dsimp only
    split
    · exact .looks ‹_› (.collect now i)
    · exact .unmoved fun j l => rfl
  | expire now i waitedMs =>
    unfold step expire useTicket
    dsimp only
    split
    · exact .looks ‹_› (.expire now i waitedMs)
    · exact .unmoved fun j l => rfl
  | drop i =>
    unfold step drop
    dsimp only
    split
    · rename_i hg
      rw [vacate_eq]
      exact .drop hg
    · exact .unmoved fun j l => rfl
  | use op => exact .use op

/-- What a happening comes to for the job whose happening it is. -/
inductive Concerns (f : Runner) (i : Nat) (x : Execution) (lane : LaneStatus) :
    Happening → Response → Prop
  | unmoved {h : Happening} (hn : ∀ i l, f.noted i l h = l) : Concerns f i x lane h f.unmoved
  | deliver (now : Nat) {s : Stimulus} (hlane : lane ≠ .left) :
      Concerns f i x lane (.deliver now i s) (f.settle i lane (x.on now s))
  | looks {h : Happening} {now t : Nat} {op : Lane.Op} (hlane : lane = .waiting t)
      (hop : LooksBy t h now i op) :
      Concerns f i x lane h
        (answer { f with pool := (f.pool.apply op).1 } now i x lane (f.pool.apply op).2)
  | drop : Concerns f i x lane (.drop i)
      { runner := ⟨f.pool.run lane.parting, f.jobs.set i ⟨x, .left⟩⟩ }

theorem step_concerns {h : Happening} {i : Nat} {x : Execution} {lane : LaneStatus}
    (hg : f.jobs[i]? = some ⟨x, lane⟩) (hh : f.concerned h = some i) :
    Concerns f i x lane h (f.step h) := by
  have hi : i < f.jobs.length := (List.getElem?_eq_some_iff.1 hg).1
  have hmine {j : Nat} {y : Execution} {lane' : LaneStatus} (hj : some j = some i)
      (hg' : f.jobs[j]? = some ⟨y, lane'⟩) : i = j ∧ x = y ∧ lane = lane' := by
    obtain rfl := Option.some.inj hj
    rw [hg] at hg'
    cases hg'
    exact ⟨rfl, rfl, rfl⟩
  have hmoves := f.step_moves h
  generalize f.step h = r at hmoves ⊢
  cases hmoves with
  | unmoved hn => exact .unmoved hn
  | ended => exact absurd (Option.some.inj hh) (Nat.ne_of_gt hi)
  | asks => exact absurd (Option.some.inj hh) (Nat.ne_of_gt hi)
  | deliver now hg' hlane =>
    obtain ⟨rfl, rfl, rfl⟩ := hmine hh hg'
    exact .deliver now hlane
  | looks hg' hop =>
    obtain ⟨rfl, rfl, rfl⟩ := hmine (by cases hop <;> exact hh) hg'
    exact .looks rfl hop
  | drop hg' =>
    obtain ⟨rfl, rfl, rfl⟩ := hmine hh hg'
    exact .drop
  | use => cases hh

/-- A happening moves the pool by operations only. -/
theorem pool_step (f : Runner) (h : Happening) :
    ∃ ops, (f.step h).runner.pool = f.pool.run ops := by
  have hmoves := f.step_moves h
  generalize f.step h = r at hmoves
  cases hmoves with
  | unmoved => exact ⟨[], rfl⟩
  | ended => exact ⟨[], rfl⟩
  | @asks now setup messages cancelled x =>
    obtain ⟨ops, g, he⟩ := answer_moved ⟨(f.pool.apply (.acquire setup.session)).1,
      f.jobs ++ [⟨x, .outside⟩]⟩ now f.jobs.length x .outside
      (f.pool.apply (.acquire setup.session)).2
    exact ⟨.acquire setup.session :: ops, congrArg Runner.pool he⟩
  | deliver now =>
    obtain ⟨ops, g, he⟩ := settle_moved f _ _ _
    exact ⟨ops, congrArg Runner.pool he⟩
  | @looks _ now i t op x =>
    obtain ⟨ops, g, he⟩ := answer_moved { f with pool := (f.pool.apply op).1 } now i x (.waiting t)
      (f.pool.apply op).2
    exact ⟨op :: ops, congrArg Runner.pool he⟩
  | drop => exact ⟨_, rfl⟩
  | use op => exact ⟨[op], rfl⟩

end Runner

/-! ## Jobs and their lanes -/

/-- A job stands where its execution is, on a number that was given out, and keeps what its ledger
says. -/
inductive Job.Fits (h : Pool) (history : List Message) (l : Ledger) : Job → Prop
  | waiting {x : Execution} {t : Nat} (hp : x.phase = .admission) (ht : t < h.registry.nextTicket)
      (hl : l.Balances history x) : Fits h history l ⟨x, .waiting t⟩
  | holding {x : Execution} {n : Nat} (hp : x.phase.isUnderWay = true) (hn : n < h.nextHandle)
      (hl : l.Balances history x) : Fits h history l ⟨x, .holding n⟩
  | left (x : Execution) : Fits h history l ⟨x, .left⟩

section
variable {h h' : Pool} {history : List Message} {l : Ledger}

theorem Job.Fits.later {g : Job} (hg : g.Fits h history l) (hh : h.Later h') :
    g.Fits h' history l := by
  cases hg with
  | waiting hp ht hl => exact .waiting hp (Nat.lt_of_lt_of_le ht hh.tickets) hl
  | holding hp hn hl => exact .holding hp (Nat.lt_of_lt_of_le hn hh.handles) hl
  | left x => exact .left x

/-- A runner of which one job has moved, and fits. -/
def Runner.Admits (f : Runner) (i : Nat) (history : List Message) (l : Ledger) (f' : Runner) :
    Prop :=
  ∃ ops g, f' = ⟨f.pool.run ops, f.jobs.set i g⟩ ∧ g.Fits f.pool history l

namespace Runner

variable {f : Runner} {i : Nat} {x : Execution}

theorem admits_leaving {m : Move} (hc : m.command = some .finish) (lane : LaneStatus) :
    f.Admits i history l (f.settle i lane m).runner := by
  rcases settle_cases f i lane m with ⟨-, he⟩ | ⟨hc', -⟩
  · rw [he]
    exact ⟨_, _, rfl, .left _⟩
  · exact absurd hc hc'

theorem admits_holding {n : Nat} {m : Move} (hm : Proceeds x m) (hn : n < f.pool.nextHandle)
    (hl : l.Balances history m.execution) :
    f.Admits i history l (f.settle i (.holding n) m).runner := by
  cases hm with
  | underWay _ hp hc =>
    rcases settle_cases f i (.holding n) m with ⟨hc', -⟩ | ⟨-, he⟩
    · exact absurd hc' hc
    · rw [he]
      exact ⟨[], _, rfl, .holding hp hn hl⟩
  | ended _ _ hc => exact admits_leaving hc _

/-- Answers of a pool that has just given out the numbers in them. -/
inductive Answered (h : Pool) : Lane.Reply → Prop
  | handle {y : Lane.Handle} (hn : y.number < h.nextHandle) : Answered h (.handle y)
  | failed (e : Failure) : Answered h (.failed e)
  | ticket {t : Nat} (ht : t < h.registry.nextTicket) : Answered h (.ticket t)
  | waiting : Answered h .waiting

theorem answered_settle (h : Pool) (key : String) (found : Lane.Finding) :
    Answered (h.settle key found).1 (h.settle key found).2 := by
  cases found with
  | granted g => exact .handle (Nat.lt_succ_self _)
  | failed e => exact .failed e
  | waiting => exact .waiting

theorem answered_acquire (h : Pool) (key : String) :
    Answered (h.apply (.acquire key)).1 (h.apply (.acquire key)).2 ∧
      (h.apply (.acquire key)).2 ≠ .waiting := by
  rcases h.registry.acquire_cases key with ⟨-, -, he⟩ | ⟨-, -, he⟩ | ⟨-, -, he⟩ <;>
    simp only [Pool.apply, he]
  · exact ⟨.handle (Nat.lt_succ_self _), fun hw => by cases hw⟩
  · exact ⟨.failed _, fun hw => by cases hw⟩
  · exact ⟨.ticket (Nat.lt_succ_self _), fun hw => by cases hw⟩

theorem answered_looks {t now : Nat} {happening : Happening} {op : Lane.Op} (h : Pool)
    (hop : LooksBy t happening now i op) : Answered (h.apply op).1 (h.apply op).2 := by
  cases hop with
  | collect => exact answered_settle _ _ _
  | expire => exact answered_settle _ _ _

theorem admits_answer {reply : Lane.Reply} (hr : Answered f.pool reply)
    (hp : x.phase = .admission) (hl : l.Balances history x) (now : Nat) {lane : LaneStatus}
    (hstay : reply = .waiting → Job.Fits f.pool history l ⟨x, lane⟩) :
    f.Admits i history l (answer f now i x lane reply).runner := by
  cases hr with
  | handle hn =>
    have hl' : l.Balances history (x.on now .admitted).execution := x.on_balances hl now .admitted
    have hm : Proceeds x (x.on now .admitted) := by
      rw [Execution.on_admitted hp]
      exact Execution.beginTurn_proceeds now x
    exact admits_holding hm hn hl'
  | failed e =>
    have hc : (x.on now (.refused e)).command = some .finish := by
      rw [Execution.on_refused hp]
      rfl
    exact admits_leaving hc .outside
  | ticket ht => exact ⟨[], _, rfl, .waiting hp ht hl⟩
  | waiting => exact ⟨[], _, rfl, hstay rfl⟩

theorem admits_deliver {g : Job} (hg : g.Fits f.pool history l) (hlane : g.lane ≠ .left)
    (now : Nat) {s : Stimulus} (ha : s ≠ .admitted) (hr : ∀ e, s ≠ .refused e) :
    f.Admits i history (l.note g.execution s)
      (f.settle i g.lane (g.execution.on now s)).runner := by
  cases hg with
  | waiting hp ht hl =>
    have hl' := Execution.on_balances hl now s
    rcases Execution.on_admission hp now ha hr with hm | hm
    · rw [hm] at hl' ⊢
      exact ⟨[], _, rfl, .waiting hp ht hl'⟩
    · exact admits_leaving (by rw [hm]; rfl) _
  | holding hp hn hl =>
    exact admits_holding (Execution.on_proceeds hp now s) hn (Execution.on_balances hl now s)
  | left => exact absurd rfl hlane

end Runner

end

/-! ## Sound traces -/

namespace Trace

/-- The pool is sound, every job fits its status, and nothing is known of jobs to come. -/
structure Sound (s : Trace) : Prop where
  pool : s.runner.pool.Sound
  ordered : s.runner.pool.registry.Ordered
  jobs : ∀ (i : Nat) (g : Job), s.runner.jobs[i]? = some g →
    g.Fits s.runner.pool (s.came i) (s.ledger i)
  blank : ∀ i, s.runner.jobs.length ≤ i → s.ledger i = {}

variable {s s' : Trace}

theorem came_next (s : Trace) (h : Happening) {i : Nat} (hi : i < s.runner.jobs.length) :
    (s.next h).came i = s.came i := by
  unfold next
  cases h with
  | enter => exact if_neg (Nat.ne_of_lt hi)
  | _ => rfl

theorem ledger_next (s : Trace) (h : Happening) {i : Nat} (hi : s.runner.jobs.length ≤ i) :
    (s.next h).ledger i = s.ledger i := by
  have hnone := List.getElem?_eq_none hi
  show s.runner.noted i (s.ledger i) h = s.ledger i
  unfold Runner.noted
  split
  · split
    · rename_i hg
      refine if_neg fun hij => ?_
      rw [← hij.1, hnone] at hg
      cases hg
    · rfl
  · rfl

theorem Sound.later_next (hs : s.Sound) (h : Happening) :
    s.runner.pool.Later (s.next h).runner.pool := by
  obtain ⟨ops, hpool⟩ : ∃ ops, (s.next h).runner.pool = s.runner.pool.run ops :=
    s.runner.pool_step h
  rw [hpool]
  exact Lane.Pool.run_later hs.pool hs.ordered ops

theorem Sound.moved (hs : s.Sound) {h : Happening}
    (hlength : s.runner.jobs.length ≤ (s.next h).runner.jobs.length)
    (hjobs : ∀ (i : Nat) (g : Job), (s.next h).runner.jobs[i]? = some g →
      (s.runner.jobs[i]? = some g ∧ (s.next h).ledger i = s.ledger i) ∨
      g.Fits (s.next h).runner.pool ((s.next h).came i) ((s.next h).ledger i)) :
    (s.next h).Sound := by
  obtain ⟨ops, hpool⟩ : ∃ ops, (s.next h).runner.pool = s.runner.pool.run ops :=
    s.runner.pool_step h
  refine ⟨hpool ▸ Lane.Pool.sound_run hs.pool ops,
    hpool ▸ Lane.Pool.ordered_run hs.pool hs.ordered ops, fun i g hg => ?_, fun i hi => ?_⟩
  · rcases hjobs i g hg with ⟨hg, hledger⟩ | hfits
    · rw [s.came_next h (List.getElem?_eq_some_iff.1 hg).1, hledger]
      exact (hs.jobs i g hg).later (hs.later_next h)
    · exact hfits
  · have hi := Nat.le_trans hlength hi
    rw [s.ledger_next h hi]
    exact hs.blank i hi

/-- One job gets a status that fits it. -/
theorem Sound.admitted (hs : s.Sound) {h : Happening} {i : Nat} {f : Runner} (ops : List Lane.Op)
    (hpool : f.pool = s.runner.pool.run ops) (hlength : s.runner.jobs.length ≤ f.jobs.length)
    (hadmits : f.Admits i ((s.next h).came i) ((s.next h).ledger i) (s.next h).runner)
    (hothers : ∀ (j : Nat) (g : Job), j ≠ i → f.jobs[j]? = some g →
      s.runner.jobs[j]? = some g ∧ (s.next h).ledger j = s.ledger j) :
    (s.next h).Sound := by
  obtain ⟨ops', g, hrunner, hfits⟩ := hadmits
  have hnext : (s.next h).runner.pool = f.pool.run ops' := by rw [hrunner]
  have hlater : f.pool.Later (s.next h).runner.pool := by
    rw [hnext, hpool]
    exact Lane.Pool.run_later (Lane.Pool.sound_run hs.pool ops)
      (Lane.Pool.ordered_run hs.pool hs.ordered ops) ops'
  refine hs.moved ?_ fun j g' hg' => ?_
  · rw [hrunner]
    simpa using hlength
  · rw [hrunner, List.getElem?_set] at hg'
    split at hg'
    · rename_i hij
      subst hij
      split at hg'
      · cases hg'
        exact .inr (hfits.later hlater)
      · cases hg'
    · rename_i hij
      exact .inl (hothers j g' (Ne.symm hij) hg')

theorem sound_next (hs : s.Sound) (h : Happening) : (s.next h).Sound := by
  have hrunner : (s.next h).runner = (s.runner.step h).runner := rfl
  have hmoves := s.runner.step_moves h
  generalize s.runner.step h = r at hrunner hmoves
  -- a move that may end in a new status is a case of `admitted`, the others change nobody who stays
  cases hmoves with
  | unmoved hn =>
    refine hs.moved (by rw [hrunner]; exact Nat.le_refl _) fun i g hg => ?_
    rw [hrunner] at hg
    exact .inl ⟨hg, hn i _⟩
  | @ended now setup messages cancelled hc =>
    refine hs.moved (by rw [hrunner]; simp) fun i g hg => ?_
    rw [hrunner, List.getElem?_append] at hg
    split at hg
    · exact .inl ⟨hg, rfl⟩
    · obtain rfl := List.mem_singleton.1 (List.mem_of_getElem? hg)
      exact .inr (.left _)
  | @asks now setup messages cancelled x hx hp hsetup =>
    have hcame : (s.next (.enter now setup messages cancelled)).came s.runner.jobs.length =
        messages := if_pos rfl
    have hledger : (s.next (.enter now setup messages cancelled)).ledger s.runner.jobs.length =
        {} := hs.blank _ (Nat.le_refl _)
    -- the newcomer stands outside until the pool has answered
    have hl : Ledger.Balances messages {} x :=
      hx ▸ Execution.start_balances now setup messages cancelled
    obtain ⟨hanswered, hwaits⟩ := Runner.answered_acquire s.runner.pool setup.session
    refine hs.admitted (i := s.runner.jobs.length)
      (f := ⟨_, s.runner.jobs ++ [⟨x, .outside⟩]⟩) [.acquire setup.session] rfl (by simp) ?_
      fun j g hj hg => ?_
    · rw [hcame, hledger, hrunner]
      exact Runner.admits_answer hanswered hp hl now fun hw => absurd hw hwaits
    · rw [List.getElem?_append] at hg
      split at hg
      · exact ⟨hg, rfl⟩
      · have hlt := (List.getElem?_eq_some_iff.1 hg).1
        simp only [List.length_singleton] at hlt
        omega
  | @deliver now i x lane st hg hlane ha hr =>
    have hledger : (s.next (.deliver now i st)).ledger i = (s.ledger i).note x st := by
      show s.runner.noted i _ (.deliver now i st) = _
      simp [Runner.noted, hg, hlane]
    refine hs.admitted (i := i) (f := s.runner) [] rfl (Nat.le_refl _) ?_ fun j g hj hg' => ?_
    · rw [hledger, hrunner]
      exact Runner.admits_deliver (hs.jobs i _ hg) hlane now ha hr
    · refine ⟨hg', ?_⟩
      show s.runner.noted j _ (.deliver now i st) = _
      simp only [Runner.noted, hg]
      exact if_neg fun h => hj h.1
  | @looks h now i t op x hg hop =>
    have hledger (j : Nat) : (s.next h).ledger j = s.ledger j := by cases hop <;> rfl
    have hcame : (s.next h).came i = s.came i := by cases hop <;> rfl
    have hlater : s.runner.pool.Later (s.runner.pool.apply op).1 :=
      Lane.Pool.apply_later hs.pool hs.ordered op
    have hfits := hs.jobs i _ hg
    refine hs.admitted (i := i)
      (f := { s.runner with pool := (s.runner.pool.apply op).1 }) [op] rfl (Nat.le_refl _) ?_
      fun j g _ hg' => ⟨hg', hledger j⟩
    rw [hledger, hcame, hrunner]
    cases hfits with
    | waiting hp ht hl =>
      exact Runner.admits_answer (Runner.answered_looks _ hop) hp hl now
        fun _ => .waiting hp (Nat.lt_of_lt_of_le ht hlater.tickets) hl
  | @drop i x lane hg =>
    refine hs.moved (by rw [hrunner]; simp) fun j g hg' => ?_
    rw [hrunner, List.getElem?_set] at hg'
    split at hg'
    · split at hg'
      · cases hg'
        exact .inr (.left x)
      · cases hg'
    · exact .inl ⟨hg', rfl⟩
  | use op =>
    refine hs.moved (Nat.le_of_eq (by rw [hrunner])) fun i g hg => ?_
    rw [hrunner] at hg
    exact .inl ⟨hg, rfl⟩

theorem sound_new (config : Lane.Config) : (new config).Sound where
  pool := Lane.Pool.sound_new config
  ordered := Lane.Pool.ordered_new config
  jobs i g hg := by simp [new] at hg
  blank _ _ := rfl

theorem sound_after (hs : s.Sound) (happenings : List Happening) : (s.after happenings).Sound :=
  after_induct hs (fun _ h hs => sound_next hs h) happenings

theorem Sound.later_after (hs : s.Sound) (happenings : List Happening) :
    s.runner.pool.Later (s.after happenings).runner.pool := by
  induction happenings generalizing s with
  | nil => exact Lane.Pool.Later.refl _
  | cons h rest ih => exact (hs.later_next h).trans (ih (sound_next hs h))

end Trace

end TurnEngine.Run
