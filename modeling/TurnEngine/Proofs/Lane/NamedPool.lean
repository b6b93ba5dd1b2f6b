import TurnEngine.Proofs.Lane.Places

/-!
# Callers by name

Tickets and numbers of handles are given out across all keys, so a run can only be compared with
one that has less traffic if callers are known in another way. A `NamedPool` knows everybody who
came to a pool by a key and a name of their own choosing, and answers without tickets and numbers.
It also has a clock, by which it says how long somebody waited whose time is up. Who comes under a
name that is taken already puts the other one out of reach, to wait or to hold its slot for ever.
-/

namespace TurnEngine.Lane

/-- Somebody who came to a pool: it waits with a ticket since some time, or holds a handle. -/
inductive Client where
  | waiting (ticket since : Nat)
  | holding (handle : Nat)
  deriving DecidableEq, Repr

/-- A pool, the time, and everybody who waits or holds a handle, by key and name. -/
structure NamedPool where
  pool : Pool
  now : Nat := 0
  clients : String × Nat → Option Client := fun _ => none

namespace NamedPool

/-- What is done on one key. -/
inductive KeyOp where
  /-- Somebody comes under a name. -/
  | acquire (name : Nat)
  | collect (name : Nat)
  /-- The time of somebody who waits is up. -/
  | expire (name : Nat)
  | abandon (name : Nat)
  | release (name : Nat)
  | drop (name : Nat)
  | clearWaiters
  deriving DecidableEq, Repr

/-- What happens in a named pool. -/
inductive Step where
  | wait (ms : Nat)
  | keyOp (key : String) (d : KeyOp)
  | resetGeneration
  | dispose
  deriving DecidableEq, Repr

/-- What somebody learns from a step. -/
inductive Reply where
  | done
  /-- A slot of this generation. -/
  | granted (generation : Nat)
  | failed (f : Failure)
  /-- A place in the queue. -/
  | queued
  | waiting
  | count (n : Nat)
  deriving DecidableEq, Repr

/-- What everybody can ask about a key. -/
structure View where
  occupancy : Nat
  queued : Nat
  generation : Nat
  deriving DecidableEq, Repr

/-- A named pool where nobody is yet. -/
def new (config : Config) : NamedPool := { pool := .new config }

/-- A name gets a client, or nobody. -/
def settle (a : NamedPool) (key : String) (name : Nat) (pool : Pool) (client : Option Client) :
    NamedPool :=
  { a with pool, clients := Function.update a.clients (key, name) client }

/-- What becomes of a name after the pool's answer. -/
def record (a : NamedPool) (key : String) (name : Nat) (p : Pool × Lane.Reply) :
    NamedPool × Reply :=
  match p.2 with
  | .handle x => (a.settle key name p.1 (some (.holding x.number)), .granted x.generation)
  | .ticket t => (a.settle key name p.1 (some (.waiting t a.now)), .queued)
  | .failed f => (a.settle key name p.1 none, .failed f)
  | .waiting => ({ a with pool := p.1 }, .waiting)
  | _ => ({ a with pool := p.1 }, .done)

/-- An answer that is about nobody in particular. -/
def report (a : NamedPool) (p : Pool × Lane.Reply) : NamedPool × Reply :=
  match p.2 with
  | .count n => ({ a with pool := p.1 }, .count n)
  | _ => ({ a with pool := p.1 }, .done)

/-- What is done with somebody who waits; nothing, where nobody waits under that name. -/
def withWaiter (a : NamedPool) (key : String) (name : Nat) (f : Nat → Nat → NamedPool × Reply) :
    NamedPool × Reply :=
  match a.clients (key, name) with
  | some (.waiting t since) => f t since
  | _ => (a, .done)

/-- What is done with a handle; nothing, where nobody holds one under that name. -/
def withHolder (a : NamedPool) (key : String) (name : Nat) (f : Nat → NamedPool × Reply) :
    NamedPool × Reply :=
  match a.clients (key, name) with
  | some (.holding n) => f n
  | _ => (a, .done)

/-- Something is done on a key. -/
def keyOp (a : NamedPool) (key : String) : KeyOp → NamedPool × Reply
  | .acquire name => a.record key name (a.pool.apply (.acquire key))
  | .collect name =>
    a.withWaiter key name fun t _ => a.record key name (a.pool.apply (.collect t))
  | .expire name =>
    a.withWaiter key name fun t since =>
      a.record key name (a.pool.apply (.expire t (a.now - since)))
  | .abandon name =>
    a.withWaiter key name fun t _ => (a.settle key name (a.pool.apply (.abandon t)).1 none, .done)
  | .release name => a.withHolder key name fun n => a.report (a.pool.apply (.release n))
  | .drop name =>
    a.withHolder key name fun n => (a.settle key name (a.pool.apply (.drop n)).1 none, .done)
  | .clearWaiters => a.report (a.pool.apply (.clearWaiters key))

/-- One step. -/
def apply (a : NamedPool) : Step → NamedPool × Reply
  | .wait ms => ({ a with now := a.now + ms }, .done)
  | .keyOp key d => a.keyOp key d
  | .resetGeneration => a.report (a.pool.apply .resetGeneration)
  | .dispose => a.report (a.pool.apply .dispose)

/-- The named pool after some steps. -/
def run (a : NamedPool) (steps : List Step) : NamedPool :=
  steps.foldl (fun a step => (a.apply step).1) a

/-- What is to be seen of a key. -/
def view (a : NamedPool) (key : String) : View :=
  ⟨a.pool.registry.occupancy key, a.pool.registry.queued key, a.pool.registry.generation⟩

/-- Whether a step is on a key or on all of them. -/
def Step.concerns (key : String) : Step → Bool
  | .keyOp k _ => k = key
  | _ => true

/-- The answers to the steps that concern a key, with what is to be seen of it after each. -/
def seen (key : String) (a : NamedPool) : List Step → List (Reply × View)
  | [] => []
  | step :: steps =>
    let later := (a.apply step).1
    if step.concerns key then ((a.apply step).2, later.view key) :: later.seen key steps
    else later.seen key steps

/-! ## What a keyOp can do -/

/-- All that can be done on a key: nothing, or one operation of the pool, about somebody whom the
named pool knows by name or about the whole key. -/
inductive Effect (a : NamedPool) (key : String) : NamedPool × Reply → Prop
  | idle : Effect a key (a, .done)
  | acquire (name : Nat) : Effect a key (a.record key name (a.pool.apply (.acquire key)))
  /-- Somebody who waits looks into its box, be it when its time is up. -/
  | look {name t since : Nat} (ht : a.clients (key, name) = some (.waiting t since)) {op : Op}
      (hop : op = .collect t ∨ ∃ waitedMs, op = .expire t waitedMs) :
      Effect a key (a.record key name (a.pool.apply op))
  | abandon {name t since : Nat} (ht : a.clients (key, name) = some (.waiting t since)) :
      Effect a key (a.settle key name (a.pool.apply (.abandon t)).1 none, .done)
  | release {name n : Nat} (hn : a.clients (key, name) = some (.holding n)) :
      Effect a key (a.report (a.pool.apply (.release n)))
  | drop {name n : Nat} (hn : a.clients (key, name) = some (.holding n)) :
      Effect a key (a.settle key name (a.pool.apply (.drop n)).1 none, .done)
  | clearWaiters : Effect a key (a.report (a.pool.apply (.clearWaiters key)))

theorem effect_withWaiter {a : NamedPool} {key : String} {name : Nat}
    {f : Nat → Nat → NamedPool × Reply}
    (hf : ∀ t since, a.clients (key, name) = some (.waiting t since) → Effect a key (f t since)) :
    Effect a key (a.withWaiter key name f) := by
  unfold withWaiter
  split
  · rename_i t since ht
    exact hf t since ht
  · exact .idle

theorem effect_withHolder {a : NamedPool} {key : String} {name : Nat} {f : Nat → NamedPool × Reply}
    (hf : ∀ n, a.clients (key, name) = some (.holding n) → Effect a key (f n)) :
    Effect a key (a.withHolder key name f) := by
  unfold withHolder
  split
  · rename_i n hn
    exact hf n hn
  · exact .idle

theorem keyOp_effect (a : NamedPool) (key : String) (d : KeyOp) : Effect a key (a.keyOp key d) := by
  cases d with
  | acquire name => exact .acquire name
  | collect name => exact effect_withWaiter fun t _ ht => .look ht (.inl rfl)
  | expire name => exact effect_withWaiter fun t _ ht => .look ht (.inr ⟨_, rfl⟩)
  | abandon name => exact effect_withWaiter fun t _ ht => .abandon ht
  | release name => exact effect_withHolder fun n hn => .release hn
  | drop name => exact effect_withHolder fun n hn => .drop hn
  | clearWaiters => exact .clearWaiters

section
variable (a : NamedPool) (key : String) (name : Nat) (p : Pool × Lane.Reply)

theorem pool_record : (a.record key name p).1.pool = p.1 := by
  unfold record
  split <;> rfl

theorem now_record : (a.record key name p).1.now = a.now := by
  unfold record
  split <;> rfl

theorem clients_settle_of_ne (pool : Pool) (client : Option Client) {q : String × Nat}
    (hq : q ≠ (key, name)) : (a.settle key name pool client).clients q = a.clients q := by
  unfold settle
  exact Function.update_of_ne hq _ _

theorem clients_record_of_ne {q : String × Nat} (hq : q ≠ (key, name)) :
    (a.record key name p).1.clients q = a.clients q := by
  unfold record
  split
  · exact a.clients_settle_of_ne key name _ _ hq
  · exact a.clients_settle_of_ne key name _ _ hq
  · exact a.clients_settle_of_ne key name _ _ hq
  · rfl
  · rfl

theorem report_eq : (a.report p).1 = { a with pool := p.1 } := by
  unfold report
  split <;> rfl

end

/-! ## Everybody is in the pool -/

end NamedPool

/-- Whether a client of a key is in the pool. -/
def Client.IsIn (h : Pool) (key : String) : Client → Prop
  | .waiting t _ => (t, key) ∈ h.places
  | .holding n => ∃ x ∈ h.handles, x.number = n ∧ x.key = key

/-- A client stays in the pool if its place does, or its handle. -/
theorem Client.IsIn.stay {h h' : Pool} {key : String} {g : Client} (hin : g.IsIn h key)
    (hplaces : ∀ t s, g = .waiting t s → (t, key) ∈ h.places → (t, key) ∈ h'.places)
    (hhandles : ∀ n, g = .holding n → ∀ x ∈ h.handles, x.number = n →
      ∃ y ∈ h'.handles, y.number = x.number ∧ y.key = x.key) : g.IsIn h' key := by
  cases g with
  | waiting t since => exact hplaces t since rfl hin
  | holding n =>
    obtain ⟨x, hx, rfl, hk⟩ := hin
    obtain ⟨y, hy, hyn, hyk⟩ := hhandles _ rfl x hx rfl
    exact ⟨y, hy, hyn, hyk.trans hk⟩

/-- Whether two clients have the same ticket or the same handle. -/
def Client.Same : Client → Client → Prop
  | .waiting t _, .waiting u _ => t = u
  | .holding m, .holding n => m = n
  | _, _ => False

namespace NamedPool

variable {a : NamedPool} {key : String}

/-- What holds of every run: the pool is in order, everybody who is known is in it, and nobody is
known by two names. -/
structure Sound (a : NamedPool) : Prop where
  pool : a.pool.Sound
  ordered : a.pool.registry.Ordered
  known : ∀ q g, a.clients q = some g → g.IsIn a.pool q.1
  unique : ∀ q q' g g', a.clients q = some g → a.clients q' = some g' → g.Same g' → q = q'

/-- After an operation of the pool that leaves everybody where they are. -/
theorem Sound.remain (h : a.Sound) (op : Op)
    (hplaces : ∀ q ∈ a.pool.places, q ∈ (a.pool.apply op).1.places)
    (hhandles : ∀ x ∈ a.pool.handles, ∃ y ∈ (a.pool.apply op).1.handles,
      y.number = x.number ∧ y.key = x.key) :
    Sound { a with pool := (a.pool.apply op).1 } := by
  refine ⟨h.pool.apply op, (Pool.incidents_pass h.pool h.ordered op).2, fun q g hg => ?_, h.unique⟩
  exact (h.known q g hg).stay (fun t _ _ => hplaces (t, q.1)) fun n _ x hx _ => hhandles x hx

/-- After an operation of the pool about one name, which gets a new client or nobody. -/
theorem Sound.settle (h : a.Sound) (name : Nat) (op : Op) {client : Option Client}
    (hkept : ∀ q g, q ≠ (key, name) → a.clients q = some g → g.IsIn (a.pool.apply op).1 q.1)
    (hnew : ∀ g, client = some g → g.IsIn (a.pool.apply op).1 key ∧
      ∀ q g', a.clients q = some g' → ¬ g.Same g' ∧ ¬ g'.Same g) :
    (a.settle key name (a.pool.apply op).1 client).Sound := by
  refine ⟨h.pool.apply op, (Pool.incidents_pass h.pool h.ordered op).2, fun q g hg => ?_,
    fun q q' g g' hg hg' hsame => ?_⟩
  · unfold NamedPool.settle at hg
    dsimp only at hg
    rw [Function.update_apply] at hg
    split at hg
    · rename_i hq
      rw [hq]
      exact (hnew g hg).1
    · rename_i hq
      exact hkept q g hq hg
  · unfold NamedPool.settle at hg hg'
    dsimp only at hg hg'
    rw [Function.update_apply] at hg hg'
    split at hg <;> split at hg'
    · rename_i hq hq'
      exact hq.trans hq'.symm
    · exact absurd hsame ((hnew g hg).2 q' g' hg').1
    · exact absurd hsame ((hnew g' hg').2 q g hg).2
    · exact h.unique q q' g g' hg hg' hsame

/-- A new handle is nobody's yet. -/
theorem Sound.holding_new (h : a.Sound) (op : Op) {y : Handle}
    (hout : a.pool.HandsOut (a.pool.apply op).1 key y) :
    (Client.holding y.number).IsIn (a.pool.apply op).1 key ∧ ∀ q g, a.clients q = some g →
      ¬ (Client.holding y.number).Same g ∧ ¬ g.Same (.holding y.number) := by
  obtain ⟨hyk, -, hhandles⟩ := hout
  have hnumbers := (h.pool.apply op).numbered.numbers
  rw [hhandles, List.map_append, List.map_singleton] at hnumbers
  have hfresh {x : Handle} (hx : x ∈ a.pool.handles) : x.number ≠ y.number := fun hn =>
    (List.nodup_append.1 hnumbers).2.2 _ (List.mem_map_of_mem hx) _ (List.mem_singleton_self _) hn
  refine ⟨⟨y, hhandles ▸ List.mem_append_right _ (List.mem_singleton_self y), rfl, hyk⟩,
    fun q g hg => ?_⟩
  cases g with
  | waiting t since => exact ⟨id, id⟩
  | holding n =>
    obtain ⟨x, hx, hxn, -⟩ := h.known q _ hg
    exact ⟨fun hyn => hfresh hx (hxn.trans hyn.symm), fun hny => hfresh hx (hxn.trans hny)⟩

/-- A new ticket is nobody's yet. -/
theorem Sound.waiting_new (h : a.Sound) (op : Op) {t : Nat}
    (hplaces : (a.pool.apply op).1.places = a.pool.places ++ [(t, key)]) (since : Nat) :
    (Client.waiting t since).IsIn (a.pool.apply op).1 key ∧ ∀ q g, a.clients q = some g →
      ¬ (Client.waiting t since).Same g ∧ ¬ g.Same (.waiting t since) := by
  have htickets : ((a.pool.apply op).1.places.map (·.1)).Nodup := by
    unfold Pool.places placesOf
    rw [List.map_map]
    exact (h.pool.apply op).registry.boxed.tickets
  rw [hplaces, List.map_append, List.map_singleton] at htickets
  have hfresh {q : Nat × String} (hq : q ∈ a.pool.places) : q.1 ≠ t := fun hn =>
    (List.nodup_append.1 htickets).2.2 _ (List.mem_map_of_mem hq) _ (List.mem_singleton_self _) hn
  refine ⟨?_, fun q g hg => ?_⟩
  · show (t, key) ∈ _
    exact hplaces ▸ List.mem_append_right _ (List.mem_singleton_self _)
  · cases g with
    | waiting u since =>
      have hu := hfresh (h.known q _ hg)
      exact ⟨fun htu => hu htu.symm, fun hut => hu hut⟩
    | holding n => exact ⟨id, id⟩

theorem Sound.acquire (h : a.Sound) (key : String) (name : Nat) :
    (a.record key name (a.pool.apply (.acquire key))).1.Sound := by
  have hanswers := Pool.acquire_answers h.pool h.ordered key
  dsimp only at hanswers
  -- whoever is known keeps its place and its handle
  have hkept {ps : List (Nat × String)} {xs : List Handle}
      (hplaces : (a.pool.apply (.acquire key)).1.places = a.pool.places ++ ps)
      (hhandles : (a.pool.apply (.acquire key)).1.handles = a.pool.handles ++ xs)
      (q : String × Nat) (g : Client) (_ : q ≠ (key, name)) (hg : a.clients q = some g) :
      g.IsIn (a.pool.apply (.acquire key)).1 q.1 := by
    refine (h.known q g hg).stay (fun t _ _ hmem => ?_) fun n _ x hx _ => ⟨x, ?_, rfl, rfl⟩
    · exact hplaces ▸ List.mem_append_left _ hmem
    · exact hhandles ▸ List.mem_append_left _ hx
  unfold record
  obtain ⟨y, hy, hout, hplaces⟩ | ⟨e, he, hhandles, hplaces⟩ | ⟨t, ht, hhandles, hplaces⟩ :=
    hanswers
  · rw [hy]
    refine h.settle name _ (hkept (by rwa [List.append_nil]) hout.2.2) fun g hg => ?_
    cases hg
    exact h.holding_new _ hout
  · rw [he]
    exact h.settle name _ (hkept (by rwa [List.append_nil]) (by rwa [List.append_nil])) nofun
  · rw [ht]
    refine h.settle name _ (hkept hplaces (by rwa [List.append_nil])) fun g hg => ?_
    cases hg
    exact h.waiting_new _ hplaces _

/-- Somebody who waits goes, and nobody else. -/
theorem Sound.keepOthers (h : a.Sound) {name t since : Nat}
    (ht : a.clients (key, name) = some (.waiting t since)) {h' : Pool}
    (hplaces : h'.places = a.pool.places.filter fun q => q.1 ≠ t)
    (hhandles : ∀ x ∈ a.pool.handles, x ∈ h'.handles) (q : String × Nat) (g : Client)
    (hq : q ≠ (key, name)) (hg : a.clients q = some g) : g.IsIn h' q.1 := by
  refine (h.known q g hg).stay (fun u s he hmem => ?_) fun n _ x hx _ =>
    ⟨x, hhandles x hx, rfl, rfl⟩
  subst he
  have hne : u ≠ t := fun hut => hq (h.unique q (key, name) _ _ hg ht hut)
  exact hplaces ▸ List.mem_filter.2 ⟨hmem, by simpa using hne⟩

theorem Sound.look (h : a.Sound) {name t since : Nat}
    (ht : a.clients (key, name) = some (.waiting t since)) {op : Op}
    (hop : op = .collect t ∨ ∃ waitedMs, op = .expire t waitedMs) :
    (a.record key name (a.pool.apply op)).1.Sound := by
  have hlooks := Pool.looks_answers h.pool h.ordered (h.known _ _ ht) hop
  dsimp only at hlooks
  unfold record
  obtain he | ⟨hplaces, ⟨y, hy, hout⟩ | ⟨e, he, hhandles⟩⟩ := hlooks
  · rw [he]
    exact h
  · rw [hy]
    refine h.settle name op (h.keepOthers ht hplaces fun x hx => ?_) fun g hg => ?_
    · exact hout.2.2 ▸ List.mem_append_left _ hx
    · cases hg
      exact h.holding_new op hout
  · rw [he]
    exact h.settle name op (h.keepOthers ht hplaces fun x hx => hhandles ▸ hx) nofun

theorem Sound.release (h : a.Sound) (n : Nat) :
    (a.report (a.pool.apply (.release n))).1.Sound := by
  rw [report_eq]
  refine h.remain (.release n) (fun q hq => ?_) fun x hx => ?_
  · exact (Pool.places_apply h.pool h.ordered (.release n)).symm ▸ hq
  · have hmem : (if x.number = n then { x with released := true } else x) ∈
        (a.pool.release n).handles := by
      rw [Pool.handles_release h.pool]
      exact List.mem_map_of_mem hx
    refine ⟨_, hmem, ?_, ?_⟩ <;> split <;> rfl

theorem Sound.drop (h : a.Sound) {name n : Nat}
    (hn : a.clients (key, name) = some (.holding n)) :
    (a.settle key name (a.pool.apply (.drop n)).1 none).Sound := by
  refine h.settle name (.drop n) (fun q g hq hg => ?_) nofun
  refine (h.known q g hg).stay (fun t _ _ hmem => ?_) fun m hm x hx hxm => ?_
  · exact (Pool.places_drop h.pool h.ordered n).symm ▸ hmem
  · subst hm
    have hne : x.number ≠ n := fun hxn =>
      hq (h.unique q (key, name) _ _ hg hn (hxm.symm.trans hxn))
    refine ⟨x, ?_, rfl, rfl⟩
    rw [Pool.handles_drop h.pool]
    exact List.mem_filter.2 ⟨hx, by simpa using hne⟩

/-- An operation that tells nobody by name, and moves nobody. -/
theorem Sound.everybody (h : a.Sound) {op : Op} (htold : a.pool.told op (a.pool.apply op).2 = [])
    (hhandles : (a.pool.apply op).1.handles = a.pool.handles) :
    (a.report (a.pool.apply op)).1.Sound := by
  have hplaces := Pool.places_apply h.pool h.ordered op
  rw [htold] at hplaces
  rw [report_eq]
  exact h.remain op (fun q hq => hplaces.symm ▸ hq) fun x hx => ⟨x, hhandles.symm ▸ hx, rfl, rfl⟩

theorem Sound.keyOp (h : a.Sound) (key : String) (d : KeyOp) : (a.keyOp key d).1.Sound := by
  have heffect := a.keyOp_effect key d
  generalize a.keyOp key d = r at heffect ⊢
  cases heffect with
  | idle => exact h
  | acquire name => exact h.acquire key name
  | look ht hop => exact h.look ht hop
  | @abandon name t since ht =>
    refine h.settle name (.abandon t) (h.keepOthers ht ?_ fun x hx => hx) nofun
    exact Pool.places_abandon h.pool h.ordered t
  | release => exact h.release _
  | drop hn => exact h.drop hn
  | clearWaiters => exact h.everybody rfl rfl

theorem Sound.apply (h : a.Sound) (step : Step) : (a.apply step).1.Sound := by
  cases step with
  | wait ms => exact ⟨h.pool, h.ordered, h.known, h.unique⟩
  | keyOp key d => exact h.keyOp key d
  | resetGeneration => exact h.everybody rfl rfl
  | dispose => exact h.everybody rfl rfl

theorem sound_new (config : Config) : (new config).Sound :=
  ⟨Pool.sound_new config, Pool.ordered_new config, nofun, nofun⟩

theorem sound_run (h : a.Sound) (steps : List Step) : (a.run steps).Sound := by
  induction steps generalizing a with
  | nil => exact h
  | cons step steps ih => exact ih (h.apply step)

end NamedPool

end TurnEngine.Lane
