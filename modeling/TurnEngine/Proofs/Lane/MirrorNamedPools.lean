import TurnEngine.Proofs.Lane.MirrorPools
import TurnEngine.Proofs.Lane.Naming

/-!
# One key of two named pools

A named pool whose steps on other keys are taken away is the same on a key as the whole one:
`Mirrors` says so of two named pools, by the renamings of `Pool.Mirrors`. A step on another key
spares the key (`Sound.spares`), and one that concerns it is answered alike and leaves the two alike
(`Mirrors.apply`). So nobody can see from a key what happens on the others (`traffic_apart`).
-/

namespace TurnEngine.Lane

/-- The same client with another ticket or handle. -/
def Client.rename (ρ η : Nat → Nat) : Client → Client
  | .waiting t since => .waiting (ρ t) since
  | .holding n => .holding (η n)

namespace NamedPool

variable {a a' : NamedPool} {key k : String}

/-! ## Other keys -/

/-- What a step on another key leaves of a key. -/
structure Spares (key : String) (a a' : NamedPool) : Prop where
  pool : Pool.Spares key a.pool a'.pool
  now : a'.now = a.now
  clients : ∀ name, a'.clients (key, name) = a.clients (key, name)

theorem Spares.refl (a : NamedPool) (key : String) : Spares key a a :=
  ⟨⟨.refl _ key, fun _ hx _ => hx⟩, rfl, fun _ => rfl⟩

section
variable (hne : k ≠ key)
include hne

theorem spares_settle {pool : Pool} (hpool : Pool.Spares key a.pool pool) (name : Nat)
    (client : Option Client) : Spares key a (a.settle k name pool client) :=
  ⟨hpool, rfl, fun _ => clients_settle_of_ne a k name pool client
    fun he => hne (congrArg Prod.fst he).symm⟩

theorem spares_record {p : Pool × Lane.Reply} (hp : Pool.Spares key a.pool p.1) (name : Nat) :
    Spares key a (a.record k name p).1 := by
  refine ⟨?_, now_record a k name p, fun _ => clients_record_of_ne a k name p
    fun he => hne (congrArg Prod.fst he).symm⟩
  rw [pool_record]
  exact hp

end

theorem spares_report {p : Pool × Lane.Reply} (hp : Pool.Spares key a.pool p.1) :
    Spares key a (a.report p).1 := by
  rw [report_eq]
  exact ⟨hp, rfl, fun _ => rfl⟩

theorem Sound.spares (h : a.Sound) (hne : k ≠ key) (d : KeyOp) : Spares key a (a.keyOp k d).1 := by
  have heffect := a.keyOp_effect k d
  generalize a.keyOp k d = r at heffect ⊢
  cases heffect with
  | idle => exact .refl a key
  | acquire name => exact spares_record hne (Pool.spares_acquire hne a.pool) name
  | @look name t since ht op hop =>
    obtain ⟨c, hc, rfl, rfl⟩ := Pool.mem_places.1 (h.known _ _ ht)
    refine spares_record hne ?_ name
    obtain rfl | ⟨waitedMs, rfl⟩ := hop
    · exact Pool.spares_collect h.pool hc hne
    · exact Pool.spares_expire h.pool hc hne waitedMs
  | @abandon name t since ht =>
    obtain ⟨c, hc, rfl, rfl⟩ := Pool.mem_places.1 (h.known _ _ ht)
    exact spares_settle hne (Pool.spares_abandon h.pool hc hne) name none
  | @release name n hn =>
    obtain ⟨x, hx, rfl, rfl⟩ := h.known _ _ hn
    exact spares_report (Pool.spares_release h.pool hx hne)
  | @drop name n hn =>
    obtain ⟨x, hx, rfl, rfl⟩ := h.known _ _ hn
    exact spares_settle hne (Pool.spares_drop h.pool hx hne) name none
  | clearWaiters => exact spares_report (Pool.spares_clearWaiters h.pool hne)

/-! ## The same key -/

/-- Two named pools are the same on a key, up to tickets and numbers of handles. -/
structure Mirrors (key : String) (ρ η : Nat → Nat) (a a' : NamedPool) : Prop where
  pool : Pool.Mirrors key ρ η a.pool a'.pool
  now : a'.now = a.now
  clients : ∀ name, a'.clients (key, name) = (a.clients (key, name)).map (Client.rename ρ η)

/-- Two steps are answered alike and leave two named pools that are the same on a key. -/
def Alike (key : String) (p p' : NamedPool × Reply) : Prop :=
  p'.2 = p.2 ∧ ∃ ρ η, Mirrors key ρ η p.1 p'.1

theorem Sound.client_rename (h : a.Sound) {ρ η ρ' η' : Nat → Nat}
    (hρ : ∀ t < a.pool.registry.nextTicket, ρ' t = ρ t)
    (hη : ∀ n < a.pool.nextHandle, η' n = η n) (q : String × Nat) :
    (a.clients q).map (Client.rename ρ' η') = (a.clients q).map (Client.rename ρ η) := by
  refine Option.map_congr fun g hg => ?_
  have hknown := h.known q g hg
  cases g with
  | waiting t since =>
    obtain ⟨c, hc, rfl, -⟩ := Pool.mem_places.1 hknown
    rw [Client.rename, Client.rename, hρ _ (h.pool.registry.boxed.issued c hc)]
  | holding n =>
    obtain ⟨x, hx, rfl, -⟩ := hknown
    rw [Client.rename, Client.rename, hη _ (h.pool.numbered.issued x hx)]

namespace Mirrors

variable {ρ η : Nat → Nat} (hm : Mirrors key ρ η a a')
include hm

theorem spare {a₁ : NamedPool} (hspare : Spares key a a₁) : Mirrors key ρ η a₁ a' where
  pool := hm.pool.spare hspare.pool
  now := hm.now.trans hspare.now.symm
  clients := fun name => by rw [hm.clients, hspare.clients]

theorem view : a'.view key = a.view key := by
  have hr := hm.pool.registry
  unfold NamedPool.view
  rw [hr.occupancy, hr.queued, hr.terms.2]

theorem idle : Alike key (a, .done) (a', .done) :=
  ⟨rfl, ρ, η, hm⟩

theorem withPool {h h' : Pool} (hh : Pool.Mirrors key ρ η h h') :
    Mirrors key ρ η { a with pool := h } { a' with pool := h' } :=
  ⟨hh, hm.now, hm.clients⟩

/-- A name gets the same client on both sides. -/
theorem settle {h h' : Pool} (hh : Pool.Mirrors key ρ η h h') (name : Nat)
    (client : Option Client) :
    Mirrors key ρ η (a.settle key name h client)
      (a'.settle key name h' (client.map (Client.rename ρ η))) := by
  refine ⟨hh, hm.now, fun n => ?_⟩
  unfold NamedPool.settle
  dsimp only
  rw [Function.update_apply, Function.update_apply, hm.clients]
  split <;> rfl

section
variable (hs : a.Sound)
include hs

/-- The named pools are the same by any renamings that go on from these. -/
theorem later {ρ' η' : Nat → Nat} {h h' : Pool} (hh : Pool.Mirrors key ρ' η' h h')
    (hρ : ∀ t < a.pool.registry.nextTicket, ρ' t = ρ t)
    (hη : ∀ n < a.pool.nextHandle, η' n = η n) :
    Mirrors key ρ' η' { a with pool := h } { a' with pool := h' } :=
  ⟨hh, hm.now, fun name => by rw [hs.client_rename hρ hη, hm.clients]⟩

theorem record {p p' : Pool × Lane.Reply} (ho : Pool.SameOutcome key ρ η a.pool p p')
    (name : Nat) : Alike key (a.record key name p) (a'.record key name p') := by
  obtain ⟨ρ', η', hh, hreply, hρ, hη⟩ := ho
  have hlater := hm.later hs hh hρ hη
  have hsettle (client : Option Client) := hlater.settle hh name client
  unfold NamedPool.record
  rw [hreply]
  cases p.2 with
  | handle x => exact ⟨rfl, ρ', η', hsettle (some (.holding x.number))⟩
  | ticket t =>
    have hclient : Option.map (Client.rename ρ' η') (some (.waiting t a.now)) =
        some (.waiting (ρ' t) a'.now) := by rw [hm.now]; rfl
    have hwaiting := hsettle (some (.waiting t a.now))
    rw [hclient] at hwaiting
    exact ⟨rfl, ρ', η', hwaiting⟩
  | failed f => exact ⟨rfl, ρ', η', hsettle none⟩
  | waiting => exact ⟨rfl, ρ', η', hlater⟩
  | count n => exact ⟨rfl, ρ', η', hlater⟩
  | nothing => exact ⟨rfl, ρ', η', hlater⟩

theorem report {p p' : Pool × Lane.Reply} (ho : Pool.SameOutcome key ρ η a.pool p p') :
    Alike key (a.report p) (a'.report p') := by
  obtain ⟨ρ', η', hh, hreply, hρ, hη⟩ := ho
  have hlater := hm.later hs hh hρ hη
  unfold NamedPool.report
  rw [hreply]
  cases p.2 <;> exact ⟨rfl, ρ', η', hlater⟩

/-- Somebody who waits on one side waits on the other, since the same time. -/
theorem withWaiter {name : Nat} {f f' : Nat → Nat → NamedPool × Reply}
    (hf : ∀ c ∈ a.pool.registry.callers, c.key = key → ∀ since,
      Alike key (f c.ticket since) (f' (ρ c.ticket) since)) :
    Alike key (a.withWaiter key name f) (a'.withWaiter key name f') := by
  have hclient := hm.clients name
  unfold NamedPool.withWaiter
  rw [hclient]
  match hg : a.clients (key, name) with
  | none => exact hm.idle
  | some (.holding n) => exact hm.idle
  | some (.waiting t since) =>
    obtain ⟨c, hc, rfl, hk⟩ := Pool.mem_places.1 (hs.known _ _ hg)
    exact hf c hc hk since

/-- Somebody who holds a handle on one side holds it on the other. -/
theorem withHolder {name : Nat} {f f' : Nat → NamedPool × Reply}
    (hf : ∀ x ∈ a.pool.handles, x.key = key → Alike key (f x.number) (f' (η x.number))) :
    Alike key (a.withHolder key name f) (a'.withHolder key name f') := by
  have hclient := hm.clients name
  unfold NamedPool.withHolder
  rw [hclient]
  match hg : a.clients (key, name) with
  | none => exact hm.idle
  | some (.waiting t since) => exact hm.idle
  | some (.holding n) =>
    obtain ⟨x, hx, rfl, hk⟩ := hs.known _ _ hg
    exact hf x hx hk

variable (hs' : a'.Sound)
include hs'

/-- Something is done on the key, on both sides. -/
theorem keyOp (d : KeyOp) : Alike key (a.keyOp key d) (a'.keyOp key d) := by
  cases d with
  | acquire name => exact hm.record hs (hm.pool.acquire hs.pool hs'.pool) name
  | collect name =>
    refine hm.withWaiter hs fun c hc hk since => ?_
    exact hm.record hs (hm.pool.collect hs.pool hs'.pool hc hk) name
  | expire name =>
    refine hm.withWaiter hs fun c hc hk since => ?_
    rw [hm.now]
    exact hm.record hs (hm.pool.expire hs.pool hs'.pool hc hk (a.now - since)) name
  | abandon name =>
    refine hm.withWaiter hs fun c hc hk since => ?_
    obtain ⟨ρ', η', hh, -, hρ, hη⟩ := hm.pool.abandon hs.pool hs'.pool hc hk
    exact ⟨rfl, ρ', η', (hm.later hs hh hρ hη).settle hh name none⟩
  | release name =>
    refine hm.withHolder hs fun x hx hk => ?_
    exact ⟨rfl, ρ, η, hm.withPool (hm.pool.release hs.pool hs'.pool hx hk)⟩
  | drop name =>
    refine hm.withHolder hs fun x hx hk => ?_
    exact ⟨rfl, ρ, η, hm.settle (hm.pool.drop hs.pool hs'.pool hx hk) name none⟩
  | clearWaiters => exact hm.report hs (hm.pool.clearWaiters hs.pool hs'.pool)

/-- A step that concerns the key is answered alike, and leaves the two alike. -/
theorem apply {step : Step} (hstep : step.concerns key) :
    Alike key (a.apply step) (a'.apply step) := by
  cases step with
  | wait ms => exact ⟨rfl, ρ, η, hm.pool, congrArg (· + ms) hm.now, hm.clients⟩
  | keyOp k d =>
    obtain rfl : k = key := by simpa [Step.concerns] using hstep
    exact hm.keyOp hs hs' d
  | resetGeneration => exact hm.report hs (hm.pool.resetGeneration hs.pool hs'.pool)
  | dispose => exact hm.report hs (hm.pool.dispose hs.pool hs'.pool)

end

/-- A run and what is left of it when only the steps that concern a key are done: the same answers,
and the same to be seen of the key after each of them and in the end. -/
theorem run (hs : a.Sound) (hs' : a'.Sound) (steps : List Step) :
    a'.seen key (steps.filter (·.concerns key)) = a.seen key steps ∧
      (a'.run (steps.filter (·.concerns key))).view key = (a.run steps).view key := by
  induction steps generalizing a a' ρ η with
  | nil => exact ⟨rfl, hm.view⟩
  | cons step steps ih =>
    cases hstep : step.concerns key with
    | true =>
      obtain ⟨hreply, ρ', η', hnext⟩ := hm.apply hs hs' hstep
      obtain ⟨hseen, hview⟩ := ih hnext (hs.apply step) (hs'.apply step)
      rw [List.filter_cons_of_pos hstep]
      simp only [seen, hstep, if_true]
      rw [hreply, hnext.view, hseen]
      exact ⟨rfl, hview⟩
    | false =>
      obtain ⟨k, d, rfl, hne⟩ : ∃ k d, step = .keyOp k d ∧ k ≠ key := by
        cases step with
        | keyOp k d => exact ⟨k, d, rfl, by simpa [Step.concerns] using hstep⟩
        | _ => cases hstep
      rw [List.filter_cons_of_neg (by rw [hstep]; exact Bool.false_ne_true)]
      simp only [seen, hstep]
      exact ih (hm.spare (hs.spares hne d)) (hs.keyOp k d) hs'

end Mirrors

theorem mirrors_new (config : Config) (key : String) :
    Mirrors key id id (new config) (new config) :=
  ⟨⟨⟨⟨rfl, rfl⟩, rfl, nofun, nofun⟩, nofun, nofun⟩, rfl, fun _ => rfl⟩

/-- Keys do not interact. In every run, the answers to whatever is done on a key, on all keys and
with the clock, and what is to be seen of the key then and in the end, are those of the run in which
nothing is done on the other keys. Whatever is done in a pool is done in such a run. -/
theorem traffic_apart (config : Config) :
    (∀ key steps,
      (new config).seen key steps = (new config).seen key (steps.filter (·.concerns key)) ∧
        ((new config).run steps).view key =
          ((new config).run (steps.filter (·.concerns key))).view key) ∧
      ∀ ops, ∃ steps, ((new config).run steps).pool = (Pool.new config).run ops := by
  have hs := sound_new config
  refine ⟨fun key steps => ?_, fun ops => (full_new config).exists_run hs ops⟩
  obtain ⟨hseen, hview⟩ := (mirrors_new config key).run hs hs steps
  exact ⟨hseen.symm, hview.symm⟩

/-- Whoever waits on another key first takes a ticket and leaves at any time. -/
example :
    (new {}).seen "a" [.keyOp "b" (.acquire 0), .keyOp "b" (.acquire 1), .keyOp "a" (.acquire 0),
        .keyOp "a" (.acquire 1), .keyOp "b" (.abandon 1), .wait 5, .keyOp "a" (.expire 1)] =
      [(.granted 0, ⟨1, 0, 0⟩), (.queued, ⟨1, 1, 0⟩), (.done, ⟨1, 1, 0⟩),
        (.failed (.laneTimeout "a" 5), ⟨1, 0, 0⟩)] := by
  decide +kernel

end NamedPool

end TurnEngine.Lane
