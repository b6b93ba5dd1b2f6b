import TurnEngine.Proofs.Lane.Mirrors
import TurnEngine.Proofs.Lane.Places

/-!
# One key of two pools

`Pool.Mirrors key ρ η h h'` says of two pools what `Registry.Mirrors` says of their registries, and
that the handles for `key` are the same once their numbers are renamed by `η`. An operation on
another key spares this one (`Pool.Spares`); one on this key, or on all of them, has the same
outcome on both sides (`SameOutcome`), where new tickets and handles get their own places in the
renamings.
-/

namespace TurnEngine.Lane

/-- The same handle under another number. -/
def Handle.rename (η : Nat → Nat) (x : Handle) : Handle :=
  { x with number := η x.number }

/-- The same answer with other tickets and numbers. -/
def Reply.rename (ρ η : Nat → Nat) : Reply → Reply
  | .handle x => .handle (x.rename η)
  | .ticket t => .ticket (ρ t)
  | reply => reply

namespace Pool

variable {h h' : Pool} {key k : String}

section
variable (hs : h.Sound) {c : Caller} (hc : c ∈ h.registry.callers)
include hs hc

theorem keyOf_ticket : h.keyOf c.ticket = c.key := by
  rw [keyOf, hs.registry.boxed.caller?_of_mem hc]
  rfl

/-- A caller that is there looks into its box. -/
theorem apply_collect_eq : h.apply (.collect c.ticket) =
    Pool.settle { h with registry := (h.registry.collect c.ticket).1 } c.key
      (h.registry.collect c.ticket).2 := by
  rw [← keyOf_ticket hs hc]
  rfl

theorem apply_expire_eq (waitedMs : Nat) : h.apply (.expire c.ticket waitedMs) =
    Pool.settle { h with registry := (h.registry.expire c.ticket waitedMs).1 } c.key
      (h.registry.expire c.ticket waitedMs).2 := by
  rw [← keyOf_ticket hs hc]
  rfl

end

theorem registry_release (hs : h.Sound) {x : Handle} (hx : x ∈ h.handles) :
    (h.release x.number).registry =
      if x.released then h.registry else h.registry.release x.key x.generation := by
  have hfound : h.handle? x.number = some x := Keyed.find?_of_mem hs.numbered.numbers hx
  rw [release, hfound]
  dsimp only
  split <;> rfl

/-! ## Other keys -/

/-- What an operation on another key leaves of a key of a pool. -/
structure Spares (key : String) (h h' : Pool) : Prop where
  registry : Registry.Spares key h.registry h'.registry
  handles : ∀ x ∈ h'.handles, x.key = key → x ∈ h.handles

theorem spares_settle (hne : k ≠ key) {r : Registry} (hr : Registry.Spares key h.registry r)
    (f : Finding) : Spares key h (Pool.settle { h with registry := r } k f).1 := by
  cases f with
  | granted g =>
    refine ⟨hr, fun x hx hk => (List.mem_append.1 hx).elim id fun hx => ?_⟩
    rw [List.mem_singleton.1 hx] at hk
    exact absurd hk hne
  | failed e => exact ⟨hr, fun _ hx _ => hx⟩
  | waiting => exact ⟨hr, fun _ hx _ => hx⟩

theorem spares_acquire (hne : k ≠ key) (h : Pool) : Spares key h (h.apply (.acquire k)).1 := by
  have hr := Registry.spares_acquire hne h.registry
  unfold apply
  dsimp only
  split
  · exact spares_settle hne hr (.granted _)
  · exact ⟨hr, fun _ hx _ => hx⟩
  · exact ⟨hr, fun _ hx _ => hx⟩

section
variable (hs : h.Sound) {c : Caller} (hc : c ∈ h.registry.callers) (hne : c.key ≠ key)
include hs hc hne

theorem spares_collect : Spares key h (h.apply (.collect c.ticket)).1 := by
  rw [apply_collect_eq hs hc]
  exact spares_settle hne (Registry.spares_collect hs.registry.boxed hc) _

theorem spares_expire (waitedMs : Nat) : Spares key h (h.apply (.expire c.ticket waitedMs)).1 := by
  rw [apply_expire_eq hs hc]
  exact spares_settle hne (Registry.spares_expire hs.registry.boxed hc hne waitedMs) _

theorem spares_abandon : Spares key h (h.apply (.abandon c.ticket)).1 :=
  ⟨Registry.spares_abandon hs.registry.boxed hc hne, fun _ hx _ => hx⟩

end

section
variable (hs : h.Sound) {x : Handle} (hx : x ∈ h.handles) (hne : x.key ≠ key)
include hs hx hne

theorem spares_release : Spares key h (h.release x.number) := by
  refine ⟨?_, fun y hy hk => ?_⟩
  · rw [registry_release hs hx]
    split
    · exact .refl _ _
    · exact Registry.spares_release hne hs.registry.boxed x.generation
  · rw [handles_release hs] at hy
    obtain ⟨z, hz, rfl⟩ := List.mem_map.1 hy
    by_cases hn : z.number = x.number
    · rw [if_pos hn, List.inj_on_of_nodup_map hs.numbered.numbers hz hx hn] at hk
      exact absurd hk hne
    · rw [if_neg hn]
      exact hz

theorem spares_drop : Spares key h (h.apply (.drop x.number)).1 := by
  have hrelease := spares_release hs hx hne
  exact ⟨hrelease.registry, fun y hy hk => hrelease.handles y (List.mem_of_mem_filter hy) hk⟩

end

theorem spares_clearWaiters (hs : h.Sound) (hne : k ≠ key) :
    Spares key h (h.apply (.clearWaiters k)).1 :=
  ⟨Registry.spares_clearWaiters hne hs.registry.boxed, fun _ hx _ => hx⟩

/-! ## The same key -/

/-- Two pools are the same on a key, up to tickets and numbers of handles. -/
structure Mirrors (key : String) (ρ η : Nat → Nat) (h h' : Pool) : Prop where
  registry : Registry.Mirrors key ρ h.registry h'.registry
  handles : ∀ x ∈ h.handles, x.key = key → x.rename η ∈ h'.handles
  apart : ∀ x ∈ h.handles, ∀ y ∈ h.handles, x.key = key → y.key = key →
    η x.number = η y.number → x.number = y.number

/-- Two operations have the same outcome on a key, up to tickets and numbers; those that were given
out before are renamed as before. -/
structure SameOutcome (key : String) (ρ η : Nat → Nat) (h : Pool) (p p' : Pool × Reply) : Prop where
  outcome : ∃ ρ' η', Mirrors key ρ' η' p.1 p'.1 ∧ p'.2 = p.2.rename ρ' η' ∧
    (∀ t < h.registry.nextTicket, ρ' t = ρ t) ∧ ∀ n < h.nextHandle, η' n = η n

namespace Mirrors

variable {ρ η : Nat → Nat} (hm : Mirrors key ρ η h h')
include hm

theorem spare {h₁ : Pool} (hspare : Spares key h h₁) : Mirrors key ρ η h₁ h' where
  registry := hm.registry.spare hspare.registry
  handles := fun x hx hk => hm.handles x (hspare.handles x hx hk) hk
  apart := fun x hx y hy hxk hyk =>
    hm.apart x (hspare.handles x hx hxk) y (hspare.handles y hy hyk) hxk hyk

/-- An outcome that gives out no ticket and no handle. -/
theorem same (h₀ : Pool) {reply : Reply} (hreply : reply.rename ρ η = reply) :
    SameOutcome key ρ η h₀ (h, reply) (h', reply) :=
  ⟨ρ, η, hm, hreply.symm, fun _ _ => rfl, fun _ _ => rfl⟩

theorem withRegistry {ρ' : Nat → Nat} {r r' : Registry} (hr : Registry.Mirrors key ρ' r r') :
    Mirrors key ρ' η { h with registry := r } { h' with registry := r' } :=
  ⟨hr, hm.handles, hm.apart⟩

section
variable (hs : h.Sound) (hs' : h'.Sound)
include hs hs'

/-- A handle for the key is given out on both sides. -/
theorem issue {r r' : Registry} (hr : Registry.Mirrors key ρ r r') (g : Nat) :
    SameOutcome key ρ η h (Pool.issue { h with registry := r } key g)
      (Pool.issue { h' with registry := r' } key g) := by
  have hold {n : Nat} (hn : n < h.nextHandle) :
      Function.update η h.nextHandle h'.nextHandle n = η n :=
    Function.update_of_ne (Nat.ne_of_lt hn) _ _
  have hfresh {x : Handle} (hx : x ∈ h.handles) (hk : x.key = key) : η x.number < h'.nextHandle :=
    hs'.numbered.issued _ (hm.handles x hx hk)
  refine ⟨ρ, Function.update η h.nextHandle h'.nextHandle,
    ⟨hr, fun x hx hk => ?_, fun x hx y hy hxk hyk he => ?_⟩, ?_, fun _ _ => rfl, fun _ => hold⟩
  · obtain hx | hx := List.mem_append.1 hx
    · refine List.mem_append_left _ ?_
      rw [Handle.rename, hold (hs.numbered.issued x hx)]
      exact hm.handles x hx hk
    · rw [List.mem_singleton.1 hx, Handle.rename, Function.update_self]
      exact List.mem_append_right _ (List.mem_singleton_self _)
  · obtain hx | hx := List.mem_append.1 hx <;> obtain hy | hy := List.mem_append.1 hy
    · rw [hold (hs.numbered.issued x hx), hold (hs.numbered.issued y hy)] at he
      exact hm.apart x hx y hy hxk hyk he
    · rw [List.mem_singleton.1 hy, Function.update_self, hold (hs.numbered.issued x hx)] at he
      exact absurd he (Nat.ne_of_lt (hfresh hx hxk))
    · rw [List.mem_singleton.1 hx, Function.update_self, hold (hs.numbered.issued y hy)] at he
      exact absurd he.symm (Nat.ne_of_lt (hfresh hy hyk))
    · rw [List.mem_singleton.1 hx, List.mem_singleton.1 hy]
  · simp only [Pool.issue, Reply.rename, Handle.rename, Function.update_self]

theorem settle {r r' : Registry} (hr : Registry.Mirrors key ρ r r') (f : Finding) :
    SameOutcome key ρ η h (Pool.settle { h with registry := r } key f)
      (Pool.settle { h' with registry := r' } key f) := by
  cases f with
  | granted g => exact hm.issue hs hs' hr g
  | failed e => exact (hm.withRegistry hr).same h rfl
  | waiting => exact (hm.withRegistry hr).same h rfl

theorem acquire :
    SameOutcome key ρ η h (h.apply (.acquire key)) (h'.apply (.acquire key)) := by
  obtain ⟨hanswer, hnot, hr⟩ | ⟨he, he'⟩ := hm.registry.acquire
  · unfold apply
    dsimp only
    rw [hanswer]
    split
    · exact hm.issue hs hs' hr _
    · exact (hm.withRegistry hr).same h rfl
    · rename_i t ht
      exact absurd ht (hnot t)
  · have hr := hm.registry.enqueue hs.registry.boxed hs'.registry.boxed
    simp only [apply, he, he']
    refine ⟨_, η, hm.withRegistry hr, ?_, fun t ht => ?_, fun _ _ => rfl⟩
    · simp only [Reply.rename, Function.update_self]
    · exact Function.update_of_ne (Nat.ne_of_lt ht) _ _

end

/-! ### Operations on the key -/

section
variable (hs : h.Sound) (hs' : h'.Sound)
include hs hs'

section
variable {c : Caller} (hc : c ∈ h.registry.callers) (hk : c.key = key)
include hc hk

theorem collect :
    SameOutcome key ρ η h (h.apply (.collect c.ticket)) (h'.apply (.collect (ρ c.ticket))) := by
  subst hk
  have hc' := hm.registry.callers c hc rfl
  obtain ⟨hfinding, hr⟩ :=
    hm.registry.collect hs.registry.boxed hs'.registry.boxed hc rfl
  have heq := apply_collect_eq hs' hc'
  rw [show h'.apply (.collect (ρ c.ticket)) = _ from heq, apply_collect_eq hs hc]
  dsimp only [Caller.rename]
  rw [hfinding]
  exact hm.settle hs hs' hr _

theorem expire (waitedMs : Nat) :
    SameOutcome key ρ η h (h.apply (.expire c.ticket waitedMs))
      (h'.apply (.expire (ρ c.ticket) waitedMs)) := by
  subst hk
  have hc' := hm.registry.callers c hc rfl
  obtain ⟨hfinding, hr⟩ :=
    hm.registry.expire hs.registry.boxed hs'.registry.boxed hc rfl waitedMs
  have heq := apply_expire_eq hs' hc' waitedMs
  rw [show h'.apply (.expire (ρ c.ticket) waitedMs) = _ from heq, apply_expire_eq hs hc]
  dsimp only [Caller.rename]
  rw [hfinding]
  exact hm.settle hs hs' hr _

theorem abandon :
    SameOutcome key ρ η h (h.apply (.abandon c.ticket)) (h'.apply (.abandon (ρ c.ticket))) :=
  (hm.withRegistry (hm.registry.abandon hs.registry.boxed hs'.registry.boxed hc hk
    hs.registry.filed hs'.registry.filed)).same h rfl

end

theorem clearWaiters :
    SameOutcome key ρ η h (h.apply (.clearWaiters key)) (h'.apply (.clearWaiters key)) := by
  obtain ⟨hcount, hr⟩ := hm.registry.clearWaiters hs.registry.filed hs'.registry.filed
    hs.registry.boxed
  unfold apply
  dsimp only
  rw [hcount]
  exact (hm.withRegistry hr).same h rfl

section
variable {x : Handle} (hx : x ∈ h.handles) (hk : x.key = key)
include hx hk

theorem release : Mirrors key ρ η (h.release x.number) (h'.release (η x.number)) := by
  have hx' := hm.handles x hx hk
  -- the handles of the number are marked on both sides
  have hmark (y : Handle) (hy : y ∈ h.handles) (hyk : y.key = key) :
      (if y.number = x.number then { y with released := true } else y).rename η ∈
        h'.mark (η x.number) := by
    refine List.mem_map.2 ⟨y.rename η, hm.handles y hy hyk, ?_⟩
    by_cases hn : y.number = x.number
    · rw [if_pos hn, if_pos (show (y.rename η).number = η x.number from congrArg η hn)]
      rfl
    · have hne : (y.rename η).number ≠ η x.number := fun he => hn (hm.apart y hy x hx hyk hk he)
      rw [if_neg hn, if_neg hne]
  have hregistry' : (h'.release (η x.number)).registry =
      if x.released then h'.registry else h'.registry.release x.key x.generation :=
    registry_release hs' hx'
  refine ⟨?_, fun y hy hyk => ?_, fun y hy z hz hyk hzk he => ?_⟩
  · subst hk
    rw [registry_release hs hx, hregistry']
    by_cases hreleased : x.released = true
    · rw [if_pos hreleased, if_pos hreleased]
      exact hm.registry
    · rw [if_neg hreleased, if_neg hreleased]
      exact hm.registry.release hs.registry.filed hs'.registry.filed hs.registry.boxed
        hs'.registry.boxed x.generation
  · rw [handles_release hs] at hy
    rw [handles_release hs']
    obtain ⟨z, hz, hzk, -, rfl⟩ := mem_mark hy
    exact hmark z hz (hzk.trans hyk)
  · rw [handles_release hs] at hy hz
    obtain ⟨y', hy', hyk', hyn, -⟩ := mem_mark hy
    obtain ⟨z', hz', hzk', hzn, -⟩ := mem_mark hz
    rw [← hyn, ← hzn] at he ⊢
    exact hm.apart y' hy' z' hz' (hyk'.trans hyk) (hzk'.trans hzk) he

theorem drop :
    Mirrors key ρ η (h.apply (.drop x.number)).1 (h'.apply (.drop (η x.number))).1 := by
  have hrelease := hm.release hs hs' hx hk
  refine ⟨hrelease.registry, fun y hy hyk => ?_, fun y hy z hz => ?_⟩
  · rw [handles_drop hs] at hy
    rw [handles_drop hs']
    obtain ⟨hy, hn⟩ := List.mem_filter.1 hy
    refine List.mem_filter.2 ⟨hm.handles y hy hyk, decide_eq_true fun he => ?_⟩
    exact of_decide_eq_true hn (hm.apart y hy x hx hyk hk he)
  · exact hrelease.apart y (List.mem_of_mem_filter hy) z (List.mem_of_mem_filter hz)

end

/-! ### Operations on all keys -/

theorem resetGeneration :
    SameOutcome key ρ η h (h.apply .resetGeneration) (h'.apply .resetGeneration) := by
  have hr := hm.registry.resetGeneration hs.registry hs'.registry
  unfold apply
  dsimp only
  rw [hr.terms.2]
  exact (hm.withRegistry hr).same h rfl

theorem dispose : SameOutcome key ρ η h (h.apply .dispose) (h'.apply .dispose) :=
  (hm.withRegistry (hm.registry.dispose hs.registry hs'.registry)).same h rfl

end

end Mirrors

end Pool

end TurnEngine.Lane
