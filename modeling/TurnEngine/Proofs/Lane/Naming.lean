import TurnEngine.Proofs.Lane.NamedPool

/-!
# Names for everybody

A named pool forgets nobody as long as names are not used twice, and there is always one that was
never used. So whatever happens in a pool, with tickets and numbers of handles, also happens in a
named pool, with names (`Full.exists_run`): what is said of all runs of named pools is said of all
runs of pools.
-/

namespace TurnEngine.Lane

namespace Pool

/-- How long somebody waited does not matter to the pool. -/
theorem pool_expire {h : Pool} (hs : h.Sound) {c : Caller} (hc : c ∈ h.registry.callers)
    (waitedMs ms : Nat) :
    (h.apply (.expire c.ticket waitedMs)).1 = (h.apply (.expire c.ticket ms)).1 := by
  rw [apply_expire hs hc, apply_expire hs hc]
  cases c.letter with
  | none => rfl
  | some letter => cases letter <;> rfl

/-- What is done with a handle that is not out does nothing. -/
theorem release_absent {h : Pool} {n : Nat} (hn : ∀ x ∈ h.handles, x.number ≠ n) :
    h.release n = h := by
  have hnone : h.handle? n = none := List.find?_eq_none.2 fun x hx => by simpa using hn x hx
  rw [release, hnone]

theorem drop_absent {h : Pool} {n : Nat} (hn : ∀ x ∈ h.handles, x.number ≠ n) :
    (h.apply (.drop n)).1 = h := by
  have hkept : h.handles.filter (fun x => x.number ≠ n) = h.handles :=
    List.filter_eq_self.2 fun x hx => by simpa using hn x hx
  unfold apply
  dsimp only
  rw [release_absent hn, hkept]

end Pool

namespace NamedPool

variable {a : NamedPool} {key : String}

theorem withWaiter_of {name t since : Nat} (ht : a.clients (key, name) = some (.waiting t since))
    (f : Nat → Nat → NamedPool × Reply) : a.withWaiter key name f = f t since := by
  rw [withWaiter, ht]

theorem withHolder_of {name n : Nat} (hn : a.clients (key, name) = some (.holding n))
    (f : Nat → NamedPool × Reply) : a.withHolder key name f = f n := by
  rw [withHolder, hn]

/-! ## Everybody is known -/

/-- Everybody in the pool is known by a name, and there are names left. -/
structure Full (a : NamedPool) : Prop where
  places : ∀ p ∈ a.pool.places, ∃ name since, a.clients (p.2, name) = some (.waiting p.1 since)
  handles : ∀ x ∈ a.pool.handles, ∃ name, a.clients (x.key, name) = some (.holding x.number)
  left : ∃ n, ∀ key name, n ≤ name → a.clients (key, name) = none

theorem full_new (config : Config) : (new config).Full :=
  ⟨nofun, nofun, 0, fun _ _ _ => rfl⟩

theorem Full.remain (hf : a.Full) {h' : Pool} (hplaces : h'.places = a.pool.places)
    (hhandles : ∀ x ∈ h'.handles, ∃ y ∈ a.pool.handles, y.number = x.number ∧ y.key = x.key) :
    Full { a with pool := h' } := by
  refine ⟨fun p hp => hf.places p (hplaces ▸ hp), fun x hx => ?_, hf.left⟩
  obtain ⟨y, hy, hnumber, hkey⟩ := hhandles x hx
  exact hnumber ▸ hkey ▸ hf.handles y hy

/-- A name gets a new client or nobody, and who had it before is in the pool no more. -/
theorem Full.settle (hf : a.Full) {name : Nat} {h' : Pool} {client : Option Client}
    (hplaces : ∀ p ∈ h'.places,
      (p ∈ a.pool.places ∧ ∀ since, a.clients (key, name) ≠ some (.waiting p.1 since)) ∨
        (p.2 = key ∧ ∃ since, client = some (.waiting p.1 since)))
    (hhandles : ∀ x ∈ h'.handles,
      (x ∈ a.pool.handles ∧ a.clients (key, name) ≠ some (.holding x.number)) ∨
        (x.key = key ∧ client = some (.holding x.number))) :
    (a.settle key name h' client).Full := by
  obtain ⟨n, hn⟩ := hf.left
  have hnew : (a.settle key name h' client).clients (key, name) = client := Function.update_self ..
  have hkept {k : String} {name' : Nat} {g : Client} (hg : a.clients (k, name') = some g)
      (hne : a.clients (key, name) ≠ some g) :
      (a.settle key name h' client).clients (k, name') = some g := by
    rw [a.clients_settle_of_ne key name h' client fun he => hne (he ▸ hg)]
    exact hg
  refine ⟨fun p hp => ?_, fun x hx => ?_, max n (name + 1), fun k name' hname => ?_⟩
  · obtain ⟨hp, hgone⟩ | ⟨hk, since, hclient⟩ := hplaces p hp
    · obtain ⟨name', since, hg⟩ := hf.places p hp
      exact ⟨name', since, hkept hg (hgone since)⟩
    · exact ⟨name, since, hk ▸ hnew.trans hclient⟩
  · obtain ⟨hx, hgone⟩ | ⟨hk, hclient⟩ := hhandles x hx
    · obtain ⟨name', hg⟩ := hf.handles x hx
      exact ⟨name', hkept hg hgone⟩
    · exact ⟨name, hk ▸ hnew.trans hclient⟩
  · have hne : (k, name') ≠ (key, name) := by
      intro he
      obtain ⟨-, rfl⟩ := Prod.mk.inj he
      omega
    rw [a.clients_settle_of_ne key name h' client hne]
    exact hn k name' (by omega)

/-- Somebody comes under a name that is not taken. -/
theorem Full.acquire (hf : a.Full) (h : a.Sound) (key : String) :
    ∃ name, (a.record key name (a.pool.apply (.acquire key))).1.Full := by
  obtain ⟨name, hname⟩ := hf.left
  have hfree (g : Client) : a.clients (key, name) ≠ some g := by
    rw [hname key name (Nat.le_refl _)]
    exact nofun
  have hanswers := Pool.acquire_answers h.pool h.ordered key
  dsimp only at hanswers
  refine ⟨name, ?_⟩
  unfold record
  obtain ⟨y, hy, ⟨hyk, -, hhandles⟩, hplaces⟩ | ⟨e, he, hhandles, hplaces⟩ |
    ⟨t, ht, hhandles, hplaces⟩ := hanswers
  · rw [hy]
    refine hf.settle (fun p hp => .inl ⟨hplaces ▸ hp, fun _ => hfree _⟩) fun x hx => ?_
    obtain hx | hx := List.mem_append.1 (hhandles ▸ hx)
    · exact .inl ⟨hx, hfree _⟩
    · rw [List.mem_singleton.1 hx]
      exact .inr ⟨hyk, rfl⟩
  · rw [he]
    exact hf.settle (fun p hp => .inl ⟨hplaces ▸ hp, fun _ => hfree _⟩)
      fun x hx => .inl ⟨hhandles ▸ hx, hfree _⟩
  · rw [ht]
    refine hf.settle (fun p hp => ?_) fun x hx => .inl ⟨hhandles ▸ hx, hfree _⟩
    obtain hp | hp := List.mem_append.1 (hplaces ▸ hp)
    · exact .inl ⟨hp, fun _ => hfree _⟩
    · rw [List.mem_singleton.1 hp]
      exact .inr ⟨rfl, _, rfl⟩

section
variable (hf : a.Full) {name t since : Nat} (ht : a.clients (key, name) = some (.waiting t since))
include hf ht

/-- Somebody who waits goes, with a handle or without. -/
theorem Full.leave {h' : Pool} {client : Option Client}
    (hplaces : h'.places = a.pool.places.filter fun q => q.1 ≠ t)
    (hhandles : ∀ x ∈ h'.handles,
      x ∈ a.pool.handles ∨ (x.key = key ∧ client = some (.holding x.number))) :
    (a.settle key name h' client).Full := by
  refine hf.settle (fun p hp => .inl ?_) fun x hx => (hhandles x hx).imp_left fun hx => ?_
  · obtain ⟨hp, hne⟩ := List.mem_filter.1 (hplaces ▸ hp)
    refine ⟨hp, fun since' he => ?_⟩
    rw [ht] at he
    cases he
    simp at hne
  · rw [ht]
    exact ⟨hx, nofun⟩

theorem Full.look (h : a.Sound) {op : Op}
    (hop : op = .collect t ∨ ∃ waitedMs, op = .expire t waitedMs) :
    (a.record key name (a.pool.apply op)).1.Full := by
  have hlooks := Pool.looks_answers h.pool h.ordered (h.known _ _ ht) hop
  dsimp only at hlooks
  unfold record
  obtain he | ⟨hplaces, ⟨y, hy, hyk, -, hhandles⟩ | ⟨e, he, hhandles⟩⟩ := hlooks
  · rw [he]
    exact hf
  · rw [hy]
    refine hf.leave ht hplaces fun x hx => ?_
    refine (List.mem_append.1 (hhandles ▸ hx)).imp_right fun hx => ?_
    rw [List.mem_singleton.1 hx]
    exact ⟨hyk, rfl⟩
  · rw [he]
    exact hf.leave ht hplaces fun x hx => .inl (hhandles ▸ hx)

end

theorem Full.drop (hf : a.Full) (h : a.Sound) {name n : Nat}
    (hn : a.clients (key, name) = some (.holding n)) :
    (a.settle key name (a.pool.apply (.drop n)).1 none).Full := by
  refine hf.settle (fun p hp => .inl ⟨?_, ?_⟩) fun x hx => .inl ?_
  · exact Pool.places_drop h.pool h.ordered n ▸ hp
  · rw [hn]
    exact fun _ => nofun
  · rw [Pool.handles_drop h.pool] at hx
    obtain ⟨hx, hne⟩ := List.mem_filter.1 hx
    refine ⟨hx, fun he => ?_⟩
    rw [hn] at he
    cases he
    simp at hne

/-- An operation that tells nobody by name, and moves nobody. -/
theorem Full.everybody (hf : a.Full) (h : a.Sound) {op : Op}
    (htold : a.pool.told op (a.pool.apply op).2 = [])
    (hhandles : ∀ x ∈ (a.pool.apply op).1.handles,
      ∃ y ∈ a.pool.handles, y.number = x.number ∧ y.key = x.key) :
    (a.report (a.pool.apply op)).1.Full := by
  have hplaces := Pool.places_apply h.pool h.ordered op
  rw [htold] at hplaces
  rw [report_eq]
  exact hf.remain hplaces hhandles

/-! ## Every run of a pool -/

/-- Some step does this in the pool, and leaves everybody known. -/
def Performs (a : NamedPool) (op : Op) : Prop :=
  ∃ step, (a.apply step).1.pool = (a.pool.apply op).1 ∧ (a.apply step).1.Full

theorem performs_of_keyOp {op : Op} {k : String} (d : KeyOp) {p : NamedPool × Reply}
    (hd : a.keyOp k d = p) (hpool : p.1.pool = (a.pool.apply op).1) (hfull : p.1.Full) :
    a.Performs op := by
  subst hd
  exact ⟨.keyOp k d, hpool, hfull⟩

theorem pool_report (p : Pool × Lane.Reply) : (a.report p).1.pool = p.1 := by
  rw [report_eq]

section
variable (hf : a.Full)
include hf

/-- Where nothing is done, no time passes. -/
theorem Full.performs_idle {op : Op} (he : (a.pool.apply op).1 = a.pool) : a.Performs op :=
  ⟨.wait 0, he.symm, hf.places, hf.handles, hf.left⟩

/-- Somebody who waits is known by a name. -/
theorem Full.waiter {t : Nat} {c : Caller} (hc : a.pool.registry.caller? t = some c) :
    c ∈ a.pool.registry.callers ∧ c.ticket = t ∧
      ∃ name since, a.clients (c.key, name) = some (.waiting t since) := by
  obtain ⟨hmem, rfl⟩ := Registry.mem_of_caller? hc
  exact ⟨hmem, rfl, hf.places _ (Pool.mem_places.2 ⟨c, hmem, rfl, rfl⟩)⟩

/-- Somebody with a handle is known by a name. -/
theorem Full.holder (n : Nat) : (∀ x ∈ a.pool.handles, x.number ≠ n) ∨
    ∃ key name, a.clients (key, name) = some (.holding n) := by
  by_cases hn : ∃ x ∈ a.pool.handles, x.number = n
  · obtain ⟨x, hx, rfl⟩ := hn
    exact .inr ⟨x.key, hf.handles x hx⟩
  · exact .inl fun x hx he => hn ⟨x, hx, he⟩

variable (h : a.Sound)
include h

theorem Full.performs_collect (t : Nat) : a.Performs (.collect t) := by
  cases hc : a.pool.registry.caller? t with
  | none => exact hf.performs_idle (congrArg Prod.fst (Pool.apply_collect_absent hc))
  | some c =>
    obtain ⟨-, -, name, since, ht⟩ := hf.waiter hc
    have hfull := hf.look ht h (.inl rfl)
    exact performs_of_keyOp (.collect name) (withWaiter_of ht _) (pool_record ..) hfull

theorem Full.performs_expire (t waitedMs : Nat) : a.Performs (.expire t waitedMs) := by
  cases hc : a.pool.registry.caller? t with
  | none => exact hf.performs_idle (congrArg Prod.fst (Pool.apply_expire_absent hc waitedMs))
  | some c =>
    obtain ⟨hmem, rfl, name, since, ht⟩ := hf.waiter hc
    have hfull := hf.look ht h (.inr ⟨a.now - since, rfl⟩)
    refine performs_of_keyOp (.expire name) (withWaiter_of ht _) ?_ hfull
    rw [pool_record]
    exact Pool.pool_expire h.pool hmem _ _

theorem Full.performs_abandon (t : Nat) : a.Performs (.abandon t) := by
  cases hc : a.pool.registry.caller? t with
  | none => exact hf.performs_idle (congrArg Prod.fst (Pool.apply_abandon_absent hc))
  | some c =>
    obtain ⟨-, -, name, since, ht⟩ := hf.waiter hc
    refine performs_of_keyOp (.abandon name) (withWaiter_of ht _) rfl ?_
    exact hf.leave ht (Pool.places_abandon h.pool h.ordered t) fun _ hx => .inl hx

theorem Full.performs_release (n : Nat) : a.Performs (.release n) := by
  obtain hn | ⟨key, name, hn⟩ := hf.holder n
  · exact hf.performs_idle (Pool.release_absent hn)
  · have hfull : (a.report (a.pool.apply (.release n))).1.Full := by
      refine hf.everybody h rfl fun y hy => ?_
      obtain ⟨z, hz, hkey, hnumber, -⟩ := Pool.mem_mark (Pool.handles_release h.pool n ▸ hy)
      exact ⟨z, hz, hnumber, hkey⟩
    exact performs_of_keyOp (.release name) (withHolder_of hn _) (pool_report _) hfull

theorem Full.performs_drop (n : Nat) : a.Performs (.drop n) := by
  obtain hn | ⟨key, name, hn⟩ := hf.holder n
  · exact hf.performs_idle (Pool.drop_absent hn)
  · exact performs_of_keyOp (.drop name) (withHolder_of hn _) rfl (hf.drop h hn)

/-- Whatever is done in a pool is a step of a named pool where everybody is known. -/
theorem Full.performs (op : Op) : a.Performs op := by
  cases op with
  | acquire key =>
    obtain ⟨name, hfull⟩ := hf.acquire h key
    exact performs_of_keyOp (.acquire name) rfl (pool_record ..) hfull
  | collect t => exact hf.performs_collect h t
  | expire t waitedMs => exact hf.performs_expire h t waitedMs
  | abandon t => exact hf.performs_abandon h t
  | release n => exact hf.performs_release h n
  | drop n => exact hf.performs_drop h n
  | resetGeneration =>
    exact ⟨.resetGeneration, pool_report _, hf.everybody h rfl fun x hx => ⟨x, hx, rfl, rfl⟩⟩
  | clearWaiters key =>
    refine performs_of_keyOp .clearWaiters rfl (pool_report _) ?_
    exact hf.everybody h rfl fun x hx => ⟨x, hx, rfl, rfl⟩
  | dispose => exact ⟨.dispose, pool_report _, hf.everybody h rfl fun x hx => ⟨x, hx, rfl, rfl⟩⟩

end

/-- Every run of a pool is the run of a named pool. -/
theorem Full.exists_run (hf : a.Full) (h : a.Sound) (ops : List Op) :
    ∃ steps, (a.run steps).pool = a.pool.run ops := by
  induction ops generalizing a with
  | nil => exact ⟨[], rfl⟩
  | cons op ops ih =>
    obtain ⟨step, hpool, hfull⟩ := hf.performs h op
    obtain ⟨steps, hrun⟩ := ih hfull (h.apply step)
    refine ⟨step :: steps, hrun.trans ?_⟩
    rw [hpool]
    rfl

end NamedPool
end TurnEngine.Lane
