import TurnEngine.Breaker.Registry
import TurnEngine.Proofs.Breaker.Streak

/-!
# Registries, key by key

`Registry.get` sees a registry as one breaker for every key, new where nothing was asked yet. Under
this view every operation is that of the breaker of its key and leaves the other keys alone
(`get_request`, `get_settle`, `get_observe`, `get_reset`).

A breaker that somebody took is meant by its key and the era. What is done with it is done on the
key as long as the era lasts (`lookup_ref`, `get_store`), and a reset of all breakers leaves it as
it is (`lookup_resetAll`).

`Reached config r` says that the registry `r` came about from an empty one by its operations, at
any times and with any passes, and `Reached.tame` what every breaker of such a registry has: its
key, its tuning, and a failure count below the limit while it is closed.
-/

namespace TurnEngine.Breaker

namespace Registry

variable (r : Registry) (now : Nat) (key other : String)

theorem get_put (b : Breaker) :
    (r.put key b).get other = if other = key then b else r.get other := by
  simp only [get, put, Table.get?_insert]
  split <;> rfl

/-! ### Breakers that somebody has -/

section
variable (ref : Ref) (b : Breaker)

theorem era_store : (r.store ref b).era = r.era := by
  unfold store
  split
  · rfl
  · exact List.length_modify ..

theorem config_store : (r.store ref b).config = r.config := by
  unfold store
  split <;> rfl

theorem era_resetAll : r.resetAll.era = r.era + 1 :=
  List.length_append

theorem lookup_ref : r.lookup (r.ref key) = r.get key := by
  simp [lookup, breakersOf, ref, get]

theorem store_ref : r.store (r.ref key) b = r.put key b :=
  if_pos rfl

theorem breakers_store_of_over (hera : ref.era ≠ r.era) :
    (r.store ref b).breakers = r.breakers := by
  rw [store, if_neg hera]

/-- Breakers of an era that is over have no key. -/
theorem get_store : (r.store ref b).get other = if ref = r.ref other then b else r.get other := by
  unfold store
  by_cases hera : ref.era = r.era
  · rw [if_pos hera, get_put]
    refine if_congr ⟨?_, ?_⟩ rfl rfl
    · rintro rfl
      exact congrArg (Ref.mk ref.key) hera
    · rintro rfl
      rfl
  · rw [if_neg hera, if_neg]
    · rfl
    · rintro rfl
      exact hera rfl

/-- A reset of all breakers leaves those that somebody has as they are. -/
theorem lookup_resetAll (hera : ref.era ≤ r.era) : r.resetAll.lookup ref = r.lookup ref := by
  have hbreakers : r.resetAll.breakersOf ref.era = r.breakersOf ref.era := by
    have hne : ref.era ≠ r.resetAll.era := by
      rw [era_resetAll]
      omega
    rw [breakersOf, if_neg hne, breakersOf]
    split
    · rename_i he
      simp [resetAll, he, era]
    · rename_i he
      have hlt : ref.era < r.dropped.length := Nat.lt_of_le_of_ne hera he
      simp [resetAll, List.getElem?_append_left hlt]
  rw [lookup, lookup, hbreakers]
  rfl

theorem era_requestAt : (r.requestAt now ref).1.era = r.era :=
  era_store r ref _

theorem get_requestAt_of_ne (hkey : other ≠ ref.key) :
    (r.requestAt now ref).1.get other = r.get other :=
  (get_store r other ref _).trans (if_neg fun he => hkey (congrArg Ref.key he).symm)

theorem requestAt_of_error {f : Failure} (he : ((r.lookup ref).request now).2 = .error f) :
    r.requestAt now ref = ((r.requestAt now ref).1, .error f) := by
  simp [requestAt, he, Except.map]

theorem requestAt_of_ok {a : Admission} (ha : ((r.lookup ref).request now).2 = .ok a) :
    r.requestAt now ref = ((r.requestAt now ref).1, .ok ⟨ref.key, ref.era, a⟩) := by
  simp [requestAt, ha, Except.map]

end

/-- A look at the breaker of a key, made if there is none. -/
theorem observeAt_take : (r.take key).1.observeAt now (r.take key).2 =
    (r.put key ((r.get key).refresh now), ((r.get key).refresh now).circuit) := by
  have hlookup : (r.take key).1.lookup (r.ref key) = r.get key := by
    rw [show r.ref key = (r.take key).1.ref key from rfl, lookup_ref]
    exact (get_put r key key _).trans (if_pos rfl)
  have hstore (b : Breaker) : (r.take key).1.store (r.ref key) b = r.put key b := by
    rw [show r.ref key = (r.take key).1.ref key from rfl, store_ref]
    exact congrArg (fun breakers => { r with breakers }) (Table.insert_insert _ _ _ _)
  rw [show (r.take key).2 = r.ref key from rfl, observeAt, hlookup]
  exact congrArg (·, _) (hstore _)

/-! ### Keys -/

theorem request_eq : r.request now key =
    (r.put key ((r.get key).request now).1,
      ((r.get key).request now).2.map fun a => ⟨key, r.era, a⟩) := by
  unfold request requestAt
  rw [lookup_ref]
  exact congrArg (·, _) (store_ref r key _)

theorem get_request : (r.request now key).1.get other =
    if other = key then ((r.get key).request now).1 else r.get other := by
  rw [request_eq, get_put]

/-- After a call was let through, there is a breaker for its key. -/
theorem get?_request :
    (r.request now key).1.breakers.get? key = some ((r.get key).request now).1 := by
  rw [request_eq]
  simp [put, Table.get?_insert]

theorem get_of_get? {b : Breaker} (h : r.breakers.get? key = some b) : r.get key = b := by
  simp [get, h]

/-- A look at a key that has no breaker shows what a look at a new one would. -/
theorem get_observe : (r.observe now key).1.get other =
    if other = key then (r.get key).refresh now else r.get other := by
  unfold observe
  cases hb : r.breakers.get? key with
  | some b => rw [get_of_get? r key hb]; exact get_put r key other _
  | none =>
    have hnew : (r.get key).refresh now = r.get key :=
      refresh_of_circuit_closed (by simp [get, hb]) now
    rw [hnew]
    split <;> simp_all

theorem circuit_observe : (r.observe now key).2 = ((r.get key).refresh now).circuit := by
  unfold observe
  cases hb : r.breakers.get? key with
  | some b => rw [get_of_get? r key hb]; rfl
  | none =>
    have hc : (r.get key).circuit = .closed := by simp [get, hb]
    rw [refresh_of_circuit_closed hc, hc]

/-- The end of a call counts for the breaker that let it through, if there is one. -/
theorem settle_cases (p : Pass) (o : Outcome) : r.settle now p o = r ∨
    r.settle now p o = r.store p.ref ((r.lookup p.ref).settle now p.admission o) := by
  unfold settle lookup
  cases hb : (r.breakersOf p.era).get? p.key with
  | none => exact .inl rfl
  | some b =>
    refine .inr ?_
    rw [show (r.breakersOf p.ref.era).get? p.ref.key = some b from hb]
    rfl

/-- The end of a call from this era is told to the breaker of its key. -/
theorem settle_of_present {p : Pass} (hera : p.era = r.era) {b : Breaker}
    (hb : r.breakers.get? p.key = some b) (o : Outcome) :
    r.settle now p o = r.put p.key (b.settle now p.admission o) := by
  rw [settle, breakersOf, if_pos hera, hb]
  exact if_pos hera

/-- Nobody who asks for a key sees the end of a call from an era that is over. -/
theorem breakers_settle_of_over {p : Pass} (hera : p.era ≠ r.era) (o : Outcome) :
    (r.settle now p o).breakers = r.breakers := by
  obtain he | he := settle_cases r now p o <;> rw [he]
  exact breakers_store_of_over r p.ref _ hera

/-- A call on a key without a breaker is from an era that is over. -/
theorem breakers_settle_of_unused {p : Pass} (hp : r.breakers.get? p.key = none) (o : Outcome) :
    (r.settle now p o).breakers = r.breakers := by
  by_cases hera : p.era = r.era
  · rw [settle, breakersOf, if_pos hera, hp]
  · exact breakers_settle_of_over r now hera o

theorem era_settle (p : Pass) (o : Outcome) : (r.settle now p o).era = r.era := by
  obtain he | he := settle_cases r now p o <;> rw [he]
  exact era_store r _ _

/-- The end of a call counts for the breaker of its key, if it is from this era. -/
theorem get_settle (p : Pass) (o : Outcome) :
    (r.settle now p o).get other = r.get other ∨
      other = p.key ∧ (r.settle now p o).get other = (r.get other).settle now p.admission o := by
  obtain he | he := settle_cases r now p o
  · exact .inl (by rw [he])
  · rw [he, get_store]
    split
    · rename_i hp
      exact .inr ⟨(congrArg Ref.key hp).symm, by rw [hp, lookup_ref]⟩
    · exact .inl rfl

theorem get_settle_of_ne {p : Pass} (hkey : other ≠ p.key) (o : Outcome) :
    (r.settle now p o).get other = r.get other :=
  (get_settle r now other p o).resolve_right fun h => hkey h.1

/-- The end of a call that was let through counts. -/
theorem get_settle_request (later : Nat) (a : Admission) (o : Outcome) :
    ((r.request now key).1.settle later ⟨key, r.era, a⟩ o).get other =
      if other = key then ((r.get key).request now).1.settle later a o else r.get other := by
  have hera : (r.request now key).1.era = r.era := era_requestAt r now _
  have hthere : ((r.request now key).1.breakersOf r.era).get? key =
      some ((r.get key).request now).1 := by
    rw [breakersOf, if_pos hera.symm, get?_request]
  have hpass : Pass.ref ⟨key, r.era, a⟩ = (r.request now key).1.ref key :=
    congrArg (Ref.mk key) hera.symm
  unfold settle
  simp only [hthere]
  rw [hpass, store_ref, get_put, get_request]
  split <;> rfl

theorem get_reset : (r.reset key).get other = r.get other ∨
    (r.reset key).get other = (r.get other).reset := by
  unfold reset
  cases hb : r.breakers.get? key with
  | none => exact .inl rfl
  | some b =>
    simp only [get_put]
    by_cases hk : other = key
    · exact .inr (by rw [if_pos hk, hk, get_of_get? r _ hb])
    · exact .inl (if_neg hk)

theorem config_settle (p : Pass) (o : Outcome) : (r.settle now p o).config = r.config := by
  obtain he | he := settle_cases r now p o <;> rw [he]
  exact config_store r _ _

theorem config_observe : (r.observe now key).1.config = r.config := by
  unfold observe
  split <;> rfl

theorem config_reset : (r.reset key).config = r.config := by
  unfold reset
  split <;> rfl

end Registry

/-! ## Reachable registries -/

/-- What every breaker of a registry has (module doc). -/
structure Tame (config : Config) (key : String) (b : Breaker) : Prop where
  key : b.key = key
  config : b.config = config
  failures : b.circuit = .closed → b.failures < b.failureLimit

section
variable {config : Config} {key : String} {b : Breaker} (h : Tame config key b)
include h

theorem Tame.failureLimit : b.failureLimit = max 1 config.failureThreshold.toNat := by
  rw [Breaker.failureLimit, h.config]

theorem Tame.refresh (now : Nat) : Tame config key (b.refresh now) := by
  obtain hb | ⟨-, -, hb⟩ := refresh_cases b now <;> rw [hb]
  · exact h
  · exact ⟨h.key, h.config, nofun⟩

theorem Tame.request (now : Nat) : Tame config key (b.request now).1 := by
  have hb := h.refresh now
  obtain ⟨f, he⟩ | ⟨-, he⟩ | ⟨-, -, he⟩ := request_cases b now <;> rw [he]
  · exact hb
  · exact hb
  · exact ⟨hb.key, hb.config, hb.failures⟩

theorem Tame.settle (now : Nat) (a : Admission) (o : Outcome) :
    Tame config key (b.settle now a o) := by
  have hb : Tame config key (b.releaseProbe a) := by
    rw [releaseProbe_eq]
    exact ⟨h.key, h.config, h.failures⟩
  obtain ⟨-, he⟩ | ⟨-, ⟨-, he⟩ | ⟨-, hfailed⟩⟩ := settle_cases b now a o
  · rw [he]
    exact hb
  · rw [he]
    exact ⟨hb.key, hb.config, fun _ => failureLimit_pos _⟩
  · obtain ⟨-, hbelow, he⟩ | ⟨-, -, he⟩ | ⟨-, he⟩ := hfailed <;> rw [he]
    · exact ⟨hb.key, hb.config, fun _ => hbelow⟩
    · exact ⟨hb.key, hb.config, nofun⟩
    · exact ⟨hb.key, hb.config, nofun⟩

theorem Tame.reset : Tame config key b.reset :=
  ⟨h.key, h.config, fun _ => failureLimit_pos _⟩

end

theorem tame_new (config : Config) (key : String) : Tame config key { key, config } :=
  ⟨rfl, rfl, fun _ => failureLimit_pos _⟩

/-- All breakers of a registry are what they should be, those to come included. -/
structure Registry.Tame (config : Config) (r : Registry) : Prop where
  tuning : r.config = config
  breakers : ∀ key, Breaker.Tame config key (r.get key)

/-- The registries that can come about, from an empty one. Whether a pass was ever given is not
asked, so calls in flight can end in any order, late or never. -/
inductive Registry.Reached (config : Config) : Registry → Prop
  | new : Reached config { config }
  | request {r : Registry} (now : Nat) (key : String) : Reached config r →
      Reached config (r.request now key).1
  | settle {r : Registry} (now : Nat) (p : Pass) (o : Outcome) : Reached config r →
      Reached config (r.settle now p o)
  | observe {r : Registry} (now : Nat) (key : String) : Reached config r →
      Reached config (r.observe now key).1
  | reset {r : Registry} (key : String) : Reached config r → Reached config (r.reset key)
  /-- Somebody takes the breaker of a key, and looks at it. -/
  | look {r : Registry} (now : Nat) (key : String) : Reached config r →
      Reached config (r.put key ((r.get key).observe now).1)
  /-- Somebody takes the breaker of a key, and resets it. -/
  | resetBreaker {r : Registry} (key : String) : Reached config r →
      Reached config (r.put key (r.get key).reset)
  | resetAll {r : Registry} : Reached config r → Reached config r.resetAll

namespace Registry

variable {config : Config} {r : Registry}

theorem Tame.put (h : r.Tame config) {key : String} {b : Breaker}
    (hb : Breaker.Tame config key b) : (r.put key b).Tame config := by
  refine ⟨h.tuning, fun other => ?_⟩
  rw [get_put]
  split
  · rename_i hk
    exact hk ▸ hb
  · exact h.breakers other

theorem Tame.request (h : r.Tame config) (now : Nat) (key : String) :
    (r.request now key).1.Tame config := by
  rw [request_eq]
  exact h.put ((h.breakers key).request now)

theorem Tame.settle (h : r.Tame config) (now : Nat) (p : Pass) (o : Outcome) :
    (r.settle now p o).Tame config := by
  refine ⟨(config_settle r now p o).trans h.tuning, fun other => ?_⟩
  obtain he | ⟨-, he⟩ := get_settle r now other p o <;> rw [he]
  · exact h.breakers other
  · exact (h.breakers other).settle now _ o

theorem Tame.observe (h : r.Tame config) (now : Nat) (key : String) :
    (r.observe now key).1.Tame config := by
  refine ⟨(config_observe r now key).trans h.tuning, fun other => ?_⟩
  rw [get_observe]
  split
  · rename_i hk
    exact hk ▸ (h.breakers key).refresh now
  · exact h.breakers other

theorem Tame.reset (h : r.Tame config) (key : String) : (r.reset key).Tame config := by
  refine ⟨(config_reset r key).trans h.tuning, fun other => ?_⟩
  obtain he | he := get_reset r key other <;> rw [he]
  · exact h.breakers other
  · exact (h.breakers other).reset

theorem Tame.resetAll (h : r.Tame config) : r.resetAll.Tame config := by
  refine ⟨h.tuning, fun key => ?_⟩
  have hfresh : r.resetAll.get key = { key, config } := by rw [← h.tuning]; rfl
  rw [hfresh]
  exact tame_new config key

theorem Reached.tame (h : Reached config r) : r.Tame config := by
  induction h with
  | new => exact ⟨rfl, tame_new config⟩
  | request now key _ ih => exact ih.request now key
  | settle now p o _ ih => exact ih.settle now p o
  | observe now key _ ih => exact ih.observe now key
  | reset key _ ih => exact ih.reset key
  | look now key _ ih => exact ih.put ((ih.breakers key).refresh now)
  | resetBreaker key _ ih => exact ih.put (ih.breakers key).reset
  | resetAll _ ih => exact ih.resetAll

end Registry

end TurnEngine.Breaker
