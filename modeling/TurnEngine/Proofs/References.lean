import TurnEngine.Model
import TurnEngine.Proofs.Text.Trimming

/-!
# References and names

A reference names a model exactly if it is usable (`exists_resolve_iff`), and blanks around it do
not count (`resolve_around`). A model is named twice: by the reference in a list, and by its
qualified name. `Model.named` is the name under which a reference ends up in an audit trail. It is
the reference itself exactly if that names no model, or if it is written as qualified names are,
with a slash and without blanks around it (`named_eq_iff`).

A qualified name is a reference too. That of a model named with a slash names the model again; that
of a bare id does exactly if the default provider can stand before a slash
(`qualifiedName_read_back`).
-/

namespace TurnEngine.Model

/-! ## The first slash -/

theorem splitSlash_eq_some {cs provider modelId : List Char}
    (h : splitSlash cs = some (provider, modelId)) :
    cs = provider ++ '/' :: modelId ∧ '/' ∉ provider := by
  induction cs generalizing provider with
  | nil => simp [splitSlash] at h
  | cons c cs ih =>
    unfold splitSlash at h
    by_cases hc : c = '/'
    · rw [if_pos hc] at h
      simp only [Option.some.injEq, Prod.mk.injEq] at h
      obtain ⟨rfl, rfl⟩ := h
      simp [hc]
    · rw [if_neg hc, Option.map_eq_some_iff] at h
      obtain ⟨⟨before, after⟩, hsplit, he⟩ := h
      simp only [Prod.mk.injEq] at he
      obtain ⟨rfl, rfl⟩ := he
      obtain ⟨rfl, hbefore⟩ := ih hsplit
      simp [hbefore, Ne.symm hc]

theorem splitSlash_eq_none {cs : List Char} : splitSlash cs = none ↔ '/' ∉ cs := by
  induction cs with
  | nil => simp [splitSlash]
  | cons c cs ih =>
    unfold splitSlash
    by_cases hc : c = '/'
    · simp [hc]
    · simp [hc, Ne.symm hc, ih]

/-! ## The model of a reference -/

variable {defaultProvider reference : String} {m : Model}

/-- What a reference that names a model looks like: a bare id, or a provider and an id with a slash
between them. -/
inductive Reads (defaultProvider reference : String) (m : Model) : Prop
  | bare : '/' ∉ reference.toList → m.provider = defaultProvider →
      m.modelId = String.ofList (Text.trim reference.toList) → Reads defaultProvider reference m
  | qualified : '/' ∈ reference.toList →
      m.qualifiedName = String.ofList (Text.trim reference.toList) → '/' ∉ m.provider.toList →
      m.provider ≠ "" → Reads defaultProvider reference m

theorem reads_of_resolve (h : resolve defaultProvider reference = some m) :
    Reads defaultProvider reference m ∧ m.modelId ≠ "" ∧
      m.resolvedFrom = String.ofList (Text.trim reference.toList) := by
  have hslash : '/' ∈ Text.trim reference.toList ↔ '/' ∈ reference.toList :=
    Text.mem_trim (by decide)
  unfold resolve at h
  dsimp only at h
  split at h
  · cases h
  · rename_i hblank
    rw [List.isEmpty_iff] at hblank
    split at h
    · rename_i provider modelId hsplit
      obtain ⟨htrim, hprovider⟩ := splitSlash_eq_some hsplit
      split at h
      · cases h
      · rename_i hempty
        simp only [Bool.or_eq_true, List.isEmpty_iff, not_or] at hempty
        simp only [Option.some.injEq] at h
        subst h
        refine ⟨.qualified ?_ ?_ ?_ ?_, ?_, rfl⟩
        · rw [← hslash, htrim]
          simp
        · rw [htrim]
          simp [qualifiedName, join, String.ofList_append, ← String.toList_inj]
        · simpa using hprovider
        · simpa [← String.toList_inj] using hempty.1
        · simpa [← String.toList_inj] using hempty.2
    · rename_i hsplit
      rw [splitSlash_eq_none] at hsplit
      simp only [Option.some.injEq] at h
      subst h
      refine ⟨.bare (mt hslash.2 hsplit) rfl rfl, ?_, rfl⟩
      simpa [← String.toList_inj] using hblank

/-- The name under which a candidate with a reference is called and given up. -/
def named (defaultProvider reference : String) : String :=
  match resolve defaultProvider reference with
  | none => reference
  | some m => m.qualifiedName

/-- The reference is written as the name under which its candidate is called. -/
def Proper (defaultProvider reference : String) : Prop :=
  resolve defaultProvider reference = none ∨
    '/' ∈ reference.toList ∧ Text.trim reference.toList = reference.toList

instance (defaultProvider reference : String) : Decidable (Proper defaultProvider reference) :=
  inferInstanceAs (Decidable (_ ∨ _))

theorem named_eq_iff (defaultProvider reference : String) :
    named defaultProvider reference = reference ↔ Proper defaultProvider reference := by
  unfold named Proper
  cases hm : resolve defaultProvider reference with
  | none => simp
  | some m =>
    obtain ⟨hreads, -, -⟩ := reads_of_resolve hm
    simp only [reduceCtorEq, false_or]
    cases hreads with
    | bare hslash _ _ =>
      refine ⟨fun hname => absurd ?_ hslash, fun h => absurd h.1 hslash⟩
      rw [← hname]
      simp [qualifiedName, join]
    | qualified hslash hname _ _ =>
      rw [hname]
      constructor
      · intro h
        exact ⟨hslash, by rw [← String.toList_ofList (l := Text.trim _), h]⟩
      · intro h
        rw [h.2, String.ofList_toList]

example : Proper "anthropic" "a/m1" ∧ ¬ Proper "anthropic" "m2" ∧
    ¬ Proper "anthropic" " a/m1" := by decide +kernel

/-! ## Qualified names read as references -/

/-- Blanks around a reference do not count. -/
theorem resolve_around {before after : String} (hbefore : Text.allBlank before.toList = true)
    (hafter : Text.allBlank after.toList = true) (defaultProvider reference : String) :
    resolve defaultProvider (before ++ reference ++ after) =
      resolve defaultProvider reference := by
  unfold resolve
  rw [String.toList_append, String.toList_append, Text.trim_around hbefore hafter]

/-- What is left of a reference names what the reference does. -/
theorem resolve_trim (defaultProvider reference : String) :
    resolve defaultProvider (String.ofList (Text.trim reference.toList)) =
      resolve defaultProvider reference := by
  obtain ⟨before, after, hbefore, hafter, hreference⟩ := Text.exists_blanks reference.toList
  have htext : reference =
      String.ofList before ++ String.ofList (Text.trim reference.toList) ++ String.ofList after := by
    rw [← String.toList_inj]
    simpa [String.toList_append] using hreference
  conv_rhs => rw [htext]
  exact (resolve_around (by simpa using hbefore) (by simpa using hafter) _ _).symm

theorem splitSlash_append {provider : List Char} (hprovider : '/' ∉ provider)
    (modelId : List Char) : splitSlash (provider ++ '/' :: modelId) = some (provider, modelId) := by
  induction provider with
  | nil => simp [splitSlash]
  | cons c provider ih =>
    obtain ⟨hc, hrest⟩ := not_or.1 (mt List.mem_cons.2 hprovider)
    rw [List.cons_append, splitSlash, if_neg (Ne.symm hc), ih hrest]
    rfl

/-- A reference with more than blanks in it, and with a text on either side of its first slash if it
has one. -/
def Usable (reference : String) : Prop :=
  Text.trim reference.toList ≠ [] ∧
    ∀ provider modelId, Text.trim reference.toList = provider ++ '/' :: modelId →
      '/' ∉ provider → provider ≠ [] ∧ modelId ≠ []

/-- The usable references are those that name a model. -/
theorem exists_resolve_iff (defaultProvider reference : String) :
    (∃ m, resolve defaultProvider reference = some m) ↔ Usable reference := by
  unfold resolve Usable
  generalize Text.trim reference.toList = text
  by_cases hempty : text = []
  · simp [hempty]
  · dsimp only
    rw [if_neg (by simpa using hempty)]
    cases hsplit : splitSlash text with
    | none =>
      refine ⟨fun _ => ⟨hempty, fun provider modelId htext => ?_⟩, fun _ => ⟨_, rfl⟩⟩
      exact absurd (by simp [htext]) (splitSlash_eq_none.1 hsplit)
    | some parts =>
      obtain ⟨htext, hprovider⟩ := splitSlash_eq_some hsplit
      constructor
      · rintro ⟨m, hm⟩
        refine ⟨hempty, fun provider modelId hother hunslashed => ?_⟩
        rw [hother, splitSlash_append hunslashed] at hsplit
        obtain rfl := Option.some.inj hsplit
        dsimp only at hm
        split at hm
        · cases hm
        · rename_i hboth
          simpa using hboth
      · rintro ⟨-, hparts⟩
        obtain ⟨hfirst, hsecond⟩ := hparts _ _ htext hprovider
        exact ⟨_, if_neg (by simp [hfirst, hsecond])⟩

theorem toList_join (provider modelId : String) :
    (join provider modelId).toList = provider.toList ++ '/' :: modelId.toList := by
  simp [join]

/-- A provider that can stand before a slash: it is there, has no slash of its own, and does not
begin with a blank. -/
structure Leads (provider : String) : Prop where
  nonempty : provider ≠ ""
  unslashed : '/' ∉ provider.toList
  flush : Text.beginsBlank provider.toList = false

instance (provider : String) : Decidable (Leads provider) :=
  decidable_of_iff (provider ≠ "" ∧ '/' ∉ provider.toList ∧
      Text.beginsBlank provider.toList = false)
    ⟨fun h => ⟨h.1, h.2.1, h.2.2⟩, fun h => ⟨h.1, h.2, h.3⟩⟩

section
variable {provider modelId : String}

theorem trim_join_eq_self (hprovider : Leads provider) (hid : modelId ≠ "")
    (hend : Text.endsBlank modelId.toList = false) :
    Text.trim (join provider modelId).toList = (join provider modelId).toList := by
  have hsome : provider.toList ≠ [] := by simpa using hprovider.nonempty
  have hlast : modelId.toList ≠ [] := by simpa using hid
  rw [Text.trim_eq_self_iff, toList_join]
  constructor
  · rw [Text.beginsBlank, List.head?_append_of_ne_nil _ hsome]
    exact hprovider.flush
  · rw [Text.endsBlank, List.getLast?_append_of_ne_nil _ (List.cons_ne_nil _ _),
      List.getLast?_cons_of_ne_nil hlast]
    exact hend

/-- A provider and an id with a slash between them name the model of the two. -/
theorem resolve_join (hprovider : Leads provider) (hid : modelId ≠ "")
    (hend : Text.endsBlank modelId.toList = false) (defaultProvider : String) :
    resolve defaultProvider (join provider modelId) = some (new provider modelId) := by
  have hsplit : splitSlash (join provider modelId).toList =
      some (provider.toList, modelId.toList) := by
    rw [toList_join, splitSlash_append hprovider.unslashed]
  have hsome : (join provider modelId).toList.isEmpty = false := by
    simp [toList_join]
  unfold resolve
  simp [trim_join_eq_self hprovider hid hend, hsplit, hsome, hprovider.nonempty, hid, new]

/-- A provider and an id come back from their name, exactly if the provider can stand before a
slash. -/
theorem resolve_join_iff (hid : modelId ≠ "") (hend : Text.endsBlank modelId.toList = false)
    (defaultProvider : String) :
    (∃ m, resolve defaultProvider (join provider modelId) = some m ∧
      m.provider = provider ∧ m.modelId = modelId) ↔ Leads provider := by
  constructor
  · rintro ⟨m, hm, rfl, rfl⟩
    obtain ⟨hreads, -, -⟩ := reads_of_resolve hm
    cases hreads with
    | bare hslash _ _ => exact absurd (by simp [toList_join]) hslash
    | qualified _ hname hunslashed hnonempty =>
      refine ⟨hnonempty, hunslashed, ?_⟩
      -- The name is its own trimming, so the provider begins as a trimmed text does.
      have htrim : m.provider.toList ++ '/' :: m.modelId.toList =
          Text.trim (join m.provider m.modelId).toList := by
        rw [← toList_join, ← String.toList_ofList (l := Text.trim _), ← hname]
        rfl
      exact Text.beginsBlank_of_prefix ⟨_, htrim⟩ (Text.beginsBlank_trim _)
  · intro hprovider
    exact ⟨_, resolve_join hprovider hid hend defaultProvider, rfl, rfl⟩

end

/-- What the qualified name of the model of a reference is read as. -/
structure ReadsBack (defaultProvider reference : String) (m : Model) : Prop where
  identified : m.modelId ≠ ""
  slashed : '/' ∈ reference.toList →
    m.qualifiedName = m.resolvedFrom ∧ resolve defaultProvider m.qualifiedName = some m
  bare : '/' ∉ reference.toList →
    ((∃ m', resolve defaultProvider m.qualifiedName = some m' ∧
      m'.provider = m.provider ∧ m'.modelId = m.modelId) ↔ Leads defaultProvider)

/-- The qualified name of a model that a reference names is read as `ReadsBack` says; a reference
names one if it is usable; and blanks around a reference never matter. -/
theorem qualifiedName_read_back (defaultProvider reference : String) :
    (∀ m, resolve defaultProvider reference = some m → ReadsBack defaultProvider reference m) ∧
    ((∃ m, resolve defaultProvider reference = some m) ↔ Usable reference) ∧
    ∀ before after : String, Text.allBlank before.toList = true →
      Text.allBlank after.toList = true →
      resolve defaultProvider (before ++ reference ++ after) =
        resolve defaultProvider reference := by
  refine ⟨fun m hm => ?_, exists_resolve_iff defaultProvider reference,
    fun before after hbefore hafter => resolve_around hbefore hafter _ _⟩
  obtain ⟨hreads, hid, hfrom⟩ := reads_of_resolve hm
  cases hreads with
  | qualified hslash hname _ _ =>
    refine ⟨hid, fun _ => ⟨hname.trans hfrom.symm, ?_⟩, fun hbare => absurd hslash hbare⟩
    rw [hname, resolve_trim, hm]
  | bare hbare hprovider hleft =>
    refine ⟨hid, fun hslash => absurd hslash hbare, fun _ => ?_⟩
    have hend : Text.endsBlank m.modelId.toList = false := by
      rw [hleft, String.toList_ofList]
      exact Text.endsBlank_trim _
    rw [← hprovider]
    exact resolve_join_iff hid hend m.provider

/-- A reference with a slash and blanks around it, and a bare id whose name is read back under one
default provider and not under another. -/
theorem qualifiedName_read_back_both_ways :
    let slashed : Model := ⟨"m/1", "a", "a/m/1"⟩
    let bare (provider : String) : Model := ⟨"m2", provider, "m2"⟩
    (resolve "anthropic" "\t a/m/1 " = some slashed ∧
      resolve "anthropic" slashed.qualifiedName = some slashed) ∧
    (resolve "anthropic" "m2" = some (bare "anthropic") ∧
      ∃ m, resolve "anthropic" (bare "anthropic").qualifiedName = some m ∧
        m.provider = "anthropic" ∧ m.modelId = "m2") ∧
    (resolve "eu/anthropic" "m2" = some (bare "eu/anthropic") ∧
      ¬ ∃ m, resolve "eu/anthropic" (bare "eu/anthropic").qualifiedName = some m ∧
        m.provider = "eu/anthropic" ∧ m.modelId = "m2") ∧
    resolve "anthropic" ("\n" ++ "m2" ++ " ") = resolve "anthropic" "m2" := by
  intro slashed bare
  have hslashed : resolve "anthropic" "\t a/m/1 " = some slashed := by decide +kernel
  have hbare : resolve "anthropic" "m2" = some (bare "anthropic") := by decide +kernel
  have hother : resolve "eu/anthropic" "m2" = some (bare "eu/anthropic") := by decide +kernel
  refine ⟨⟨hslashed, ?_⟩, ⟨hbare, ?_⟩, ⟨hother, ?_⟩, ?_⟩
  · exact (((qualifiedName_read_back _ _).1 _ hslashed).slashed (by decide +kernel)).2
  · exact (((qualifiedName_read_back _ _).1 _ hbare).bare (by decide +kernel)).2 (by decide +kernel)
  · exact mt (((qualifiedName_read_back _ _).1 _ hother).bare (by decide +kernel)).1
      (by decide +kernel)
  · exact (qualifiedName_read_back _ _).2.2 _ _ (by decide +kernel) (by decide +kernel)

end TurnEngine.Model
