import Mathlib
import TurnEngine.Failure.Classifier

/-!
# Messages with text around them

Whoever passes a failure on may put context around its message. Without a status the class comes
from the message alone: it is that of the first table with a pattern in it (`place_ofText`). Text
around a message keeps the patterns in it, so all it can do is to let an earlier table take over,
and the class moves up in `ranking` or stays (`place_ofText_around`). A refusal is near the top:
nothing but an overflow of the context can take its place.
-/

namespace TurnEngine.Classifier

/-! ## The tables in the order of the search -/

/-- The tables of patterns, each with the class of a message that has one of them. -/
def tables : List (List String × Option Reason) :=
  [(contextPatterns, some .contextOverflow), (refusalPatterns, none),
   (rateLimitPatterns ++ ["429"], some .rateLimit), (unavailablePatterns, some .modelUnavailable),
   (timeoutPatterns, some .timeout),
   (serverPatterns ++ ["500", "502", "503"], some .serverError)]

/-- The class of the first of some tables with a pattern in a text. -/
def firstClass : List (List String × Option Reason) → List Char → Option Reason
  | [], _ => some .unknown
  | t :: ts, text => if mentions t.1 text then t.2 else firstClass ts text

theorem ofText_eq (text : List Char) : ofText text = firstClass tables text := rfl

/-- The classes from the strongest to the weakest; `none` is that of failures which are not worth
another try. -/
def ranking : List (Option Reason) :=
  [some .contextOverflow, none, some .rateLimit, some .modelUnavailable, some .timeout,
   some .serverError, some .unknown]

/-- The place of a class in the ranking. -/
def place (c : Option Reason) : Nat :=
  ranking.idxOf c

/-- The first class is at least as strong as the second. -/
def AtLeast (c c' : Option Reason) : Prop :=
  place c ≤ place c'

instance (c c' : Option Reason) : Decidable (AtLeast c c') :=
  inferInstanceAs (Decidable (_ ≤ _))

theorem nodup_ranking : ranking.Nodup := by decide

theorem ranking_eq : ranking = tables.map (·.2) ++ [some .unknown] := rfl

/-- Only an overflow of the context is stronger than a refusal. -/
theorem atLeast_none_iff {c : Option Reason} :
    AtLeast c none ↔ c = none ∨ c = some .contextOverflow := by
  rcases c with _ | reason
  · decide
  · cases reason <;> decide

theorem getElem?_findIdx (ts : List (List String × Option Reason)) (text : List Char) :
    (ts.map (·.2) ++ [some .unknown])[ts.findIdx fun t => mentions t.1 text]? =
      some (firstClass ts text) := by
  induction ts with
  | nil => rfl
  | cons t ts ih =>
    rw [List.findIdx_cons, firstClass]
    by_cases hfound : mentions t.1 text = true
    · simp [hfound]
    · simpa [hfound] using ih

/-- The class of a message stands in the ranking where the first table with a pattern in it stands
among the tables. -/
theorem place_ofText (text : List Char) :
    place (ofText text) = tables.findIdx fun t => mentions t.1 text := by
  have hclass := getElem?_findIdx tables text
  rw [← ranking_eq, ← ofText_eq] at hclass
  obtain ⟨hindex, hclass⟩ := List.getElem?_eq_some_iff.1 hclass
  rw [place, ← hclass]
  exact nodup_ranking.idxOf_getElem _ hindex

/-! ## Text around a message -/

theorem mentions_around {patterns : List String} {text : List Char} (before after : List Char)
    (h : mentions patterns text = true) : mentions patterns (before ++ text ++ after) = true := by
  obtain ⟨p, hp, hoccurs⟩ := List.any_eq_true.1 h
  exact List.any_eq_true.2 ⟨p, hp, Text.occurs_append before after hoccurs⟩

theorem place_ofText_around (before text after : List Char) :
    place (ofText (before ++ text ++ after)) ≤ place (ofText text) := by
  rw [place_ofText, place_ofText]
  exact List.findIdx_le_findIdx fun t _ => mentions_around before after

/-- A message with a pattern of a refusal is refused, if the context does not overflow too. -/
theorem atLeast_none_of_refusal {text : List Char} (h : mentions refusalPatterns text = true) :
    AtLeast (ofText text) none := by
  rw [atLeast_none_iff, ofText, if_pos h]
  split
  · exact .inr rfl
  · exact .inl rfl

theorem lowercase_append (text text' : String) :
    lowercase (text ++ text') = lowercase text ++ lowercase text' := by
  rw [lowercase, String.toList_append, List.map_append, ← lowercase, ← lowercase]

/-! ## The case of letters -/

/-- A character, or the same ASCII letter in its other case. -/
def SameLetter (c c' : Char) : Prop :=
  c' = c ∨ c' = c.toLower ∨ c' = c.toUpper

/-- Two texts that differ in the case of ASCII letters only. -/
def Recased (text text' : String) : Prop :=
  List.Forall₂ SameLetter text.toList text'.toList

theorem SameLetter.toLower_eq {c c' : Char} (h : SameLetter c c') : c'.toLower = c.toLower := by
  rcases h with rfl | rfl | rfl
  · rfl
  · exact Char.toLower_toLower_eq_toLower c
  · exact Char.toLower_toUpper_eq_toLower c

theorem Recased.lowercase_eq {text text' : String} (h : Recased text text') :
    lowercase text' = lowercase text := by
  have hletters (cs cs' : List Char) (h : List.Forall₂ SameLetter cs cs') :
      cs'.map Char.toLower = cs.map Char.toLower := by
    induction h with
    | nil => rfl
    | cons hc _ ih => rw [List.map_cons, List.map_cons, hc.toLower_eq, ih]
  exact hletters _ _ h

/-! ## Failures without a status -/

/-- A failure with a message and no status, of a provider or on the way to it. -/
inductive Statusless (text : String) : Failure → Prop
  | http : Statusless text (.http text)
  | provider (retryAfterMs : Option UInt64) :
      Statusless text (.provider none text retryAfterMs)

theorem Statusless.standard_eq {text : String} {f : Failure} (h : Statusless text f) :
    standard f = ofText (lowercase text) := by
  cases h <;> rfl

/-- The class of a failure without a status is that of the first table with a pattern in its
message. Text around the message leaves the class as strong as it was or makes it stronger, and can
make nothing of a refusal but an overflow of the context. The case of ASCII letters does not count,
nor does it whether a provider failed or the way to it. -/
theorem class_around (text : String) {f : Failure} (hf : Statusless text f) :
    (place (standard f) = tables.findIdx fun t => mentions t.1 (lowercase text)) ∧
    (∀ before after g, Statusless (before ++ text ++ after) g →
      AtLeast (standard g) (standard f) ∧
      (mentions refusalPatterns (lowercase text) = true →
        ∀ reason, standard g = some reason → reason = .contextOverflow)) ∧
    (∀ text' g, Recased text text' → Statusless text' g → standard g = standard f) ∧
    ∀ g, Statusless text g → standard g = standard f := by
  refine ⟨?_, fun before after g hg => ⟨?_, fun hrefusal reason hreason => ?_⟩,
    fun text' g hcase hg => ?_, fun g hg => ?_⟩
  · rw [hf.standard_eq, place_ofText]
  · rw [AtLeast, hf.standard_eq, hg.standard_eq, lowercase_append, lowercase_append]
    exact place_ofText_around _ _ _
  · -- The pattern of the refusal is still there, so no table after that of refusals decides.
    have hwrapped := mentions_around (lowercase before) (lowercase after) hrefusal
    rw [← lowercase_append, ← lowercase_append] at hwrapped
    have hclass := atLeast_none_of_refusal hwrapped
    rw [← hg.standard_eq, atLeast_none_iff, hreason] at hclass
    simpa using hclass
  · rw [hf.standard_eq, hg.standard_eq, hcase.lowercase_eq]
  · rw [hf.standard_eq, hg.standard_eq]

/-- A wrong key stays a refusal whatever is told around it, until the context overflows too. -/
theorem class_around_refusal :
    let text := "Invalid API key"
    let failure := Failure.http text
    let limited : Failure := .provider none ("429, rate limit: " ++ text ++ " (timed out)") (some 5)
    let overlong : Failure := .http ("request too large (" ++ text ++ ")")
    let loud : Failure := .provider none "INVALID API KEY" none
    let provided : Failure := .provider none text none
    standard failure = none ∧ AtLeast (standard limited) none ∧
    (∀ reason, standard limited = some reason → reason = .contextOverflow) ∧
    standard overlong = some .contextOverflow ∧
    AtLeast (standard overlong) (standard failure) ∧
    standard loud = standard failure ∧ standard provided = standard failure := by
  intro text failure limited overlong loud provided
  have hclass : standard failure = none := by decide +kernel
  obtain ⟨-, haround, hcases, hsource⟩ := class_around text .http
  have hlimited := haround _ _ limited (.provider (some 5))
  have hrefusal : mentions refusalPatterns (lowercase text) = true := by decide +kernel
  have hloud : Recased text "INVALID API KEY" := by
    unfold Recased SameLetter
    decide +kernel
  refine ⟨hclass, ?_, hlimited.2 hrefusal, by decide +kernel, ?_, ?_, ?_⟩
  · exact hclass ▸ hlimited.1
  · exact (haround _ _ overlong .http).1
  · exact hcases _ loud hloud (.provider none)
  · exact hsource provided (.provider none)

end TurnEngine.Classifier
