import TurnEngine.Proofs.Wire.Fields
import TurnEngine.Wire.Conversation
import TurnEngine.Wire.Outcome
import TurnEngine.Wire.Stream

/-!
# Round trips over the wire

The forms of usage, tool results, models, attempts, notices, settings and stream events read what
they write. A record is read field by field; a stream event is looked over for its kind first, and
then read like a record of that kind (`readStreamEvent_tagged`). `round_trips` is about all of them.
-/

namespace TurnEngine.Wire

open Json

/-! ## Records -/

theorem lawful_usage : usage.Lawful 1 where
  whole u := .obj (by simp [whole_ofWord64])
  reads u depth := by
    simp [usage, record_obj]

theorem lawful_toolResult : toolResult.Lawful 1 where
  whole r := .obj (by simp [Whole.str, Whole.bool])
  reads r depth := by
    simp [toolResult, record_obj]

theorem lawful_model : model.Lawful 1 where
  whole m := .obj (by simp [Whole.str])
  reads m depth := by
    simp [model, record_obj]

theorem lawful_attempt : attempt.Lawful 1 where
  whole a := .obj (by simp [Whole.str, Whole.bool, whole_ofOption, whole_ofWord64])
  reads a depth := by
    simp [attempt, record_obj]

theorem lawful_reason : reason.Lawful 0 where
  whole r := .str r.name
  reads r depth := named_str depth r (by cases r <;> decide)

theorem lawful_notice : notice.Lawful 1 where
  whole n := .obj (by simp [Whole.str, lawful_reason.whole])
  reads n depth := by
    have hreason := lawful_reason.reads n.reason depth
    rw [Nat.add_zero] at hreason
    simp [notice, record_obj, hreason]

theorem lawful_laneConfig : laneConfig.Lawful 1 where
  whole c := .obj (by simp [whole_ofWord64])
  reads c depth := by
    simp [laneConfig, record_obj]

theorem lawful_breakerConfig : breakerConfig.Lawful 1 where
  whole c := .obj (by simp [whole_ofWord64, whole_ofWord32])
  reads c depth := by
    simp [breakerConfig, record_obj]

/-! ## Stream events -/

/-- A written value has a value, if it nests no deeper than that. -/
def HasValue (depth : Nat) (v : Json) : Prop :=
  ((document v).value? depth).isSome = true

theorem hasValue_str (depth : Nat) (s : String) : HasValue depth (.str s) := by
  simp [HasValue, document, Document.value?, string?_pieces]

theorem hasValue_ofWord64 (depth : Nat) (n : UInt64) : HasValue depth (ofWord64 n) := by
  have hvalue := value?_numeral (isWord_of_lt n.toNat_lt)
  rw [HasValue, ofWord64, nat, document, Document.value?, hvalue, Option.isSome_some]

theorem hasValue_obj {depth : Nat} {fields : List (String × Json)}
    (h : ∀ f ∈ fields, HasValue depth f.2) : HasValue (depth + 1) (.obj fields) := by
  have hfields : (Document.fieldValues? depth (fieldDocuments fields)).isSome = true := by
    induction fields with
    | nil => rfl
    | cons f fs ih =>
      obtain ⟨key, v⟩ := f
      obtain ⟨value, hvalue⟩ := Option.isSome_iff_exists.1 (h (key, v) List.mem_cons_self)
      obtain ⟨more, hmore⟩ :=
        Option.isSome_iff_exists.1 (ih fun f hf => h f (List.mem_cons_of_mem _ hf))
      simp [fieldDocuments, Document.fieldValues?, string?_pieces, hvalue, hmore]
  rw [HasValue, document, Document.value?, Option.isSome_map]
  exact hfields

theorem isTag_pieces (key : String) : isTag (pieces key) = decide (key = "type") := by
  simp [isTag, string?_pieces]

/-- No key but one is the one of the kind. -/
theorem filter_isTag {fields : List (String × Json)} (h : ∀ f ∈ fields, f.1 ≠ "type") :
    (fieldDocuments fields).filter (fun f => isTag f.1) = [] ∧
      (fieldDocuments fields).filter (fun f => !isTag f.1) = fieldDocuments fields := by
  induction fields with
  | nil => exact ⟨rfl, rfl⟩
  | cons f fs ih =>
    obtain ⟨key, v⟩ := f
    have hkey : isTag (pieces key) = false := by
      rw [isTag_pieces]
      exact decide_eq_false (h (key, v) List.mem_cons_self)
    obtain ⟨hnone, hall⟩ := ih fun f hf => h f (List.mem_cons_of_mem _ hf)
    simp [fieldDocuments, hkey, hnone, hall]

theorem eventKind?_name (kind : EventKind) :
    eventKind? (document (.str kind.name)) = some kind := by
  have hfind : (EventKind.all.find? fun k => k.name = kind.name) = some kind := by
    cases kind <;> decide
  rw [document, eventKind?, named?, string?_pieces]
  exact hfind

/-- An event with a kind is read as the body of that kind. -/
theorem readStreamEvent_tagged (kind : EventKind) {depth : Nat} {fields : List (String × Json)}
    (hkeys : ∀ f ∈ fields, f.1 ≠ "type") (hvalues : ∀ f ∈ fields, HasValue depth f.2) :
    readStreamEvent (depth + 1) (document (writeStreamEvent.tagged kind fields)) =
      kind.body (depth + 1) (document (.obj fields)) := by
  have hvalue : HasValue (depth + 1) (writeStreamEvent.tagged kind fields) :=
    hasValue_obj (List.forall_mem_cons.2 ⟨hasValue_str depth kind.name, hvalues⟩)
  have hdocument : document (writeStreamEvent.tagged kind fields) =
      .object ((pieces "type", .text (pieces kind.name)) :: fieldDocuments fields) := by
    simp only [writeStreamEvent.tagged, document, fieldDocuments]
  obtain ⟨hnone, hall⟩ := filter_isTag hkeys
  have htag : isTag (pieces "type") = true := isTag_pieces "type"
  obtain ⟨value, hvalue⟩ := Option.isSome_iff_exists.1 hvalue
  have hkind := eventKind?_name kind
  rw [document] at hkind
  rw [hdocument] at hvalue ⊢
  rw [document, readStreamEvent, hvalue]
  simp [htag, hnone, hall, hkind]

theorem lawful_streamEvent : streamEvent.Lawful 2 where
  whole e := by
    cases e with
    | usage u => exact .obj (by simp [Whole.str, lawful_usage.whole])
    | done stopReason => cases stopReason <;> exact .obj (by simp [fieldIfSome, Whole.str])
    | _ => exact .obj (by simp [Whole.str])
  reads e depth := by
    have htagged := fun kind fields => @readStreamEvent_tagged kind (depth + 1) fields
    cases e with
    | usage u =>
      have hvalue : HasValue (depth + 1) (usage.write u) :=
        hasValue_obj (by simp [hasValue_ofWord64])
      have hreads := lawful_usage.reads u depth
      refine (htagged .usage _ (by simp) (by simpa using hvalue)).trans ?_
      simp [EventKind.body, record_obj, hreads]
    | done stopReason =>
      cases stopReason with
      | none =>
        refine (htagged .done _ (by simp [fieldIfSome]) (by simp [fieldIfSome])).trans ?_
        simp [EventKind.body, record_obj, fieldIfSome]
      | some reason =>
        refine (htagged .done _ (by simp [fieldIfSome])
          (by simp [fieldIfSome, hasValue_str])).trans ?_
        have hmaybe := maybe_ofOption (depth + 1) (some reason)
        simp only [ofOption] at hmaybe
        simp [EventKind.body, record_obj, fieldIfSome, hmaybe]
    | textDelta text =>
      refine (htagged .textDelta _ (by simp) (by simp [hasValue_str])).trans ?_
      simp [EventKind.body, record_obj]
    | toolCallStart id name =>
      refine (htagged .toolCallStart _ (by simp) (by simp [hasValue_str])).trans ?_
      simp [EventKind.body, record_obj]
    | toolCallDelta id fragment =>
      refine (htagged .toolCallDelta _ (by simp) (by simp [hasValue_str])).trans ?_
      simp [EventKind.body, record_obj]
    | toolCallEnd id =>
      refine (htagged .toolCallEnd _ (by simp) (by simp [hasValue_str])).trans ?_
      simp [EventKind.body, record_obj]

/-! ## All of them -/

/-- What is printed is read as the value it was printed for, and a text that is read has a reprint
that is read as the same value. -/
theorem round_trips :
    streamEvent.RoundTrips ∧ usage.RoundTrips ∧ toolResult.RoundTrips ∧ attempt.RoundTrips ∧
      notice.RoundTrips ∧ model.RoundTrips ∧ laneConfig.RoundTrips ∧ breakerConfig.RoundTrips :=
  ⟨lawful_streamEvent.roundTrips (by decide), lawful_usage.roundTrips (by decide),
    lawful_toolResult.roundTrips (by decide), lawful_attempt.roundTrips (by decide),
    lawful_notice.roundTrips (by decide), lawful_model.roundTrips (by decide),
    lawful_laneConfig.roundTrips (by decide), lawful_breakerConfig.roundTrips (by decide)⟩

/-- A recorded event with its kind last, counters left out and a field that it does not have: it is
read, its reprint has all of its fields in order, and is read as the same event. -/
theorem round_trips_usage_event :
    let text := "\x7b\"usage\":\x7b\"output_tokens\":7\x7d,\"note\":[1e2],\"type\":\"usage\"\x7d"
    let reprint := "\x7b\"type\":\"usage\",\"usage\":\x7b\"input_tokens\":0,\"output_tokens\":7,"
      ++ "\"cache_read_tokens\":0,\"cache_write_tokens\":0\x7d\x7d"
    streamEvent.parse text = some (.usage { output := 7 }) ∧
      streamEvent.reprint text = some reprint ∧
      streamEvent.parse reprint = some (.usage { output := 7 }) := by
  intro text reprint
  have hparse : streamEvent.parse text = some (.usage { output := 7 }) := by
    decide +kernel
  have hreprint : streamEvent.reprint text = some reprint := by
    decide +kernel
  have hagain := round_trips.1.2 text
  rw [hreprint, hparse] at hagain
  exact ⟨hparse, hreprint, hagain⟩

end TurnEngine.Wire
