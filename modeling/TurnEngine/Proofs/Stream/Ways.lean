import TurnEngine.Stream.Protocol

/-!
# Ways of a machine

What a machine announces tells the way it takes (`Told`): the changes of stage lead from where it
began to where it ends, and everything else is announced at its place. Ways join (`Told.append`),
and the first part of what is told tells the first part of the way (`Told.of_append`). An operation
succeeds as a whole, telling its way, or it fails and does nothing (`Op.sound`).
-/

namespace TurnEngine.Protocol

/-! ## What is told of a way -/

/-- The changes of stage among some events. -/
def changes (es : List ProtocolEvent) : List (Stage × Stage) :=
  es.filterMap fun
    | .stageChange source target => some (source, target)
    | _ => none

/-- Everything but the changes of stage among some events. -/
def remarks (es : List ProtocolEvent) : List ProtocolEvent :=
  es.filter fun
    | .stageChange _ _ => false
    | _ => true

/-- Allowed changes, each from where the one before led to. -/
inductive Leads : Stage → List (Stage × Stage) → Stage → Prop
  | stay (s : Stage) : Leads s [] s
  | change {s t u : Stage} {cs : List (Stage × Stage)} : s.allows t = true → Leads t cs u →
      Leads s ((s, t) :: cs) u

/-- Events that tell a way from one stage to another: the changes lead there, text comes while the
answer is streaming, and the begin and the end of a call come right after the change that is made
for them. -/
structure Told (s : Stage) (es : List ProtocolEvent) (t : Stage) : Prop where
  changes : Leads s (changes es) t
  text : ∀ earlier fragment later, es = earlier ++ .text fragment :: later →
    Leads s (Protocol.changes earlier) .streaming
  toolCallStart : ∀ earlier id name later, es = earlier ++ .toolCallStart id name :: later →
    ∃ first source, earlier = first ++ [.stageChange source .toolUse]
  toolCallEnd : ∀ earlier call later, es = earlier ++ .toolCallEnd call :: later →
    ∃ first source, earlier = first ++ [.stageChange source .executing]

theorem changes_append (es fs : List ProtocolEvent) :
    changes (es ++ fs) = changes es ++ changes fs :=
  List.filterMap_append

theorem Leads.append {s t u : Stage} {cs ds : List (Stage × Stage)} (h : Leads s cs t)
    (k : Leads t ds u) : Leads s (cs ++ ds) u := by
  induction h with
  | stay => exact k
  | change hallowed _ ih => exact .change hallowed (ih k)

/-- An event of two lists stands in the first one, or in the second one behind all of the first. -/
theorem cut_append {α : Type} {es fs earlier later : List α} {e : α}
    (h : es ++ fs = earlier ++ e :: later) :
    (∃ rest, es = earlier ++ e :: rest) ∨ ∃ mid, earlier = es ++ mid ∧ fs = mid ++ e :: later := by
  rcases List.append_eq_append_iff.1 h with ⟨mid, hearlier, hfs⟩ | ⟨rest, hes, hlater⟩
  · exact .inr ⟨mid, hearlier, hfs⟩
  · cases rest with
    | nil =>
      rw [List.append_nil] at hes
      exact .inr ⟨[], by rw [hes, List.append_nil], hlater.symm⟩
    | cons d rest =>
      rw [List.cons_append, List.cons.injEq] at hlater
      exact .inl ⟨rest, by rw [hes, hlater.1]⟩

theorem cut_singleton {α : Type} {a e : α} {earlier later : List α}
    (h : [a] = earlier ++ e :: later) : earlier = [] ∧ e = a := by
  cases earlier with
  | nil =>
    rw [List.nil_append, List.cons.injEq] at h
    exact ⟨rfl, h.1.symm⟩
  | cons b bs => simp at h

theorem cut_pair {α : Type} {a b e : α} {earlier later : List α}
    (h : [a, b] = earlier ++ e :: later) : earlier = [] ∧ e = a ∨ earlier = [a] ∧ e = b := by
  cases earlier with
  | nil =>
    rw [List.nil_append, List.cons.injEq] at h
    exact .inl ⟨rfl, h.1.symm⟩
  | cons c cs =>
    rw [List.cons_append, List.cons.injEq] at h
    obtain ⟨rfl, he⟩ := cut_singleton h.2
    exact .inr ⟨by rw [h.1], he⟩

namespace Told

variable {s t u : Stage} {es fs : List ProtocolEvent}

theorem append (h : Told s es t) (k : Told t fs u) : Told s (es ++ fs) u where
  changes := by
    rw [changes_append]
    exact h.changes.append k.changes
  text earlier fragment later he := by
    rcases cut_append he with ⟨rest, hes⟩ | ⟨mid, rfl, hfs⟩
    · exact h.text earlier fragment rest hes
    · rw [changes_append]
      exact h.changes.append (k.text mid fragment later hfs)
  toolCallStart earlier id name later he := by
    rcases cut_append he with ⟨rest, hes⟩ | ⟨mid, rfl, hfs⟩
    · exact h.toolCallStart earlier id name rest hes
    · obtain ⟨first, source, rfl⟩ := k.toolCallStart mid id name later hfs
      exact ⟨es ++ first, source, (List.append_assoc ..).symm⟩
  toolCallEnd earlier call later he := by
    rcases cut_append he with ⟨rest, hes⟩ | ⟨mid, rfl, hfs⟩
    · exact h.toolCallEnd earlier call rest hes
    · obtain ⟨first, source, rfl⟩ := k.toolCallEnd mid call later hfs
      exact ⟨es ++ first, source, (List.append_assoc ..).symm⟩

theorem nothing (s : Stage) : Told s [] s where
  changes := .stay s
  text := by simp
  toolCallStart := by simp
  toolCallEnd := by simp

theorem change (h : s.allows t = true) : Told s [.stageChange s t] t where
  changes := .change h (.stay t)
  text _ _ _ he := nomatch (cut_singleton he).2
  toolCallStart _ _ _ _ he := nomatch (cut_singleton he).2
  toolCallEnd _ _ _ he := nomatch (cut_singleton he).2

theorem fragment (x : String) : Told .streaming [.text x] .streaming where
  changes := .stay _
  text earlier _ _ he := by
    rw [(cut_singleton he).1]
    exact .stay _
  toolCallStart _ _ _ _ he := nomatch (cut_singleton he).2
  toolCallEnd _ _ _ he := nomatch (cut_singleton he).2

theorem callStarted (h : s.allows .toolUse = true) (id name : String) :
    Told s [.stageChange s .toolUse, .toolCallStart id name] .toolUse where
  changes := .change h (.stay _)
  text _ _ _ he := by
    rcases cut_pair he with ⟨-, he⟩ | ⟨-, he⟩ <;> cases he
  toolCallStart earlier _ _ _ he := by
    rcases cut_pair he with ⟨-, he⟩ | ⟨hfirst, -⟩
    · cases he
    · exact ⟨[], s, hfirst⟩
  toolCallEnd _ _ _ he := by
    rcases cut_pair he with ⟨-, he⟩ | ⟨-, he⟩ <;> cases he

theorem callEnded (h : s.allows .executing = true) (call : ToolCall) :
    Told s [.stageChange s .executing, .toolCallEnd call] .executing where
  changes := .change h (.stay _)
  text _ _ _ he := by
    rcases cut_pair he with ⟨-, he⟩ | ⟨-, he⟩ <;> cases he
  toolCallStart _ _ _ _ he := by
    rcases cut_pair he with ⟨-, he⟩ | ⟨-, he⟩ <;> cases he
  toolCallEnd earlier _ _ he := by
    rcases cut_pair he with ⟨-, he⟩ | ⟨hfirst, -⟩
    · cases he
    · exact ⟨[], s, hfirst⟩

end Told

/-! ## The first part of a way -/

/-- The stage that some events lead to. -/
def stageAfter (s : Stage) (es : List ProtocolEvent) : Stage :=
  (changes es).foldl (fun _ c => c.2) s

theorem Leads.foldl_eq {s t : Stage} {cs : List (Stage × Stage)} (h : Leads s cs t) :
    cs.foldl (fun _ c => c.2) s = t := by
  induction h with
  | stay => rfl
  | change _ _ ih => exact ih

theorem Leads.of_append {s t : Stage} {cs ds : List (Stage × Stage)} (h : Leads s (cs ++ ds) t) :
    ∃ u, Leads s cs u := by
  induction cs generalizing s with
  | nil => exact ⟨s, .stay s⟩
  | cons c cs ih =>
    cases h with
    | change hallowed hlater =>
      obtain ⟨u, hu⟩ := ih hlater
      exact ⟨u, .change hallowed hu⟩

/-- The first part of what tells a way tells the first part of the way. -/
theorem Told.of_append {s t : Stage} {es fs : List ProtocolEvent} (h : Told s (es ++ fs) t) :
    Told s es (stageAfter s es) where
  changes := by
    obtain ⟨u, hu⟩ := (changes_append es fs ▸ h.changes).of_append
    rw [stageAfter, hu.foldl_eq]
    exact hu
  text earlier fragment later he :=
    h.text earlier fragment (later ++ fs) (by rw [he, List.append_assoc, List.cons_append])
  toolCallStart earlier id name later he :=
    h.toolCallStart earlier id name (later ++ fs) (by rw [he, List.append_assoc, List.cons_append])
  toolCallEnd earlier call later he :=
    h.toolCallEnd earlier call (later ++ fs) (by rw [he, List.append_assoc, List.cons_append])

/-! ## One operation -/

/-- The stage that an operation leads to. -/
def Op.target : Op → Stage
  | .begin | .text _ => .streaming
  | .toolCallStart _ _ => .toolUse
  | .toolCallEnd _ | .abandonToolCall => .executing
  | .finish => .done
  | .reset => .idle
  | .transition target => target

/-- What an operation announces besides changes of stage. -/
def Op.remarks : Op → List ProtocolEvent
  | .text fragment => [.text fragment]
  | .toolCallStart id name => [.toolCallStart id name]
  | .toolCallEnd call => [.toolCallEnd call]
  | _ => []

/-- Whether an operation can be performed at a stage. Text and new calls may also come after a
complete call; all else needs an allowed change. -/
def Op.fits : Op → Stage → Bool
  | .text _, s | .toolCallStart _ _, s => s = .streaming || s = .executing
  | op, s => s.allows op.target

/-- A step that fits leads to its target, and its events tell the way; one that does not fit fails
and does nothing. -/
structure Sound (fits : Bool) (s target : Stage) (rs : List ProtocolEvent) (step : Step) :
    Prop where
  done : fits = true → step.failure = none ∧ step.stage = target ∧ Told s step.events target ∧
    remarks step.events = rs
  refused : fits = false → step = { stage := s, failure := some (illegal s target) }

theorem sound_transition (s target : Stage) :
    Sound (s.allows target) s target [] (transition s target) where
  done hfits := by
    rw [transition, if_pos hfits]
    exact ⟨rfl, rfl, .change hfits, rfl⟩
  refused hfits := if_neg (hfits ▸ Bool.false_ne_true)

/-- A change with something announced right after it. -/
theorem sound_opening {s target : Stage} {e : ProtocolEvent} (he : remarks [e] = [e])
    (htold : s.allows target = true → Told s [.stageChange s target, e] target) :
    Sound (s.allows target) s target [e] ((transition s target).andThen fun s => announce s e) where
  done hfits := by
    rw [transition, if_pos hfits]
    exact ⟨rfl, rfl, htold hfits, he⟩
  refused hfits := by
    rw [transition, if_neg (hfits ▸ Bool.false_ne_true)]
    rfl

/-- What is done where the answer streams can be done after a complete call, too. -/
theorem sound_resume {fits : Stage → Bool} {target : Stage} {rs : List ProtocolEvent}
    {next : Stage → Step} (hnext : ∀ s, Sound (fits s) s target rs (next s))
    (hstreaming : fits .streaming = true) {s : Stage} :
    Sound (s = .executing || fits s) s target rs ((resume s).andThen next) := by
  by_cases hs : s = .executing
  · subst hs
    obtain ⟨hfailure, hstage, htold, hremarks⟩ := (hnext .streaming).done hstreaming
    have hchange : Told .executing [.stageChange .executing .streaming] .streaming := .change rfl
    exact ⟨fun _ => ⟨hfailure, hstage, hchange.append htold, hremarks⟩, fun h => nomatch h⟩
  · rw [resume, if_neg hs, decide_eq_false hs, Bool.false_or]
    exact hnext s

theorem sound_text (fragment : String) (s : Stage) :
    Sound (s = .streaming) s .streaming [.text fragment]
      (if s = .streaming then announce s (.text fragment)
        else { stage := s, failure := some (illegal s .streaming) }) where
  done hfits := by
    have hs := of_decide_eq_true hfits
    rw [if_pos hs, hs]
    exact ⟨rfl, rfl, .fragment fragment, rfl⟩
  refused hfits := if_neg (of_decide_eq_false hfits)

theorem andThen_assoc (a : Step) (f g : Stage → Step) :
    (a.andThen f).andThen g = a.andThen fun s => (f s).andThen g := by
  unfold Step.andThen
  cases ha : a.failure with
  | some e => simp [ha]
  | none => cases hf : (f a.stage).failure <;> simp [hf]

theorem Op.sound (op : Op) (s : Stage) :
    Sound (op.fits s) s op.target op.remarks (op.step s) := by
  cases op with
  | begin => exact sound_transition s .streaming
  | text fragment =>
    have hsound := sound_resume (sound_text fragment) rfl (s := s)
    rwa [Bool.or_comm] at hsound
  | toolCallStart id name =>
    have hopening : ∀ s : Stage, Sound (s.allows .toolUse) s .toolUse [.toolCallStart id name]
        ((Protocol.transition s .toolUse).andThen fun s => announce s (.toolCallStart id name)) :=
      fun s => sound_opening rfl fun h => .callStarted h id name
    have hfits : (Op.toolCallStart id name).fits s = (s = .executing || s.allows .toolUse) := by
      cases s <;> rfl
    have hstep : (Op.toolCallStart id name).step s = (resume s).andThen fun s =>
        (Protocol.transition s .toolUse).andThen fun s => announce s (.toolCallStart id name) := by
      rw [step, Protocol.toolCallStart, andThen_assoc]
    rw [hstep, hfits]
    exact sound_resume hopening rfl
  | toolCallEnd call => exact sound_opening rfl fun h => .callEnded h call
  | abandonToolCall => exact sound_transition s .executing
  | finish => exact sound_transition s .done
  | reset => exact sound_transition s .idle
  | transition target => exact sound_transition s target

end TurnEngine.Protocol
