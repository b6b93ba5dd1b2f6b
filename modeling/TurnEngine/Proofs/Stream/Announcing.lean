import TurnEngine.Proofs.Listeners.Numbers
import TurnEngine.Proofs.Stream.Replay
import TurnEngine.Proofs.Stream.Ways

/-!
# What machines announce

Listeners come and go, also while others are told of an event. What goes on from one moment to
another leads from world to world by what the listeners do, and removes those who were dismissed or
whom a listener removed (`Course`); and it is fair to them: a listener hears what happens while it
is there (`Fair`). Telling an event is fair (`fair_tell`), and fairness goes on from one part of a
run to the next (`Fair.trans`), so that every run is fair (`fair_run`). The log of a run has its
acts one after the other (`Recorded`), and what happens in it tells the way of the machine.
`announced_run` says what that comes to for an operation and for a listener.
-/

namespace TurnEngine.Protocol

section
variable {κ σ : Type} (hear : Behaviour κ σ) {m t u : Machine κ σ} {new more : List (Entry κ)}

/-! ## Between two moments -/

/-- What went on from one moment to another, and who is there at the end. -/
structure Course (m t : Machine κ σ) (new : List (Entry κ)) : Prop where
  log : t.log = m.log ++ new
  world : t.world = worldAfter hear m.world new
  numbered : t.listeners.Numbered
  given : m.listeners.nextId ≤ t.listeners.nextId
  there : ∀ n < m.listeners.nextId,
    n ∈ t.listeners.numbers ↔ n ∈ m.listeners.numbers ∧ n ∉ removals hear m.world new
  known : ∀ x ∈ t.listeners.entries, x ∈ m.listeners.entries ∨ .joined x.1 x.2 ∈ new

/-- A listener that is there hears what happens until it is removed; one that was removed before or
comes later hears nothing. -/
structure Fair (m t : Machine κ σ) (new : List (Entry κ)) : Prop extends Course hear m t new where
  heard : ∀ n ∈ m.listeners.numbers,
    heardBy n new = announcements (whileThere hear n m.world new)
  silent : ∀ n, n ∉ m.listeners.numbers →
    n < m.listeners.nextId ∨ t.listeners.nextId ≤ n → heardBy n new = []
  called : ∀ n c e, .told n c e ∈ new → (n, c) ∈ m.listeners.entries ∨ .joined n c ∈ new

variable {hear}

namespace Course

theorem trans (h : Course hear m t new) (k : Course hear t u more) :
    Course hear m u (new ++ more) where
  log := by rw [k.log, h.log, List.append_assoc]
  world := by rw [k.world, h.world, worldAfter_append]
  numbered := k.numbered
  given := Nat.le_trans h.given k.given
  there n hn := by
    rw [k.there n (Nat.lt_of_lt_of_le hn h.given), h.there n hn, removals_append, ← h.world,
      List.mem_append, not_or, and_assoc]
  known x hx := by
    rcases k.known x hx with hx | hx
    · exact (h.known x hx).imp_right (List.mem_append_left _)
    · exact .inr (List.mem_append_right _ hx)

/-- The listeners and the world stay as they are. -/
theorem same (hm : m.listeners.Numbered) (hlisteners : t.listeners = m.listeners)
    (hworld : t.world = m.world) (hlog : t.log = m.log ++ new)
    (hnew : removals hear m.world new = []) (hafter : worldAfter hear m.world new = m.world) :
    Course hear m t new where
  log := hlog
  world := hworld.trans hafter.symm
  numbered := hlisteners ▸ hm
  given := Nat.le_of_eq (by rw [hlisteners])
  there n _ := by simp [hlisteners, hnew]
  known x hx := .inl (hlisteners ▸ hx)

/-- Nothing goes on that listeners would notice. -/
theorem idle (hm : m.listeners.Numbered) (hlisteners : t.listeners = m.listeners)
    (hworld : t.world = m.world) (hlog : t.log = m.log) : Course hear m t [] :=
  same hm hlisteners hworld (hlog.trans (List.append_nil _).symm) rfl rfl

theorem listen (hm : m.listeners.Numbered) (c : κ) :
    Course hear m (m.listen c).2 [.joined (m.listen c).1 c] where
  log := rfl
  world := rfl
  numbered := hm.register c
  given := Nat.le_succ _
  there n hn := by
    refine Hub.mem_numbers_register.trans ⟨fun h => ⟨?_, nofun⟩, fun h => .inl h.1⟩
    exact h.resolve_right (Nat.ne_of_lt hn)
  known x hx := by
    rcases List.mem_append.1 hx with hx | hx
    · exact .inl hx
    · obtain rfl := List.mem_singleton.1 hx
      exact .inr (List.mem_singleton.2 rfl)

theorem unlisten (hm : m.listeners.Numbered) (n : Nat) :
    Course hear m (m.unlisten n) [.dismissed n] where
  log := rfl
  world := rfl
  numbered := hm.unregister n
  given := Nat.le_refl _
  there k _ := Hub.mem_numbers_unregister.trans (by simp [removals, Entry.removed])
  known _ hx := .inl (List.mem_of_mem_filter hx)

/-- One listener is told of an event, and does what it does. -/
theorem tellOne (hm : m.listeners.Numbered) (e : ProtocolEvent) (n : Nat) (c : κ) :
    Course hear m (m.tellOne hear e n c) [.told n c e] where
  log := rfl
  world := rfl
  numbered := hm.unregisterAll _
  given := Nat.le_of_eq (by rw [Machine.tellOne, Hub.unregisterAll_eq])
  there k _ := Hub.mem_numbers_unregisterAll.trans (by simp [removals, Entry.removed])
  known x hx := by
    rw [Machine.tellOne, Hub.unregisterAll_eq] at hx
    exact .inl (List.mem_of_mem_filter hx)

/-- All of some listeners are told, whoever is removed meanwhile. -/
theorem tellEach (hm : m.listeners.Numbered) (e : ProtocolEvent) (xs : List (Nat × κ)) :
    Course hear m (xs.foldl (fun m x => m.tellOne hear e x.1 x.2) m) (tellings xs e) := by
  induction xs generalizing m with
  | nil => exact idle hm rfl rfl rfl
  | cons x xs ih =>
    have hfirst : Course hear m _ _ := tellOne hm e x.1 x.2
    exact hfirst.trans (ih hfirst.numbered)

end Course

namespace Fair

theorem trans (hm : m.listeners.Numbered) (h : Fair hear m t new) (k : Fair hear t u more) :
    Fair hear m u (new ++ more) where
  toCourse := h.toCourse.trans k.toCourse
  heard n hn := by
    have hgiven := hm.lt_of_mem hn
    rw [heardBy_append, h.heard n hn, whileThere_append]
    split
    · rename_i hleft
      have hgone : n ∉ t.listeners.numbers := fun hmem => ((h.there n hgiven).1 hmem).2 hleft
      rw [k.silent n hgone (.inl (Nat.lt_of_lt_of_le hgiven h.given)), List.append_nil]
    · rename_i hleft
      rw [whileThere_of_not_mem hear hleft, announcements_append, ← h.world,
        k.heard n ((h.there n hgiven).2 ⟨hn, hleft⟩)]
  silent n hn hwhen := by
    have hgone : n ∉ t.listeners.numbers := fun hmem => by
      rcases hwhen with hbefore | hafter
      · exact hn ((h.there n hbefore).1 hmem).1
      · exact absurd (h.numbered.lt_of_mem hmem) (Nat.not_lt.2 (Nat.le_trans k.given hafter))
    rw [heardBy_append,
      h.silent n hn (hwhen.imp_right fun hafter => Nat.le_trans k.given hafter),
      k.silent n hgone (hwhen.imp_left fun hbefore => Nat.lt_of_lt_of_le hbefore h.given)]
    rfl
  called n c e he := by
    have hleft (hc : .joined n c ∈ new) : .joined n c ∈ new ++ more := List.mem_append_left _ hc
    rcases List.mem_append.1 he with he | he
    · exact (h.called n c e he).imp_right hleft
    · rcases k.called n c e he with hc | hc
      · exact (h.known _ hc).imp_right hleft
      · exact .inr (List.mem_append_right _ hc)

/-- Nobody is told anything where nothing happens. -/
theorem quiet (h : Course hear m t new) (hevents : announcements new = [])
    (htold : ∀ n c e, .told n c e ∉ new) : Fair hear m t new := by
  have hsilent (n : Nat) : heardBy n new = [] := by
    refine List.filterMap_eq_nil_iff.2 fun x hx => ?_
    cases x with
    | told k c e => exact absurd hx (htold k c e)
    | _ => rfl
  exact ⟨h, fun n _ => by rw [hsilent, announcements_whileThere hear hevents],
    fun n _ _ => hsilent n, fun n c e he => absurd he (htold n c e)⟩

theorem idle (hm : m.listeners.Numbered) (hlisteners : t.listeners = m.listeners)
    (hworld : t.world = m.world) (hlog : t.log = m.log) : Fair hear m t [] :=
  quiet (.idle hm hlisteners hworld hlog) rfl fun _ _ _ => List.not_mem_nil

end Fair

/-! ## Telling the listeners -/

/-- What goes on while some events happen, each told to the listeners before the next one. -/
inductive Emitted : List ProtocolEvent → List (Entry κ) → Prop
  | nothing : Emitted [] []
  | event {e : ProtocolEvent} {es : List ProtocolEvent} {more : List (Entry κ)}
      (xs : List (Nat × κ)) : Emitted es more →
      Emitted (e :: es) (.announced e :: tellings xs e ++ more)

theorem Emitted.announcements {es : List ProtocolEvent} {log : List (Entry κ)}
    (h : Emitted es log) : Protocol.announcements log = es := by
  induction h with
  | nothing => rfl
  | @event e es more xs _ ih =>
    have hcons (log : List (Entry κ)) : Protocol.announcements (.announced e :: log) =
        e :: Protocol.announcements log := rfl
    rw [List.cons_append, hcons, announcements_append, announcements_tellings, ih, List.nil_append]

theorem Emitted.nobodyJoins {es : List ProtocolEvent} {log : List (Entry κ)} (h : Emitted es log)
    (n : Nat) (c : κ) : .joined n c ∉ log := by
  induction h with
  | nothing => exact List.not_mem_nil
  | event xs _ ih => simp [tellings, ih]

section
variable (hear)

/-- An event is told to every listener that is there, once. -/
theorem fair_tell (hm : m.listeners.Numbered) (e : ProtocolEvent) :
    Fair hear m (m.tell hear e) (.announced e :: tellings m.listeners.entries e) := by
  let announced : Machine κ σ := { m with log := m.log ++ [.announced e] }
  have hfirst : Course hear m announced [.announced e] := .same hm rfl rfl rfl rfl rfl
  have hheard (n : Nat) : heardBy n (.announced e :: tellings m.listeners.entries e) =
      if n ∈ m.listeners.numbers then [e] else [] := heardBy_tellings hm.nodup n e
  refine ⟨hfirst.trans (.tellEach hfirst.numbered e m.listeners.entries), fun n hn => ?_,
    fun n hn _ => ?_, fun n c e' he => ?_⟩
  · have hperiod : announcements
        (whileThere hear n m.world (.announced e :: tellings m.listeners.entries e)) =
        e :: announcements (whileThere hear n m.world (tellings m.listeners.entries e)) := rfl
    rw [hperiod, announcements_whileThere hear (announcements_tellings _ e), hheard, if_pos hn]
  · rw [hheard, if_neg hn]
  · obtain ⟨x, hx, he⟩ := List.mem_map.1 ((List.mem_cons.1 he).resolve_left nofun)
    cases he
    exact .inl hx

theorem fair_tellAll (hm : m.listeners.Numbered) (es : List ProtocolEvent) :
    ∃ new, Fair hear m (es.foldl (Machine.tell hear) m) new ∧ Emitted es new := by
  induction es generalizing m with
  | nil => exact ⟨[], .idle hm rfl rfl rfl, .nothing⟩
  | cons e es ih =>
    have hfirst := fair_tell hear hm e
    obtain ⟨later, hlater, hevents⟩ := ih hfirst.numbered
    exact ⟨_, hfirst.trans hm hlater, .event _ hevents⟩

/-- While others are told of an event, the machine stays where it is and nobody joins. -/
theorem tell_keeps (m : Machine κ σ) (e : ProtocolEvent) :
    (m.tell hear e).stage = m.stage ∧ (m.tell hear e).listeners.nextId = m.listeners.nextId := by
  refine List.foldlRecOn
    (motive := fun t : Machine κ σ => t.stage = m.stage ∧ t.listeners.nextId = m.listeners.nextId)
    _ _ ⟨rfl, rfl⟩ fun t ht x _ => ⟨ht.1, ?_⟩
  rw [Machine.tellOne, Hub.unregisterAll_eq]
  exact ht.2

theorem tellAll_keeps (m : Machine κ σ) (es : List ProtocolEvent) :
    (es.foldl (Machine.tell hear) m).stage = m.stage ∧
      (es.foldl (Machine.tell hear) m).listeners.nextId = m.listeners.nextId :=
  List.foldlRecOn
    (motive := fun t : Machine κ σ => t.stage = m.stage ∧ t.listeners.nextId = m.listeners.nextId)
    _ _ ⟨rfl, rfl⟩ fun t ht e _ =>
      ⟨(tell_keeps hear t e).1.trans ht.1, (tell_keeps hear t e).2.trans ht.2⟩

end

/-! ## Runs -/

/-- Something that is done with a machine. -/
inductive Act (κ : Type) where
  | perform (op : Op)
  | listen (c : κ)
  | unlisten (n : Nat)

/-- The machine after an act. -/
def act (hear : Behaviour κ σ) (m : Machine κ σ) : Act κ → Machine κ σ
  | .perform op => (m.perform hear op).1
  | .listen c => (m.listen c).2
  | .unlisten n => m.unlisten n

/-- The machine after some acts. -/
def run (hear : Behaviour κ σ) (acts : List (Act κ)) (m : Machine κ σ) : Machine κ σ :=
  acts.foldl (act hear) m

/-- What goes on during some acts from a stage on, the next listener having a number: listeners come
and are removed by hand as the acts have it, and operations tell their events. -/
inductive Recorded : Stage → Nat → List (Act κ) → List (Entry κ) → Prop
  | nothing {s : Stage} {next : Nat} : Recorded s next [] []
  | listen {s : Stage} {next : Nat} {c : κ} {acts : List (Act κ)} {log : List (Entry κ)} :
      Recorded s (next + 1) acts log →
      Recorded s next (.listen c :: acts) (.joined next c :: log)
  | unlisten {s : Stage} {next n : Nat} {acts : List (Act κ)} {log : List (Entry κ)} :
      Recorded s next acts log → Recorded s next (.unlisten n :: acts) (.dismissed n :: log)
  | perform {s : Stage} {next : Nat} {op : Op} {acts : List (Act κ)} {told log : List (Entry κ)} :
      Emitted (op.step s).events told → Recorded (op.step s).stage next acts log →
      Recorded s next (.perform op :: acts) (told ++ log)

/-- Numbers are given in ascending order. -/
theorem Recorded.le_of_joined {s : Stage} {next n : Nat} {c : κ} {acts : List (Act κ)}
    {log : List (Entry κ)} (h : Recorded s next acts log) (hc : .joined n c ∈ log) : next ≤ n := by
  induction h with
  | nothing => cases hc
  | @listen s next c' acts log _ ih =>
    rcases List.mem_cons.1 hc with he | hc
    · cases he
      exact Nat.le_refl _
    · exact Nat.le_of_succ_le (ih hc)
  | unlisten _ ih => exact ih ((List.mem_cons.1 hc).resolve_left nofun)
  | perform hevents _ ih => exact ih ((List.mem_append.1 hc).resolve_left (hevents.nobodyJoins n c))

section
variable (hear)

/-- What an operation announces is told to the listeners. -/
theorem fair_perform (hm : m.listeners.Numbered) (op : Op) :
    ∃ new, Fair hear m (m.perform hear op).1 new ∧ Emitted (op.step m.stage).events new := by
  let arrived : Machine κ σ := { m with stage := (op.step m.stage).stage }
  have hfirst : Fair hear m arrived [] := .idle hm rfl rfl rfl
  obtain ⟨new, hfair, hevents⟩ := fair_tellAll hear hfirst.numbered (op.step m.stage).events
  exact ⟨new, hfirst.trans hm hfair, hevents⟩

theorem perform_keeps (m : Machine κ σ) (op : Op) :
    (m.perform hear op).1.stage = (op.step m.stage).stage ∧
      (m.perform hear op).1.listeners.nextId = m.listeners.nextId :=
  tellAll_keeps hear _ _

/-- The events of an operation tell its way, also where it fails. -/
theorem told_perform (m : Machine κ σ) (op : Op) :
    Told m.stage (op.step m.stage).events (m.perform hear op).1.stage := by
  rw [(perform_keeps hear m op).1]
  have hsound := op.sound m.stage
  cases hfits : op.fits m.stage with
  | true =>
    obtain ⟨-, hstage, htold, -⟩ := hsound.done hfits
    exact hstage ▸ htold
  | false =>
    rw [hsound.refused hfits]
    exact .nothing _

/-- Every run is fair, its log has its acts, and what happens in it tells its way. -/
theorem fair_run (hm : m.listeners.Numbered) (acts : List (Act κ)) :
    ∃ new, Fair hear m (run hear acts m) new ∧
      Recorded m.stage m.listeners.nextId acts new ∧
      Told m.stage (announcements new) (run hear acts m).stage := by
  induction acts generalizing m with
  | nil => exact ⟨[], .idle hm rfl rfl rfl, .nothing, .nothing _⟩
  | cons a acts ih =>
    cases a with
    | perform op =>
      obtain ⟨first, hfirst, hevents⟩ := fair_perform hear hm op
      obtain ⟨later, hlater, hrecorded, htold⟩ := ih hfirst.numbered
      rw [(perform_keeps hear m op).1, (perform_keeps hear m op).2] at hrecorded
      refine ⟨first ++ later, hfirst.trans hm hlater, .perform hevents hrecorded, ?_⟩
      rw [announcements_append, hevents.announcements]
      exact (told_perform hear m op).append htold
    | listen c =>
      have hfirst : Fair hear m (m.listen c).2 [.joined (m.listen c).1 c] :=
        .quiet (.listen hm c) rfl (by simp)
      obtain ⟨later, hlater, hrecorded, htold⟩ := ih hfirst.numbered
      exact ⟨_, hfirst.trans hm hlater, .listen hrecorded, htold⟩
    | unlisten n =>
      have hfirst : Fair hear m (m.unlisten n) [.dismissed n] :=
        .quiet (.unlisten hm n) rfl (by simp)
      obtain ⟨later, hlater, hrecorded, htold⟩ := ih hfirst.numbered
      exact ⟨_, hfirst.trans hm hlater, .unlisten hrecorded, htold⟩

end

/-! ## Operations and listeners -/

/-- An operation that was performed: the machine is where the operation leads, and what was
announced tells the way there. -/
structure Done (op : Op) (m t : Machine κ σ) : Prop where
  stage : t.stage = op.target
  announced : ∃ events, announcements t.log = announcements m.log ++ events ∧
    Told m.stage events op.target ∧ remarks events = op.remarks

/-- What a listener that was registered under a number has of a run from then on, to some moment:
the log tells who was called, the calls lead to the present world, and the listener heard what
happened until somebody removed it. -/
structure Attended (hear : Behaviour κ σ) (m : Machine κ σ) (n : Nat) (c : κ)
    (rest : List (Act κ)) (t : Machine κ σ) (later : List (Entry κ)) : Prop where
  log : t.log = m.log ++ .joined n c :: later
  recorded : Recorded m.stage (n + 1) rest later
  /-- Only registered listeners are called, each by what was registered under its number. -/
  called : ∀ k d e, .told k d e ∈ t.log → .joined k d ∈ t.log
  own : ∀ d e, .told n d e ∈ t.log → d = c
  world : t.world = worldAfter hear m.world later
  heard : heardBy n t.log = announcements (whileThere hear n m.world later)
  way : Told m.stage (announcements (whileThere hear n m.world later))
    (stageAfter m.stage (announcements (whileThere hear n m.world later)))
  there : n ∈ t.listeners.numbers ↔ n ∉ removals hear m.world later
  stage : t.stage = stageAfter m.stage (announcements later)

section
variable (hear)

/-- An operation that fits is done; one that does not fails and leaves everything as it was. -/
theorem perform_atomic (hm : m.listeners.Numbered) (op : Op) :
    if op.fits m.stage then
      (m.perform hear op).2 = none ∧ Done op m (m.perform hear op).1
    else m.perform hear op = (m, some (illegal m.stage op.target)) := by
  have hsound := op.sound m.stage
  split
  · rename_i hfits
    obtain ⟨hfailure, hstage, htold, hremarks⟩ := hsound.done hfits
    obtain ⟨new, hfair, hevents⟩ := fair_perform hear hm op
    refine ⟨hfailure, (perform_keeps hear m op).1.trans hstage, _, ?_, htold, hremarks⟩
    rw [hfair.log, announcements_append, hevents.announcements]
  · rename_i hfits
    rw [Machine.perform, hsound.refused (Bool.not_eq_true _ ▸ hfits)]
    rfl

/-- In every run, an operation is done and tells its way, or it does not fit and leaves everything
as it was. What a listener is told is what happens from its registration until its removal, and it
tells the way of the machine from its stage at the registration on: the whole way until now, if the
listener is still there. It is removed by an act or by a listener that removes it when it is told of
an event, and the world is what the listeners made of it. -/
theorem announced_run (world : σ) (before : List (Act κ)) :
    let m := run hear before { world }
    (∀ op, if op.fits m.stage then
        (m.perform hear op).2 = none ∧ Done op m (m.perform hear op).1
      else m.perform hear op = (m, some (illegal m.stage op.target))) ∧
    ∀ c rest, ∃ later,
      Attended hear m (m.listen c).1 c rest (run hear rest (m.listen c).2) later := by
  intro m
  obtain ⟨earlier, hearlier, -, -⟩ :=
    fair_run hear (m := ({ world } : Machine κ σ)) Hub.numbered_new before
  refine ⟨fun op => perform_atomic hear hearlier.numbered op, fun c rest => ?_⟩
  have hjoined : Fair hear m (m.listen c).2 [.joined (m.listen c).1 c] :=
    .quiet (.listen hearlier.numbered c) rfl (by simp)
  obtain ⟨later, hlater, hrecorded, htold⟩ := fair_run hear hjoined.numbered rest
  have hall := (hearlier.trans Hub.numbered_new hjoined).trans Hub.numbered_new hlater
  have hmem : (m.listen c).1 ∈ (m.listen c).2.listeners.numbers :=
    Hub.mem_numbers_register.2 (.inr rfl)
  have hlog : (run hear rest (m.listen c).2).log = m.log ++ .joined (m.listen c).1 c :: later := by
    rw [hlater.log, hjoined.log, List.append_assoc]
    rfl
  have hbefore : heardBy (m.listen c).1 m.log = [] := by
    rw [hearlier.log]
    exact hearlier.silent _ (fun h => nomatch h) (.inr (Nat.le_refl _))
  refine ⟨later, hlog, hrecorded, fun k d e he => ?_, fun d e he => ?_, hlater.world, ?_, ?_, ?_,
    htold.changes.foldl_eq.symm⟩
  · rw [hall.log] at he ⊢
    exact (hall.called k d e he).resolve_left List.not_mem_nil
  · rw [hlog] at he
    rcases List.mem_append.1 he with he | he
    · exact absurd (mem_heardBy he) (by rw [hbefore]; exact List.not_mem_nil)
    · rcases hlater.called _ d e ((List.mem_cons.1 he).resolve_left nofun) with hd | hd
      · rcases List.mem_append.1 hd with hd | hd
        · exact absurd (hearlier.numbered.given _ hd) (Nat.lt_irrefl _)
        · exact congrArg Prod.snd (List.mem_singleton.1 hd)
      · exact absurd (hrecorded.le_of_joined hd) (Nat.not_succ_le_self _)
  · rw [hlog, heardBy_append, hbefore]
    exact hlater.heard _ hmem
  · obtain ⟨after, hafter⟩ := whileThere_initial hear (m.listen c).1 m.world later
    rw [← hafter, announcements_append] at htold
    exact htold.of_append
  · exact (hlater.there _ (Nat.lt_succ_self _)).trans (and_iff_right hmem)

end

/-- Listeners that leave their names in the world. When text comes, the first one removes the second
one, which panics whenever it is told of something. -/
def rivals : Behaviour String (List String) := fun c e names =>
  let removed := match e with
    | .text _ => if c = "a" then [1] else []
    | _ => []
  (if c = "b" then .error .panic else .ok (), { world := names ++ [c], removed })

/-- The second of two listeners is removed by the first one while both are told of a text, the first
one is removed by hand later on, and an operation fails before the third one hears of a reset. -/
theorem announced_run_removed_by_another :
    let before : List (Act String) := [.listen "a"]
    let rest : List (Act String) := [.perform .begin, .perform (.text "x"), .perform .finish,
      .listen "c", .unlisten 0, .perform .begin, .perform .reset]
    let m := run rivals before { world := [] }
    let t := run rivals rest (m.listen "b").2
    (∃ later, Attended rivals m 1 "b" rest t later) ∧
      heardBy 1 t.log = [.stageChange .idle .streaming, .text "x"] ∧
      t.world = ["a", "b", "a", "b", "a", "c"] ∧
      t.listeners.numbers = [2] ∧ t.stage = .idle :=
  ⟨(announced_run rivals [] [.listen "a"]).2 "b" _, rfl, rfl, rfl, rfl⟩

end

end TurnEngine.Protocol
