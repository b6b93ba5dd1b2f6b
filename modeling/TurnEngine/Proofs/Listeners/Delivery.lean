import TurnEngine.Proofs.Listeners.Depth

/-!
# Delivery

Every emission calls the listeners that its hub had when it began, each once and in order, whatever
they do meanwhile (`Delivered`). The proof goes over what lies between two moments of a history
(`Goes`): what it adds to the calls of the emissions that are under way, and that every emission
that begins in between is delivered.
-/

namespace TurnEngine.Switchboard

variable {ε : Type} {s t u : Switchboard ε}

/-- An emission that began at a moment of a history, with what was done of it in the history: it
called the listeners that its hub had by then, once each and in order, with the event, and it came
to its end, after all of these calls. -/
structure Delivered (k hub : Nat) (event : ε) (log : List (Incident ε)) : Prop where
  calls : calls k log = (roster hub (log.take k)).map fun x => (x.1, x.2, event)
  once : ((roster hub (log.take k)).map (·.1)).Nodup
  ended : ∃ m, log[m]? = some (.ended k) ∧
    Switchboard.calls k ((log.take m).drop k) = Switchboard.calls k log

/-- An emission that is delivered stays so while it makes no more calls. -/
theorem Delivered.mono {k hub : Nat} {event : ε} {log log' : List (Incident ε)}
    (h : Delivered k hub event log) (hlog : log <+: log') (hk : k ≤ log.length)
    (hcalls : Switchboard.calls k log' = Switchboard.calls k log) :
    Delivered k hub event log' := by
  obtain ⟨more, rfl⟩ := hlog
  have htake : (log ++ more).take k = log.take k := List.take_append_of_le_length hk
  refine ⟨by rw [hcalls, htake, h.calls], by rw [htake]; exact h.once, ?_⟩
  obtain ⟨m, hm, hended⟩ := h.ended
  have hlt : m < log.length := (List.getElem?_eq_some_iff.1 hm).1
  refine ⟨m, ?_, ?_⟩
  · rw [List.getElem?_append_left hlt]
    exact hm
  · rw [List.take_append_of_le_length (Nat.le_of_lt hlt), hended, hcalls]

/-- What lies between two moments: the history grows, with some more calls of each emission that
began before, and every emission that begins in between is delivered. -/
structure Goes (s t : Switchboard ε) (added : Nat → List (Nat × Callback ε × ε)) : Prop where
  sound : Sound t
  registries : t.registries = s.registries
  log : s.log <+: t.log
  calls : ∀ k < s.log.length, calls k t.log = calls k s.log ++ added k
  delivered : ∀ k hub event, s.log.length ≤ k → t.log[k]? = some (.begun hub event) →
    Delivered k hub event t.log

namespace Goes

variable {f g : Nat → List (Nat × Callback ε × ε)}

theorem getElem? (h : Goes s t f) {k : Nat} (hk : k < s.log.length) : t.log[k]? = s.log[k]? := by
  obtain ⟨more, hmore⟩ := h.log
  rw [← hmore, List.getElem?_append_left hk]

/-- What was delivered stays delivered. -/
theorem keeps (h : Goes s t f) {k hub : Nat} {event : ε} (hk : k < s.log.length) (hf : f k = [])
    (hdelivered : Delivered k hub event s.log) : Delivered k hub event t.log := by
  refine hdelivered.mono h.log (Nat.le_of_lt hk) ?_
  rw [h.calls k hk, hf, List.append_nil]

theorem trans (h : Goes s t f) (k : Goes t u g) (hg : ∀ i, s.log.length ≤ i → g i = []) :
    Goes s u fun i => f i ++ g i where
  sound := k.sound
  registries := k.registries.trans h.registries
  log := h.log.trans k.log
  calls i hi := by
    rw [k.calls i (Nat.lt_of_lt_of_le hi h.log.length_le), h.calls i hi, List.append_assoc]
  delivered i hub event hi hbegun := by
    by_cases hit : i < t.log.length
    · exact k.keeps hit (hg i hi) (h.delivered i hub event hi (k.getElem? hit ▸ hbegun))
    · exact k.delivered i hub event (Nat.le_of_not_lt hit) hbegun

theorem refl (hs : Sound s) : Goes s s fun _ => [] where
  sound := hs
  registries := rfl
  log := List.prefix_rfl
  calls _ _ := (List.append_nil _).symm
  delivered _ _ _ hk hbegun :=
    absurd (List.getElem?_eq_some_iff.1 hbegun).1 (Nat.not_lt.2 hk)

/-- One incident that is not the beginning of an emission. -/
theorem single (x : Incident ε) (ht : Sound t) (hregistries : t.registries = s.registries)
    (hlog : t.log = s.log ++ [x]) (hx : ∀ hub event, x ≠ .begun hub event) :
    Goes s t fun k => Switchboard.calls k [x] where
  sound := ht
  registries := hregistries
  log := ⟨[x], hlog.symm⟩
  calls k _ := by rw [hlog, calls_append]
  delivered k hub event hk hbegun := by
    rw [hlog, List.getElem?_append_right hk] at hbegun
    have hx' := List.mem_singleton.1 (List.mem_of_getElem? hbegun)
    exact absurd hx'.symm (hx hub event)

/-- The hubs that are still there are the same. -/
theorem live (h : Goes s t f) (i : Nat) : t.live i = s.live i := by
  rw [Switchboard.live, Switchboard.live, h.registries]

end Goes

/-! ## Calls -/

section
variable {emit : Nat → ε → Switchboard ε → Option (Switchboard ε)}

/-- Emitting adds nothing to the calls of the emissions that are under way. -/
def Closed (emit : Nat → ε → Switchboard ε → Option (Switchboard ε)) : Prop :=
  ∀ hub event s t, Sound s → s.live hub = true → emit hub event s = some t →
    Goes s t fun _ => []

theorem goes_unregister (hs : Sound s) (name : String) :
    Goes s (s.unregister name) fun _ => [] := by
  have hsound := hs.unregister name
  unfold unregister at hsound ⊢
  split at hsound
  · exact .refl hs
  · rename_i hd _
    refine .single (.unregistered hd.hub hd.entry) hsound ?_ ?_ fun _ _ => nofun
    all_goals
      unfold giveUp
      split <;> rfl

theorem goes_perform (hemit : Closed emit) {hub : Nat} {r : Reflex ε} (hs : Sound s)
    (hlive : s.live hub = true) (h : perform emit hub s r = some t) : Goes s t fun _ => [] := by
  cases r with
  | panic =>
    obtain rfl := Option.some.inj h
    exact .refl hs
  | unregister name =>
    obtain rfl := Option.some.inj h
    exact goes_unregister hs name
  | register c =>
    obtain rfl := Option.some.inj h
    exact .single (.registered hub _ c) (hs.register hlive c) rfl rfl fun _ _ => nofun
  | emit event => exact hemit hub event s t hs hlive h

theorem goes_reflexes (hemit : Closed emit) {hub : Nat} {rs : List (Reflex ε)} (hs : Sound s)
    (hlive : s.live hub = true) (h : rs.foldlM (perform emit hub) s = some t) :
    Goes s t fun _ => [] := by
  induction rs generalizing s with
  | nil =>
    obtain rfl := Option.some.inj h
    exact .refl hs
  | cons r rs ih =>
    rw [List.foldlM_cons] at h
    obtain ⟨u, hfirst, hrest⟩ := Option.bind_eq_some_iff.1 h
    have hu := goes_perform hemit hs hlive hfirst
    exact hu.trans (ih hu.sound ((hu.live hub).trans hlive) hrest) fun _ _ => rfl

theorem goes_call (hemit : Closed emit) {hub k n : Nat} {event : ε} {c : Callback ε}
    (hs : Sound s) (hlive : s.live hub = true) (hk : k < s.log.length)
    (h : call emit hub k event n c s = some t) :
    Goes s t fun j => calls j [.called k n c event] := by
  have hnoted : Sound (s.note (.called k n c event)) :=
    hs.note (fun _ => rfl) (fun _ => rfl) fun _ hj =>
      calls_called_of_ne (Nat.ne_of_lt (Nat.lt_trans hk hj)) [(n, c)]
  have hcalled := Goes.single (s := s) (.called k n c event) hnoted rfl rfl fun _ _ => nofun
  have hall := hcalled.trans (goes_reflexes hemit hnoted hlive h) fun _ _ => rfl
  simpa only [List.append_nil] using hall

/-- Calling some listeners adds these calls to the emission that makes them, and nothing else to
those under way. -/
theorem goes_calls (hemit : Closed emit) {hub k : Nat} {event : ε} {xs : List (Nat × Callback ε)}
    (hs : Sound s) (hlive : s.live hub = true) (hk : k < s.log.length)
    (h : xs.foldlM (fun s x => call emit hub k event x.1 x.2 s) s = some t) :
    Goes s t fun j => calls j (xs.map fun x => .called k x.1 x.2 event) := by
  induction xs generalizing s with
  | nil =>
    obtain rfl := Option.some.inj h
    exact .refl hs
  | cons x xs ih =>
    rw [List.foldlM_cons] at h
    obtain ⟨u, hfirst, hrest⟩ := Option.bind_eq_some_iff.1 h
    have hu := goes_call hemit hs hlive hk hfirst
    have hlater := ih hu.sound ((hu.live hub).trans hlive)
      (Nat.lt_of_lt_of_le hk hu.log.length_le) hrest
    have hall := hu.trans hlater fun _ hj =>
      calls_called_of_ne (Nat.ne_of_lt (Nat.lt_of_lt_of_le hk hj)) xs
    simp only [← calls_append] at hall
    exact hall

end

/-! ## Emissions -/

/-- An emission that made its calls, of the listeners that its hub had when it began, is
delivered. -/
theorem delivered_of_calls {hub : Nat} {event : ε} (hs : Sound s) (hlive : s.live hub = true)
    (hu : Goes (s.note (.begun hub event)) u fun j =>
      calls j ((s.hub hub).entries.map fun x => .called s.log.length x.1 x.2 event)) :
    Delivered s.log.length hub event (u.note (.ended s.log.length)).log := by
  obtain ⟨more, hmore⟩ : s.log <+: u.log := (List.prefix_append ..).trans hu.log
  have hbefore : calls s.log.length s.log = [] := hs.calls _ (Nat.le_refl _)
  have hcalls : calls s.log.length u.log =
      (roster hub s.log).map fun x => (x.1, x.2, event) := by
    rw [hu.calls _ (by simp [note_log]), note_log, calls_append, hbefore, calls_called,
      (hs.hubs hub).entries hlive]
    rfl
  have hall : calls s.log.length (u.note (.ended s.log.length)).log = calls s.log.length u.log := by
    rw [note_log, calls_append]
    exact List.append_nil _
  have htake : (u.note (.ended s.log.length)).log.take s.log.length = s.log := by
    rw [note_log, ← hmore, List.append_assoc, List.take_left]
  refine ⟨by rw [hall, hcalls, htake], ?_, u.log.length, ?_, ?_⟩
  · rw [htake, ← (hs.hubs hub).entries hlive]
    exact (hs.hubs hub).numbered.nodup
  · rw [note_log, List.getElem?_concat_length]
  · rw [hall, note_log, List.take_left, ← hmore, List.drop_left, calls_append, hbefore]
    rfl

/-- An emission, given how those inside of it go. -/
theorem goes_emission {emit : Nat → ε → Switchboard ε → Option (Switchboard ε)}
    (hemit : Closed emit) {hub : Nat} {event : ε} (hs : Sound s) (hlive : s.live hub = true)
    (hcalls : (s.hub hub).emitEach? (call emit hub s.log.length event)
      (s.note (.begun hub event)) = some u) :
    (u.note (.ended s.log.length)).log[s.log.length]? = some (.begun hub event) ∧
      Goes s (u.note (.ended s.log.length)) fun _ => [] := by
  have hnoted : Sound (s.note (.begun hub event)) :=
    hs.note (fun _ => rfl) (fun _ => rfl) fun _ _ => rfl
  have hlength : (s.note (.begun hub event)).log.length = s.log.length + 1 := by
    rw [note_log, List.length_append]
    rfl
  have hu := goes_calls hemit hnoted hlive (hlength ▸ Nat.lt_succ_self _) hcalls
  have hended : Sound (u.note (.ended s.log.length)) :=
    hu.sound.note (fun _ => rfl) (fun _ => rfl) fun _ _ => rfl
  have hall := hu.trans
    (.single (s := u) (.ended s.log.length) hended rfl rfl fun _ _ => nofun) fun _ _ => rfl
  have hbegun : (u.note (.ended s.log.length)).log[s.log.length]? = some (.begun hub event) := by
    rw [hall.getElem? (hlength ▸ Nat.lt_succ_self _), note_log, List.getElem?_concat_length]
  refine ⟨hbegun, hended, hall.registries, (List.prefix_append ..).trans hall.log, fun j hj => ?_,
    fun j hub' event' hj hbegun' => ?_⟩
  · rw [hall.calls j (hlength ▸ Nat.lt_succ_of_lt hj), calls_called_of_ne (Nat.ne_of_gt hj),
      note_log, calls_append]
    show calls j s.log ++ [] ++ [] = _
    rw [List.append_nil]
  · rcases Nat.lt_or_eq_of_le hj with hj | rfl
    · exact hall.delivered j hub' event' (hlength ▸ hj) hbegun'
    · obtain ⟨rfl, rfl⟩ := Incident.begun.inj (Option.some.inj (hbegun.symm.trans hbegun'))
      exact delivered_of_calls hs hlive hu

theorem goes_emit (depth : Nat) : Closed (ε := ε) (emit depth) := by
  induction depth with
  | zero => intro _ _ _ _ _ _ h; cases h
  | succ depth ih =>
    intro hub event s t hs hlive h
    obtain ⟨u, hcalls, rfl⟩ := Option.map_eq_some_iff.1 h
    exact (goes_emission ih hs hlive hcalls).2

/-- An emission begins at the moment at which it is asked for. -/
theorem emit_begun {depth hub : Nat} {event : ε} (hs : Sound s) (hlive : s.live hub = true)
    (h : emit depth hub event s = some t) : t.log[s.log.length]? = some (.begun hub event) := by
  cases depth with
  | zero => cases h
  | succ depth =>
    obtain ⟨u, hcalls, rfl⟩ := Option.map_eq_some_iff.1 h
    exact (goes_emission (goes_emit depth) hs hlive hcalls).1

/-! ## Histories -/

/-- A moment between the things that are done: all emissions are delivered. -/
structure Settled (s : Switchboard ε) : Prop where
  sound : Sound s
  delivered : ∀ k hub event, s.log[k]? = some (.begun hub event) → Delivered k hub event s.log

theorem settled_new : Settled ({} : Switchboard ε) where
  sound := .new
  delivered _ _ _ h := nomatch h

theorem Settled.goes (h : Settled s) (hgoes : Goes s t fun _ => []) : Settled t where
  sound := hgoes.sound
  delivered k hub event hbegun := by
    by_cases hk : k < s.log.length
    · exact hgoes.keeps hk rfl (h.delivered k hub event (hgoes.getElem? hk ▸ hbegun))
    · exact hgoes.delivered k hub event (Nat.le_of_not_lt hk) hbegun

theorem live_of_hubOf? {registry hub : Nat} (h : s.hubOf? registry = some hub) :
    s.live hub = true :=
  List.contains_iff_mem.2 (List.mem_of_getElem? (Option.join_eq_some_iff.1 h))

theorem settled_act {depth : Nat} {a : Act ε} (h : Settled s) (ha : act depth s a = some t) :
    Settled t := by
  cases a with
  | register registry c =>
    obtain rfl := Option.some.inj ha
    cases hhub : s.hubOf? registry with
    | none => exact h
    | some hub =>
      exact h.goes (.single (.registered hub _ c) (h.sound.register (live_of_hubOf? hhub) c)
        rfl rfl fun _ _ => nofun)
  | unregister name =>
    obtain rfl := Option.some.inj ha
    exact h.goes (goes_unregister h.sound name)
  | forget name =>
    obtain rfl := Option.some.inj ha
    exact ⟨h.sound.fewer List.filter_sublist.subset, h.delivered⟩
  | emit registry event =>
    cases hhub : s.hubOf? registry with
    | none =>
      rw [act, hhub] at ha
      obtain rfl := Option.some.inj ha
      exact h
    | some hub =>
      rw [act, hhub] at ha
      exact h.goes (goes_emit depth hub event s t h.sound (live_of_hubOf? hhub) ha)
  | clone registry =>
    obtain rfl := Option.some.inj ha
    refine ⟨h.sound.registries fun i hi => ?_, h.delivered⟩
    rcases List.mem_append.1 hi with hi | hi
    · exact List.contains_iff_mem.2 hi
    · exact live_of_hubOf? (List.mem_singleton.1 hi).symm
  | fresh =>
    obtain rfl := Option.some.inj ha
    exact ⟨h.sound.fresh, h.delivered⟩
  | drop registry =>
    obtain rfl := Option.some.inj ha
    refine ⟨h.sound.registries fun i hi => ?_, h.delivered⟩
    rcases List.mem_or_eq_of_mem_set hi with hi | hi
    · exact List.contains_iff_mem.2 hi
    · cases hi

theorem settled_run {depth : Nat} {acts : List (Act ε)} (h : Settled s)
    (hacts : run depth acts s = some t) : Settled t := by
  unfold run at hacts
  induction acts generalizing s with
  | nil =>
    obtain rfl := Option.some.inj hacts
    exact h
  | cons a acts ih =>
    rw [List.foldlM_cons] at hacts
    obtain ⟨u, hfirst, hrest⟩ := Option.bind_eq_some_iff.1 hacts
    exact ih (settled_act h hfirst) hrest

/-! ## The whole history -/

/-- A handle of a hub that is gone is used up, and that is all. -/
theorem unregister_of_dead {name : String} {handle : ListenerHandle}
    (hfind : (s.handles.find? fun h => h.name = name) = some handle)
    (hdead : s.live handle.hub = false) :
    s.unregister name = { s with handles := s.handles.eraseP fun h => h.name = name }.note
      (.unregistered handle.hub handle.entry) := by
  rw [unregister, hfind]
  show giveUp _ handle = _
  rw [giveUp, if_neg]
  exact fun hlive => Bool.false_ne_true (hdead.symm.trans hlive)

/-- An emission between the things that are done calls the listeners that its hub has. -/
theorem calls_of_emit {depth registry hub : Nat} {event : ε} (h : Settled s)
    (hhub : s.hubOf? registry = some hub) (ht : emit depth hub event s = some t) :
    calls s.log.length t.log = (s.hub hub).entries.map fun x => (x.1, x.2, event) := by
  have hlive := live_of_hubOf? hhub
  have hgoes := goes_emit depth hub event s t h.sound hlive ht
  have htake : t.log.take s.log.length = s.log := (List.prefix_iff_eq_take.1 hgoes.log).symm
  rw [((h.goes hgoes).delivered _ _ _ (emit_begun h.sound hlive ht)).calls, htake,
    (h.sound.hubs hub).entries hlive]

/-- Histories in which emissions nest to a finite depth, whatever that is; where listeners only emit
events of a lower rank than the one they are called with, there is such a depth. An emission calls
the listeners that its hub has when it begins, each once and in order, and so does every emission
inside of it. Every registry that is still there has the listeners that were registered without
those that were unregistered, and to unregister a listener of a hub that is gone uses up the handle
and changes nothing else. -/
theorem delivered_run (depth : Nat) (acts : List (Act ε)) :
    (∀ rank, (∀ a ∈ acts, a.Falling rank depth) → ∃ s, run depth acts {} = some s) ∧
    ∀ s, run depth acts {} = some s →
      (∀ more, depth ≤ more → run more acts {} = some s) ∧
      (∀ more registry hub event t, s.hubOf? registry = some hub →
        emit more hub event s = some t →
        calls s.log.length t.log = (s.hub hub).entries.map fun x => (x.1, x.2, event)) ∧
      (∀ k hub event, s.log[k]? = some (.begun hub event) → Delivered k hub event s.log) ∧
      (∀ registry hub, s.hubOf? registry = some hub →
        (s.hub hub).entries = roster hub s.log ∧ (s.hub hub).size = (roster hub s.log).length) ∧
      ∀ name handle, (s.handles.find? fun h => h.name = name) = some handle →
        s.live handle.hub = false →
        s.unregister name = { s with handles := s.handles.eraseP fun h => h.name = name }.note
          (.unregistered handle.hub handle.entry) := by
  refine ⟨fun rank hacts => ?_, fun s h => ?_⟩
  · obtain ⟨s, hs, -⟩ := exists_run hacts (allFalling_new rank)
    exact ⟨s, hs⟩
  · have hsettled := settled_run settled_new h
    refine ⟨fun more hmore => run_more hmore h, fun _ _ _ _ _ => calls_of_emit hsettled,
      hsettled.delivered, fun registry hub hhub => ?_, fun _ _ => unregister_of_dead⟩
    have hentries := (hsettled.sound.hubs hub).entries (live_of_hubOf? hhub)
    exact ⟨hentries, congrArg List.length hentries⟩

/-- A listener that does nothing. -/
def quiet (name : String) : Callback Bool :=
  .mk name fun _ _ => []

/-- A listener that, in the outer one of two emissions, unregisters the listener after it, registers
another one, emits again and panics. -/
def restless : Callback Bool :=
  .mk "restless" fun _ outer =>
    if outer then [.unregister "second", .register (quiet "third"), .emit false, .panic] else []

/-- Two registries of one hub and one of another, which is dropped after an emission on the first
one. -/
def restlessHistory : List (Act Bool) :=
  [.register 0 restless, .register 0 (quiet "second"), .clone 0, .fresh,
    .register 2 (quiet "elsewhere"), .emit 0 true, .drop 2]

theorem falling_quiet (name : String) : Falling Bool.toNat (quiet name) :=
  .mk (fun _ _ _ h => nomatch h) (fun _ _ _ h => nomatch h)

theorem falling_restless : Falling Bool.toNat restless := by
  refine .mk (fun _ outer lower h => ?_) (fun _ outer c h => ?_)
  · cases outer with
    | false => cases h
    | true =>
      obtain rfl : lower = false := by simpa using h
      exact Nat.zero_lt_one
  · cases outer with
    | false => cases h
    | true =>
      obtain rfl : c = quiet "third" := by simpa using h
      exact falling_quiet "third"

/-- The outer emission calls the second listener, which is unregistered by then, and the inner one
calls the third instead. -/
theorem delivered_run_restless :
    (∀ a ∈ restlessHistory, a.Falling Bool.toNat 2) ∧
    ∃ s, run 2 restlessHistory {} = some s ∧
      Delivered 3 0 true s.log ∧ (calls 3 s.log).map (fun x => (x.1, x.2.2)) =
        [(0, true), (1, true)] ∧
      Delivered 7 0 false s.log ∧ (calls 7 s.log).map (fun x => (x.1, x.2.2)) =
        [(0, false), (2, false)] ∧
      (s.hub 0).entries = roster 0 s.log ∧ (s.hub 0).size = 2 ∧
      (s.unregister "elsewhere").hubs = s.hubs := by
  have hfalling : ∀ a ∈ restlessHistory, a.Falling Bool.toNat 2 := by
    simp [restlessHistory, Act.Falling, falling_quiet, falling_restless]
  obtain ⟨hexists, hall⟩ := delivered_run 2 restlessHistory
  obtain ⟨s, hs⟩ := hexists Bool.toNat hfalling
  obtain ⟨-, -, hdelivered, hentries, hdead⟩ := hall s hs
  obtain rfl : (run 2 restlessHistory {}).get rfl = s := Option.get_of_mem _ hs
  refine ⟨hfalling, _, hs, hdelivered 3 0 true rfl, rfl, hdelivered 7 0 false rfl, rfl,
    (hentries 1 0 rfl).1, rfl, ?_⟩
  rw [hdead "elsewhere" _ rfl rfl]
  rfl

end TurnEngine.Switchboard
