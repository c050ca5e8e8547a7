import ScriptDesk.Proofs.Ticks

/-!
# ScriptDesk.Proofs.Runs

Every command moves lanes by steps of `Lane.Step`; opening a document adds a lane
and leaves the others alone. So what holds of the lane of a document that has just
been opened and is kept by every step holds of every open document after every
run (`keeps_run_new`).
-/

namespace ScriptDesk

/-- A pass that the command ends is one of the `known` analyzers. -/
def Command.Uses (known : Analyzer → Prop) : Command → Prop
  | .finishPass analyzer => known analyzer
  | _ => True

theorem Command.uses_any (c : Command) : c.Uses fun _ => True := by
  cases c <;> trivial

namespace Editor

/-! ## Opening a document -/

section Opening

variable {e : Editor} (he : e.Sound) (path : Option String) (text : String)

/-- The document that is opened next. -/
def next (e : Editor) (path : Option String) (text : String) : Session :=
  .new ⟨e.opened + 1⟩ path text e.config.analysis.enabled e.config.navigation.coalesceLines

/-- The editor with the next document, before its first pass is requested. -/
def withNext (e : Editor) (path : Option String) (text : String) : Editor :=
  { e with
    opened := e.opened + 1
    sessions := e.sessions ++ [e.next path text]
    active := e.active <|> some ⟨e.opened + 1⟩ }

theorem openDocument_snd :
    (e.openDocument path text).2 = ((e.withNext path text).requestNow (e.next path text)) := rfl

theorem openDocument_keeps :
    (e.openDocument path text).2.config = e.config ∧
      (e.openDocument path text).2.debouncer = e.debouncer := by
  obtain ⟨hconfig, -, -, hdeb⟩ :=
    start_keeps (e.withNext path text) (e.next path text) (e.next path text).tracking.mode
  exact ⟨hconfig, hdeb⟩

theorem ids_openDocument : (e.openDocument path text).2.ids = e.ids ++ [⟨e.opened + 1⟩] := by
  have hids : (e.withNext path text).ids = e.ids ++ [⟨e.opened + 1⟩] := List.map_append
  obtain ⟨s', -, -, hsess⟩ :=
    lane_start (e.withNext path text) (e.next path text) (e.next path text).tracking.mode
  rcases hsess with h | ⟨-, h⟩
  · rw [← hids, ids, openDocument_snd, requestNow, h]
    exact ids_setSession _ s'
  · rw [← hids, ids, openDocument_snd, requestNow, h]
    rfl

theorem share_openDocument_of_ne {id : DocumentId} (h : id ≠ ⟨e.opened + 1⟩) :
    (e.openDocument path text).2.share id = e.share id :=
  share_start_of_ne (s := e.next path text) _ h

/-- The document that was opened, with its first pass requested; all others were open
before. -/
theorem sessions_openDocument : ∃ s', s'.id = ⟨e.opened + 1⟩ ∧
    Lane.Requests (e.next path text).tracking.mode
      ((e.withNext path text).lane (e.next path text)) ((e.openDocument path text).2.lane s') ∧
    ∀ t ∈ (e.openDocument path text).2.sessions, t = s' ∨ t ∈ e.sessions := by
  obtain ⟨s', hid, hreq, hsess⟩ :=
    lane_start (e.withNext path text) (e.next path text) (e.next path text).tracking.mode
  have hmem : ∀ t ∈ (e.withNext path text).sessions, t = e.next path text ∨ t ∈ e.sessions := by
    intro t ht
    rcases List.mem_append.1 ht with h | h
    · exact .inr h
    · exact .inl (List.mem_singleton.1 h)
  refine ⟨s', hid, hreq, fun t ht => ?_⟩
  rw [openDocument_snd, requestNow] at ht
  rcases hsess with h | ⟨rfl, h⟩
  · rw [h] at ht
    rcases mem_setSession ht with rfl | ⟨ht, hne⟩
    · exact .inl rfl
    · rcases hmem t ht with rfl | ht
      · exact absurd hid.symm hne
      · exact .inr ht
  · rw [h] at ht
    exact hmem t ht

include he

theorem sound_openDocument : (e.openDocument path text).2.Sound := by
  obtain ⟨-, hdeb⟩ := openDocument_keeps (e := e) path text
  have hopened : (e.openDocument path text).2.opened = e.opened + 1 :=
    (start_keeps (e.withNext path text) (e.next path text) _).2.1
  have hids := ids_openDocument (e := e) path text
  have hnew : ∀ id ∈ e.ids, id ≠ ⟨e.opened + 1⟩ := by
    rintro id hid rfl
    exact Nat.not_succ_le_self _ (he.numbered _ hid)
  refine ⟨hdeb ▸ he.armed, ?_, ?_, ?_⟩
  · rw [hids, List.nodup_append]
    refine ⟨he.distinct, by simp, ?_⟩
    intro id hid other hother
    rw [List.mem_singleton.1 hother]
    exact hnew id hid
  · intro id hid
    rw [hids, List.mem_append, List.mem_singleton] at hid
    rw [hopened]
    rcases hid with hid | rfl
    · exact Nat.le_succ_of_le (he.numbered id hid)
    · exact Nat.le_refl _
  · intro id hid
    rw [hopened] at hid
    have hne : id ≠ ⟨e.opened + 1⟩ := by
      rintro rfl
      exact Nat.lt_irrefl _ hid
    rw [share_openDocument_of_ne path text hne]
    exact he.untouched id (Nat.lt_of_succ_lt hid)

/-- Opening a document adds the lane of a document whose first pass was
requested, and changes no other. -/
theorem lanes_openDocument {t : Session} (ht : t ∈ (e.openDocument path text).2.sessions) :
    Lane.Opened e.config ((e.openDocument path text).2.lane t) ∨
      t ∈ e.sessions ∧ (e.openDocument path text).2.lane t = e.lane t := by
  obtain ⟨s', hid, hreq, hsess⟩ := sessions_openDocument (e := e) path text
  rcases hsess t ht with rfl | hold
  · -- Nothing was known of the document.
    have hblank : (e.withNext path text).share ⟨e.opened + 1⟩ = {} :=
      he.untouched _ (Nat.lt_succ_self _)
    have hfresh : (e.withNext path text).lane (e.next path text) =
        .fresh ⟨e.opened + 1⟩ path text e.config
          ((e.withNext path text).isShown ⟨e.opened + 1⟩) := by
      unfold lane
      rw [show (e.next path text).id = ⟨e.opened + 1⟩ from rfl, hblank]
      rfl
    rw [hfresh] at hreq
    exact .inl ⟨_, _, _, _, hreq⟩
  · have hne : t.id ≠ ⟨e.opened + 1⟩ := by
      intro h
      have hle := he.numbered _ (mem_ids hold)
      rw [h] at hle
      exact Nat.not_succ_le_self _ hle
    have hactive : (e.openDocument path text).2.active = (e.active <|> some ⟨e.opened + 1⟩) :=
      (start_keeps (e.withNext path text) (e.next path text) _).2.2.1
    have hshown : (e.openDocument path text).2.isShown t.id = e.isShown t.id := by
      unfold isShown
      rw [hactive]
      cases ha : e.active with
      | none => simpa using hne.symm
      | some id => rfl
    refine .inr ⟨hold, ?_⟩
    simp only [lane, share_openDocument_of_ne path text hne, hshown]

end Opening

/-! ## Commands and runs -/

/-- Every command to the open documents moves their lanes by steps. -/
theorem evolves_perform {known : Analyzer → Prop} {e : Editor} (he : e.Sound) {c : Command}
    (hc : c.Uses known) (hopen : ∀ path text, c ≠ .openDocument path text) :
    Evolves (Lane.Step e.debouncer.policy known) e (e.perform c).2 := by
  cases c with
  | openDocument path text => exact absurd rfl (hopen path text)
  | act id action =>
    unfold perform
    dsimp only
    split
    · next s hs =>
      exact (evolves_act (mem_of_session?_eq_some hs).1 action).mono fun _ _ => .act
    · exact .refl _ e
  | finishPass analyzer => exact (evolves_finishPass e analyzer hc).mono fun _ _ => .advance
  | tick now => exact (evolves_tick he now).mono fun _ _ => .advance

/-- The editor is in order, it has the settings of `config`, and `P` holds of the
lanes of all open documents. -/
structure Keeps (config : Config) (P : Lane → Prop) (e : Editor) : Prop where
  sound : e.Sound
  configured : e.config = config
  policy : e.debouncer.policy = config.analysis.policy
  lanes : ∀ s ∈ e.sessions, P (e.lane s)

section Runs

variable {known : Analyzer → Prop} {config : Config} {P : Lane → Prop} {e e' : Editor}

theorem Keeps.evolves {R : Lane → Lane → Prop} (he : Keeps config P e) (h : Evolves R e e')
    (hstep : ∀ l l', P l → R l l' → P l') : Keeps config P e' where
  sound := h.sound he.sound
  configured := h.config.trans he.configured
  policy := h.policy.trans he.policy
  lanes t ht := by
    obtain ⟨s, hs, -, hsteps⟩ := h.lanes t ht
    have hs := he.lanes s hs
    generalize e'.lane t = l at hsteps
    induction hsteps with
    | refl => exact hs
    | tail _ hlast ih => exact hstep _ _ ih hlast

variable (hopened : ∀ l, Lane.Opened config l → P l)
  (hstep : ∀ l l', P l → Lane.Step config.analysis.policy known l l' → P l')

include hopened hstep

theorem Keeps.perform (he : Keeps config P e) {c : Command} (hc : c.Uses known) :
    Keeps config P (e.perform c).2 := by
  by_cases hopen : ∃ path text, c = .openDocument path text
  · obtain ⟨path, text, rfl⟩ := hopen
    obtain ⟨hconfig, hdeb⟩ := openDocument_keeps (e := e) path text
    refine ⟨sound_openDocument he.sound path text, hconfig.trans he.configured,
      (congrArg (·.policy) hdeb).trans he.policy, fun t ht => ?_⟩
    rcases lanes_openDocument he.sound path text ht with h | ⟨hold, h⟩
    · exact hopened _ (he.configured ▸ h)
    · exact h ▸ he.lanes t hold
  · have h := evolves_perform he.sound hc fun path text h => hopen ⟨path, text, h⟩
    exact he.evolves h fun l l' hl hs => hstep l l' hl (he.policy ▸ hs)

theorem Keeps.run (he : Keeps config P e) {commands : List Command}
    (hc : ∀ c ∈ commands, c.Uses known) : Keeps config P (e.run commands) := by
  induction commands generalizing e with
  | nil => exact he
  | cons c rest ih =>
    exact ih (he.perform hopened hstep (hc c List.mem_cons_self)) fun c h =>
      hc c (List.mem_cons_of_mem _ h)

/-- What holds of the lane of a document that has just been opened and is kept by
every step holds of every open document after every run. -/
theorem keeps_run_new {commands : List Command} (hc : ∀ c ∈ commands, c.Uses known) :
    Keeps config P ((new config).run commands) :=
  Keeps.run hopened hstep ⟨sound_new config, rfl, rfl, fun _ h => by cases h⟩ hc

end Runs

theorem sound_perform {e : Editor} (he : e.Sound) (c : Command) : (e.perform c).2.Sound := by
  by_cases hopen : ∃ path text, c = .openDocument path text
  · obtain ⟨path, text, rfl⟩ := hopen
    exact sound_openDocument he path text
  · exact (evolves_perform he c.uses_any fun path text h => hopen ⟨path, text, h⟩).sound he

@[simp] theorem run_nil (e : Editor) : e.run [] = e := rfl

@[simp] theorem run_cons (e : Editor) (c : Command) (rest : List Command) :
    e.run (c :: rest) = (e.perform c).2.run rest := rfl

theorem run_append (e : Editor) (before after : List Command) :
    e.run (before ++ after) = (e.run before).run after := List.foldl_append

/-- What every command keeps while the tables are in order holds after every run. -/
theorem holds_run {P : Editor → Prop}
    (hkept : ∀ (e : Editor) (c : Command), e.Sound → P e → P (e.perform c).2) {e : Editor}
    (he : e.Sound) (h : P e) (commands : List Command) :
    (e.run commands).Sound ∧ P (e.run commands) := by
  induction commands generalizing e with
  | nil => exact ⟨he, h⟩
  | cons c rest ih => exact ih (sound_perform he c) (hkept e c he h)

theorem Sound.run {e : Editor} (he : e.Sound) (commands : List Command) : (e.run commands).Sound :=
  (holds_run (P := fun _ => True) (fun _ _ _ _ => trivial) he trivial commands).1

/-- After every run the tables of the editor are in order. -/
theorem sound_run (config : Config) (commands : List Command) :
    ((new config).run commands).Sound :=
  (sound_new config).run commands

end Editor

end ScriptDesk
