import ScriptDesk.Proofs.Mirror

/-!
# ScriptDesk.Proofs.Lineage

Where the open documents come from. Every document that is open after a command was
open before, at a version that is no greater, or has a number that was not given
before. Two things follow for runs: versions never fall, and a document that is gone
stays gone, since no number is given twice.
-/

namespace ScriptDesk

namespace Lane

variable {l l' : Lane}

theorem Requests.version_eq {mode : Mode} (h : Requests mode l l') :
    l'.session.tracking.version = l.session.tracking.version := by
  cases h with
  | started task _ => rw [session_launch]; rfl
  | queued => rfl

theorem Act.version_le {policy : Policy} (h : Act policy l l') :
    l.session.tracking.version ≤ l'.session.tracking.version := by
  cases h with
  | edit now edits =>
    have hnext : (l.edit policy now edits).session.tracking.version =
        l.session.tracking.version + 1 := by
      unfold Lane.edit
      dsimp only
      split <;> simp [Tracking.noteEdit]
    omega
  | force hreq => exact Nat.le_of_eq hreq.version_eq.symm
  | enable on hne hreq =>
    have hset : (l.session.tracking.setEnabled on).version = l.session.tracking.version + 1 := by
      simp [Tracking.setEnabled, hne]
    have hreq : l'.session.tracking.version = _ := hreq.version_eq.trans hset
    omega
  | activate => exact Nat.le_of_eq (by rw [l.activate_keeps.1])
  | moveCaret position =>
    unfold Lane.moveCaret
    dsimp only
    split <;> exact Nat.le_refl _
  | goBack => unfold Lane.replay; split <;> exact Nat.le_refl _
  | goForward => unfold Lane.replay; split <;> exact Nat.le_refl _
  | saved now => exact Nat.le_refl _
  | structural now => exact Nat.le_refl _
  | hide => exact Nat.le_refl _
  | markNext nextMove => exact Nat.le_refl _
  | setRecording on => exact Nat.le_refl _

theorem Advance.version_eq {known : Analyzer → Prop} (h : Advance known l l') :
    l'.session.tracking.version = l.session.tracking.version := by
  cases h with
  | finish analyzer _ => rfl
  | takeIn done _ =>
    rw [(l.takeIn_keeps done).1]
    rcases Tracking.settle_forms l.session.tracking done l.shown with
      ⟨_, hs⟩ | ⟨_, hs⟩ | ⟨_, _, hs⟩ <;> simp [hs, Tracking.apply]
  | startQueued task _ _ => rw [session_launch]; rfl
  | startDue task _ _ _ => rw [session_launch]; rfl
  | upToDate _ _ _ => rfl

/-- The version of a document never falls. -/
theorem version_le_of_steps {policy : Policy} {known : Analyzer → Prop}
    (h : Relation.ReflTransGen (Step policy known) l l') :
    l.session.tracking.version ≤ l'.session.tracking.version := by
  induction h with
  | refl => exact Nat.le_refl _
  | tail _ hlast ih =>
    cases hlast with
    | act hact => exact Nat.le_trans ih hact.version_le
    | advance hadv => exact Nat.le_trans ih (Nat.le_of_eq hadv.version_eq.symm)

end Lane

namespace Editor

/-- Every document of the later state was open before, at a version that is no greater,
or has been opened since. -/
structure Succeeds (e e' : Editor) : Prop where
  opened : e.opened ≤ e'.opened
  sessions : ∀ t ∈ e'.sessions,
    (∃ s ∈ e.sessions, s.id = t.id ∧ s.tracking.version ≤ t.tracking.version) ∨
      e.opened < t.id.number

namespace Succeeds

variable {e e' e'' : Editor}

theorem refl (e : Editor) : Succeeds e e :=
  ⟨Nat.le_refl _, fun t ht => .inl ⟨t, ht, rfl, Nat.le_refl _⟩⟩

theorem trans (h : Succeeds e e') (h' : Succeeds e' e'') : Succeeds e e'' where
  opened := Nat.le_trans h.opened h'.opened
  sessions t ht := by
    rcases h'.sessions t ht with ⟨s, hs, hst, hle⟩ | hnew
    · rcases h.sessions s hs with ⟨r, hr, hrs, hle'⟩ | hnew
      · exact .inl ⟨r, hr, hrs.trans hst, Nat.le_trans hle' hle⟩
      · exact .inr (hst ▸ hnew)
    · exact .inr (Nat.lt_of_le_of_lt h.opened hnew)

theorem openDocument (e : Editor) (path : Option String) (text : String) :
    Succeeds e (e.openDocument path text).2 where
  opened := by
    have hopened : (e.openDocument path text).2.opened = e.opened + 1 :=
      (start_keeps (e.withNext path text) (e.next path text) _).2.1
    omega
  sessions t ht := by
    obtain ⟨s', hid, -, hsessions⟩ := sessions_openDocument (e := e) path text
    rcases hsessions t ht with rfl | hold
    · exact .inr (by rw [hid]; exact Nat.lt_succ_self _)
    · exact .inl ⟨t, hold, rfl, Nat.le_refl _⟩

theorem of_evolves {policy : Policy} {known : Analyzer → Prop}
    (h : Evolves (Lane.Step policy known) e e') : Succeeds e e' where
  opened := Nat.le_of_eq h.opened.symm
  sessions t ht := by
    obtain ⟨s, hs, hst, hsteps⟩ := h.lanes t ht
    exact .inl ⟨s, hs, hst, Lane.version_le_of_steps hsteps⟩

theorem perform (he : e.Sound) (c : Command) : Succeeds e (e.perform c).2 := by
  by_cases hopen : ∃ path text, c = .openDocument path text
  · obtain ⟨path, text, rfl⟩ := hopen
    exact openDocument e path text
  · exact .of_evolves (evolves_perform he c.uses_any fun path text h => hopen ⟨path, text, h⟩)

theorem run (he : e.Sound) (commands : List Command) : Succeeds e (e.run commands) :=
  (holds_run (fun _ c hs h => h.trans (perform hs c)) he (refl e) commands).2

/-- Versions never fall. -/
theorem version_le (h : Succeeds e e') (he : e.Sound) {s t : Session} (hs : s ∈ e.sessions)
    (ht : t ∈ e'.sessions) (hid : s.id = t.id) : s.tracking.version ≤ t.tracking.version := by
  rcases h.sessions t ht with ⟨r, hr, hrt, hle⟩ | hnew
  · rwa [he.eq_of_id_eq hs hr (hid.trans hrt.symm)]
  · have hold := he.numbered _ (mem_ids hs)
    rw [hid] at hold
    omega

/-- A document that is gone stays gone. -/
theorem not_mem_ids (h : Succeeds e e') {id : DocumentId} (hgiven : id.number ≤ e.opened)
    (hgone : id ∉ e.ids) : id ∉ e'.ids := by
  intro hid
  obtain ⟨t, ht, rfl⟩ := List.mem_map.1 hid
  rcases h.sessions t ht with ⟨s, hs, hst, -⟩ | hnew
  · exact hgone (hst ▸ mem_ids hs)
  · omega

end Succeeds

end Editor

end ScriptDesk
