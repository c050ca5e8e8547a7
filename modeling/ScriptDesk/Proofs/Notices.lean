import ScriptDesk.Proofs.Calls

/-!
# ScriptDesk.Proofs.Notices

What a notice makes of the pending pass. That a document was saved, or its structure changed by a
command, arms its deadlines anew, as an edit does, only that the delay is another one. The new
deadline takes the place of the old one, also if it is the later of the two. So a notice brings the
full pass forward if it follows an edit soon enough, but it postpones the pass if most of the
delay of that edit is over by then (`Editor.notices_rearm`).
-/

namespace ScriptDesk

/-- What is noted about a document besides edits. -/
inductive Notice where
  /-- It was saved. -/
  | saved
  /-- A command changed its structure. -/
  | structural
deriving DecidableEq, Repr

def Notice.trigger : Notice → Trigger
  | .saved => .save
  | .structural => .structural

/-- To note it at an instant. -/
def Notice.action (now : Time) : Notice → Action
  | .saved => .saved now
  | .structural => .structural now

/-- The instant of a command. -/
def Command.time? : Command → Option Time
  | .act _ (.edit now _) | .act _ (.saved now) | .act _ (.structural now) | .tick now => some now
  | _ => none

namespace Editor

/-- The instant from which on a full pass on the document is due. -/
def fullDeadline? (e : Editor) (id : DocumentId) : Option Time := (e.debouncer.deadlines id).full

/-- The instants of a run, in their order. -/
def times (commands : List Command) : List Time := commands.filterMap Command.time?

/-- A command arms documents at its own instant. -/
theorem time?_of_mem_calls {e : Editor} {c : Command} {id : DocumentId} {t : Time}
    {kind : Trigger} {on : Bool} (h : .trigger id t kind on ∈ e.calls c) : c.time? = some t := by
  cases c with
  | act other action =>
    cases hs : e.session? other with
    | none => simp [calls, hs] at h
    | some s =>
      simp only [calls, hs, Option.map_some, Option.getD_some] at h
      cases action <;> simp_all [Session.calls, Command.time?]
  | tick now => simp [calls] at h
  | openDocument path text => contradiction
  | finishPass analyzer => contradiction

/-- Documents are armed at the instants of the run. -/
theorem mem_times_of_mem_callsOf {e : Editor} {commands : List Command} {id : DocumentId} {t : Time}
    {kind : Trigger} {on : Bool} (h : .trigger id t kind on ∈ e.callsOf commands) :
    t ∈ times commands := by
  induction commands generalizing e with
  | nil => contradiction
  | cons c rest ih =>
    rcases List.mem_append.1 h with h | h
    · exact List.mem_filterMap.2 ⟨c, List.mem_cons_self, time?_of_mem_calls h⟩
    · exact ((List.sublist_cons_self c rest).filterMap _).subset (ih h)

/-- The full deadline after a notice. -/
theorem full_notice {e : Editor} {id : DocumentId} (henabled : e.enabled? id = some true)
    (now : Time) (notice : Notice) :
    (e.perform (.act id (notice.action now))).2.fullDeadline? id =
      some (now + e.debouncer.policy.delay notice.trigger) := by
  obtain ⟨s, hs, hon⟩ := Option.map_eq_some_iff.1 henabled
  obtain ⟨-, hid⟩ := mem_of_session?_eq_some hs
  have hcalls : e.calls (.act id (notice.action now)) = [.trigger id now notice.trigger true] := by
    unfold calls
    dsimp only
    rw [hs, ← hid, ← hon]
    cases notice <;> rfl
  rw [fullDeadline?, debouncer_perform, hcalls]
  change ((e.debouncer.trigger id now notice.trigger true).deadlines id).full = _
  rw [Debouncer.deadlines_trigger, if_pos rfl]
  rfl

/-- A full deadline was armed by the last trigger of its document. -/
theorem exists_lastArmed_of_full {config : Config} {commands : List Command} {id : DocumentId}
    {deadline : Time} (h : ((new config).run commands).fullDeadline? id = some deadline) :
    ∃ t kind, Debouncer.LastArmed id t kind true ((new config).callsOf commands) ∧
      deadline = t + config.analysis.policy.delay kind := by
  rw [fullDeadline?, debouncer_run_new] at h
  rcases Debouncer.armedLast_run config.analysis.policy ((new config).callsOf commands) id with
    hempty | ⟨t, kind, on, hlast, hwithin⟩
  · rw [hempty] at h
    contradiction
  · have hfull := hwithin.full deadline h
    cases on with
    | true => exact ⟨t, kind, hlast, (Option.some.inj hfull).symm⟩
    | false => contradiction

/-- What a notice makes of a full deadline that a trigger of this kind armed at `t`. -/
structure Rearms (policy : Policy) (t : Time) (kind : Trigger) (now : Time) (notice : Notice)
    (before after : Time) : Prop where
  armed : before = t + policy.delay kind
  /-- The deadline is armed anew, whatever it was. -/
  rearmed : after = now + policy.delay notice.trigger
  /-- It is postponed exactly if more time has passed since than the delay of the trigger is longer
  than that of the notice. -/
  postponed_iff : before < after ↔ policy.delay kind < (now - t) + policy.delay notice.trigger
  /-- So it is not if the trigger was an edit and the notice comes soon enough after it, -/
  soon : kind = .typing → policy.delay notice.trigger ≤ policy.typing →
    now - t ≤ policy.typing - policy.delay notice.trigger → after ≤ before
  /-- but a notice that is repeated postpones the pass by the time between. -/
  again : kind = notice.trigger → after = before + (now - t)

theorem rearms {policy : Policy} {t now : Time} (h : t ≤ now) (kind : Trigger) (notice : Notice) :
    Rearms policy t kind now notice (t + policy.delay kind)
      (now + policy.delay notice.trigger) := by
  refine ⟨rfl, rfl, ?_, ?_, ?_⟩
  · unfold Time at *
    omega
  · rintro rfl hshorter hsoon
    change _ ≤ t + policy.typing
    unfold Time at *
    omega
  · rintro rfl
    unfold Time at *
    omega

/-- Notices arm the full deadline of a document anew. The run may have brought any edits and
notices of the document before, as long as the clock does not go back. -/
theorem notices_rearm (config : Config) (commands : List Command) (id : DocumentId)
    (now before : Time) (hclock : (times commands ++ [now]).Pairwise (· ≤ ·))
    (henabled : ((new config).run commands).enabled? id = some true)
    (hfull : ((new config).run commands).fullDeadline? id = some before) :
    ∃ t kind, Debouncer.LastArmed id t kind true ((new config).callsOf commands) ∧ t ≤ now ∧
      ∀ notice : Notice, ∃ after,
        ((new config).run (commands ++ [.act id (notice.action now)])).fullDeadline? id =
          some after ∧
        Rearms config.analysis.policy t kind now notice before after := by
  obtain ⟨t, kind, hlast, rfl⟩ := exists_lastArmed_of_full hfull
  have hpolicy : ((new config).run commands).debouncer.policy = config.analysis.policy := by
    rw [debouncer_run_new, Debouncer.policy_run]
  have hle : t ≤ now := by
    obtain ⟨earlier, later, hcalls, -⟩ := hlast
    have hmem : .trigger id t kind true ∈ (new config).callsOf commands := by
      rw [hcalls]
      simp
    exact (List.pairwise_append.1 hclock).2.2 t (mem_times_of_mem_callsOf hmem) now
      (List.mem_singleton.2 rfl)
  refine ⟨t, kind, hlast, hle, fun notice => ⟨_, ?_, rearms hle kind notice⟩⟩
  rw [run_append, run_cons, run_nil, full_notice henabled, hpolicy]

/-- A configuration in which the names have to wait as long as everything else. -/
def lateNames : Config := { analysis := { localDelay := 4000 } }

/-- The one document is edited at once, which delays the full pass by 4 s. -/
def editedAtOnce : List Command := [.openDocument none "", .act ⟨1⟩ (.edit 0 [])]

theorem notices_rearm_late :
    (times editedAtOnce ++ [milliseconds 3500]).Pairwise (· ≤ ·) ∧
      ((new lateNames).run editedAtOnce).enabled? ⟨1⟩ = some true ∧
      ((new lateNames).run editedAtOnce).fullDeadline? ⟨1⟩ = some (milliseconds 4000) ∧
      ∃ t kind, Debouncer.LastArmed ⟨1⟩ t kind true ((new lateNames).callsOf editedAtOnce) ∧
        t ≤ milliseconds 3500 ∧ ∀ notice : Notice, ∃ after,
          ((new lateNames).run
            (editedAtOnce ++ [.act ⟨1⟩ (notice.action (milliseconds 3500))])).fullDeadline? ⟨1⟩ =
              some after ∧
          Rearms lateNames.analysis.policy t kind (milliseconds 3500) notice (milliseconds 4000)
            after := by
  have hclock : (times editedAtOnce ++ [milliseconds 3500]).Pairwise (· ≤ ·) := by decide
  have henabled : ((new lateNames).run editedAtOnce).enabled? ⟨1⟩ = some true := by decide
  have hfull : ((new lateNames).run editedAtOnce).fullDeadline? ⟨1⟩ = some (milliseconds 4000) := by
    decide
  exact ⟨hclock, henabled, hfull, notices_rearm _ _ _ _ _ hclock henabled hfull⟩

/-- Each of the notices has a shorter delay than the edit. Half a second before the full pass it
postpones the pass by half a second all the same. -/
theorem notice_postpones :
    lateNames.analysis.saveDelay ≤ lateNames.analysis.typingDelay ∧
      lateNames.analysis.structuralDelay ≤ lateNames.analysis.typingDelay ∧
      (times editedAtOnce ++ [milliseconds 3500]).Pairwise (· ≤ ·) ∧
      ((new lateNames).run editedAtOnce).enabled? ⟨1⟩ = some true ∧
      ((new lateNames).run editedAtOnce).fullDeadline? ⟨1⟩ = some (milliseconds 4000) ∧
      ((new lateNames).run
        (editedAtOnce ++ [.act ⟨1⟩ (.saved (milliseconds 3500))])).fullDeadline? ⟨1⟩ =
          some (milliseconds 4500) ∧
      ((new lateNames).run
        (editedAtOnce ++ [.act ⟨1⟩ (.structural (milliseconds 3500))])).fullDeadline? ⟨1⟩ =
          some (milliseconds 4500) := by
  decide

end Editor

end ScriptDesk
