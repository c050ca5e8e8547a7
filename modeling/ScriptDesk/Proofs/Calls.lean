import ScriptDesk.Proofs.Debounce
import ScriptDesk.Proofs.Rest

/-!
# ScriptDesk.Proofs.Calls

What the editor asks of its debouncer. Every command makes one call at most (`Editor.calls`), and
nothing else changes the deadlines (`Editor.debouncer_run`). So what holds of the debouncer after
any calls holds of it in the editor after any run.
-/

namespace ScriptDesk

/-- The calls for something done to the document. -/
def Session.calls (s : Session) : Action → List Debouncer.Call
  | .edit now _ => [.trigger s.id now .typing s.tracking.enabled]
  | .saved now => [.trigger s.id now .save s.tracking.enabled]
  | .structural now => [.trigger s.id now .structural s.tracking.enabled]
  | .close | .force => [.cancel s.id]
  | .enable on => if s.tracking.enabled = on then [] else [.cancel s.id]
  | .activate | .moveCaret _ | .goBack | .goForward | .markNext _ | .setRecording _ => []

namespace Editor

/-- The calls for a command. A tick polls in its last phase. -/
def calls (e : Editor) : Command → List Debouncer.Call
  | .act id action => ((e.session? id).map (·.calls action)).getD []
  | .tick now =>
    let e := e.takeInCompleted.2.startQueued.2
    [.poll now e.flight.isBusy e.enabled?]
  | .openDocument _ _ | .finishPass _ => []

/-- The calls of a run. -/
def callsOf (e : Editor) : List Command → List Debouncer.Call
  | [] => []
  | c :: rest => e.calls c ++ (e.perform c).2.callsOf rest

/-! ## Commands -/

theorem debouncer_force (e : Editor) (s : Session) :
    (e.force s).debouncer = e.debouncer.cancel s.id :=
  (start_keeps _ _ _).2.2.2

theorem debouncer_edit (e : Editor) (s : Session) (now : Time) (edits : List TextEdit) :
    (e.edit s now edits).2.debouncer =
      e.debouncer.trigger s.id now .typing s.tracking.enabled := by
  unfold edit
  dsimp only
  split
  · rfl
  · unfold publishStatus
    split <;> rfl

theorem debouncer_act (e : Editor) (s : Session) (action : Action) :
    (e.act s action).2.debouncer = e.debouncer.run (s.calls action) := by
  cases action with
  | close => rfl
  | activate =>
    unfold act activate
    dsimp only
    split <;> rfl
  | edit now edits => exact e.debouncer_edit s now edits
  | saved now => rfl
  | structural now => rfl
  | force => exact e.debouncer_force s
  | enable on =>
    unfold act enable Session.calls
    dsimp only
    split
    · rfl
    · exact debouncer_force _ _
  | moveCaret position =>
    unfold act moveCaret
    dsimp only
    split <;> rfl
  | goBack =>
    unfold act replay
    dsimp only
    split <;> rfl
  | goForward =>
    unfold act replay
    dsimp only
    split <;> rfl
  | markNext nextMove => rfl
  | setRecording on => rfl

theorem debouncer_startQueued (e : Editor) : e.startQueued.2.debouncer = e.debouncer := by
  rcases e.startQueued_cases with
    ⟨-, heq⟩ | ⟨-, -, heq⟩ | ⟨closed, q, rest, s, -, -, -, -, -, heq⟩ <;> rw [heq]
  · rfl
  · exact (start_keeps _ _ _).2.2.2

theorem debouncer_takeInCompleted (e : Editor) :
    e.takeInCompleted.2.debouncer = e.debouncer := by
  rcases e.takeInCompleted_forms with ⟨done, -, heq⟩ | ⟨-, heq⟩ <;> rw [heq]
  exact (takeIn_keeps _ done).2

theorem debouncer_startDue (e : Editor) (now : Time) :
    (e.startDue now).2.2.debouncer = (e.debouncer.poll now e.flight.isBusy e.enabled?).2 := by
  unfold startDue
  dsimp only
  split
  · split
    · exact (start_keeps _ _ _).2.2.2
    · rfl
  · rfl

theorem debouncer_perform (e : Editor) (c : Command) :
    (e.perform c).2.debouncer = e.debouncer.run (e.calls c) := by
  cases c with
  | openDocument path text => exact (openDocument_keeps path text).2
  | act id action =>
    unfold perform calls
    dsimp only
    cases e.session? id with
    | none => rfl
    | some s => exact e.debouncer_act s action
  | finishPass analyzer => exact (e.finishPass_keeps analyzer).2
  | tick now =>
    change (e.tick now).2.debouncer = _
    rw [tick_snd, debouncer_startDue, debouncer_startQueued, debouncer_takeInCompleted]
    rfl

/-! ## Runs -/

theorem debouncer_run (e : Editor) (commands : List Command) :
    (e.run commands).debouncer = e.debouncer.run (e.callsOf commands) := by
  induction commands generalizing e with
  | nil => rfl
  | cons c rest ih =>
    rw [run_cons, ih, debouncer_perform, callsOf, Debouncer.run, Debouncer.run, Debouncer.run,
      List.foldl_append]

/-- The debouncer of an editor is one that was asked the calls of its run. -/
theorem debouncer_run_new (config : Config) (commands : List Command) :
    ((new config).run commands).debouncer =
      Debouncer.run { policy := config.analysis.policy } ((new config).callsOf commands) :=
  debouncer_run _ commands

end Editor

end ScriptDesk
