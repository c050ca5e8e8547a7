import Mathlib.Algebra.GroupWithZero.Nat
import ScriptDesk.Proofs.Bookkeeping
import ScriptDesk.Proofs.Lineage

/-!
# ScriptDesk.Proofs.Account

Every pass is accounted for exactly once. Passes are completed in the order in which
they are started, and a pass that was started but not completed is the one in the
place (`inFlight?_run`): this much follows from the place alone. That each completion
is put on record, too late, or of a closed document, and never of a version that its
document did not reach, follows from what the documents keep about their passes.
-/

namespace ScriptDesk

/-- The completions that a tick has dealt with. -/
def TickReport.settled (r : TickReport) : Nat := r.applied + r.stale + r.closed

namespace Editor

/-! ## From the start of a pass to its completion -/

/-- What the command clears from the place is the completion that it takes in. -/
theorem inFlight?_cleared (e : Editor) (c : Command) :
    e.flight.inFlight?.toList =
      (e.takesIn? c).toList.map Completion.subject ++
        (e.cleared c).flight.inFlight?.toList := by
  rw [flight_cleared]
  cases c with
  | finishPass analyzer =>
    unfold SingleFlight.inFlight? SingleFlight.finishSlot
    cases e.flight.slot <;> rfl
  | tick now =>
    unfold takesIn? SingleFlight.collect SingleFlight.inFlight?
    cases hs : e.flight.slot <;> simp [hs, Completion.subject]
  | openDocument path text => simp [takesIn?]
  | act id action => simp [takesIn?]

/-- What the place is asked for after that is the pass that starts. -/
theorem Asks.inFlight? {e e' : Editor} {p : Option Snapshot} (h : Asks e e' p) :
    e.flight.inFlight?.toList ++ p.toList.map Snapshot.subject =
      e'.flight.inFlight?.toList := by
  cases h with
  | waits hslot htask hqueue => simp [SingleFlight.inFlight?, hslot]
  | starts s mode hs hfree hnoted hslot htask =>
    simp [SingleFlight.inFlight?, SingleFlight.isBusy_eq_false_iff.1 hfree, hslot,
      Snapshot.subject]

theorem inFlight?_perform {e : Editor} (he : e.Sound) (c : Command) :
    e.flight.inFlight?.toList ++ (e.starts? c).toList.map Snapshot.subject =
      (e.takesIn? c).toList.map Completion.subject ++
        (e.perform c).2.flight.inFlight?.toList := by
  rw [inFlight?_cleared e c, List.append_assoc, (asks_perform he c).inFlight?]

/-- The passes that a run completes and the one that it leaves in the place are the
one that it found there and those that it starts, in the same order. -/
theorem inFlight?_run {e : Editor} (he : e.Sound) (commands : List Command) :
    e.flight.inFlight?.toList ++ (e.started commands).map Snapshot.subject =
      (e.completed commands).map Completion.subject ++
        (e.run commands).flight.inFlight?.toList := by
  induction commands generalizing e with
  | nil => simp [started, completed, trace]
  | cons c rest ih =>
    have hrest := ih (sound_perform he c)
    simp only [started, completed, trace, List.map_append, run_cons] at hrest ⊢
    rw [← List.append_assoc, inFlight?_perform he c, List.append_assoc, hrest, List.append_assoc]

theorem toList_inFlight? (e : Editor) :
    e.flight.inFlight?.toList.length = e.flight.isBusy.toNat := by
  rw [SingleFlight.isBusy_iff_inFlight?]
  cases e.flight.inFlight? <;> rfl

theorem length_started (config : Config) (commands : List Command) :
    ((new config).started commands).length =
      ((new config).completed commands).length +
        ((new config).run commands).flight.isBusy.toNat := by
  have h := congrArg List.length (inFlight?_run (sound_new config) commands)
  simpa [toList_inFlight?, show (new config).flight.isBusy = false from rfl] using h

/-- Each pass takes one number. -/
theorem nextTask_perform {e : Editor} (he : e.Sound) (c : Command) :
    (e.perform c).2.flight.nextTask = e.flight.nextTask + (e.starts? c).toList.length := by
  have hcleared := e.nextTask_cleared c
  have h := asks_perform he c
  generalize e.starts? c = p at h
  cases h with
  | waits hslot htask hqueue => simp [htask, hcleared]
  | starts s mode hs hfree hnoted hslot htask => simp [htask, hcleared]

theorem nextTask_run {e : Editor} (he : e.Sound) (commands : List Command) :
    (e.run commands).flight.nextTask = e.flight.nextTask + (e.started commands).length := by
  induction commands generalizing e with
  | nil => simp [started, trace]
  | cons c rest ih =>
    have hrest := ih (sound_perform he c)
    have hfirst := nextTask_perform he c
    simp only [started, trace, run_cons, List.length_append] at hrest ⊢
    omega

/-! ## What the ticks report -/

theorem nextTask_start (e : Editor) (s : Session) (mode : Mode) :
    (e.start s mode).2.flight.nextTask = e.flight.nextTask + (e.start s mode).1.toNat := by
  cases hb : e.flight.isBusy with
  | true => rw [start_of_busy hb]; rfl
  | false => rw [flight_start_of_free hb, start_of_free hb]; rfl

theorem nextTask_startQueued (e : Editor) :
    e.startQueued.2.flight.nextTask = e.flight.nextTask + e.startQueued.1.toNat := by
  have hkept : (e.flight.dequeueOpen e.isOpen).2.nextTask = e.flight.nextTask := by
    rcases e.flight.dequeueOpen_cases e.isOpen with ⟨-, hd⟩ | ⟨-, -, hd⟩ | ⟨_, _, _, -, -, -, -, hd⟩
      <;> rw [hd]
  unfold startQueued
  split
  · next q flight hd =>
    rw [hd] at hkept
    dsimp only
    split
    · exact (nextTask_start _ _ _).trans (by rw [hkept])
    · exact hkept
  · next flight hd =>
    rw [hd] at hkept
    exact hkept

theorem nextTask_startDue (e : Editor) (now : Time) :
    (e.startDue now).2.2.flight.nextTask = e.flight.nextTask + (e.startDue now).1.toNat := by
  unfold startDue
  dsimp only
  split
  · split
    · exact nextTask_start _ _ _
    · rfl
  · rfl

/-- A tick reports the pass that it starts. -/
theorem started_tick {e : Editor} (he : e.Sound) (now : Time) :
    (e.tick now).1.started = (e.starts? (.tick now)).toList.length := by
  have htask := nextTask_perform he (.tick now)
  have hcleared : e.takeInCompleted.2.flight.nextTask = _ := e.nextTask_cleared (.tick now)
  have hqueued := e.takeInCompleted.2.nextTask_startQueued
  have hdue := e.takeInCompleted.2.startQueued.2.nextTask_startDue now
  have hreport : (e.tick now).1.started = e.takeInCompleted.2.startQueued.1.toNat +
      (e.takeInCompleted.2.startQueued.2.startDue now).1.toNat := rfl
  rw [show (e.perform (.tick now)).2 = (e.tick now).2 from rfl, tick_snd] at htask
  omega

theorem settled_takeIn (e : Editor) (done : Completion) :
    (e.takeIn done).1.settled + (e.takeIn done).1.unrecognized = 1 := by
  unfold takeIn
  split
  · rfl
  · dsimp only
    split <;> rfl

/-- A tick reports what became of the completion that it takes in. -/
theorem settled_tick (e : Editor) (now : Time) :
    (e.tick now).1.settled + (e.tick now).1.unrecognized =
      (e.takesIn? (.tick now)).toList.length := by
  have hreport : (e.tick now).1.settled + (e.tick now).1.unrecognized =
      e.takeInCompleted.1.settled + e.takeInCompleted.1.unrecognized := rfl
  rw [hreport, takesIn?]
  rcases e.takeInCompleted_forms with ⟨done, hdone, heq⟩ | ⟨hnot, heq⟩ <;> rw [heq]
  · rw [SingleFlight.collect_of_finished hdone, settled_takeIn]
    rfl
  · rw [SingleFlight.collect_of_not_finished hnot]
    rfl

/-- Only ticks report. -/
theorem report?_perform (e : Editor) (c : Command) :
    (e.perform c).1.report? = match c with
      | .tick now => some (e.tick now).1
      | _ => none := by
  cases c with
  | act id action =>
    unfold perform
    dsimp only
    split <;> rfl
  | openDocument path text => rfl
  | finishPass analyzer => rfl
  | tick now => rfl

/-- The completions that a run takes in are those that its ticks report. -/
theorem sum_settled (e : Editor) (commands : List Command) :
    ((e.reports commands).map fun r => r.settled + r.unrecognized).sum =
      (e.completed commands).length := by
  induction commands generalizing e with
  | nil => rfl
  | cons c rest ih =>
    have hrest := ih (e.perform c).2
    have hfirst : ((e.perform c).1.report?.toList.map fun r => r.settled + r.unrecognized).sum =
        (e.takesIn? c).toList.length := by
      rw [report?_perform]
      cases c with
      | tick now => simpa using e.settled_tick now
      | openDocument path text => rfl
      | finishPass analyzer => rfl
      | act id action => rfl
    simp only [reports, completed, trace, List.map_append, List.sum_append, List.length_append]
      at hrest ⊢
    omega

/-- Every report is that of a tick. -/
theorem exists_of_mem_reports {e : Editor} {commands : List Command} {r : TickReport}
    (h : r ∈ e.reports commands) :
    ∃ before now after, commands = before ++ .tick now :: after ∧
      r = ((e.run before).tick now).1 := by
  obtain ⟨before, c, after, heq, hr⟩ := exists_of_mem_trace h
  rw [report?_perform] at hr
  cases c with
  | tick now => exact ⟨before, now, after, heq, by simpa using hr⟩
  | openDocument path text => simp at hr
  | finishPass analyzer => simp at hr
  | act id action => simp at hr

/-! ## What becomes of completions -/

/-- A completion that agrees with what its document keeps is put on record, unless it
is that of a minimal pass and a full analysis of its version is on record. -/
theorem takeIn_of_agrees {e : Editor} {s : Session} {done : Completion}
    (hs : e.session? done.document = some s)
    (h : s.tracking.Agrees (some ⟨done.version, done.mode⟩)) :
    (e.takeIn done).1 = { applied := 1 } ∨
      (e.takeIn done).1 = { stale := 1 } ∧ done.mode = .minimal ∧
        s.tracking.applied = some ⟨done.version, .full⟩ := by
  unfold takeIn
  rw [hs]
  dsimp only
  generalize e.isShown s.id = shown
  rcases Tracking.settle_cases h shown with ⟨heq, -⟩ | ⟨heq, hmode, happlied⟩ <;> rw [heq]
  · left
    cases shown <;> rfl
  · exact .inr ⟨rfl, hmode, happlied⟩

theorem takeIn_of_closed {e : Editor} {done : Completion} (h : e.session? done.document = none) :
    e.takeIn done = ({ closed := 1 }, e) := by
  unfold takeIn
  rw [h]

/-- What a document keeps agrees with the completion that waits for it. -/
theorem agrees_of_finished (config : Config) (commands : List Command) {done : Completion}
    {s : Session} (hslot : ((new config).run commands).flight.slot = .finished done)
    (hs : s ∈ ((new config).run commands).sessions) (hid : s.id = done.document) :
    s.tracking.Agrees (some ⟨done.version, done.mode⟩) := by
  have h := (minded_run config commands hs).agrees
  have hseen : (((new config).run commands).lane s).slot = .finished done := by
    rw [← hslot]
    exact Slot.seenBy_of_document? (by rw [hslot, hid]; rfl)
  rw [hseen] at h
  exact h

/-- What a tick can report of the completion that it takes in. -/
inductive Settles (e : Editor) : TickReport → Prop where
  | nothing (h : ∀ done, e.flight.slot ≠ .finished done) : Settles e {}
  | closed (done : Completion) (hslot : e.flight.slot = .finished done)
      (hclosed : done.document ∉ e.ids) : Settles e { closed := 1 }
  | applied (done : Completion) (hslot : e.flight.slot = .finished done)
      (hopen : done.document ∈ e.ids) : Settles e { applied := 1 }
  /-- The pass was minimal, and a full analysis of its version is on record. -/
  | stale (done : Completion) (hslot : e.flight.slot = .finished done) (s : Session)
      (hs : s ∈ e.sessions) (hid : s.id = done.document) (hmode : done.mode = .minimal)
      (happlied : s.tracking.applied = some ⟨done.version, .full⟩) : Settles e { stale := 1 }

theorem settles_takeInCompleted (config : Config) (commands : List Command) :
    Settles ((new config).run commands) ((new config).run commands).takeInCompleted.1 := by
  rcases ((new config).run commands).takeInCompleted_forms with
    ⟨done, hdone, heq⟩ | ⟨hnot, heq⟩ <;> rw [heq]
  · cases hs : ((new config).run commands).freed.session? done.document with
    | none =>
      rw [takeIn_of_closed hs]
      exact .closed done hdone (session?_eq_none_iff.1 hs)
    | some s =>
      obtain ⟨hmem, hid⟩ := mem_of_session?_eq_some hs
      rcases takeIn_of_agrees hs (agrees_of_finished config commands hdone hmem hid) with
        hreport | ⟨hreport, hmode, happlied⟩ <;> rw [hreport]
      · exact .applied done hdone (hid ▸ mem_ids hmem)
      · exact .stale done hdone s hmem hid hmode happlied
  · exact .nothing hnot

theorem settles_tick (config : Config) (commands : List Command) (now : Time) :
    ∃ r, Settles ((new config).run commands) r ∧ (((new config).run commands).tick now).1 =
      { r with
        started := (((new config).run commands).tick now).1.started
        deferred := (((new config).run commands).tick now).1.deferred } :=
  ⟨_, settles_takeInCompleted config commands, tick_fst _ now⟩

theorem unrecognized_tick (config : Config) (commands : List Command) (now : Time) :
    (((new config).run commands).tick now).1.unrecognized = 0 := by
  obtain ⟨r, hsettles, htick⟩ := settles_tick config commands now
  rw [htick]
  cases hsettles <;> rfl

theorem unrecognized_of_mem_reports {config : Config} {commands : List Command} {r : TickReport}
    (h : r ∈ (new config).reports commands) : r.unrecognized = 0 := by
  obtain ⟨before, now, after, -, rfl⟩ := exists_of_mem_reports h
  exact unrecognized_tick config before now

/-! ## Versions -/

/-- A pass that starts later on a document starts on a version that is no lesser. -/
theorem version_le_of_mem_started {e : Editor} (he : e.Sound) {commands : List Command}
    {s : Session} (hs : s ∈ e.sessions) {p : Snapshot} (hp : p ∈ e.started commands)
    (hid : s.id = p.document) : s.tracking.version ≤ p.version := by
  obtain ⟨before, c, after, -, hc⟩ := exists_of_mem_trace hp
  have hbefore := he.run before
  obtain ⟨t, ht, -, heq⟩ := session_of_starts? hbefore (Option.mem_toList.1 hc)
  have hsucceeds := (Succeeds.run he before).trans (.perform hbefore c)
  rw [heq] at hid ⊢
  exact hsucceeds.version_le he hs ht hid

theorem pairwise_started {e : Editor} (he : e.Sound) (commands : List Command) :
    (e.started commands).Pairwise fun p q => p.document = q.document → p.version ≤ q.version := by
  induction commands generalizing e with
  | nil => exact .nil
  | cons c rest ih =>
    have hsound := sound_perform he c
    refine List.pairwise_append.2 ⟨?_, ih hsound, fun p hp q hq hdocument => ?_⟩
    · dsimp only
      cases e.starts? c with
      | none => exact .nil
      | some p => exact List.pairwise_singleton _ p
    · obtain ⟨s, hs, -, heq⟩ := session_of_starts? he (Option.mem_toList.1 hp)
      rw [heq] at hdocument ⊢
      exact version_le_of_mem_started hsound hs hq hdocument

/-! ## The account of a run -/

/-- The passes of a run are accounted for. -/
structure Accounted (config : Config) (commands : List Command) : Prop where
  /-- Each pass that was started got the next number. -/
  numbered : ((new config).run commands).flight.nextTask =
    ((new config).started commands).length
  /-- Passes are completed in the order in which they were started, and one that is not
  completed is in the place. -/
  inOrder : ((new config).started commands).map Snapshot.subject =
    ((new config).completed commands).map Completion.subject ++
      ((new config).run commands).flight.inFlight?.toList
  /-- So the passes that were started are those that the ticks report, and the one in
  the place. -/
  balance : ((new config).started commands).length =
    (((new config).reports commands).map (·.settled)).sum +
      ((new config).run commands).flight.isBusy.toNat
  recognized : ∀ r ∈ (new config).reports commands, r.unrecognized = 0
  /-- A tick starts at most one pass and takes in at most one completion. -/
  onePass : ∀ now, (((new config).run commands).tick now).1.started =
      (((new config).run commands).starts? (.tick now)).toList.length ∧
    (((new config).run commands).tick now).1.started ≤ 1
  oneCompletion : ∀ now, (((new config).run commands).tick now).1.settled =
      (((new config).run commands).takesIn? (.tick now)).toList.length ∧
    (((new config).run commands).tick now).1.settled ≤ 1
  /-- A full pass on a document that is still open goes on record. -/
  full : ∀ done now, ((new config).run commands).flight.slot = .finished done →
    done.mode = .full → done.document ∈ ((new config).run commands).ids →
      (((new config).run commands).tick now).1.applied = 1
  /-- What comes too late is a minimal pass on a version with a full analysis. -/
  stale : ∀ now, (((new config).run commands).tick now).1.stale ≠ 0 →
    ∃ done, ((new config).run commands).flight.slot = .finished done ∧ done.mode = .minimal ∧
      ∃ s ∈ ((new config).run commands).sessions, s.id = done.document ∧
        s.tracking.applied = some ⟨done.version, .full⟩
  /-- A pass is started on the document as it is. -/
  asItIs : ∀ c p, ((new config).run commands).starts? c = some p →
    ∃ s ∈ (((new config).run commands).perform c).2.sessions, p = s.snapshot p.mode
  versions : ((new config).started commands).Pairwise fun p q =>
    p.document = q.document → p.version ≤ q.version

/-- Every pass is accounted for exactly once. -/
theorem passes_accounted (config : Config) (commands : List Command) :
    Accounted config commands := by
  have he := sound_run config commands
  refine
    { numbered := ?_, inOrder := ?_, balance := ?_, recognized := fun r hr => ?_,
      onePass := fun now => ?_, oneCompletion := fun now => ?_, full := ?_, stale := ?_,
      asItIs := fun c p hp => ?_, versions := pairwise_started (sound_new config) commands }
  · simpa [new] using nextTask_run (sound_new config) commands
  · simpa [new, SingleFlight.inFlight?] using inFlight?_run (sound_new config) commands
  · have hsettled : ((new config).reports commands).map (·.settled) =
        ((new config).reports commands).map fun r => r.settled + r.unrecognized :=
      List.map_congr_left fun r hr => by rw [unrecognized_of_mem_reports hr, Nat.add_zero]
    rw [hsettled, sum_settled, length_started]
  · exact unrecognized_of_mem_reports hr
  · rw [started_tick he now]
    exact ⟨rfl, Option.length_toList_le⟩
  · have h := ((new config).run commands).settled_tick now
    rw [unrecognized_tick, Nat.add_zero] at h
    rw [h]
    exact ⟨rfl, Option.length_toList_le⟩
  · intro done now hdone hmode hopen
    obtain ⟨r, hsettles, htick⟩ := settles_tick config commands now
    rw [htick]
    cases hsettles with
    | nothing hnot => exact absurd hdone (hnot done)
    | closed done' hslot hclosed =>
      obtain rfl := Slot.finished.inj (hdone.symm.trans hslot)
      exact absurd hopen hclosed
    | applied done' hslot _ => rfl
    | stale done' hslot s hs hid hmode' _ =>
      obtain rfl := Slot.finished.inj (hdone.symm.trans hslot)
      rw [hmode] at hmode'
      contradiction
  · intro now hstale
    obtain ⟨r, hsettles, htick⟩ := settles_tick config commands now
    rw [htick] at hstale
    cases hsettles with
    | stale done hslot s hs hid hmode happlied => exact ⟨done, hslot, hmode, s, hs, hid, happlied⟩
    | _ => exact absurd rfl hstale
  · obtain ⟨s, hs, -, heq⟩ := session_of_starts? he hp
    exact ⟨s, hs, heq⟩

/-- A save asks for the names again. That pass comes too late, as the version had a
full analysis before it started. -/
theorem passes_accounted_too_late :
    (((new {}).run [.openDocument none "", .finishPass builtinAnalyzer, .tick 0,
      .act ⟨1⟩ (.saved 0), .tick (milliseconds 500), .finishPass builtinAnalyzer]).tick
        (milliseconds 500)).1.stale = 1 ∧
    ∃ done, ((new {}).run [.openDocument none "", .finishPass builtinAnalyzer, .tick 0,
      .act ⟨1⟩ (.saved 0), .tick (milliseconds 500), .finishPass builtinAnalyzer]).flight.slot =
        .finished done ∧ done.mode = .minimal := by
  have hstale : (((new {}).run [.openDocument none "", .finishPass builtinAnalyzer, .tick 0,
      .act ⟨1⟩ (.saved 0), .tick (milliseconds 500), .finishPass builtinAnalyzer]).tick
        (milliseconds 500)).1.stale = 1 := by decide
  obtain ⟨done, hslot, hmode, -⟩ :=
    (passes_accounted {} _).stale (milliseconds 500) (by rw [hstale]; decide)
  exact ⟨hstale, done, hslot, hmode⟩

end Editor

end ScriptDesk
