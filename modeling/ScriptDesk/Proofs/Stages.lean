import Mathlib.Data.List.Induction
import ScriptDesk.Pass.Dispatcher
import ScriptDesk.Proofs.Flight

/-!
# ScriptDesk.Proofs.Stages

However the steps of the threads are interleaved, the place is at one of four stages: it is
free, or its one pass is analyzed, about to be sent, or sent (`Stage`). The record stands
from the start of the pass to the end of the last stage and the permit is missing in the
first one only, so the record alone decides whether a pass can be started, and the place
answers as one where a pass ends in a single step (`exists_calls`).
-/

namespace ScriptDesk

open Dispatcher (Step taskNumbers)

/-- Where the place stands with its pass. -/
inductive Stage where
  | free
  | analyzing (pass : Pass)
  | sending (pass : Pass) (analyzer : Analyzer)
  | sent (pass : Pass) (analyzer : Analyzer)

namespace Stage

def pass? : Stage → Option Pass
  | .free => none
  | .analyzing p | .sending p _ | .sent p _ => some p

/-- What has become the analyzer of the pass, if it has ended. -/
def analyzer? : Stage → Option Analyzer
  | .free | .analyzing _ => none
  | .sending _ a | .sent _ a => some a

def permits : Stage → Nat
  | .analyzing _ => 0
  | .free | .sending _ _ | .sent _ _ => 1

def threads : Stage → List Thread
  | .analyzing p => [.analyzing p]
  | .sending p a => [.sending (p.conclude a)]
  | .free | .sent _ _ => []

def mailbox : Stage → List Completion
  | .sent p a => [p.conclude a]
  | .free | .analyzing _ | .sending _ _ => []

/-- The place at a stage. -/
def state (stage : Stage) (queue : List Queued) (nextTask : Nat) : Dispatcher where
  permits := stage.permits
  active := stage.pass?.map Pass.ticket
  queue := queue
  nextTask := nextTask
  threads := stage.threads
  mailbox := stage.mailbox

/-- The stage after a step. -/
def next (nextTask : Nat) : Stage → Step → Stage
  | .free, .request s => .analyzing ⟨nextTask, s⟩
  | .analyzing p, .release 0 a => .sending p a
  | .sending p a, .send 0 => .sent p a
  | .sent _ _, .collect => .free
  | stage, _ => stage

/-- The pass that a step brings to the end of its stages, and its analyzer. -/
def clears : Stage → Step → List (Pass × Analyzer)
  | .sent p a, .collect => [(p, a)]
  | _, _ => []

variable (stage : Stage) (queue : List Queued) (nextTask : Nat)

/-! ## What a step does at a stage -/

theorem request_state (s : Snapshot) :
    (stage.state queue nextTask).request s =
      if stage.pass?.isNone then
        (.started nextTask,
          (stage.next nextTask (.request s)).state
            ((stage.state queue nextTask).line.dropCovered s.document s.mode).queue
            ((nextTask + 1) % taskNumbers))
      else
        (.queued, stage.state ((stage.state queue nextTask).line.enqueue s.document s.mode).queue
          nextTask) := by
  cases stage <;> rfl

theorem release_state (i : Nat) (analyzer : Analyzer) :
    (stage.state queue nextTask).release i analyzer =
      (stage.next nextTask (.release i analyzer)).state queue nextTask := by
  cases stage <;> cases i <;> rfl

theorem send_state (i : Nat) :
    (stage.state queue nextTask).send i =
      (stage.next nextTask (.send i)).state queue nextTask := by
  cases stage <;> cases i <;> rfl

/-- The mailbox holds nothing but the completion of the pass on record. -/
theorem collect_state :
    (stage.state queue nextTask).collect =
      (stage.mailbox, (stage.next nextTask .collect).state queue nextTask) := by
  cases stage <;> simp [Dispatcher.collect, Dispatcher.read, state, next, mailbox, pass?, threads,
    permits, Pass.ticket, Pass.conclude]

theorem isBusy_state : (stage.state queue nextTask).isBusy = stage.pass?.isSome := by
  simp [Dispatcher.isBusy, state]

theorem pass?_eq_none_iff {stage : Stage} : stage.pass? = none ↔ stage = .free := by
  cases stage <;> simp [pass?]

@[simp] theorem next_dequeue : stage.next nextTask .dequeue = stage := by cases stage <;> rfl

@[simp] theorem next_forget (id : DocumentId) : stage.next nextTask (.forget id) = stage := by
  cases stage <;> rfl

/-- A request changes the stage of the place only if it is free. -/
theorem next_request_of_pass? {stage : Stage} {p : Pass} (h : stage.pass? = some p) (s : Snapshot) :
    stage.next nextTask (.request s) = stage := by
  cases stage <;> simp_all [pass?, next]

/-- Whatever the step, the place is at a stage again, and the next number is one further for
each pass that was started. -/
theorem exists_queue_perform (step : Step) (count : Nat) :
    ∃ queue', ((stage.state queue (count % taskNumbers)).perform step).2 =
      (stage.next (count % taskNumbers) step).state queue'
        ((count + ((stage.state queue (count % taskNumbers)).starts step).length) %
          taskNumbers) := by
  cases step with
  | request s =>
    simp only [Dispatcher.perform, Dispatcher.starts, request_state]
    cases hpass : stage.pass? with
    | none =>
      simp only [Option.isNone_none, if_true, List.length_singleton, Nat.mod_add_mod]
      exact ⟨_, rfl⟩
    | some p =>
      rw [next_request_of_pass? _ hpass]
      exact ⟨_, rfl⟩
  | release i analyzer => exact ⟨queue, release_state stage queue _ i analyzer⟩
  | send i => exact ⟨queue, send_state stage queue _ i⟩
  | collect => exact ⟨queue, congrArg Prod.snd (collect_state stage queue _)⟩
  | dequeue =>
    simp only [Dispatcher.perform, Dispatcher.dequeue, next_dequeue]
    split
    · exact ⟨queue, rfl⟩
    · split
      · exact ⟨queue, rfl⟩
      · exact ⟨_, rfl⟩
  | forget id =>
    rw [next_forget]
    exact ⟨_, rfl⟩

end Stage

/-! ## The place as one thread -/

/-- The completion under the number that its pass was given. -/
def Completion.wrap (c : Completion) : Completion := { c with task := c.task % taskNumbers }

def Slot.wrap : Slot → Slot
  | .free => .free
  | .running task s => .running (task % taskNumbers) s
  | .finished c => .finished c.wrap

def RequestOutcome.wrap : RequestOutcome → RequestOutcome
  | .started task => .started (task % taskNumbers)
  | .queued => .queued

def SingleFlight.Reply.wrap : SingleFlight.Reply → SingleFlight.Reply
  | .requested outcome => .requested outcome.wrap
  | .collected done => .collected (done.map Completion.wrap)
  | .dequeued next => .dequeued next

/-- The slot at a stage: a pass that is not sent yet goes on. -/
def Stage.slot : Stage → Slot
  | .free => .free
  | .analyzing p | .sending p _ => .running p.task p.snapshot
  | .sent p a => .finished (p.conclude a)

/-- The call that a step is, unless it is one of a thread of a pass. -/
def Dispatcher.Step.call? : Step → Option SingleFlight.Call
  | .request s => some (.request s)
  | .collect => some .collect
  | .dequeue => some .dequeue
  | .forget id => some (.forget id)
  | .release _ _ | .send _ => none

/-- The call ends a pass. -/
def SingleFlight.Call.isFinish : SingleFlight.Call → Bool
  | .finish _ => true
  | _ => false

theorem Slot.wrap_eq_free {slot : Slot} : slot.wrap = .free ↔ slot = .free := by
  cases slot <;> simp [wrap]

theorem Slot.exists_of_wrap_eq_running {slot : Slot} {task : Nat} {s : Snapshot}
    (h : slot.wrap = .running task s) :
    ∃ n, slot = .running n s ∧ n % taskNumbers = task := by
  cases slot <;> simp_all [wrap]

theorem Slot.exists_of_wrap_eq_finished {slot : Slot} {c : Completion}
    (h : slot.wrap = .finished c) : ∃ done, slot = .finished done ∧ done.wrap = c := by
  cases slot <;> simp_all [wrap]

namespace Dispatcher

open SingleFlight (Call Reply)

/-- The place shows its callers what the one with a single slot shows. -/
def Mirrors (d : Dispatcher) (f : SingleFlight) : Prop :=
  ∃ stage : Stage, d = stage.state f.queue (f.nextTask % taskNumbers) ∧ f.slot.wrap = stage.slot

variable {d : Dispatcher} {f : SingleFlight}

theorem Mirrors.queue (h : Mirrors d f) : d.queue = f.queue := by
  obtain ⟨stage, rfl, -⟩ := h
  rfl

theorem Mirrors.isBusy (h : Mirrors d f) : d.isBusy = f.isBusy := by
  obtain ⟨stage, rfl, hslot⟩ := h
  cases stage <;> cases hs : f.slot <;>
    simp_all [Slot.wrap, Stage.slot, Stage.state, Stage.pass?, Dispatcher.isBusy,
      SingleFlight.isBusy]

theorem Mirrors.inFlight? (h : Mirrors d f) : d.inFlight? = f.inFlight? := by
  obtain ⟨stage, rfl, hslot⟩ := h
  cases stage <;> cases hs : f.slot <;>
    simp_all [Slot.wrap, Stage.slot, Stage.state, Stage.pass?, Dispatcher.inFlight?,
      SingleFlight.inFlight?, Pass.ticket, Pass.conclude, Completion.wrap]

theorem Mirrors.request (h : Mirrors d f) (s : Snapshot) :
    (d.request s).1 = (f.request s).1.wrap ∧ Mirrors (d.request s).2 (f.request s).2 := by
  have hbusy := h.isBusy
  obtain ⟨stage, rfl, hslot⟩ := h
  rw [Stage.isBusy_state] at hbusy
  rw [Stage.request_state]
  cases hpass : stage.pass? with
  | some p =>
    rw [hpass] at hbusy
    rw [SingleFlight.request_of_busy hbusy.symm]
    exact ⟨rfl, stage, rfl, hslot⟩
  | none =>
    rw [hpass] at hbusy
    rw [SingleFlight.request_of_free hbusy.symm]
    obtain rfl := Stage.pass?_eq_none_iff.1 hpass
    refine ⟨rfl, .analyzing ⟨f.nextTask % taskNumbers, s⟩, ?_, rfl⟩
    simp only [Option.isNone_none, if_true, Nat.mod_add_mod]
    rfl

theorem Mirrors.release (h : Mirrors d f) (i : Nat) (analyzer : Analyzer) :
    Mirrors (d.release i analyzer) f := by
  obtain ⟨stage, rfl, hslot⟩ := h
  rw [Stage.release_state]
  refine ⟨_, rfl, ?_⟩
  cases stage <;> cases i <;> exact hslot

/-- The pass ends when its completion is sent. -/
theorem Mirrors.send (h : Mirrors d f) (i : Nat) :
    Mirrors (d.send i) f ∨ ∃ analyzer, Mirrors (d.send i) (f.finish analyzer).2 := by
  obtain ⟨stage, rfl, hslot⟩ := h
  rw [Stage.send_state]
  by_cases hsends : ∃ p a, stage = .sending p a ∧ i = 0
  · obtain ⟨p, a, rfl, rfl⟩ := hsends
    obtain ⟨n, hrunning, hn⟩ := Slot.exists_of_wrap_eq_running hslot
    refine .inr ⟨a, .sent p a, ?_, ?_⟩
    · rw [SingleFlight.finish_snd]
      rfl
    · rw [SingleFlight.finish_snd, hrunning]
      simp [SingleFlight.finishSlot, Slot.wrap, Completion.wrap, hn, Stage.slot, Pass.conclude]
  · refine .inl ⟨stage, ?_, hslot⟩
    cases stage <;> cases i <;> simp_all [Stage.next]

theorem Mirrors.collect (h : Mirrors d f) :
    d.collect.1 = f.collect.1.toList.map Completion.wrap ∧ Mirrors d.collect.2 f.collect.2 := by
  obtain ⟨stage, rfl, hslot⟩ := h
  rw [Stage.collect_state]
  cases stage with
  | sent p a =>
    obtain ⟨done, hdone, hwrap⟩ := Slot.exists_of_wrap_eq_finished hslot
    rw [SingleFlight.collect_of_finished hdone]
    exact ⟨by simp [Stage.mailbox, hwrap], .free, rfl, rfl⟩
  | free | analyzing _ | sending _ _ =>
    have hnot : ∀ done, f.slot ≠ .finished done := by
      intro done hdone
      rw [hdone] at hslot
      contradiction
    rw [SingleFlight.collect_of_not_finished hnot]
    exact ⟨rfl, _, rfl, hslot⟩

theorem Mirrors.dequeue (h : Mirrors d f) :
    d.dequeue.1 = f.dequeue.1 ∧ Mirrors d.dequeue.2 f.dequeue.2 := by
  have hbusy := h.isBusy
  have hqueue := h.queue
  unfold Dispatcher.dequeue
  rcases f.dequeue_cases with ⟨hnone, heq⟩ | ⟨q, rest, hfree, hfront, heq⟩
  · rw [heq]
    rcases hnone with htaken | hnil
    · rw [if_pos (hbusy.trans htaken)]
      exact ⟨rfl, h⟩
    · rw [hqueue, hnil, ite_self]
      exact ⟨rfl, h⟩
  · rw [heq, hqueue, hfront, if_neg (by simp [hbusy, hfree])]
    obtain ⟨stage, rfl, hslot⟩ := h
    exact ⟨rfl, stage, rfl, hslot⟩

theorem Mirrors.forget (h : Mirrors d f) (id : DocumentId) :
    Mirrors (d.forget id) (f.forget id) := by
  obtain ⟨stage, rfl, hslot⟩ := h
  exact ⟨stage, rfl, hslot⟩

/-- A step that is a call does what the call does. -/
theorem Mirrors.perform_call (h : Mirrors d f) {step : Step} {call : Call}
    (hcall : step.call? = some call) :
    Mirrors (d.perform step).2 (f.perform call).2 ∧
      (d.perform step).1 = (f.perform call).1.map Reply.wrap := by
  cases step with
  | request s =>
    cases hcall
    obtain ⟨hanswer, hmirrors⟩ := h.request s
    exact ⟨hmirrors, by simp [Dispatcher.perform, hanswer, SingleFlight.perform, Reply.wrap]⟩
  | release i analyzer => cases hcall
  | send i => cases hcall
  | collect =>
    cases hcall
    obtain ⟨hdone, hmirrors⟩ := h.collect
    exact ⟨hmirrors, by simp [Dispatcher.perform, hdone, SingleFlight.perform, Reply.wrap]⟩
  | dequeue =>
    cases hcall
    obtain ⟨hnext, hmirrors⟩ := h.dequeue
    exact ⟨hmirrors, by simp [Dispatcher.perform, hnext, SingleFlight.perform, Reply.wrap]⟩
  | forget id =>
    cases hcall
    exact ⟨h.forget id, rfl⟩

/-- Any other step is the end of a pass, or nothing that a caller can see. -/
theorem Mirrors.perform_thread (h : Mirrors d f) {step : Step} (hcall : step.call? = none) :
    (d.perform step).1 = none ∧
      (Mirrors (d.perform step).2 f ∨
        ∃ analyzer, Mirrors (d.perform step).2 (f.finish analyzer).2) := by
  cases step with
  | release i analyzer => exact ⟨rfl, .inl (h.release i analyzer)⟩
  | send i => exact ⟨rfl, h.send i⟩
  | request s => cases hcall
  | collect => cases hcall
  | dequeue => cases hcall
  | forget id => cases hcall

theorem isFinish_of_call? {step : Step} {call : Call} (h : step.call? = some call) :
    call.isFinish = false := by
  cases step <;> cases h <;> rfl

theorem Mirrors.exists_calls (h : Mirrors d f) (step : Step) :
    ∃ calls, calls.filter (!·.isFinish) = [step].filterMap Step.call? ∧
      Mirrors (d.perform step).2 (f.run calls) ∧
        (d.perform step).1.toList = (f.replies calls).map Reply.wrap := by
  cases hcall : step.call? with
  | some call =>
    obtain ⟨hmirrors, hreply⟩ := h.perform_call hcall
    have hvisible := isFinish_of_call? hcall
    refine ⟨[call], by simp [hcall, hvisible], hmirrors, ?_⟩
    rw [hreply, SingleFlight.replies, SingleFlight.replies, List.append_nil]
    cases (f.perform call).1 <;> rfl
  | none =>
    obtain ⟨hreply, hmirrors | ⟨analyzer, hmirrors⟩⟩ := h.perform_thread hcall
    · exact ⟨[], by simp [hcall], hmirrors, by rw [hreply]; rfl⟩
    · exact ⟨[.finish analyzer], by simp [hcall, Call.isFinish], hmirrors, by rw [hreply]; rfl⟩

/-- However the steps are interleaved, the place answers as the one with a single slot does
to the same calls, its passes ending in between. -/
theorem exists_calls (steps : List Step) :
    ∃ calls, calls.filter (!·.isFinish) = steps.filterMap Step.call? ∧
      Mirrors (run {} steps) (SingleFlight.run {} calls) ∧
        replies {} steps = (SingleFlight.replies {} calls).map Reply.wrap := by
  induction steps using List.reverseRecOn with
  | nil => exact ⟨[], rfl, ⟨.free, rfl, rfl⟩, rfl⟩
  | append_singleton steps step ih =>
    obtain ⟨calls, hcalls, hmirrors, hreplies⟩ := ih
    obtain ⟨more, hmore, hmirrors', hreplies'⟩ := hmirrors.exists_calls step
    refine ⟨calls ++ more, ?_, ?_, ?_⟩
    · rw [List.filter_append, List.filterMap_append, hcalls, hmore]
    · rw [run_concat, SingleFlight.run_append]
      exact hmirrors'
    · rw [SingleFlight.replies_append, List.map_append, ← hreplies, ← hreplies',
        replies_concat]

/-- No thread is left with a completion to send. -/
def Unsent (d : Dispatcher) : Prop := ∀ c, Thread.sending c ∉ d.threads

/-- The two steps of its thread, one right after the other, end a pass. -/
theorem Mirrors.finish (h : Mirrors d f) (hd : d.Unsent) (analyzer : Analyzer) :
    Mirrors ((d.release 0 analyzer).send 0) (f.finish analyzer).2 ∧
      ((d.release 0 analyzer).send 0).Unsent := by
  obtain ⟨stage, rfl, hslot⟩ := h
  rw [Stage.release_state, Stage.send_state, SingleFlight.finish_snd]
  cases stage with
  | free =>
    rw [Slot.wrap_eq_free.1 hslot]
    exact ⟨⟨.free, rfl, rfl⟩, hd⟩
  | analyzing p =>
    obtain ⟨n, hrunning, hn⟩ := Slot.exists_of_wrap_eq_running hslot
    rw [hrunning]
    refine ⟨⟨.sent p analyzer, rfl, ?_⟩, nofun⟩
    simp [SingleFlight.finishSlot, Slot.wrap, Completion.wrap, hn, Stage.slot, Pass.conclude]
  | sending p a => exact absurd List.mem_cons_self (hd (p.conclude a))
  | sent p a =>
    obtain ⟨done, hdone, hwrap⟩ := Slot.exists_of_wrap_eq_finished hslot
    rw [hdone]
    exact ⟨⟨.sent p a, rfl, congrArg Slot.finished hwrap⟩, hd⟩

theorem Unsent.request (h : d.Unsent) (s : Snapshot) : (d.request s).2.Unsent := by
  unfold Dispatcher.request
  split
  · exact h
  · split
    · exact h
    · intro c hc
      rcases List.mem_append.1 hc with hc | hc
      · exact h c hc
      · simp at hc

theorem Unsent.dequeue (h : d.Unsent) : d.dequeue.2.Unsent := by
  unfold Dispatcher.dequeue
  split
  · exact h
  · split <;> exact h

theorem Mirrors.exists_steps (h : Mirrors d f) (hd : d.Unsent) (call : Call) :
    ∃ steps, steps.filterMap Step.call? = [call].filter (!·.isFinish) ∧
      Mirrors (d.run steps) (f.perform call).2 ∧ (d.run steps).Unsent ∧
        d.replies steps = (f.perform call).1.toList.map Reply.wrap := by
  have hsingle (step : Step) (hcall : step.call? = some call)
      (hunsent : (d.perform step).2.Unsent) :
      ∃ steps, steps.filterMap Step.call? = [call].filter (!·.isFinish) ∧
        Mirrors (d.run steps) (f.perform call).2 ∧ (d.run steps).Unsent ∧
          d.replies steps = (f.perform call).1.toList.map Reply.wrap := by
    obtain ⟨hmirrors, hreply⟩ := h.perform_call hcall
    have hvisible := isFinish_of_call? hcall
    refine ⟨[step], by simp [hcall, hvisible], hmirrors, hunsent, ?_⟩
    simp only [replies, gather, List.append_nil, hreply]
    cases (f.perform call).1 <;> rfl
  cases call with
  | request s => exact hsingle (.request s) rfl (hd.request s)
  | finish analyzer =>
    obtain ⟨hmirrors, hunsent⟩ := h.finish hd analyzer
    exact ⟨[.release 0 analyzer, .send 0], rfl, hmirrors, hunsent, rfl⟩
  | collect => exact hsingle .collect rfl hd
  | dequeue => exact hsingle .dequeue rfl hd.dequeue
  | forget id => exact hsingle (.forget id) rfl hd

/-- What the place with a single slot answers, it answers under some interleaving. -/
theorem exists_steps (calls : List Call) :
    ∃ steps, steps.filterMap Step.call? = calls.filter (!·.isFinish) ∧
      Mirrors (run {} steps) (SingleFlight.run {} calls) ∧ (run {} steps).Unsent ∧
        replies {} steps = (SingleFlight.replies {} calls).map Reply.wrap := by
  induction calls using List.reverseRecOn with
  | nil => exact ⟨[], rfl, ⟨.free, rfl, rfl⟩, nofun, rfl⟩
  | append_singleton calls call ih =>
    obtain ⟨steps, hsteps, hmirrors, hunsent, hreplies⟩ := ih
    obtain ⟨more, hmore, hmirrors', hunsent', hreplies'⟩ := hmirrors.exists_steps hunsent call
    refine ⟨steps ++ more, ?_, ?_, ?_, ?_⟩
    · rw [List.filter_append, List.filterMap_append, hsteps, hmore]
    · rw [run_append, SingleFlight.run_concat]
      exact hmirrors'
    · rw [run_append]
      exact hunsent'
    · rw [replies_append, hreplies, hreplies', SingleFlight.replies_append, List.map_append]
      simp [SingleFlight.replies]

end Dispatcher

end ScriptDesk
