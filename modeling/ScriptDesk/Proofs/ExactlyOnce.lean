import Mathlib.Data.List.Basic
import Mathlib.Data.List.Induction
import ScriptDesk.Proofs.Stages

/-!
# ScriptDesk.Proofs.ExactlyOnce

Each pass that is started is handed out once. What is started, ended, sent and handed out
differs by the one pass that the place is at (`Books`), from which it follows that at most
one is on its way at any time, and that what is handed out are the completions of those
that were started, in order, each as what its analyzer made of its snapshot.
-/

namespace ScriptDesk

open Dispatcher (Step taskNumbers)

/-! ## What goes in and what comes out -/

/-- What a step starts, ends, sends and hands out is what it adds at one end and takes away
at the other: the passes of the stage before and those it adds are the ones it clears and
those of the stage after. -/
structure Balances (d : Dispatcher) (step : Step) (stage : Stage)
    (cleared : List (Pass × Analyzer)) (stage' : Stage) : Prop where
  starts : stage.pass?.toList ++ d.starts step = cleared.map Prod.fst ++ stage'.pass?.toList
  ends : stage.analyzer?.toList ++ d.ends step =
    cleared.map Prod.snd ++ stage'.analyzer?.toList
  sends : stage.mailbox ++ d.sends step =
    cleared.map (fun e => e.1.conclude e.2) ++ stage'.mailbox
  handsOut : d.handsOut step = cleared.map fun e => e.1.conclude e.2

theorem Stage.balances (stage : Stage) (queue : List Queued) (nextTask : Nat) (step : Step) :
    Balances (stage.state queue nextTask) step stage (stage.clears step)
      (stage.next nextTask step) := by
  cases step with
  | request s => cases stage <;> exact ⟨rfl, rfl, rfl, rfl⟩
  | release i analyzer => cases stage <;> cases i <;> exact ⟨rfl, rfl, rfl, rfl⟩
  | send i => cases stage <;> cases i <;> exact ⟨rfl, rfl, rfl, rfl⟩
  | collect =>
    have hcollect : (stage.state queue nextTask).handsOut .collect = stage.mailbox := by
      rw [Dispatcher.handsOut, collect_state]
    cases stage <;> exact ⟨rfl, rfl, rfl, hcollect⟩
  | dequeue => cases stage <;> exact ⟨rfl, rfl, rfl, rfl⟩
  | forget id => cases stage <;> exact ⟨rfl, rfl, rfl, rfl⟩

namespace Dispatcher

/-- The passes that some steps start. -/
def started (steps : List Step) : List Pass := gather starts {} steps

/-- The analyzers that some steps bring to an end. -/
def ended (steps : List Step) : List Analyzer := gather ends {} steps

/-- The completions that some steps send. -/
def sent (steps : List Step) : List Completion := gather sends {} steps

/-- The completions that some steps hand out. -/
def collected (steps : List Step) : List Completion := gather handsOut {} steps

/-- The passes that were started and not handed out. -/
def undrained (steps : List Step) : List Pass := (started steps).drop (collected steps).length

/-- What some steps have put out, when the place has come to that stage: besides the passes
that it is done with, the one that it is at. -/
structure Books (steps : List Step) (past : List (Pass × Analyzer)) (stage : Stage) : Prop where
  state : ∃ queue, run {} steps = stage.state queue ((started steps).length % taskNumbers)
  started : started steps = past.map Prod.fst ++ stage.pass?.toList
  ended : ended steps = past.map Prod.snd ++ stage.analyzer?.toList
  sent : sent steps = past.map (fun e => e.1.conclude e.2) ++ stage.mailbox
  collected : collected steps = past.map fun e => e.1.conclude e.2

theorem started_concat (steps : List Step) (step : Step) :
    started (steps ++ [step]) = started steps ++ (run {} steps).starts step :=
  gather_concat starts {} steps step

theorem ended_concat (steps : List Step) (step : Step) :
    ended (steps ++ [step]) = ended steps ++ (run {} steps).ends step :=
  gather_concat ends {} steps step

theorem sent_concat (steps : List Step) (step : Step) :
    sent (steps ++ [step]) = sent steps ++ (run {} steps).sends step :=
  gather_concat sends {} steps step

theorem collected_concat (steps : List Step) (step : Step) :
    collected (steps ++ [step]) = collected steps ++ (run {} steps).handsOut step :=
  gather_concat handsOut {} steps step

theorem Books.concat {steps : List Step} {past : List (Pass × Analyzer)} {stage : Stage}
    (h : Books steps past stage) (step : Step) :
    ∃ stage', Books (steps ++ [step]) (past ++ stage.clears step) stage' := by
  obtain ⟨queue, hstate⟩ := h.state
  have hbalances := stage.balances queue ((Dispatcher.started steps).length % taskNumbers) step
  rw [← hstate] at hbalances
  generalize hstage : stage.next ((Dispatcher.started steps).length % taskNumbers) step = stage'
    at hbalances
  refine ⟨stage', ?_, ?_, ?_, ?_, ?_⟩
  · obtain ⟨queue', hnext⟩ :=
      stage.exists_queue_perform queue step (Dispatcher.started steps).length
    rw [← hstate, hstage] at hnext
    rw [run_concat, started_concat, List.length_append]
    exact ⟨queue', hnext⟩
  · rw [started_concat, h.started, List.append_assoc, hbalances.starts, List.map_append,
      List.append_assoc]
  · rw [ended_concat, h.ended, List.append_assoc, hbalances.ends, List.map_append,
      List.append_assoc]
  · rw [sent_concat, h.sent, List.append_assoc, hbalances.sends, List.map_append,
      List.append_assoc]
  · rw [collected_concat, h.collected, hbalances.handsOut, List.map_append]

/-- However the steps are interleaved, the place is at one of the stages. -/
theorem exists_books (steps : List Step) : ∃ past stage, Books steps past stage := by
  induction steps using List.reverseRecOn with
  | nil => exact ⟨[], .free, ⟨[], rfl⟩, rfl, rfl, rfl, rfl⟩
  | append_singleton steps step ih =>
    obtain ⟨past, stage, h⟩ := ih
    obtain ⟨stage', h'⟩ := h.concat step
    exact ⟨_, stage', h'⟩

/-! ## What the books say -/

theorem Books.undrained_eq {steps : List Step} {past : List (Pass × Analyzer)} {stage : Stage}
    (h : Books steps past stage) : undrained steps = stage.pass?.toList := by
  have hlength : (Dispatcher.collected steps).length = (past.map Prod.fst).length := by
    simp [h.collected]
  rw [undrained, h.started, hlength, List.drop_left]

theorem Books.zipWith_conclude {steps : List Step} {past : List (Pass × Analyzer)}
    {stage : Stage} (h : Books steps past stage) :
    (Dispatcher.started steps).zipWith Pass.conclude (Dispatcher.ended steps) =
      Dispatcher.collected steps ++
        stage.pass?.toList.zipWith Pass.conclude stage.analyzer?.toList := by
  rw [h.started, h.ended, h.collected, List.zipWith_append (by simp), List.zipWith_map,
    List.zipWith_self]

/-- The only thread there can be gives the permit back in its first step. -/
theorem length_ended_release (steps : List Step) (analyzer : Analyzer) :
    (started steps).length ≤ (ended (steps ++ [.release 0 analyzer])).length := by
  obtain ⟨past, stage, h⟩ := exists_books steps
  obtain ⟨queue, hstate⟩ := h.state
  rw [ended_concat, h.started, h.ended, hstate]
  cases stage <;> simp [Stage.pass?, Stage.analyzer?, ends, Stage.state, Stage.threads]

/-- It sends its completion in the second. -/
theorem length_sent_send {steps : List Step} {n : Nat} (hn : n ≤ (ended steps).length) :
    n ≤ (sent (steps ++ [.send 0])).length := by
  obtain ⟨past, stage, h⟩ := exists_books steps
  obtain ⟨queue, hstate⟩ := h.state
  rw [h.ended] at hn
  rw [sent_concat, h.sent, hstate]
  cases stage <;> simp_all [Stage.analyzer?, sends, Stage.state, Stage.threads, Stage.mailbox]

theorem length_collected_collect {steps : List Step} {n : Nat} (hn : n ≤ (sent steps).length) :
    n ≤ (collected (steps ++ [.collect])).length := by
  obtain ⟨past, stage, h⟩ := exists_books steps
  obtain ⟨queue, hstate⟩ := h.state
  rw [h.sent] at hn
  rw [collected_concat, h.collected, hstate, handsOut, Stage.collect_state]
  simpa using hn

theorem length_gather_le {α : Type} (out : Dispatcher → Step → List α) (d : Dispatcher)
    (steps more : List Step) :
    (d.gather out steps).length ≤ (d.gather out (steps ++ more)).length := by
  simp [gather_append]

theorem exists_of_cons_sublist {step : Step} {rest steps : List Step}
    (h : (step :: rest).Sublist steps) :
    ∃ before after, steps = before ++ [step] ++ after ∧ rest.Sublist after := by
  obtain ⟨front, after, rfl, hstep, hrest⟩ := List.cons_sublist_iff.1 h
  obtain ⟨before, middle, rfl⟩ := List.append_of_mem hstep
  exact ⟨before, middle ++ after, by simp, hrest.trans (List.sublist_append_right middle after)⟩

/-- Once its thread has taken its two steps, the next time the mailbox is read a pass is
handed out, whatever is done in between. -/
theorem length_collected_of_sublist {steps more : List Step} {analyzer : Analyzer}
    (h : [.release 0 analyzer, .send 0, .collect].Sublist more) :
    (started steps).length ≤ (collected (steps ++ more)).length := by
  -- the counts only grow between the three steps
  obtain ⟨before, more, rfl, hsend⟩ := exists_of_cons_sublist h
  obtain ⟨between, more, rfl, hcollect⟩ := exists_of_cons_sublist hsend
  obtain ⟨last, after, rfl, -⟩ := exists_of_cons_sublist hcollect
  have hended : (started steps).length ≤
      (ended (steps ++ before ++ [.release 0 analyzer] ++ between)).length :=
    calc (started steps).length
      _ ≤ (started (steps ++ before)).length := length_gather_le ..
      _ ≤ (ended (steps ++ before ++ [.release 0 analyzer])).length :=
          length_ended_release _ analyzer
      _ ≤ _ := length_gather_le ..
  have hsent : (started steps).length ≤
      (sent (steps ++ before ++ [.release 0 analyzer] ++ between ++ [.send 0] ++ last)).length :=
    Nat.le_trans (length_sent_send hended) (length_gather_le ..)
  have hcollected :=
    Nat.le_trans (length_collected_collect hsent) (length_gather_le handsOut {} _ after)
  simpa [collected] using hcollected

/-- The place under any interleaving of its threads: one pass at a time, and each of them
handed out once. -/
structure ExactlyOnce (steps : List Step) : Prop where
  single : (undrained steps).length ≤ 1
  /-- The threads and the mailbox have this pass and no other. -/
  carried : (run {} steps).threads.length + (run {} steps).mailbox.length =
    (undrained steps).length
  /-- What was handed out are the completions of the first passes, in the order of their
  start, each with what its analyzer made of its snapshot. -/
  inOrder : collected steps <+: (started steps).zipWith Pass.conclude (ended steps)
  /-- A request starts a pass exactly if none is on its way, under the next number. -/
  answers : ∀ s, ((run {} steps).request s).1 =
    if (undrained steps).isEmpty then .started ((started steps).length % taskNumbers) else .queued
  /-- The permit is never missing without a pass on record. -/
  permitted : (run {} steps).active = none → (run {} steps).permits = 1
  /-- No completion is dropped. -/
  recognized : (run {} steps).collect.1 = (run {} steps).mailbox
  isBusy : (run {} steps).isBusy = !(undrained steps).isEmpty
  inFlight : (run {} steps).inFlight?.toList =
    (undrained steps).map fun p => (p.snapshot.document, p.snapshot.version, p.snapshot.mode)
  /-- What was started is handed out, once its thread goes on and the mailbox is read. -/
  delivered : ∀ more analyzer, [.release 0 analyzer, .send 0, .collect].Sublist more →
    (started steps).length ≤ (collected (steps ++ more)).length
  /-- To the same calls, with passes that end in between, the place with a single slot
  answers the same. -/
  seen : ∃ calls : List SingleFlight.Call,
    calls.filter (!·.isFinish) = steps.filterMap Step.call? ∧
      replies {} steps = (SingleFlight.replies {} calls).map SingleFlight.Reply.wrap ∧
        (run {} steps).queue = (SingleFlight.run {} calls).queue ∧
          (run {} steps).inFlight? = (SingleFlight.run {} calls).inFlight?

/-- Whatever is requested or forgotten meanwhile, no pass is lost, handed out twice, or left
in the place. -/
theorem exactlyOnce_run (steps : List Step) : ExactlyOnce steps := by
  obtain ⟨past, stage, h⟩ := exists_books steps
  obtain ⟨queue, hstate⟩ := h.state
  obtain ⟨calls, hcalls, hmirrors, hreplies⟩ := exists_calls steps
  refine ⟨?_, ?_, ?_, ?_, ?_, ?_, ?_, ?_, fun more analyzer => length_collected_of_sublist,
    calls, hcalls, hreplies, hmirrors.queue, hmirrors.inFlight?⟩
  · rw [h.undrained_eq]
    cases stage <;> simp [Stage.pass?]
  · rw [h.undrained_eq, hstate]
    cases stage <;> rfl
  · rw [h.zipWith_conclude]
    exact List.prefix_append ..
  · intro s
    rw [h.undrained_eq, hstate, Stage.request_state]
    cases stage <;> rfl
  · rw [hstate]
    cases stage <;> simp [Stage.state, Stage.pass?, Stage.permits]
  · rw [hstate, Stage.collect_state]
    rfl
  · rw [h.undrained_eq, hstate]
    cases stage <;> rfl
  · rw [h.undrained_eq, hstate]
    cases stage <;> rfl

/-- The permit is back before the record is clear, and then it is the record that counts. -/
example (s s' : Snapshot) (analyzer : Analyzer) :
    (run {} [.request s, .release 0 analyzer]).permits = 1 ∧
      ((run {} [.request s, .release 0 analyzer]).request s').1 = .queued := ⟨rfl, rfl⟩

end Dispatcher

end ScriptDesk
