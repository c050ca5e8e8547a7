import Mathlib.Data.List.Basic
import Mathlib.Data.List.Induction
import Mathlib.Data.List.Nodup
import ScriptDesk.Pass.Call
import ScriptDesk.Proofs.Flight

/-!
# ScriptDesk.Proofs.Turns

Whoever waits for the place for passes gets a turn. A request that finds the place taken
either appends its document to the queue or raises the mode in which that waits already;
every other call only takes entries out (`queue_cases`). So the queue is in the order in
which its documents entered it, nobody falls back, and an entry goes only when it is taken
from the front, forgotten, or answered by a pass that covers it.
-/

namespace ScriptDesk

theorem Mode.covers_total (m n : Mode) : m.covers n = true ∨ n.covers m = true := by
  cases m <;> cases n <;> simp [covers]

theorem Mode.join_eq (m n : Mode) : m.join n = m ∨ m.join n = n := by
  cases m <;> cases n <;> simp [join]

/-- An entry after a pass on the snapshot was requested and none was started. -/
def Queued.raise (q : Queued) (s : Snapshot) : Queued :=
  if q.document = s.document then { q with mode := q.mode.join s.mode } else q

@[simp] theorem Queued.document_raise (q : Queued) (s : Snapshot) :
    (q.raise s).document = q.document := by
  unfold raise
  split <;> rfl

theorem Queued.covers_raise (q : Queued) (s : Snapshot) :
    (q.raise s).mode.covers q.mode = true := by
  unfold raise
  split
  · exact Mode.covers_join_left q.mode s.mode
  · exact q.mode.covers_refl

namespace SingleFlight

/-- The documents that wait, in their order. -/
def documents (f : SingleFlight) : List DocumentId := f.queue.map (·.document)

theorem mem_documents_iff {f : SingleFlight} {id : DocumentId} :
    id ∈ f.documents ↔ f.isQueued id = true := by
  simp [documents, isQueued]

theorem isQueued_of_mem {f : SingleFlight} {q : Queued} (h : q ∈ f.queue) :
    f.isQueued q.document = true :=
  List.any_eq_true.2 ⟨q, h, by simp⟩

theorem queue_finish (f : SingleFlight) (analyzer : Analyzer) :
    (f.finish analyzer).2.queue = f.queue := by
  rw [finish_snd]

theorem queue_collect (f : SingleFlight) : f.collect.2.queue = f.queue := by
  unfold collect
  cases f.slot <;> rfl

/-- A call takes entries out of the queue, and keeps only those that a pass it starts does
not answer; or it is a request that finds the place taken. -/
theorem queue_cases (f : SingleFlight) (c : Call) :
    ((f.perform c).2.queue.Sublist f.queue ∧
        ∀ s, c = .request s → ∀ q ∈ (f.perform c).2.queue, q.document = s.document →
          q.mode.covers s.mode = true) ∨
      ∃ s, c = .request s ∧ f.isBusy = true ∧
        (f.perform c).2 = f.enqueue s.document s.mode := by
  cases c with
  | request s =>
    cases hbusy : f.isBusy with
    | true => exact .inr ⟨s, rfl, rfl, by rw [perform, request_of_busy hbusy]⟩
    | false =>
      left
      rw [perform, request_of_free hbusy]
      refine ⟨List.filter_sublist, ?_⟩
      rintro _ ⟨⟩ q hq hdocument
      have hkept := (List.mem_filter.1 hq).2
      rcases q.mode.covers_total s.mode with hcovers | hcovers
      · exact hcovers
      · simp [hdocument, hcovers] at hkept
  | finish analyzer => exact .inl ⟨f.queue_finish analyzer ▸ .refl _, nofun⟩
  | collect => exact .inl ⟨f.queue_collect ▸ .refl _, nofun⟩
  | dequeue =>
    refine .inl ⟨?_, nofun⟩
    change f.dequeue.2.queue.Sublist f.queue
    rcases f.dequeue_cases with ⟨-, heq⟩ | ⟨q, rest, -, hqueue, heq⟩
    · rw [heq]
    · rw [heq, hqueue]
      exact List.sublist_cons_self q rest
  | forget id => exact .inl ⟨List.filter_sublist, nofun⟩

/-! ## One entry a document -/

theorem documents_enqueue (f : SingleFlight) (id : DocumentId) (mode : Mode) :
    (f.enqueue id mode).documents =
      if f.isQueued id then f.documents else f.documents ++ [id] := by
  unfold documents enqueue
  dsimp only
  split
  · rw [List.map_map]
    refine List.map_congr_left fun q _ => ?_
    simp only [Function.comp_apply]
    split <;> rfl
  · simp

theorem nodup_documents_perform {f : SingleFlight} (h : f.documents.Nodup) (c : Call) :
    (f.perform c).2.documents.Nodup := by
  rcases f.queue_cases c with ⟨hsub, -⟩ | ⟨s, -, -, heq⟩
  · exact (hsub.map _).nodup h
  · rw [heq, documents_enqueue]
    split
    · exact h
    · next hqueued =>
      rw [← mem_documents_iff] at hqueued
      exact List.nodup_append.2 ⟨h, List.nodup_singleton _, fun a ha b hb hab => by
        rw [List.mem_singleton] at hb
        exact hqueued (hb ▸ hab ▸ ha)⟩

theorem nodup_documents_run (calls : List Call) : (run {} calls).documents.Nodup := by
  induction calls using List.reverseRecOn with
  | nil => exact .nil
  | append_singleton calls c ih =>
    rw [run_concat]
    exact nodup_documents_perform ih c

/-! ## Nobody falls back -/

/-- How many wait in front of a document. -/
def position (f : SingleFlight) (id : DocumentId) : Nat := f.documents.idxOf id

/-- Taking others out of a list without repetitions moves nothing back. -/
theorem idxOf_le_of_sublist {l' l : List DocumentId} (h : l'.Sublist l) (hn : l.Nodup)
    {id : DocumentId} (hid : id ∈ l') : l'.idxOf id ≤ l.idxOf id := by
  induction h with
  | slnil => exact Nat.le_refl _
  | cons a hsub ih =>
    obtain ⟨ha, hn⟩ := List.nodup_cons.1 hn
    have hne : a ≠ id := fun heq => ha (heq ▸ hsub.subset hid)
    rw [List.idxOf_cons_ne _ hne]
    exact Nat.le_succ_of_le (ih hn hid)
  | cons_cons a hsub ih =>
    obtain ⟨ha, hn⟩ := List.nodup_cons.1 hn
    by_cases heq : a = id
    · simp [heq]
    · rw [List.idxOf_cons_ne _ heq, List.idxOf_cons_ne _ heq]
      exact Nat.succ_le_succ (ih hn ((List.mem_cons.1 hid).resolve_left (Ne.symm heq)))

theorem position_perform_le {f : SingleFlight} (h : f.documents.Nodup) (c : Call)
    {id : DocumentId} (hid : f.isQueued id = true) (hid' : (f.perform c).2.isQueued id = true) :
    (f.perform c).2.position id ≤ f.position id := by
  rw [← mem_documents_iff] at hid hid'
  rcases f.queue_cases c with ⟨hsub, -⟩ | ⟨s, -, -, heq⟩
  · exact idxOf_le_of_sublist (hsub.map _) h hid'
  · rw [heq, position, documents_enqueue]
    split
    · exact Nat.le_refl _
    · rw [List.idxOf_append_of_mem hid]
      exact Nat.le_refl _

/-! ## In the order of entry -/

/-- The modes in which the calls request passes on a document. -/
def requestedModes (id : DocumentId) (calls : List Call) : List Mode :=
  calls.filterMap fun
    | .request s => if s.document = id then some s.mode else none
    | _ => none

/-- The mode is the greatest of some modes. -/
def IsGreatest (mode : Mode) (modes : List Mode) : Prop :=
  mode ∈ modes ∧ ∀ m ∈ modes, mode.covers m = true

/-- The document of an entry was put into the queue by the call of that number and waits
since, in the greatest mode that was requested for it from then on. -/
structure WaitsSince (calls : List Call) (n : Nat) (q : Queued) : Prop where
  entered : ∃ s, calls[n]? = some (.request s) ∧ s.document = q.document
  absent : (run {} (calls.take n)).isQueued q.document = false
  since : ∀ m, n < m → m ≤ calls.length → (run {} (calls.take m)).isQueued q.document = true
  mode : IsGreatest q.mode (requestedModes q.document (calls.drop n))

/-- The entries of the queue, with the numbers of the calls that put their documents into
it, in the order of these numbers. -/
structure InOrder (calls : List Call) (entries : List (Nat × Queued)) : Prop where
  queue : entries.map Prod.snd = (run {} calls).queue
  sorted : (entries.map Prod.fst).Pairwise (· < ·)
  waits : ∀ e ∈ entries, WaitsSince calls e.1 e.2

theorem requestedModes_concat (id : DocumentId) (calls : List Call) (c : Call) :
    requestedModes id (calls ++ [c]) = requestedModes id calls ++ requestedModes id [c] :=
  List.filterMap_append

theorem WaitsSince.lt_length {calls : List Call} {n : Nat} {q : Queued}
    (h : WaitsSince calls n q) : n < calls.length := by
  obtain ⟨s, hs, -⟩ := h.entered
  exact (List.getElem?_eq_some_iff.1 hs).1

/-- An entry that a call keeps, in a mode that is the greatest again, waits on. -/
theorem WaitsSince.concat {calls : List Call} {n : Nat} {q : Queued} (h : WaitsSince calls n q)
    {c : Call} {mode : Mode} (hkept : (run {} (calls ++ [c])).isQueued q.document = true)
    (hmode : IsGreatest mode
      (requestedModes q.document (calls.drop n) ++ requestedModes q.document [c])) :
    WaitsSince (calls ++ [c]) n { q with mode } where
  entered := by
    obtain ⟨s, hs, hdocument⟩ := h.entered
    exact ⟨s, by rw [List.getElem?_append_left h.lt_length, hs], hdocument⟩
  absent := by
    rw [List.take_append_of_le_length (Nat.le_of_lt h.lt_length)]
    exact h.absent
  since m hn hm := by
    rw [List.length_append, List.length_singleton] at hm
    rcases Nat.lt_or_eq_of_le hm with hlt | rfl
    · rw [List.take_append_of_le_length (Nat.le_of_lt_succ hlt)]
      exact h.since m hn (Nat.le_of_lt_succ hlt)
    · rw [List.take_of_length_le (by simp)]
      exact hkept
  mode := by
    rw [List.drop_append_of_le_length (Nat.le_of_lt h.lt_length), requestedModes_concat]
    exact hmode

/-- A request that finds its document not queued puts it into the queue. -/
theorem waitsSince_length {calls : List Call} {s : Snapshot}
    (habsent : (run {} calls).isQueued s.document = false)
    (hqueued : (run {} (calls ++ [.request s])).isQueued s.document = true) :
    WaitsSince (calls ++ [.request s]) calls.length ⟨s.document, s.mode⟩ where
  entered := ⟨s, by simp, rfl⟩
  absent := by simpa using habsent
  since m hn hm := by
    rw [List.length_append, List.length_singleton] at hm
    rw [show m = calls.length + 1 by omega, List.take_of_length_le (by simp)]
    exact hqueued
  mode := by
    rw [List.drop_left]
    simp [requestedModes, IsGreatest]

theorem isGreatest_append_of_covers {mode : Mode} {modes more : List Mode}
    (h : IsGreatest mode modes) (hmore : ∀ m ∈ more, mode.covers m = true) :
    IsGreatest mode (modes ++ more) :=
  ⟨List.mem_append_left _ h.1, fun m hm => (List.mem_append.1 hm).elim (h.2 m) (hmore m)⟩

theorem isGreatest_join {mode : Mode} {modes : List Mode} (h : IsGreatest mode modes) (m : Mode) :
    IsGreatest (mode.join m) (modes ++ [m]) := by
  refine ⟨?_, fun n hn => ?_⟩
  · rcases mode.join_eq m with heq | heq <;> rw [heq]
    · exact List.mem_append_left _ h.1
    · exact List.mem_append_right _ List.mem_cons_self
  · rcases List.mem_append.1 hn with hn | hn
    · exact Mode.covers_trans (Mode.covers_join_left mode m) (h.2 n hn)
    · rw [List.mem_singleton.1 hn]
      exact Mode.covers_join_right mode m

theorem exists_of_mem_requestedModes {id : DocumentId} {c : Call} {m : Mode}
    (h : m ∈ requestedModes id [c]) : ∃ s, c = .request s ∧ s.document = id ∧ s.mode = m := by
  cases c <;> simp_all [requestedModes]

/-- The entries that a call keeps stay in order. -/
theorem InOrder.concat_of_sublist {calls : List Call} {entries : List (Nat × Queued)}
    (h : InOrder calls entries) {c : Call}
    (hsub : (run {} (calls ++ [c])).queue.Sublist (run {} calls).queue)
    (hcovers : ∀ s, c = .request s → ∀ q ∈ (run {} (calls ++ [c])).queue,
      q.document = s.document → q.mode.covers s.mode = true) :
    ∃ kept, InOrder (calls ++ [c]) kept := by
  rw [← h.queue, List.sublist_map_iff] at hsub
  obtain ⟨kept, hkept, hqueue⟩ := hsub
  refine ⟨kept, hqueue.symm, h.sorted.sublist (hkept.map _), fun e he => ?_⟩
  have hold := h.waits e (hkept.subset he)
  have hmem : e.2 ∈ (run {} (calls ++ [c])).queue := hqueue ▸ List.mem_map_of_mem he
  refine hold.concat (isQueued_of_mem hmem)
    (isGreatest_append_of_covers hold.mode fun m hm => ?_)
  obtain ⟨s, rfl, hdocument, rfl⟩ := exists_of_mem_requestedModes hm
  exact hcovers s rfl e.2 hmem hdocument.symm

/-- A request that raises the mode of an entry keeps the order. -/
theorem InOrder.concat_of_queued {calls : List Call} {entries : List (Nat × Queued)}
    (h : InOrder calls entries) {s : Snapshot}
    (hperform : ((run {} calls).perform (.request s)).2 =
      (run {} calls).enqueue s.document s.mode)
    (hqueued : (run {} calls).isQueued s.document = true) :
    InOrder (calls ++ [.request s]) (entries.map fun e => (e.1, e.2.raise s)) := by
  have hqueue : (run {} (calls ++ [.request s])).queue =
      (run {} calls).queue.map (·.raise s) := by
    rw [run_concat, hperform, enqueue, if_pos hqueued]
    rfl
  refine ⟨?_, ?_, ?_⟩
  · rw [hqueue, ← h.queue, List.map_map, List.map_map]
    rfl
  · rw [List.map_map]
    exact h.sorted
  · intro e' he'
    obtain ⟨e, he, rfl⟩ := List.mem_map.1 he'
    have hold := h.waits e he
    have hkept : (run {} (calls ++ [.request s])).isQueued e.2.document = true := by
      have hmem : e.2.raise s ∈ (run {} (calls ++ [.request s])).queue :=
        hqueue ▸ List.mem_map_of_mem (h.queue ▸ List.mem_map_of_mem he)
      rw [← e.2.document_raise s]
      exact isQueued_of_mem hmem
    by_cases hdocument : e.2.document = s.document
    · rw [Queued.raise, if_pos hdocument]
      refine hold.concat hkept ?_
      rw [show requestedModes e.2.document [.request s] = [s.mode] by
        simp [requestedModes, hdocument]]
      exact isGreatest_join hold.mode s.mode
    · rw [Queued.raise, if_neg hdocument]
      refine hold.concat hkept (isGreatest_append_of_covers hold.mode fun m hm => ?_)
      obtain ⟨_, ⟨⟩, hs, -⟩ := exists_of_mem_requestedModes hm
      exact absurd hs.symm hdocument

/-- A request that queues its document puts it at the end. -/
theorem InOrder.concat_of_not_queued {calls : List Call} {entries : List (Nat × Queued)}
    (h : InOrder calls entries) {s : Snapshot}
    (hperform : ((run {} calls).perform (.request s)).2 =
      (run {} calls).enqueue s.document s.mode)
    (hqueued : (run {} calls).isQueued s.document = false) :
    InOrder (calls ++ [.request s])
      (entries ++ [(calls.length, ⟨s.document, s.mode⟩)]) := by
  have hqueue : (run {} (calls ++ [.request s])).queue =
      (run {} calls).queue ++ [⟨s.document, s.mode⟩] := by
    rw [run_concat, hperform, enqueue, if_neg (by simp [hqueued])]
  refine ⟨?_, ?_, ?_⟩
  · rw [hqueue, ← h.queue, List.map_append, List.map_singleton]
  · rw [List.map_append, List.map_singleton, List.pairwise_append]
    refine ⟨h.sorted, List.pairwise_singleton .., fun n hn m hm => ?_⟩
    obtain ⟨e, he, rfl⟩ := List.mem_map.1 hn
    rw [List.mem_singleton.1 hm]
    exact (h.waits e he).lt_length
  · intro e he
    rcases List.mem_append.1 he with he | he
    · have hold := h.waits e he
      have hmem : e.2 ∈ (run {} calls).queue := h.queue ▸ List.mem_map_of_mem he
      refine hold.concat (isQueued_of_mem (hqueue ▸ List.mem_append_left _ hmem))
        (isGreatest_append_of_covers hold.mode fun m hm => ?_)
      obtain ⟨_, ⟨⟩, hs, -⟩ := exists_of_mem_requestedModes hm
      rw [hs, isQueued_of_mem hmem] at hqueued
      contradiction
    · rw [List.mem_singleton.1 he]
      exact waitsSince_length hqueued
        (isQueued_of_mem (q := ⟨s.document, s.mode⟩)
          (hqueue ▸ List.mem_append_right _ List.mem_cons_self))

/-- The queue is in the order of entry. -/
theorem exists_inOrder (calls : List Call) : ∃ entries, InOrder calls entries := by
  -- entries are told by the numbers of calls, which the last call does not change
  induction calls using List.reverseRecOn with
  | nil => exact ⟨[], rfl, .nil, nofun⟩
  | append_singleton calls c ih =>
    obtain ⟨entries, h⟩ := ih
    rcases (run {} calls).queue_cases c with ⟨hsub, hcovers⟩ | ⟨s, rfl, -, hperform⟩
    · rw [← run_concat] at hsub hcovers
      exact h.concat_of_sublist hsub hcovers
    · cases hqueued : (run {} calls).isQueued s.document with
      | true => exact ⟨_, h.concat_of_queued hperform hqueued⟩
      | false => exact ⟨_, h.concat_of_not_queued hperform hqueued⟩

/-! ## How an entry leaves -/

/-- The call takes the entry out of the queue, for one of three reasons. -/
inductive Leaves (f : SingleFlight) (q : Queued) : Call → Prop where
  /-- It is at the front while the place is free, and is handed out. -/
  | taken (hfree : f.isBusy = false) (hfront : f.queue.head? = some q)
      (htaken : (f.perform .dequeue).1 = some (.dequeued (some q))) : Leaves f q .dequeue
  | forgotten : Leaves f q (.forget q.document)
  /-- A pass is started on its document, in a mode that covers it. -/
  | answered {s : Snapshot} {task : Nat} (hdocument : s.document = q.document)
      (hcovers : s.mode.covers q.mode = true)
      (hstarted : (f.perform (.request s)).1 = some (.requested (.started task))) :
      Leaves f q (.request s)

/-- A pass on the snapshot is owed: its document waits, in a mode that covers it. -/
def Owes (f : SingleFlight) (s : Snapshot) : Prop :=
  ∃ q ∈ f.queue, q.document = s.document ∧ q.mode.covers s.mode = true

/-- The call takes the entry out that a pass on the snapshot is owed by. -/
def Clears (f : SingleFlight) (s : Snapshot) (c : Call) : Prop :=
  ∃ q ∈ f.queue, q.document = s.document ∧ q.mode.covers s.mode = true ∧ Leaves f q c

/-- An entry stays where it is or is raised, unless it leaves. -/
theorem stays_or_leaves {f : SingleFlight} {q : Queued} (h : q ∈ f.queue) (c : Call) :
    (∃ r ∈ (f.perform c).2.queue, r.document = q.document ∧ r.mode.covers q.mode = true) ∨
      Leaves f q c := by
  have hself {g : SingleFlight} (hq : q ∈ g.queue) :
      ∃ r ∈ g.queue, r.document = q.document ∧ r.mode.covers q.mode = true :=
    ⟨q, hq, rfl, q.mode.covers_refl⟩
  cases c with
  | request s =>
    cases hbusy : f.isBusy with
    | true =>
      left
      rw [perform, request_of_busy hbusy]
      by_cases hqueued : f.isQueued s.document
      · refine ⟨q.raise s, ?_, q.document_raise s, q.covers_raise s⟩
        dsimp only [enqueue]
        rw [if_pos hqueued]
        exact List.mem_map_of_mem h
      · refine hself ?_
        dsimp only [enqueue]
        rw [if_neg hqueued]
        exact List.mem_append_left _ h
    | false =>
      by_cases hanswered : s.document = q.document ∧ s.mode.covers q.mode = true
      · have hstarted : (f.perform (.request s)).1 = some (.requested (.started f.nextTask)) := by
          rw [perform, request_of_free hbusy]
        exact .inr (.answered hanswered.1 hanswered.2 hstarted)
      · left
        rw [perform, request_of_free hbusy]
        refine hself (List.mem_filter.2 ⟨h, ?_⟩)
        simpa [eq_comm (a := q.document), Decidable.imp_iff_not_or] using hanswered
  | finish analyzer => exact .inl (hself (f.queue_finish analyzer ▸ h))
  | collect => exact .inl (hself (f.queue_collect ▸ h))
  | dequeue =>
    rcases f.dequeue_cases with ⟨-, heq⟩ | ⟨front, rest, hfree, hqueue, heq⟩
    · refine .inl (hself ?_)
      rw [perform, heq]
      exact h
    · rcases List.mem_cons.1 (hqueue ▸ h) with rfl | hrest
      · refine .inr (.taken hfree (by rw [hqueue, List.head?_cons]) ?_)
        rw [perform, heq]
      · refine .inl (hself ?_)
        rw [perform, heq]
        exact hrest
  | forget id =>
    by_cases hforgotten : q.document = id
    · exact .inr (hforgotten ▸ .forgotten)
    · exact .inl (hself (List.mem_filter.2 ⟨h, by simp [hforgotten]⟩))

/-- What leaves is gone: its document waits no more. -/
theorem Leaves.isQueued_eq_false {f : SingleFlight} {q : Queued} {c : Call}
    (h : Leaves f q c) (hq : q ∈ f.queue) (hn : f.documents.Nodup) :
    (f.perform c).2.isQueued q.document = false := by
  -- an entry for the same document would be the same entry
  suffices hout : (f.perform c).2.queue.Sublist f.queue ∧ q ∉ (f.perform c).2.queue by
    refine List.any_eq_false.2 fun r hr hdocument => hout.2 ?_
    rwa [← List.inj_on_of_nodup_map hn (hout.1.subset hr) hq (of_decide_eq_true hdocument)]
  cases h with
  | taken hfree hfront htaken =>
    rcases f.dequeue_cases with ⟨-, heq⟩ | ⟨front, rest, -, hqueue, heq⟩
    · rw [perform, heq] at htaken
      cases htaken
    · rw [hqueue, List.head?_cons] at hfront
      cases hfront
      rw [documents, hqueue, List.map_cons, List.nodup_cons] at hn
      change f.dequeue.2.queue.Sublist f.queue ∧ q ∉ f.dequeue.2.queue
      rw [heq, hqueue]
      exact ⟨List.sublist_cons_self q rest, fun hrest => hn.1 (List.mem_map_of_mem hrest)⟩
  | forgotten =>
    exact ⟨List.filter_sublist, fun hkept => by simpa using (List.mem_filter.1 hkept).2⟩
  | @answered s task hdocument hcovers hstarted =>
    have hfree : f.isBusy = false := by
      cases hbusy : f.isBusy with
      | false => rfl
      | true =>
        rw [perform, request_of_busy hbusy] at hstarted
        cases hstarted
    rw [perform, request_of_free hfree]
    refine ⟨List.filter_sublist, fun hkept => ?_⟩
    have := (List.mem_filter.1 hkept).2
    simp [hdocument, hcovers] at this

/-- What is owed stays owed until it is cleared. -/
theorem Owes.run {f : SingleFlight} {s : Snapshot} (h : f.Owes s) (calls : List Call) :
    (f.run calls).Owes s ∨
      ∃ before c after, calls = before ++ c :: after ∧ (f.run before).Clears s c := by
  induction calls generalizing f with
  | nil => exact .inl h
  | cons c rest ih =>
    obtain ⟨q, hq, hdocument, hcovers⟩ := h
    rcases stays_or_leaves hq c with ⟨r, hr, hsame, hmore⟩ | hleaves
    · rcases ih ⟨r, hr, hsame.trans hdocument, Mode.covers_trans hmore hcovers⟩ with
        howes | ⟨before, d, after, rfl, hclears⟩
      · exact .inl howes
      · exact .inr ⟨c :: before, d, after, rfl, hclears⟩
    · exact .inr ⟨[], c, rest, rfl, q, hq, hdocument, hcovers, hleaves⟩

/-- A request that is queued is owed. -/
theorem owes_of_queued {f : SingleFlight} {s : Snapshot}
    (h : (f.perform (.request s)).1 = some (.requested .queued)) :
    (f.perform (.request s)).2.Owes s := by
  cases hbusy : f.isBusy with
  | false =>
    rw [perform, request_of_free hbusy] at h
    cases h
  | true =>
    rw [perform, request_of_busy hbusy]
    obtain ⟨m, hm, hcovers⟩ := exists_covers_requeue (f.waiting s.document) s.mode
    rw [← waiting_enqueue_self, mem_waiting_iff] at hm
    exact ⟨_, hm, rfl, hcovers⟩

/-- The queue after some calls, and how it goes on: whoever waits gets a turn. -/
structure KeepsTurns (calls : List Call) : Prop where
  /-- No document waits twice. -/
  distinct : (run {} calls).documents.Nodup
  /-- They wait in the order of entry, each in the greatest mode requested since then. -/
  inOrder : ∃ entries, InOrder calls entries
  /-- Nobody falls back. -/
  advances : ∀ c id, (run {} calls).isQueued id = true →
    (run {} (calls ++ [c])).isQueued id = true →
      (run {} (calls ++ [c])).position id ≤ (run {} calls).position id
  /-- An entry stays, in its mode or a greater one, unless there is a reason to leave. -/
  stays : ∀ c, ∀ q ∈ (run {} calls).queue, ¬ Leaves (run {} calls) q c →
    ∃ r ∈ (run {} (calls ++ [c])).queue, r.document = q.document ∧ r.mode.covers q.mode = true
  /-- With such a reason it leaves. -/
  leaves : ∀ c, ∀ q ∈ (run {} calls).queue, Leaves (run {} calls) q c →
    (run {} (calls ++ [c])).isQueued q.document = false
  /-- What is queued on request is owed a pass until one of these reasons clears it. -/
  owes : ∀ s, ((run {} calls).perform (.request s)).1 = some (.requested .queued) → ∀ more,
    (run {} (calls ++ .request s :: more)).Owes s ∨
      ∃ before c after, more = before ++ c :: after ∧
        (run {} (calls ++ .request s :: before)).Clears s c

theorem keepsTurns_run (calls : List Call) : KeepsTurns calls where
  distinct := nodup_documents_run calls
  inOrder := exists_inOrder calls
  advances c id := by
    rw [run_concat]
    exact position_perform_le (nodup_documents_run calls) c
  stays c q hq hstays := by
    rw [run_concat]
    exact (stays_or_leaves hq c).resolve_right hstays
  leaves c q hq hleaves := by
    rw [run_concat]
    exact hleaves.isQueued_eq_false hq (nodup_documents_run calls)
  owes s hqueued more := by
    simp only [run_append, run_cons]
    exact (owes_of_queued hqueued).run more

end SingleFlight

end ScriptDesk
