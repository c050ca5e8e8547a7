import ScriptDesk.Document.Tracking

/-!
# ScriptDesk.Proofs.Flight

The place for passes seen by document: the modes in which a document waits in
the queue, and the slot as far as the pass in it is on that document. Every
operation changes these for its own document only; taking the next document off
the queue also drops closed documents.
-/

namespace ScriptDesk

namespace Slot

/-- The document of the pass in the slot. -/
def document? : Slot → Option DocumentId
  | .free => none
  | .running _ s => some s.document
  | .finished c => some c.document

/-- The version and the mode of the pass in the slot. -/
def stamp? : Slot → Option Stamp
  | .free => none
  | .running _ s => some ⟨s.version, s.mode⟩
  | .finished c => some ⟨c.version, c.mode⟩

/-- The slot as one document sees it: a pass on another document leaves it free. -/
def seenBy (slot : Slot) (id : DocumentId) : Slot :=
  if slot.document? = some id then slot else .free

@[simp] theorem seenBy_free (id : DocumentId) : seenBy .free id = .free := by
  simp [seenBy, document?]

theorem seenBy_of_document? {slot : Slot} {id : DocumentId} (h : slot.document? = some id) :
    slot.seenBy id = slot := if_pos h

theorem seenBy_of_ne {slot : Slot} {id other : DocumentId} (h : slot.document? = some id)
    (hne : other ≠ id) : slot.seenBy other = .free := by
  rw [seenBy, if_neg]
  rw [h, Option.some.injEq]
  exact hne.symm

end Slot

/-- The modes in which a document waits, after it asked for one more: one that
waits already keeps its turn. -/
def requeue (waiting : List Mode) (mode : Mode) : List Mode :=
  if waiting.isEmpty then [mode] else waiting.map (·.join mode)

/-- A document that asked for a pass waits for one that covers it. -/
theorem exists_covers_requeue (waiting : List Mode) (mode : Mode) :
    ∃ m ∈ requeue waiting mode, m.covers mode = true := by
  cases waiting with
  | nil => exact ⟨mode, by simp [requeue], mode.covers_refl⟩
  | cons m rest => exact ⟨m.join mode, by simp [requeue], Mode.covers_join_right m mode⟩

namespace SingleFlight

/-- The modes in which a document waits in the queue. -/
def waiting (f : SingleFlight) (id : DocumentId) : List Mode :=
  (f.queue.filter (·.document = id)).map (·.mode)

theorem mem_waiting_iff {f : SingleFlight} {id : DocumentId} {mode : Mode} :
    mode ∈ f.waiting id ↔ ⟨id, mode⟩ ∈ f.queue := by
  simp only [waiting, List.mem_map, List.mem_filter, decide_eq_true_eq]
  constructor
  · rintro ⟨q, ⟨hq, rfl⟩, rfl⟩
    exact hq
  · exact fun h => ⟨_, ⟨h, rfl⟩, rfl⟩

theorem isQueued_iff {f : SingleFlight} {id : DocumentId} :
    f.isQueued id = true ↔ f.waiting id ≠ [] := by
  simp [isQueued, waiting]

/-! ## The slot -/

/-- The pass on a document, if there is one, is the pass in flight. -/
theorem inFlight?_eq_some_iff {f : SingleFlight} {id : DocumentId} {v : Nat} {m : Mode} :
    f.inFlight? = some (id, v, m) ↔ (f.slot.seenBy id).stamp? = some ⟨v, m⟩ := by
  unfold inFlight? Slot.seenBy
  cases f.slot with
  | free => simp [Slot.document?, Slot.stamp?]
  | running task s => by_cases h : s.document = id <;> simp [Slot.document?, Slot.stamp?, h]
  | finished c => by_cases h : c.document = id <;> simp [Slot.document?, Slot.stamp?, h]

theorem isBusy_eq_false_iff {f : SingleFlight} : f.isBusy = false ↔ f.slot = .free := by
  unfold isBusy
  cases f.slot <;> simp

/-! ## Asking for a pass -/

/-- The place after a pass on the snapshot was started. -/
def launch (f : SingleFlight) (s : Snapshot) : SingleFlight :=
  { f.dropCovered s.document s.mode with
    slot := .running f.nextTask s, nextTask := f.nextTask + 1 }

theorem request_of_free {f : SingleFlight} (h : f.isBusy = false) (s : Snapshot) :
    f.request s = (.started f.nextTask, f.launch s) := by
  unfold request launch
  rw [isBusy_eq_false_iff.1 h]

theorem request_of_busy {f : SingleFlight} (h : f.isBusy = true) (s : Snapshot) :
    f.request s = (.queued, f.enqueue s.document s.mode) := by
  unfold request
  unfold isBusy at h
  cases hs : f.slot <;> simp_all

/-- Raising the modes of one document moves no entry. -/
theorem filter_document_map_join (queue : List Queued) (id other : DocumentId) (mode : Mode) :
    (queue.map fun q => if q.document = id then { q with mode := q.mode.join mode } else q).filter
        (·.document = other) =
      (queue.filter (·.document = other)).map fun q =>
        if q.document = id then { q with mode := q.mode.join mode } else q := by
  rw [List.filter_map]
  congr 1
  refine List.filter_congr fun q _ => ?_
  by_cases h : q.document = id <;> simp [h]

theorem waiting_enqueue_self (f : SingleFlight) (id : DocumentId) (mode : Mode) :
    (f.enqueue id mode).waiting id = requeue (f.waiting id) mode := by
  cases hw : f.isQueued id with
  | true =>
    have hne := isQueued_iff.1 hw
    unfold requeue
    rw [if_neg (by simpa using hne)]
    unfold waiting enqueue
    rw [if_pos hw, filter_document_map_join, List.map_map, List.map_map]
    refine List.map_congr_left fun q hq => ?_
    simp [of_decide_eq_true (List.mem_filter.1 hq).2]
  | false =>
    have hnil : f.waiting id = [] := Decidable.byContradiction fun hne => by
      rw [isQueued_iff.2 hne] at hw
      contradiction
    rw [hnil]
    unfold waiting at hnil ⊢
    simp [enqueue, hw, hnil, requeue]

theorem waiting_enqueue_of_ne (f : SingleFlight) {id other : DocumentId} (mode : Mode)
    (h : other ≠ id) : (f.enqueue id mode).waiting other = f.waiting other := by
  unfold waiting enqueue
  dsimp only
  split
  · rw [filter_document_map_join, List.map_map]
    refine List.map_congr_left fun q hq => ?_
    have hq' : q.document = other := of_decide_eq_true (List.mem_filter.1 hq).2
    simp [hq', h]
  · simp [h.symm]

theorem waiting_launch_self (f : SingleFlight) (s : Snapshot) :
    (f.launch s).waiting s.document = (f.waiting s.document).filter (!s.mode.covers ·) := by
  unfold waiting launch dropCovered
  rw [List.filter_map, List.filter_filter, List.filter_filter]
  congr 1
  refine List.filter_congr fun q _ => ?_
  by_cases h : q.document = s.document <;> simp [h]

theorem waiting_launch_of_ne (f : SingleFlight) (s : Snapshot) {other : DocumentId}
    (h : other ≠ s.document) : (f.launch s).waiting other = f.waiting other := by
  unfold waiting launch dropCovered
  rw [List.filter_filter]
  congr 1
  refine List.filter_congr fun q _ => ?_
  by_cases hq : q.document = other <;> simp [hq, h]

theorem waiting_forget (f : SingleFlight) (id other : DocumentId) :
    (f.forget id).waiting other = if other = id then [] else f.waiting other := by
  unfold waiting forget
  rw [List.filter_filter]
  split
  · next h =>
    subst h
    rw [List.filter_eq_nil_iff.2 (by simp), List.map_nil]
  · next h =>
    congr 1
    refine List.filter_congr fun q _ => ?_
    by_cases hq : q.document = other <;> simp [hq, h]

theorem waiting_sublist {f g : SingleFlight} (h : g.queue.Sublist f.queue) (id : DocumentId) :
    (g.waiting id).Sublist (f.waiting id) :=
  (h.filter _).map _

/-- To other documents the front of the queue does not matter. -/
theorem waiting_of_queue {f g : SingleFlight} {front : List Queued} {q : Queued} {id : DocumentId}
    (hqueue : f.queue = front ++ q :: g.queue) (hfront : ∀ c ∈ front, c.document ≠ id) :
    f.waiting id = (if q.document = id then [q.mode] else []) ++ g.waiting id := by
  have hnil : front.filter (·.document = id) = [] := by
    simpa [List.filter_eq_nil_iff] using hfront
  unfold waiting
  rw [hqueue, List.filter_append, hnil, List.nil_append, List.filter_cons]
  by_cases h : q.document = id <;> simp [h]

/-! ## The end of a pass -/

/-- The slot after the running pass has ended. -/
def finishSlot (analyzer : Analyzer) : Slot → Slot
  | .running task s => .finished ⟨task, s.document, s.version, s.mode, analyzer.run s.request⟩
  | slot => slot

theorem finish_snd (f : SingleFlight) (analyzer : Analyzer) :
    (f.finish analyzer).2 = { f with slot := finishSlot analyzer f.slot } := by
  obtain ⟨slot, queue, nextTask⟩ := f
  cases slot <;> rfl

@[simp] theorem document?_finishSlot (analyzer : Analyzer) (slot : Slot) :
    (finishSlot analyzer slot).document? = slot.document? := by
  cases slot <;> rfl

@[simp] theorem stamp?_finishSlot (analyzer : Analyzer) (slot : Slot) :
    (finishSlot analyzer slot).stamp? = slot.stamp? := by
  cases slot <;> rfl

theorem seenBy_finishSlot (analyzer : Analyzer) (slot : Slot) (id : DocumentId) :
    (finishSlot analyzer slot).seenBy id = finishSlot analyzer (slot.seenBy id) := by
  unfold Slot.seenBy
  rw [document?_finishSlot]
  split <;> rfl

theorem collect_of_finished {f : SingleFlight} {done : Completion} (h : f.slot = .finished done) :
    f.collect = (some done, { f with slot := .free }) := by
  unfold collect
  rw [h]

theorem collect_of_not_finished {f : SingleFlight} (h : ∀ done, f.slot ≠ .finished done) :
    f.collect = (none, f) := by
  unfold collect
  cases hs : f.slot with
  | finished done => exact absurd hs (h done)
  | free => rfl
  | running task s => rfl

/-! ## Taking off the queue -/

/-- The three outcomes of asking for the next open document: the place is taken
and nothing changes; no open document waits, and the closed ones go; or the
first open document goes, and the closed ones in front of it. -/
theorem dequeueOpen_cases (f : SingleFlight) (isOpen : DocumentId → Bool) :
    (f.isBusy = true ∧ f.dequeueOpen isOpen = (none, f)) ∨
      (f.isBusy = false ∧ (∀ q ∈ f.queue, isOpen q.document = false) ∧
        f.dequeueOpen isOpen = (none, { f with queue := [] })) ∨
      ∃ closed q rest, f.isBusy = false ∧ f.queue = closed ++ q :: rest ∧
        (∀ c ∈ closed, isOpen c.document = false) ∧ isOpen q.document = true ∧
        f.dequeueOpen isOpen = (some q, { f with queue := rest }) := by
  unfold dequeueOpen isBusy
  cases f.slot with
  | running task s => exact .inl ⟨rfl, rfl⟩
  | finished c => exact .inl ⟨rfl, rfl⟩
  | free =>
    have hcut := List.takeWhile_append_dropWhile (p := fun q => !isOpen q.document) (l := f.queue)
    have hclosed : ∀ c ∈ f.queue.takeWhile fun q => !isOpen q.document,
        isOpen c.document = false := by
      intro c hc
      simpa using List.all_eq_true.1 List.all_takeWhile c hc
    right
    cases hd : f.queue.dropWhile fun q => !isOpen q.document with
    | nil =>
      rw [hd, List.append_nil] at hcut
      exact .inl ⟨rfl, hcut ▸ hclosed, by simp only⟩
    | cons q rest =>
      have hq : isOpen q.document = true := by
        have h := List.head?_dropWhile_not (fun q => !isOpen q.document) f.queue
        rw [hd] at h
        simpa using h
      exact .inr ⟨_, q, rest, rfl, by rw [hd] at hcut; exact hcut.symm, hclosed, hq, by simp only⟩

/-- The next document is the one at the front, if the place is free. -/
theorem dequeue_cases (f : SingleFlight) :
    ((f.isBusy = true ∨ f.queue = []) ∧ f.dequeue = (none, f)) ∨
      ∃ q rest, f.isBusy = false ∧ f.queue = q :: rest ∧
        f.dequeue = (some q, { f with queue := rest }) := by
  have hnil {closed : List Queued} (h : ∀ q ∈ closed, true = false) : closed = [] :=
    List.eq_nil_iff_forall_not_mem.2 fun q hq => nomatch h q hq
  rcases f.dequeueOpen_cases fun _ => true with
    ⟨hbusy, heq⟩ | ⟨-, hclosed, heq⟩ | ⟨closed, q, rest, hfree, hqueue, hclosed, -, heq⟩
  · exact .inl ⟨.inl hbusy, heq⟩
  · have hqueue := hnil hclosed
    exact .inl ⟨.inr hqueue, heq.trans (by rw [← hqueue])⟩
  · rw [hnil hclosed] at hqueue
    exact .inr ⟨q, rest, hfree, hqueue, heq⟩

end SingleFlight

end ScriptDesk
