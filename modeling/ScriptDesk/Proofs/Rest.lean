import ScriptDesk.Editor.Quiescence
import ScriptDesk.Proofs.Runs

/-!
# ScriptDesk.Proofs.Rest

Left to itself the editor comes to rest. A round lets the running pass end and
then tells the editor the time. If something is due by then, the round takes
work away: a request that becomes a pass counts two before and one after, and so
does a deadline; a pass that has ended counts one before and nothing after. No
tick gives the editor new work, so after `workLeft` rounds at most it is idle.
-/

namespace ScriptDesk

theorem SingleFlight.isBusy_finishSlot (f : SingleFlight) (analyzer : Analyzer) :
    isBusy { f with slot := finishSlot analyzer f.slot } = f.isBusy := by
  obtain ⟨slot, queue, nextTask⟩ := f
  cases slot <;> rfl

namespace Editor

/-- The running pass ends, and the editor is told the time. -/
def round (e : Editor) (analyzer : Analyzer) (now : Time) : Editor :=
  ((e.finishPass analyzer).2.tick now).2

theorem run_eq_round (e : Editor) (analyzer : Analyzer) (now : Time) :
    e.run [.finishPass analyzer, .tick now] = e.round analyzer now := rfl

/-- The editor after some rounds, with the analyzer and the instant of each. -/
def rounds (e : Editor) (analyzers : Nat → Analyzer) (times : Nat → Time) : Nat → Editor
  | 0 => e
  | n + 1 => (e.rounds analyzers times n).round (analyzers n) (times n)

/-- All armed deadlines have passed. -/
def DeadlinesPassed (e : Editor) (now : Time) : Prop :=
  ∀ x ∈ e.debouncer.armed, ∀ t, x.2.names = some t ∨ x.2.full = some t → t ≤ now

/-- On the way from `e` to `e'` no deadline was armed and no request was queued. -/
structure Dwindles (e e' : Editor) : Prop where
  queue : e'.flight.queue.Sublist e.flight.queue
  deadlines : ∀ id, (e'.debouncer.deadlines id).Within (e.debouncer.deadlines id)

theorem Dwindles.trans {e e' e'' : Editor} (h : Dwindles e e') (h' : Dwindles e' e'') :
    Dwindles e e'' where
  queue := h'.queue.trans h.queue
  deadlines id := (h'.deadlines id).trans (h.deadlines id)

theorem Dwindles.of_queue {e e' : Editor} (hq : e'.flight.queue.Sublist e.flight.queue)
    (hd : e'.debouncer = e.debouncer) : Dwindles e e' :=
  ⟨hq, fun _ => hd ▸ .refl _⟩

/-! ## Work -/

theorem workLeft_eq (e : Editor) :
    e.workLeft = 2 * (e.flight.queue.length + e.debouncer.armedCount) + e.flight.isBusy.toNat :=
  rfl

theorem workLeft_withQueue (e : Editor) (queue : List Queued) :
    (e.withQueue queue).workLeft =
      2 * (queue.length + e.debouncer.armedCount) + e.flight.isBusy.toNat :=
  workLeft_eq _

/-- Nothing is left to be done exactly if the editor is idle. -/
theorem isIdle_iff (e : Editor) : e.isIdle = true ↔ e.workLeft = 0 := by
  have hnext : e.nextWakeup?.isNone = true ↔ e.debouncer.armedCount = 0 := by
    rw [Option.isNone_iff_eq_none, nextWakeup?, Debouncer.next?_eq_none_iff]
  rw [workLeft_eq, isIdle, isAnalyzing, Bool.and_eq_true, hnext]
  cases e.flight.isBusy with
  | true => simp
  | false =>
    have hqueue : e.flight.queue.isEmpty = true ↔ e.flight.queue.length = 0 := by
      rw [List.isEmpty_iff, List.length_eq_zero_iff]
    rw [Bool.false_or, Bool.not_not, hqueue, Bool.toNat_false]
    omega

/-- If all deadlines have passed, the next one has. -/
theorem DeadlinesPassed.nextWakeup_le {e : Editor} {now t : Time} (h : e.DeadlinesPassed now)
    (ht : e.nextWakeup? = some t) : t ≤ now := by
  obtain ⟨x, hx, hearliest⟩ := List.mem_filterMap.1 (List.min?_mem ht)
  exact h x hx t (Deadlines.eq_of_earliest? hearliest)

/-! ## The phases of a tick -/

theorem finishPass_keeps (e : Editor) (analyzer : Analyzer) :
    (e.finishPass analyzer).2.flight =
        { e.flight with slot := SingleFlight.finishSlot analyzer e.flight.slot } ∧
      (e.finishPass analyzer).2.debouncer = e.debouncer :=
  ⟨SingleFlight.finish_snd e.flight analyzer, rfl⟩

theorem workLeft_finishPass (e : Editor) (analyzer : Analyzer) :
    (e.finishPass analyzer).2.workLeft = e.workLeft := by
  obtain ⟨hf, hd⟩ := e.finishPass_keeps analyzer
  rw [workLeft_eq, workLeft_eq, hf, hd, SingleFlight.isBusy_finishSlot]

theorem takeIn_keeps (e : Editor) (done : Completion) :
    (e.takeIn done).2.flight = e.flight ∧ (e.takeIn done).2.debouncer = e.debouncer := by
  cases hs : e.session? done.document with
  | none =>
    unfold takeIn
    rw [hs]
    exact ⟨rfl, rfl⟩
  | some s =>
    obtain ⟨outbox, hout⟩ := takeIn_eq done hs
    rw [hout]
    exact ⟨rfl, rfl⟩

/-- The first phase: a completion that waits is taken in, which frees the place. -/
theorem takeInCompleted_cases (e : Editor) :
    (e.takeInCompleted.2.workLeft + 1 = e.workLeft ∧ Dwindles e e.takeInCompleted.2) ∨
      ((∀ done, e.flight.slot ≠ .finished done) ∧ e.takeInCompleted.2 = e) := by
  rcases e.takeInCompleted_forms with ⟨done, hdone, heq⟩ | ⟨hnot, heq⟩ <;> rw [heq]
  · obtain ⟨hf, hd⟩ := e.freed.takeIn_keeps done
    have hbusy : e.flight.isBusy = true := by
      unfold SingleFlight.isBusy
      rw [hdone]
    left
    refine ⟨?_, .of_queue (by rw [hf]; exact List.Sublist.refl _) hd⟩
    rw [workLeft_eq, workLeft_eq, hf, hd, hbusy]
    rfl
  · exact .inr ⟨hnot, rfl⟩

/-- Starting a pass takes the free place and may answer queued requests. -/
theorem start_of_free_cases {e : Editor} (hfree : e.flight.isBusy = false) (s : Session)
    (mode : Mode) :
    (e.start s mode).2.workLeft ≤ e.workLeft + 1 ∧ Dwindles e (e.start s mode).2 := by
  have hflight := flight_start_of_free hfree s mode
  obtain ⟨-, -, -, hdeb⟩ := start_keeps e s mode
  have hsub : (e.flight.launch (s.snapshot mode)).queue.Sublist e.flight.queue :=
    List.filter_sublist
  refine ⟨?_, .of_queue (hflight ▸ hsub) hdeb⟩
  have hlen := hsub.length_le
  rw [workLeft_eq, workLeft_eq, hflight, hdeb, hfree]
  have hbusy : (e.flight.launch (s.snapshot mode)).isBusy.toNat = 1 := rfl
  rw [hbusy, Bool.toNat_false]
  omega

/-- The second phase: if the place is free and a document is queued, there is less
to be done. -/
theorem startQueued_dwindles (e : Editor) :
    Dwindles e e.startQueued.2 ∧
      (e.startQueued.2.workLeft < e.workLeft ∨
        (e.flight.isBusy = true ∨ e.flight.queue = []) ∧ e.startQueued.2 = e) := by
  rcases e.startQueued_cases with
    ⟨hbusy, heq⟩ | ⟨-, -, heq⟩ | ⟨closed, q, rest, s, hfree, hqueue, -, -, -, heq⟩
  · rw [heq]
    exact ⟨.of_queue (List.Sublist.refl _) rfl, .inr ⟨.inl hbusy, rfl⟩⟩
  · rw [heq]
    refine ⟨.of_queue (List.nil_sublist _) rfl, ?_⟩
    by_cases hnil : e.flight.queue = []
    · refine .inr ⟨.inr hnil, ?_⟩
      unfold withQueue
      rw [← hnil]
    · left
      have hlen := List.length_pos_iff.2 hnil
      rw [workLeft_withQueue, workLeft_eq, List.length_nil]
      omega
  · rw [heq]
    obtain ⟨hwork, hdwindles⟩ := start_of_free_cases (e := e.withQueue rest) hfree s
      (if s.tracking.enabled then q.mode else .minimal)
    have hsub : rest.Sublist e.flight.queue := by
      rw [hqueue]
      exact (List.sublist_cons_self q rest).trans (List.sublist_append_right _ _)
    have hfirst : Dwindles e (e.withQueue rest) := .of_queue hsub rfl
    refine ⟨hfirst.trans hdwindles, .inl ?_⟩
    have hless : (e.withQueue rest).workLeft + 2 ≤ e.workLeft := by
      rw [workLeft_withQueue, workLeft_eq, hqueue, List.length_append, List.length_cons]
      omega
    omega

/-- The third phase, if it lets a deadline through: the deadline goes, and at most
one pass starts in its place. -/
theorem afterFiring_dwindles {e : Editor} (he : e.debouncer.Sound) {s : Session}
    (hs : s ∈ e.sessions) {now deadline : Time} {mode : Mode} (hfree : e.flight.isBusy = false)
    (hdue : (e.debouncer.deadlines s.id).due? now s.tracking.enabled = some (deadline, mode)) :
    Dwindles e (if s.tracking.needsAnalysis then ((e.afterFiring s mode).start s mode).2
        else e.afterFiring s mode) ∧
      (if s.tracking.needsAnalysis then ((e.afterFiring s mode).start s mode).2
        else e.afterFiring s mode).workLeft < e.workLeft := by
  have hopen := deadlines_dropClosed_of_mem he (mem_ids hs)
  have hfired : Dwindles e (e.afterFiring s mode) := by
    refine ⟨List.Sublist.refl _, fun id => ?_⟩
    rw [deadlines_afterFiring]
    split
    · next h => exact h ▸ Deadlines.within_afterFiring _ _ _
    · exact Debouncer.within_dropClosed he _ id
  have hless : (e.afterFiring s mode).workLeft + 2 ≤ e.workLeft := by
    have hlt : (e.afterFiring s mode).debouncer.armedCount < e.debouncer.armedCount := by
      have hlt := Debouncer.armedCount_fire_lt (he.dropClosed e.enabled?) (hopen ▸ hdue)
      rw [hopen] at hlt
      exact Nat.lt_of_lt_of_le hlt (Debouncer.armedCount_dropClosed_le _ _)
    rw [workLeft_eq, workLeft_eq, show (e.afterFiring s mode).flight = e.flight from rfl]
    omega
  obtain ⟨hwork, hdwindles⟩ := start_of_free_cases (e := e.afterFiring s mode) hfree s mode
  split
  · exact ⟨hfired.trans hdwindles, by omega⟩
  · exact ⟨hfired, by omega⟩

theorem workLeft_dropClosed_le (e : Editor) :
    ({ e with debouncer := e.debouncer.dropClosed e.enabled? } : Editor).workLeft ≤ e.workLeft := by
  have hle := Debouncer.armedCount_dropClosed_le e.debouncer e.enabled?
  rw [workLeft_eq, workLeft_eq]
  dsimp only
  omega

/-- The third phase gives the editor no new work. -/
theorem startDue_dwindles {e : Editor} (he : e.debouncer.Sound) (now : Time) :
    Dwindles e (e.startDue now).2.2 ∧ (e.startDue now).2.2.workLeft ≤ e.workLeft := by
  rcases startDue_cases he now with ⟨-, heq⟩ | ⟨s, deadline, mode, hfree, hmem, hdue, heq⟩
  · rw [heq]
    exact ⟨⟨List.Sublist.refl _, Debouncer.within_dropClosed he _⟩, workLeft_dropClosed_le e⟩
  · obtain ⟨hdwindles, hlt⟩ := afterFiring_dwindles he hmem hfree hdue
    rw [heq]
    exact ⟨hdwindles, Nat.le_of_lt hlt⟩

/-- The third phase takes work away if the next deadline has passed. -/
theorem workLeft_startDue_lt {e : Editor} (he : e.debouncer.Sound) {now t : Time}
    (hfree : e.flight.isBusy = false) (hnext : e.nextWakeup? = some t) (hle : t ≤ now) :
    (e.startDue now).2.2.workLeft < e.workLeft := by
  rcases startDue_cases he now with ⟨hnone, heq⟩ | ⟨s, deadline, mode, hfree, hmem, hdue, heq⟩
  · -- The deadline is that of a closed document, since nothing open is due.
    obtain ⟨⟨id, d⟩, hx, hearliest⟩ := List.mem_filterMap.1 (List.min?_mem hnext)
    have hclosed : e.enabled? id = none := by
      cases hen : e.enabled? id with
      | none => rfl
      | some enabled =>
        have hdue := Deadlines.due?_isSome_of_earliest? enabled hearliest hle
        obtain ⟨⟨deadline, mode⟩, hdue⟩ := Option.isSome_iff_exists.1 hdue
        have hmem : (⟨deadline, id, mode⟩ : Due) ∈ e.debouncer.due now e.enabled? :=
          (Debouncer.mem_due_iff he).2 ⟨enabled, hen, by rw [he.deadlines_of_mem hx, hdue]⟩
        rw [hnone hfree] at hmem
        contradiction
    have hlt := Debouncer.armedCount_dropClosed_lt he hx hclosed
    rw [heq, workLeft_eq, workLeft_eq]
    dsimp only
    omega
  · obtain ⟨-, hlt⟩ := afterFiring_dwindles he hmem hfree hdue
    rw [heq]
    exact hlt

/-! ## Ticks -/

theorem takeInCompleted_dwindles (e : Editor) :
    Dwindles e e.takeInCompleted.2 ∧ e.takeInCompleted.2.workLeft ≤ e.workLeft := by
  rcases e.takeInCompleted_cases with ⟨hwork, hdwindles⟩ | ⟨-, heq⟩
  · exact ⟨hdwindles, by omega⟩
  · rw [heq]
    exact ⟨.of_queue (List.Sublist.refl _) rfl, Nat.le_refl _⟩

theorem workLeft_startQueued_le (e : Editor) : e.startQueued.2.workLeft ≤ e.workLeft := by
  rcases e.startQueued_dwindles.2 with hlt | ⟨-, heq⟩
  · exact Nat.le_of_lt hlt
  · exact Nat.le_of_eq (congrArg workLeft heq)

/-- No tick arms a deadline or queues a request, whatever the time. -/
theorem tick_dwindles {e : Editor} (he : e.Sound) (now : Time) : Dwindles e (e.tick now).2 :=
  (e.takeInCompleted_dwindles.1.trans e.takeInCompleted.2.startQueued_dwindles.1).trans
    (startDue_dwindles (sound_startQueued he).armed now).1

theorem workLeft_tick_le {e : Editor} (he : e.Sound) (now : Time) :
    (e.tick now).2.workLeft ≤ e.workLeft := by
  have htaken := e.takeInCompleted_dwindles.2
  have hqueued := e.takeInCompleted.2.workLeft_startQueued_le
  have hdue := (startDue_dwindles (sound_startQueued he).armed now).2
  rw [tick_snd]
  omega

/-- A tick takes work away if the running pass has ended and the next deadline has
passed. -/
theorem workLeft_tick_lt {e : Editor} (he : e.Sound) {now : Time} (hwork : e.workLeft ≠ 0)
    (hended : ∀ task s, e.flight.slot ≠ .running task s)
    (hnext : ∀ t, e.nextWakeup? = some t → t ≤ now) : (e.tick now).2.workLeft < e.workLeft := by
  have hqueued := e.takeInCompleted.2.workLeft_startQueued_le
  have hdue := (startDue_dwindles (sound_startQueued he).armed now).2
  rw [tick_snd]
  rcases e.takeInCompleted_cases with ⟨htaken, -⟩ | ⟨hnot, htaken⟩
  · omega
  · rw [htaken] at hqueued hdue ⊢
    rcases e.startQueued_dwindles.2 with hless | ⟨hor, hsame⟩
    · omega
    · rw [hsame]
      have hfree : e.flight.isBusy = false := by
        rw [SingleFlight.isBusy_eq_false_iff]
        cases hs : e.flight.slot with
        | free => rfl
        | running task s => exact absurd hs (hended task s)
        | finished done => exact absurd hs (hnot done)
      have hnil : e.flight.queue = [] := by simpa [hfree] using hor
      -- Only deadlines are left, so there is a next one.
      cases hwake : e.nextWakeup? with
      | some t => exact workLeft_startDue_lt he.armed hfree hwake (hnext t hwake)
      | none =>
        rw [workLeft_eq, hfree, hnil, Debouncer.next?_eq_none_iff.1 hwake] at hwork
        exact absurd rfl hwork

/-! ## Rounds -/

theorem sound_rounds {e : Editor} (he : e.Sound) (analyzers : Nat → Analyzer)
    (times : Nat → Time) (n : Nat) : (e.rounds analyzers times n).Sound := by
  induction n with
  | zero => exact he
  | succ n ih => exact sound_tick (sound_finishPass ih _) _

/-- A round takes work away if the next deadline has passed. -/
theorem workLeft_round_lt {e : Editor} (he : e.Sound) (analyzer : Analyzer) {now : Time}
    (hwork : e.workLeft ≠ 0) (hnext : ∀ t, e.nextWakeup? = some t → t ≤ now) :
    (e.round analyzer now).workLeft < e.workLeft := by
  have hkept := e.workLeft_finishPass analyzer
  obtain ⟨hflight, hdeb⟩ := e.finishPass_keeps analyzer
  have hended : ∀ task s, (e.finishPass analyzer).2.flight.slot ≠ .running task s := by
    intro task s
    rw [hflight]
    cases e.flight.slot <;> simp [SingleFlight.finishSlot]
  have hlt := workLeft_tick_lt (sound_finishPass he analyzer) (hkept ▸ hwork) hended
    fun t ht => hnext t (by rwa [nextWakeup?, hdeb] at ht)
  rw [hkept] at hlt
  exact hlt

theorem workLeft_round_le {e : Editor} (he : e.Sound) (analyzer : Analyzer) (now : Time) :
    (e.round analyzer now).workLeft ≤ e.workLeft := by
  have hle := workLeft_tick_le (sound_finishPass he analyzer) now
  rw [e.workLeft_finishPass analyzer] at hle
  exact hle

theorem round_dwindles {e : Editor} (he : e.Sound) (analyzer : Analyzer) (now : Time) :
    Dwindles e (e.round analyzer now) := by
  obtain ⟨hflight, hdeb⟩ := e.finishPass_keeps analyzer
  have hfinish : Dwindles e (e.finishPass analyzer).2 :=
    .of_queue (by rw [hflight]) hdeb
  exact hfinish.trans (tick_dwindles (sound_finishPass he analyzer) now)

/-- Where no deadline is armed anew, deadlines that have passed stay so. -/
theorem DeadlinesPassed.of_dwindles {e e' : Editor} {now : Time} (h : e.DeadlinesPassed now)
    (he' : e'.Sound) (hd : Dwindles e e') : e'.DeadlinesPassed now := by
  rintro ⟨id, d⟩ hx t ht
  have hwithin := hd.deadlines id
  rw [he'.armed.deadlines_of_mem hx] at hwithin
  have ht : (e.debouncer.deadlines id).names = some t ∨ (e.debouncer.deadlines id).full = some t :=
    ht.imp (hwithin.names t) (hwithin.full t)
  have hne : e.debouncer.deadlines id ≠ {} := by
    intro hempty
    rw [hempty] at ht
    rcases ht with ht | ht <;> contradiction
  exact h _ (Debouncer.mem_of_deadlines_ne hne) t ht

theorem DeadlinesPassed.rounds {e : Editor} {now : Time} (h : e.DeadlinesPassed now) (he : e.Sound)
    (analyzers : Nat → Analyzer) (times : Nat → Time) (n : Nat) :
    (e.rounds analyzers times n).DeadlinesPassed now := by
  induction n with
  | zero => exact h
  | succ n ih =>
    have hsound := sound_rounds he analyzers times n
    exact ih.of_dwindles (sound_rounds he analyzers times (n + 1))
      (round_dwindles hsound (analyzers n) (times n))

/-- The work that is left bounds the number of rounds until there is none. -/
theorem workLeft_rounds_add_le {e : Editor} (he : e.Sound) {analyzers : Nat → Analyzer}
    {times : Nat → Time}
    (hpassed : ∀ n, (e.rounds analyzers times n).DeadlinesPassed (times n)) (n : Nat) :
    (e.rounds analyzers times n).workLeft ≤ e.workLeft - n := by
  induction n with
  | zero => exact Nat.le_refl _
  | succ n ih =>
    have hsound := sound_rounds he analyzers times n
    by_cases hzero : (e.rounds analyzers times n).workLeft = 0
    · have hle := workLeft_round_le hsound (analyzers n) (times n)
      rw [rounds]
      omega
    · have hlt := workLeft_round_lt hsound (analyzers n) hzero
        fun t ht => (hpassed n).nextWakeup_le ht
      rw [rounds]
      omega

/-- Advancing to rest gets there within its fuel. -/
theorem isIdle_restWithin {e : Editor} (he : e.Sound) (analyzer : Analyzer) {fuel : Nat}
    (hfuel : e.workLeft ≤ fuel) (now : Time) : (restWithin analyzer fuel now e).isIdle = true := by
  induction fuel generalizing e now with
  | zero => exact (isIdle_iff e).2 (Nat.le_zero.1 hfuel)
  | succ fuel ih =>
    rw [restWithin]
    split
    · assumption
    · next hbusy =>
      have hwork : e.workLeft ≠ 0 := fun h => hbusy ((isIdle_iff e).2 h)
      have hnext : ∀ t, e.nextWakeup? = some t → t ≤ e.nextTick now := by
        intro t ht
        rw [nextTick, ht]
        exact Nat.le_max_right _ _
      have hlt := workLeft_round_lt he analyzer hwork hnext
      exact ih (sound_tick (sound_finishPass he analyzer) _) (Nat.le_of_lt_succ
        (Nat.lt_of_lt_of_le hlt hfuel)) _

/-- Progress to rest. From every state that the editor reaches: no tick arms a
deadline or queues a request; if in each round the running pass ends and all
deadlines have passed, then every round takes work away until there is none, and
after finitely many rounds the editor is idle and stays so; and so advancing to
rest ends with an idle editor. -/
theorem progress_to_rest (config : Config) (commands : List Command) :
    let e := (new config).run commands
    (∀ now, Dwindles e (e.tick now).2) ∧
      (∀ (analyzers : Nat → Analyzer) (times : Nat → Time),
        (∀ n, (e.rounds analyzers times n).DeadlinesPassed (times n)) →
        (∀ n, (e.rounds analyzers times n).workLeft ≠ 0 →
          (e.rounds analyzers times (n + 1)).workLeft < (e.rounds analyzers times n).workLeft) ∧
        ∃ n ≤ e.workLeft, ∀ m ≥ n, (e.rounds analyzers times m).isIdle = true) ∧
      ∀ analyzer now, (e.rest analyzer now).isIdle = true := by
  intro e
  have he : e.Sound := sound_run config commands
  refine ⟨tick_dwindles he, fun analyzers times hpassed => ⟨fun n hn => ?_, ?_⟩, ?_⟩
  · exact workLeft_round_lt (sound_rounds he analyzers times n) (analyzers n) hn
      fun t ht => (hpassed n).nextWakeup_le ht
  · refine ⟨e.workLeft, Nat.le_refl _, fun m hm => ?_⟩
    have hle := workLeft_rounds_add_le he hpassed m
    rw [isIdle_iff]
    omega
  · exact fun analyzer now => isIdle_restWithin he analyzer (Nat.le_refl _) now

/-- A document that was edited during its first pass comes to rest once its
deadlines have passed. -/
theorem rest_after_edit :
    ∃ n ≤ ((new {}).run [.openDocument none "", .act ⟨1⟩ (.edit 0 [])]).workLeft, ∀ m ≥ n,
      (((new {}).run [.openDocument none "", .act ⟨1⟩ (.edit 0 [])]).rounds
        (fun _ => builtinAnalyzer) (fun _ => milliseconds 4000) m).isIdle = true := by
  have hpassed : ((new {}).run [.openDocument none "", .act ⟨1⟩ (.edit 0 [])]).DeadlinesPassed
      (milliseconds 4000) := by
    intro x hx t ht
    have hx : x = (⟨1⟩, ⟨some (milliseconds 500), some (milliseconds 4000)⟩) :=
      List.mem_singleton.1 hx
    subst hx
    rcases ht with ht | ht <;> cases ht <;> decide
  exact ((progress_to_rest {} _).2.1 _ _ (hpassed.rounds (sound_run {} _) _ _)).2

end Editor

end ScriptDesk
