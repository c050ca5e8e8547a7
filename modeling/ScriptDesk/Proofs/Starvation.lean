import Mathlib.Data.List.Flatten
import ScriptDesk.Proofs.Debounce

/-!
# ScriptDesk.Proofs.Starvation

Edits of other documents do not starve a document. Once all deadlines of a document have
passed, a poll that finds the place for passes free lets it through or another document
whose deadline is no later than those. Such a poll uses that deadline up, and whatever is
triggered from then on arms later ones. So what stands before the document is counted once
and for all (`Debouncer.ahead`): no call adds to it, and each poll that lets another
document through takes from it.
-/

namespace ScriptDesk

namespace Deadlines

/-- The armed deadlines. -/
def toList (d : Deadlines) : List Time := d.names.toList ++ d.full.toList

/-- The later deadline. -/
def latest? (d : Deadlines) : Option Time := d.toList.max?

theorem mem_toList {d : Deadlines} {t : Time} :
    t ∈ d.toList ↔ d.names = some t ∨ d.full = some t := by
  simp [toList]

/-- The deadlines that some delays arm lie ahead. -/
theorem le_of_mem_after {now t : Time} {delays : Delays} (h : t ∈ (after now delays).toList) :
    now ≤ t := by
  rcases mem_toList.1 h with h | h
  · obtain rfl : now + delays.names = t := Option.some.inj h
    exact Nat.le_add_right _ _
  · obtain ⟨full, -, rfl⟩ := Option.map_eq_some_iff.1 h
    exact Nat.le_add_right _ _

/-- When all deadlines have passed, one of them is due. -/
theorem exists_due_of_latest? {d : Deadlines} {now deadline : Time} (enabled : Bool)
    (h : d.latest? = some deadline) (hle : deadline ≤ now) :
    ∃ t mode, d.due? now enabled = some (t, mode) ∧ t ≤ deadline := by
  obtain ⟨hmem, hmax⟩ := List.max?_eq_some_iff.1 h
  have harmed : d.earliest? ≠ none := fun hnone => by
    obtain rfl := isIdle_iff.1 (earliest?_eq_none_iff.1 hnone)
    contradiction
  obtain ⟨first, hfirst⟩ := Option.ne_none_iff_exists'.1 harmed
  have hle' : first ≤ now :=
    Nat.le_trans (hmax first (mem_toList.2 (eq_of_earliest? hfirst))) hle
  obtain ⟨⟨t, mode⟩, hdue⟩ :=
    Option.isSome_iff_exists.1 (due?_isSome_of_earliest? enabled hfirst hle')
  exact ⟨t, mode, hdue, hmax t (mem_toList.2 (armed_of_due? hdue).2.1)⟩

/-- Letting a deadline through uses it up. -/
theorem countP_afterFiring_lt {d : Deadlines} {now t deadline : Time} {mode : Mode}
    {enabled : Bool} (h : d.due? now enabled = some (t, mode)) (hle : t ≤ deadline) :
    (d.afterFiring mode enabled).toList.countP (· ≤ deadline) <
      d.toList.countP (· ≤ deadline) := by
  have hcount : 0 < d.toList.countP (· ≤ deadline) :=
    List.countP_pos_iff.2 ⟨t, mem_toList.2 (armed_of_due? h).2.1, decide_eq_true hle⟩
  obtain ⟨names, full⟩ := d
  cases mode with
  | full => exact hcount
  | minimal =>
    cases enabled with
    | false => exact hcount
    | true =>
      have hnames : names = some t := by
        cases names <;> cases full <;> simp [due?, Option.filter] at h <;> grind
      subst hnames
      simp [afterFiring, toList, hle]

end Deadlines

namespace Debouncer

/-- The call does not come before the instant. -/
def Call.NotBefore (t : Time) : Call → Prop
  | .trigger _ now _ _ | .poll now _ _ => t ≤ now
  | .cancel _ => True

/-- The call does not find the document closed. -/
def Call.FindsOpen (id : DocumentId) : Call → Prop
  | .poll _ _ enabled? => (enabled? id).isSome
  | .trigger _ _ _ _ | .cancel _ => True

/-- The call is a poll that finds the place for passes free. -/
def Call.isFreePoll : Call → Bool
  | .poll _ busy _ => !busy
  | .trigger _ _ _ _ | .cancel _ => false

/-- From the instant on, the call leaves the document to its deadlines. -/
structure Call.Spares (id : DocumentId) (t : Time) (c : Call) : Prop where
  untouched : ¬ c.Touches id
  opened : c.FindsOpen id
  notBefore : c.NotBefore t

/-- The number of armed deadlines up to an instant. -/
def countUpTo (s : Debouncer) (t : Time) : Nat := (s.armed.flatMap (·.2.toList)).countP (· ≤ t)

/-- The number of deadlines up to an instant that are armed for other documents. -/
def ahead (s : Debouncer) (id : DocumentId) (t : Time) : Nat := (s.cancel id).countUpTo t

/-! ## Counting deadlines -/

theorem countUpTo_le_of_sublist {s s' : Debouncer} (h : s'.armed.Sublist s.armed) (t : Time) :
    s'.countUpTo t ≤ s.countUpTo t :=
  (h.flatMap _).countP_le

theorem countUpTo_set (s : Debouncer) (id : DocumentId) (d : Deadlines) (t : Time) :
    (s.set id d).countUpTo t = (s.cancel id).countUpTo t + d.toList.countP (· ≤ t) := by
  unfold set
  split
  · next hidle =>
    rw [Deadlines.isIdle_iff.1 hidle]
    rfl
  · simp [countUpTo]

/-- The deadlines of a document count apart from those of the others. -/
theorem countUpTo_cancel_add_le {s : Debouncer} {id : DocumentId} {d : Deadlines}
    (h : (id, d) ∈ s.armed) (t : Time) :
    (s.cancel id).countUpTo t + d.toList.countP (· ≤ t) ≤ s.countUpTo t := by
  have hparts := List.filter_append_perm (fun x => decide (x.1 ≠ id)) s.armed
  have hown : [(id, d)].Sublist (s.armed.filter fun x => !decide (x.1 ≠ id)) :=
    List.singleton_sublist.2 (List.mem_filter.2 ⟨h, by simp⟩)
  have hcount := (hparts.flatMap_right (·.2.toList)).countP_eq (· ≤ t)
  rw [List.flatMap_append, List.countP_append] at hcount
  have hle := (hown.flatMap (·.2.toList)).countP_le (p := (· ≤ t))
  simp only [List.flatMap_cons, List.flatMap_nil, List.append_nil] at hle
  change (List.flatMap _ (s.armed.filter fun x => decide (x.1 ≠ id))).countP _ + _ ≤
    (s.armed.flatMap _).countP _
  omega

theorem cancel_comm (s : Debouncer) (id other : DocumentId) :
    (s.cancel id).cancel other = (s.cancel other).cancel id := by
  simp only [cancel, List.filter_filter, Bool.and_comm]

theorem cancel_set_of_ne (s : Debouncer) {id other : DocumentId} (d : Deadlines) (h : other ≠ id) :
    (s.set other d).cancel id = (s.cancel id).set other d := by
  unfold set
  split
  · exact s.cancel_comm other id
  · rw [s.cancel_comm id other]
    simp [cancel, h]

theorem cancel_dropClosed (s : Debouncer) (enabled? : DocumentId → Option Bool) (id : DocumentId) :
    (s.dropClosed enabled?).cancel id = (s.cancel id).dropClosed enabled? := by
  simp only [cancel, dropClosed, List.filter_filter, Bool.and_comm]

/-! ## What a call does to what stands before a document -/

/-- If the place for passes is free and a document is due, a poll lets the first of the due
ones through. -/
theorem poll_of_mem_due {s : Debouncer} {now : Time} {enabled? : DocumentId → Option Bool}
    {due : Due} (h : due ∈ s.due now enabled?) :
    ∃ first ∈ s.due now enabled?, due.before first = false ∧
      (s.poll now false enabled?).1.fired = some (first.document, first.mode) ∧
      (s.poll now false enabled?).2 =
        (s.dropClosed enabled?).fire first ((enabled? first.document).getD false) := by
  cases hfirst : Due.first? (s.due now enabled?) with
  | none => rw [Due.first?_eq_none_iff.1 hfirst] at h; contradiction
  | some first =>
    refine ⟨first, Due.mem_of_first?_eq_some hfirst,
      Due.before_eq_false_of_first? hfirst due h, ?_⟩
    unfold poll
    simp [hfirst]

/-- To let a due document through is one deadline less before the others. -/
theorem ahead_fire_lt {s : Debouncer} (hs : s.Sound) {now deadline : Time}
    {enabled? : DocumentId → Option Bool} {due : Due} (hdue : due ∈ s.due now enabled?)
    (hle : due.deadline ≤ deadline) {id : DocumentId} (hid : due.document ≠ id) :
    ((s.dropClosed enabled?).fire due ((enabled? due.document).getD false)).ahead id deadline <
      s.ahead id deadline := by
  obtain ⟨enabled, hopen, hdue⟩ := (mem_due_iff hs).1 hdue
  have hdeadlines : (s.dropClosed enabled?).deadlines due.document = s.deadlines due.document := by
    rw [deadlines_dropClosed hs, hopen]
    rfl
  have hentry : (due.document, s.deadlines due.document) ∈
      ((s.dropClosed enabled?).cancel id).armed := by
    rw [← hdeadlines]
    refine List.mem_filter.2 ⟨mem_of_deadlines_ne fun hempty => ?_, by simpa using hid⟩
    rw [← hdeadlines, hempty, Deadlines.not_due_empty] at hdue
    contradiction
  have hcount := countUpTo_cancel_add_le hentry deadline
  have hdropped : ((s.dropClosed enabled?).cancel id).countUpTo deadline ≤ s.ahead id deadline := by
    rw [cancel_dropClosed]
    exact countUpTo_le_of_sublist List.filter_sublist deadline
  have hused := Deadlines.countP_afterFiring_lt hdue hle
  rw [fire, hdeadlines, hopen, Option.getD_some, ahead, cancel_set_of_ne _ _ hid, countUpTo_set]
  omega

/-- Triggers after the instant add nothing to what stands before a document. -/
theorem ahead_trigger_le (s : Debouncer) {id other : DocumentId} (hid : other ≠ id)
    {now deadline : Time} (hlate : deadline < now) (trigger : Trigger) (enabled : Bool) :
    (s.trigger other now trigger enabled).ahead id deadline ≤ s.ahead id deadline := by
  have hnone : (Deadlines.after now (s.policy.arm trigger enabled)).toList.countP
      (· ≤ deadline) = 0 := by
    refine List.countP_eq_zero.2 fun t ht => ?_
    have hle := Deadlines.le_of_mem_after ht
    simpa using Nat.lt_of_lt_of_le hlate hle
  rw [Debouncer.trigger, ahead, cancel_set_of_ne _ _ hid, countUpTo_set, hnone, Nat.add_zero]
  exact countUpTo_le_of_sublist List.filter_sublist deadline

/-- A document whose deadlines have passed is let through by a call that spares it, or
keeps them. Then nothing is added to what stands before it, and a poll that finds the place
for passes free takes from that. -/
theorem fires_or_ahead_le {s : Debouncer} (hs : s.Sound) {id : DocumentId} {deadline t : Time}
    (hlatest : (s.deadlines id).latest? = some deadline) (hlate : deadline < t) {c : Call}
    (hc : c.Spares id t) :
    (s.fires? c id).isSome ∨
      (s.perform c).2.deadlines id = s.deadlines id ∧
        (s.perform c).2.ahead id deadline + c.isFreePoll.toNat ≤ s.ahead id deadline := by
  cases c with
  | trigger other now trigger enabled =>
    have hid : other ≠ id := hc.untouched
    refine .inr ⟨?_, ahead_trigger_le s hid (Nat.lt_of_lt_of_le hlate hc.notBefore) trigger enabled⟩
    exact (deadlines_trigger s other id now trigger enabled).trans (if_neg hid.symm)
  | cancel other =>
    have hid : other ≠ id := hc.untouched
    refine .inr ⟨(deadlines_cancel s other id).trans (if_neg hid.symm), ?_⟩
    change ((s.cancel other).cancel id).countUpTo deadline ≤ _
    rw [cancel_comm]
    exact countUpTo_le_of_sublist List.filter_sublist deadline
  | poll now busy enabled? =>
    obtain ⟨enabled, hopen⟩ := Option.isSome_iff_exists.1 hc.opened
    have hnow : deadline ≤ now := Nat.le_of_lt (Nat.lt_of_lt_of_le hlate hc.notBefore)
    obtain ⟨own, mode, hdue, hle⟩ := Deadlines.exists_due_of_latest? enabled hlatest hnow
    have hmem : (⟨own, id, mode⟩ : Due) ∈ s.due now enabled? :=
      (mem_due_iff hs).2 ⟨enabled, hopen, hdue⟩
    cases busy with
    | true =>
      refine .inr ⟨deadlines_poll_busy hs now hc.opened, ?_⟩
      have hafter : (s.perform (.poll now true enabled?)).2 = s.dropClosed enabled? := by
        rcases poll_cases hs now true enabled? with ⟨-, heq, -⟩ | ⟨_, _, _, _, hfree, -⟩
        · exact heq
        · contradiction
      rw [hafter, ahead, cancel_dropClosed]
      exact countUpTo_le_of_sublist List.filter_sublist deadline
    | false =>
      obtain ⟨first, hfirst, hbefore, hfired, hafter⟩ := poll_of_mem_due hmem
      by_cases hid : first.document = id
      · exact .inl (Option.isSome_iff_exists.2 ⟨_, fires?_eq_some_iff.2 (hid ▸ hfired)⟩)
      · have hearlier : first.deadline ≤ deadline := by
          rcases Due.before_eq_false_iff.1 hbefore with hlt | ⟨heq, -⟩
          · exact Nat.le_trans (Nat.le_of_lt hlt) hle
          · exact heq ▸ hle
        refine .inr ⟨?_, ?_⟩
        · change (s.poll now false enabled?).2.deadlines id = _
          rw [hafter, fire, deadlines_set, if_neg (Ne.symm hid), deadlines_dropClosed hs, hopen]
          rfl
        · change (s.poll now false enabled?).2.ahead id deadline + 1 ≤ _
          rw [hafter]
          exact ahead_fire_lt hs hfirst hearlier hid

/-! ## No starvation -/

/-- Let all deadlines of a document have passed, and count those of the other documents
that are no later than the last of them. From then on, as long as the document stays open
and is not triggered or cancelled itself, it is let through by one of the next polls that
find the place for passes free: at most as many of these come before as were counted,
whatever happens to the other documents. The table of deadlines is in order after any
calls (`sound_run`). -/
theorem no_starvation {s : Debouncer} (hs : s.Sound) {id : DocumentId} {deadline t : Time}
    (hlatest : (s.deadlines id).latest? = some deadline) (hlate : deadline < t)
    {calls : List Call} (hcalls : ∀ c ∈ calls, c.Spares id t)
    (hpolls : s.ahead id deadline < calls.countP Call.isFreePoll) :
    ∃ before c after mode, calls = before ++ c :: after ∧
      (s.run before).fires? c id = some mode ∧
        before.countP Call.isFreePoll ≤ s.ahead id deadline := by
  induction calls generalizing s with
  | nil => exact absurd hpolls (Nat.not_lt_zero _)
  | cons c rest ih =>
    obtain ⟨hc, hrest⟩ := List.forall_mem_cons.1 hcalls
    rcases fires_or_ahead_le hs hlatest hlate hc with hfires | ⟨hkept, hahead⟩
    · obtain ⟨mode, hmode⟩ := Option.isSome_iff_exists.1 hfires
      exact ⟨[], c, rest, mode, rfl, hmode, Nat.zero_le _⟩
    · have hcount : ∀ more : List Call, (c :: more).countP Call.isFreePoll =
          more.countP Call.isFreePoll + c.isFreePoll.toNat := fun more => by
        rw [List.countP_cons]
        cases c.isFreePoll <;> rfl
      rw [hcount] at hpolls
      obtain ⟨before, d, after, mode, rfl, hfires, hle⟩ :=
        ih (hs.perform c) (hkept ▸ hlatest) hrest (by omega)
      refine ⟨c :: before, d, after, mode, rfl, hfires, ?_⟩
      rw [hcount]
      omega

/-- Both documents are edited at once, and the first is edited again and again. It comes
before the second with its old deadlines only. -/
theorem no_starvation_by_edits :
    (run {} [.trigger ⟨1⟩ 0 .typing true, .trigger ⟨2⟩ 0 .typing true]).ahead ⟨2⟩
        (milliseconds 4000) = 2 ∧
    ∃ before c after mode,
      [.poll (milliseconds 4001) false fun _ => some true,
        .trigger ⟨1⟩ (milliseconds 4002) .typing true,
        .poll (milliseconds 9000) false fun _ => some true,
        .trigger ⟨1⟩ (milliseconds 9001) .typing true,
        .poll (milliseconds 14000) false fun _ => some true] = before ++ c :: after ∧
      ((run {} [.trigger ⟨1⟩ 0 .typing true, .trigger ⟨2⟩ 0 .typing true]).run before).fires? c
        ⟨2⟩ = some mode ∧ before.countP Call.isFreePoll ≤ 2 := by
  have hahead : (run {} [.trigger ⟨1⟩ 0 .typing true, .trigger ⟨2⟩ 0 .typing true]).ahead ⟨2⟩
      (milliseconds 4000) = 2 := by decide
  have hpoll : ∀ now, milliseconds 4001 ≤ now →
      (Call.poll now false fun _ => some true).Spares ⟨2⟩ (milliseconds 4001) :=
    fun now h => ⟨not_false, rfl, h⟩
  have hedit : ∀ now, milliseconds 4001 ≤ now →
      (Call.trigger ⟨1⟩ now .typing true).Spares ⟨2⟩ (milliseconds 4001) :=
    fun now h => ⟨by simp [Call.Touches], trivial, h⟩
  refine ⟨hahead, ?_⟩
  rw [← hahead]
  refine no_starvation (sound_run {} _) (t := milliseconds 4001) (by decide) (by decide) ?_
    (by decide)
  simp only [List.forall_mem_cons]
  exact ⟨hpoll _ (by decide), hedit _ (by decide), hpoll _ (by decide), hedit _ (by decide),
    hpoll _ (by decide), nofun⟩

end Debouncer

end ScriptDesk
