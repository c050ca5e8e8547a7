import Mathlib.Data.List.Nodup
import Mathlib.Data.Option.Basic
import ScriptDesk.Proofs.Starvation

/-!
# ScriptDesk.Proofs.Wakeup

Whoever sleeps until the next deadline (`Debouncer.next?`) neither wakes for nothing nor sleeps
through anything. The next deadline is the least of all that are armed, whatever they ask for;
which of its deadlines makes a document due, and for what, depends on whether full analysis is on by
now. The two agree because a document is due exactly if any of its deadlines has passed
(`Deadlines.exists_dueAt_iff`), so the due documents of a poll are the overdue ones
(`Debouncer.map_document_due`).

Which of them is let through does not depend on the order of the table: deadline and number
decide, and no two documents have the same number (`Due.first?_eq_of_perm`).
-/

namespace ScriptDesk

namespace Deadlines

variable {d : Deadlines} {now t : Time} {enabled : Bool} {mode : Mode}

/-- The deadline that makes a document due, with the pass that it asks for. With full analysis on,
a deadline for the names counts only as long as the full one has not passed; with it off, the
earlier of the two counts and asks for the names. -/
inductive DueAt (d : Deadlines) (now : Time) : (enabled : Bool) → Time → Mode → Prop where
  | full {t : Time} (h : d.full = some t) (hle : t ≤ now) : DueAt d now true t .full
  | names {t : Time} (h : d.names = some t) (hle : t ≤ now)
      (hfull : ∀ full, d.full = some full → now < full) : DueAt d now true t .minimal
  | first {t : Time} (h : t ∈ d.toList) (hle : t ≤ now) (hfirst : ∀ u ∈ d.toList, t ≤ u) :
      DueAt d now false t .minimal

theorem exists_min?_le {times : List Time} (ht : t ∈ times) :
    ∃ first, times.min? = some first ∧ first ≤ t := by
  obtain ⟨first, hfirst⟩ :=
    Option.isSome_iff_exists.1 (List.isSome_min?_iff.2 (List.ne_nil_of_mem ht))
  exact ⟨first, hfirst, (List.min?_eq_some_iff.1 hfirst).2 t ht⟩

theorem earliest?_eq_min? (d : Deadlines) : d.earliest? = d.toList.min? := by
  obtain ⟨_ | names, _ | full⟩ := d <;> rfl

/-- What the debouncer reads off is the deadline that makes the document due. -/
theorem due?_eq_some_iff : d.due? now enabled = some (t, mode) ↔ d.DueAt now enabled t mode := by
  constructor
  · intro h
    cases enabled with
    | true =>
      rcases (Option.orElse_eq_some _ _ _).1 h with hfull | ⟨hfull, hnames⟩
      · obtain ⟨full, hpassed, heq⟩ := Option.map_eq_some_iff.1 hfull
        obtain ⟨harmed, hle⟩ := Option.filter_eq_some_iff.1 hpassed
        cases heq
        exact .full harmed (of_decide_eq_true hle)
      · obtain ⟨names, hpassed, heq⟩ := Option.map_eq_some_iff.1 hnames
        obtain ⟨harmed, hle⟩ := Option.filter_eq_some_iff.1 hpassed
        cases heq
        refine .names harmed (of_decide_eq_true hle) fun full hf => ?_
        simpa [hf] using hfull
    | false =>
      obtain ⟨first, hfirst, heq⟩ := Option.map_eq_some_iff.1 h
      obtain ⟨hfirst, hle⟩ := Option.filter_eq_some_iff.1 hfirst
      cases heq
      rw [earliest?_eq_min?, List.min?_eq_some_iff] at hfirst
      exact .first hfirst.1 (of_decide_eq_true hle) hfirst.2
  · rintro (⟨h, hle⟩ | ⟨h, hle, hfull⟩ | ⟨h, hle, hfirst⟩)
    · simp [due?, h, hle]
    · cases hf : d.full with
      | none => simp [due?, h, hle, hf]
      | some full => simp [due?, h, hle, hf, hfull full hf]
    · have hearliest : d.earliest? = some t := by
        rw [earliest?_eq_min?, List.min?_eq_some_iff]
        exact ⟨h, hfirst⟩
      simp [due?, hearliest, hle]

/-- A document is due if and only if any of its deadlines has passed, with full analysis on or
off. -/
theorem exists_dueAt_iff (enabled : Bool) :
    (∃ t mode, d.DueAt now enabled t mode) ↔ ∃ t ∈ d.toList, t ≤ now := by
  simp only [← due?_eq_some_iff]
  constructor
  · rintro ⟨t, mode, hdue⟩
    obtain ⟨hle, harmed, -⟩ := armed_of_due? hdue
    exact ⟨t, mem_toList.2 harmed, hle⟩
  · rintro ⟨t, ht, hle⟩
    obtain ⟨first, hfirst, hfirstt⟩ := exists_min?_le ht
    obtain ⟨⟨t, mode⟩, hdue⟩ := Option.isSome_iff_exists.1 (due?_isSome_of_earliest? enabled
      ((earliest?_eq_min? d).trans hfirst) (Nat.le_trans hfirstt hle))
    exact ⟨t, mode, hdue⟩

end Deadlines

/-! ## The document that is let through -/

namespace Due

variable {ds ds' : List Due} {d : Due}

/-- Of due documents that are all different, none is before the one let through, and of no other
one is this true. -/
theorem first?_eq_some_iff (hdistinct : (ds.map (·.document)).Nodup) :
    first? ds = some d ↔ d ∈ ds ∧ ∀ e ∈ ds, e.before d = false := by
  constructor
  · exact fun h => ⟨mem_of_first?_eq_some h, before_eq_false_of_first? h⟩
  · rintro ⟨hd, hbefore⟩
    cases hfirst : first? ds with
    | none =>
      rw [first?_eq_none_iff.1 hfirst] at hd
      contradiction
    | some e =>
      have he := mem_of_first?_eq_some hfirst
      have hed := before_eq_false_iff.1 (hbefore e he)
      have hde := before_eq_false_iff.1 (before_eq_false_of_first? hfirst d hd)
      have hnumber : e.document.number = d.document.number := by
        unfold Time at hed hde
        omega
      have hdocument : e.document = d.document := congrArg DocumentId.mk hnumber
      rw [List.inj_on_of_nodup_map hdistinct he hd hdocument]

/-- The order in which the due documents come does not matter. -/
theorem first?_eq_of_perm (h : ds.Perm ds') (hdistinct : (ds.map (·.document)).Nodup) :
    first? ds = first? ds' := by
  have hdistinct' := (h.map (·.document)).nodup_iff.1 hdistinct
  refine Option.ext fun d => ?_
  rw [first?_eq_some_iff hdistinct, first?_eq_some_iff hdistinct', h.mem_iff]
  simp only [h.mem_iff]

end Due

namespace Debouncer

variable {s : Debouncer} {now : Time} {busy : Bool} {enabled? : DocumentId → Option Bool}

/-! ## Overdue documents -/

/-- The documents that have an armed deadline which has passed. -/
def overdue (s : Debouncer) (now : Time) : List DocumentId :=
  (s.armed.filter (·.2.toList.any (· ≤ now))).map Prod.fst

theorem mem_armed_of_mem_toList {id : DocumentId} {t : Time}
    (ht : t ∈ (s.deadlines id).toList) : (id, s.deadlines id) ∈ s.armed :=
  mem_of_deadlines_ne fun hempty => by
    rw [hempty] at ht
    contradiction

theorem nodup_overdue (hs : s.Sound) (now : Time) : (s.overdue now).Nodup :=
  (List.filter_sublist.map Prod.fst).nodup hs.distinct

theorem mem_overdue_iff (hs : s.Sound) {id : DocumentId} :
    id ∈ s.overdue now ↔ ∃ t ∈ (s.deadlines id).toList, t ≤ now := by
  simp only [overdue, List.mem_map, List.mem_filter, List.any_eq_true, decide_eq_true_eq]
  constructor
  · rintro ⟨⟨id, d⟩, ⟨hmem, hpassed⟩, rfl⟩
    rwa [hs.deadlines_of_mem hmem]
  · rintro ⟨t, ht, hle⟩
    exact ⟨_, ⟨mem_armed_of_mem_toList ht, t, ht, hle⟩, rfl⟩

/-- If all armed documents are open, those that a poll finds due are the overdue ones. -/
theorem map_document_due (hs : s.Sound) (now : Time)
    (hopen : ∀ id, s.isArmed id = true → (enabled? id).isSome = true) :
    (s.due now enabled?).map (·.document) = s.overdue now := by
  rw [due, overdue, List.map_filterMap, ← List.filterMap_eq_map, List.filterMap_filter]
  refine List.filterMap_congr ?_
  rintro ⟨id, d⟩ hmem
  have harmed : s.isArmed id = true := by
    rw [isArmed, hs.deadlines_of_mem hmem, hs.armed _ hmem]
    rfl
  obtain ⟨enabled, henabled⟩ := Option.isSome_iff_exists.1 (hopen id harmed)
  have hiff : (∃ t mode, d.DueAt now enabled t mode) ↔ ∃ t ∈ d.toList, t ≤ now :=
    d.exists_dueAt_iff enabled
  simp only [← Deadlines.due?_eq_some_iff] at hiff
  simp only [henabled, Option.bind_some]
  cases hdue : d.due? now enabled with
  | none =>
    have hpassed : ¬ ∃ t ∈ d.toList, t ≤ now := fun h => by
      obtain ⟨t, mode, hsome⟩ := hiff.2 h
      rw [hdue] at hsome
      contradiction
    rw [if_neg (by simpa using hpassed)]
    simp
  | some due =>
    have hpassed := hiff.1 ⟨due.1, due.2, hdue⟩
    rw [if_pos (by simpa using hpassed)]
    simp

/-! ## The next deadline -/

/-- The next deadline has passed exactly if a document is overdue. -/
theorem next?_le_iff (hs : s.Sound) :
    (∃ t, s.next? = some t ∧ t ≤ now) ↔ s.overdue now ≠ [] := by
  unfold next?
  constructor
  · rintro ⟨t, hnext, hle⟩
    obtain ⟨⟨id, d⟩, hmem, hearliest⟩ :=
      List.mem_filterMap.1 (List.min?_eq_some_iff.1 hnext).1
    have hid : id ∈ s.overdue now := by
      rw [mem_overdue_iff hs, hs.deadlines_of_mem hmem]
      exact ⟨t, Deadlines.mem_toList.2 (Deadlines.eq_of_earliest? hearliest), hle⟩
    exact List.ne_nil_of_mem hid
  · intro hne
    obtain ⟨id, hid⟩ := List.exists_mem_of_ne_nil _ hne
    obtain ⟨u, hu, hle⟩ := (mem_overdue_iff hs).1 hid
    obtain ⟨first, hfirst, hfirstu⟩ := Deadlines.exists_min?_le hu
    have hmem : first ∈ s.armed.filterMap (·.2.earliest?) := List.mem_filterMap.2
      ⟨_, mem_armed_of_mem_toList hu, (Deadlines.earliest?_eq_min? _).trans hfirst⟩
    obtain ⟨t, ht, htfirst⟩ := Deadlines.exists_min?_le hmem
    exact ⟨t, ht, Nat.le_trans htfirst (Nat.le_trans hfirstu hle)⟩

/-- There is no next deadline exactly if no document is armed. -/
theorem next?_eq_none_iff_isArmed (hs : s.Sound) :
    s.next? = none ↔ ∀ id, s.isArmed id = false := by
  rw [next?_eq_none_iff]
  constructor
  · intro hnone id
    rw [isArmed, deadlines_of_armedCount_eq_zero hnone]
    rfl
  · intro hnone
    refine countIn_eq_zero_iff.2 fun ⟨id, d⟩ hmem => ?_
    have harmed := hnone id
    rw [isArmed, hs.deadlines_of_mem hmem, hs.armed _ hmem] at harmed
    contradiction

/-! ## The poll -/

/-- What a poll answers depends on the due documents alone. -/
theorem poll_fst (s : Debouncer) (now : Time) (busy : Bool)
    (enabled? : DocumentId → Option Bool) :
    (s.poll now busy enabled?).1 =
      { fired := if busy then none
          else (Due.first? (s.due now enabled?)).map fun first => (first.document, first.mode)
        deferred := if busy then (s.due now enabled?).length
          else (s.due now enabled?).length - 1 } := by
  unfold poll
  cases hfirst : Due.first? (s.due now enabled?) with
  | none =>
    rw [Due.first?_eq_none_iff.1 hfirst]
    cases busy <;> rfl
  | some first => cases busy <;> simp [hfirst]

/-- Who is asleep until the next deadline wakes exactly when there is something to do, and which
document is let through then is a matter of the deadlines alone. -/
structure WakesExactly (s : Debouncer) (now : Time) (busy : Bool)
    (enabled? : DocumentId → Option Bool) : Prop where
  /-- A document is overdue if one of its deadlines has passed, and it counts once. -/
  distinct : (s.overdue now).Nodup
  mem_overdue : ∀ id, id ∈ s.overdue now ↔ ∃ t ∈ (s.deadlines id).toList, t ≤ now
  /-- A document is let through if one is overdue and the place for passes is free. -/
  fired : (s.poll now busy enabled?).1.fired.isSome = true ↔ busy = false ∧ s.overdue now ≠ []
  /-- All the other overdue documents have to wait. -/
  deferred : (s.poll now busy enabled?).1.deferred =
    if busy then (s.overdue now).length else (s.overdue now).length - 1
  /-- No document is lost and none is counted twice. -/
  total : (s.poll now busy enabled?).1.fired.toList.length +
    (s.poll now busy enabled?).1.deferred = (s.overdue now).length
  /-- Before the next deadline, and only then, no document is overdue. -/
  asleep : s.overdue now = [] ↔ ∀ t, s.next? = some t → now < t
  unarmed : s.next? = none ↔ ∀ id, s.isArmed id = false
  /-- The document that is let through is overdue. Of the deadlines that make the overdue
  documents due, its own is the earliest, and of those that are as early it has the least
  number. -/
  first : ∀ id mode, (s.poll now busy enabled?).1.fired = some (id, mode) →
    id ∈ s.overdue now ∧ ∃ enabled t, enabled? id = some enabled ∧
      (s.deadlines id).DueAt now enabled t mode ∧
      ∀ other ∈ s.overdue now, ∃ on u m, enabled? other = some on ∧
        (s.deadlines other).DueAt now on u m ∧ (t < u ∨ t = u ∧ id.number ≤ other.number)
  /-- The order of the table does not matter. -/
  anyOrder : ∀ s' : Debouncer, s'.armed.Perm s.armed →
    (s'.poll now busy enabled?).1 = (s.poll now busy enabled?).1

/-- The document that a poll lets through has, among the overdue ones, the first of the deadlines
that make them due. -/
theorem first_of_fired (hs : s.Sound)
    (hopen : ∀ id, s.isArmed id = true → (enabled? id).isSome = true)
    {id : DocumentId} {mode : Mode}
    (hfired : (s.poll now busy enabled?).1.fired = some (id, mode)) :
    id ∈ s.overdue now ∧ ∃ enabled t, enabled? id = some enabled ∧
      (s.deadlines id).DueAt now enabled t mode ∧
      ∀ other ∈ s.overdue now, ∃ on u m, enabled? other = some on ∧
        (s.deadlines other).DueAt now on u m ∧ (t < u ∨ t = u ∧ id.number ≤ other.number) := by
  have hdocuments := map_document_due hs now hopen
  rw [poll_fst] at hfired
  cases busy with
  | true => simp at hfired
  | false =>
    obtain ⟨first, hfirst, heq⟩ := Option.map_eq_some_iff.1 hfired
    cases heq
    have hmem := Due.mem_of_first?_eq_some hfirst
    obtain ⟨enabled, henabled, hdue⟩ := (mem_due_iff hs).1 hmem
    refine ⟨hdocuments ▸ List.mem_map_of_mem hmem, enabled, first.deadline, henabled,
      Deadlines.due?_eq_some_iff.1 hdue, fun other hother => ?_⟩
    rw [← hdocuments] at hother
    obtain ⟨next, hnext, rfl⟩ := List.mem_map.1 hother
    obtain ⟨on, hon, hdue'⟩ := (mem_due_iff hs).1 hnext
    exact ⟨on, next.deadline, next.mode, hon, Deadlines.due?_eq_some_iff.1 hdue',
      Due.before_eq_false_iff.1 (Due.before_eq_false_of_first? hfirst next hnext)⟩

/-- After any calls, and with all armed documents open, the next deadline is exact, whether full
analysis of the documents is on or off by now. -/
theorem wakes_exactly (policy : Policy) (calls : List Call) (now : Time) (busy : Bool)
    (enabled? : DocumentId → Option Bool)
    (hopen : ∀ id, (run { policy } calls).isArmed id = true → (enabled? id).isSome = true) :
    (run { policy } calls).WakesExactly now busy enabled? := by
  have hs := sound_run policy calls
  generalize run { policy } calls = s at hs hopen
  have hdocuments := map_document_due hs now hopen
  have hlength : (s.due now enabled?).length = (s.overdue now).length := by
    rw [← hdocuments, List.length_map]
  have hdistinct : ((s.due now enabled?).map (·.document)).Nodup :=
    hdocuments ▸ nodup_overdue hs now
  have hsome : (Due.first? (s.due now enabled?)).isSome = true ↔ s.overdue now ≠ [] := by
    rw [← Option.ne_none_iff_isSome, Ne, Due.first?_eq_none_iff, ← hdocuments, Ne,
      List.map_eq_nil_iff]
  refine
    { distinct := nodup_overdue hs now
      mem_overdue := fun id => mem_overdue_iff hs
      fired := ?fired
      deferred := ?deferred
      total := ?total
      asleep := ?asleep
      unarmed := next?_eq_none_iff_isArmed hs
      first := fun id mode => first_of_fired hs hopen
      anyOrder := ?anyOrder }
  case fired =>
    rw [poll_fst]
    cases busy with
    | true => simp
    | false => simpa using hsome
  case deferred =>
    rw [poll_fst]
    simp only [hlength]
  case total =>
    rw [poll_fst]
    cases busy with
    | true => simp [hlength]
    | false =>
      rw [← hlength]
      cases hfirst : Due.first? (s.due now enabled?) with
      | none => simp [Due.first?_eq_none_iff.1 hfirst]
      | some first =>
        have hpos := List.length_pos_of_mem (Due.mem_of_first?_eq_some hfirst)
        simp only [Bool.false_eq_true, if_false, Option.map_some, Option.toList_some,
          List.length_singleton]
        omega
  case asleep =>
    have hnext : (∃ t, s.next? = some t ∧ t ≤ now) ↔ s.overdue now ≠ [] := next?_le_iff hs
    constructor
    · intro hnone t ht
      exact Nat.lt_of_not_le fun hle => hnext.1 ⟨t, ht, hle⟩ hnone
    · intro hlater
      by_contra hne
      obtain ⟨t, ht, hle⟩ := hnext.2 hne
      exact absurd (hlater t ht) (Nat.not_lt.2 hle)
  case anyOrder =>
    intro s' hperm
    have hdue : (s.due now enabled?).Perm (s'.due now enabled?) := hperm.symm.filterMap _
    rw [poll_fst, poll_fst, Due.first?_eq_of_perm hdue hdistinct, hdue.length_eq]

/-- Full analysis of the second document was turned off after its edit. Its deadline for the names
comes before the full deadline of the first one. -/
theorem wakes_exactly_after_turning_off :
    ∃ enabled? : DocumentId → Option Bool, ∃ s : Debouncer,
      s = run {} [.trigger ⟨1⟩ 0 .typing true, .trigger ⟨2⟩ 0 .typing true] ∧
      (∀ id, s.isArmed id = true → (enabled? id).isSome = true) ∧
      (s.poll (milliseconds 4000) false enabled?).1 = ⟨some (⟨2⟩, .minimal), 1⟩ ∧
      (s.overdue (milliseconds 4000)).length = 2 := by
  let enabled? : DocumentId → Option Bool := fun id =>
    if id = ⟨1⟩ then some true else if id = ⟨2⟩ then some false else none
  let calls : List Call := [.trigger ⟨1⟩ 0 .typing true, .trigger ⟨2⟩ 0 .typing true]
  have hopen : ∀ id, (run {} calls).isArmed id = true → (enabled? id).isSome = true := by
    intro id harmed
    by_cases h1 : id = ⟨1⟩
    · simp [enabled?, h1]
    · by_cases h2 : id = ⟨2⟩
      · simp [enabled?, h2]
      · have hidle : (run {} calls).deadlines id = {} := by
          simp only [calls, run, List.foldl_cons, List.foldl_nil, perform, deadlines_trigger,
            h1, h2, if_false]
          rfl
        rw [isArmed, hidle] at harmed
        contradiction
  have hpoll : ((run {} calls).poll (milliseconds 4000) false enabled?).1 =
      ⟨some (⟨2⟩, .minimal), 1⟩ := by decide
  have htotal := (wakes_exactly {} calls (milliseconds 4000) false enabled? hopen).total
  rw [hpoll] at htotal
  exact ⟨enabled?, _, rfl, hopen, hpoll, htotal.symm⟩

end Debouncer

end ScriptDesk
