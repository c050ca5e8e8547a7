import ScriptDesk.Schedule.Debouncer

/-!
# ScriptDesk.Proofs.Armed

The debouncer seen by document. The table of armed deadlines is a list, but as
long as it is `Sound` (one entry a document, and none that is idle) it behaves
as a function from documents to deadlines: every operation changes the
deadlines of its own document and of closed ones only.
-/

namespace ScriptDesk

namespace Deadlines

/-- Idle deadlines are all the same. -/
theorem isIdle_iff {d : Deadlines} : d.isIdle = true ↔ d = {} := by
  obtain ⟨names, full⟩ := d
  cases names <;> cases full <;> simp [isIdle]

@[simp] theorem isIdle_after (now : Time) (delays : Delays) :
    (after now delays).isIdle = false := rfl

@[simp] theorem isIdle_empty : ({} : Deadlines).isIdle = true := rfl

theorem count_eq_zero_iff {d : Deadlines} : d.count = 0 ↔ d.isIdle = true := by
  obtain ⟨names, full⟩ := d
  cases names <;> cases full <;> simp [count, isIdle]

theorem earliest?_eq_none_iff {d : Deadlines} : d.earliest? = none ↔ d.isIdle = true := by
  obtain ⟨names, full⟩ := d
  cases names <;> cases full <;> simp [earliest?, isIdle]

/-- Every deadline of the one is armed in the other. -/
structure Within (d' d : Deadlines) : Prop where
  names : ∀ t, d'.names = some t → d.names = some t
  full : ∀ t, d'.full = some t → d.full = some t

theorem Within.refl (d : Deadlines) : d.Within d := ⟨fun _ h => h, fun _ h => h⟩

theorem within_empty (d : Deadlines) : Within {} d := ⟨nofun, nofun⟩

theorem Within.trans {d d' d'' : Deadlines} (h : d''.Within d') (h' : d'.Within d) :
    d''.Within d :=
  ⟨fun t ht => h'.names t (h.names t ht), fun t ht => h'.full t (h.full t ht)⟩

theorem within_afterFiring (d : Deadlines) (mode : Mode) (enabled : Bool) :
    (d.afterFiring mode enabled).Within d := by
  cases mode <;> cases enabled
  case minimal.true => exact ⟨nofun, fun _ h => h⟩
  all_goals exact within_empty d

/-- The earlier deadline is one of the two. -/
theorem eq_of_earliest? {d : Deadlines} {t : Time} (h : d.earliest? = some t) :
    d.names = some t ∨ d.full = some t := by
  obtain ⟨_ | a, _ | b⟩ := d
  · contradiction
  · exact .inr h
  · exact .inl h
  · have hmin : min a b = t := Option.some.inj h
    rcases Nat.le_total a b with hab | hab
    · exact .inl (by rw [← hmin, Nat.min_eq_left hab])
    · exact .inr (by rw [← hmin, Nat.min_eq_right hab])

/-- Letting a deadline through takes at least one off. -/
theorem count_afterFiring_lt {d : Deadlines} {now t : Time} {mode : Mode} {enabled : Bool}
    (h : d.due? now enabled = some (t, mode)) : (d.afterFiring mode enabled).count < d.count := by
  obtain ⟨names, full⟩ := d
  cases names <;> cases full <;> cases enabled <;> cases mode <;>
    simp_all [due?, earliest?, afterFiring, count]

/-- Only a document with full analysis on has a full pass due. -/
theorem enabled_of_due?_full {d : Deadlines} {now t : Time} {enabled : Bool}
    (h : d.due? now enabled = some (t, .full)) : enabled = true := by
  cases enabled with
  | true => rfl
  | false => simp [due?] at h

end Deadlines

namespace Debouncer

/-- The table of armed deadlines is in order. -/
structure Sound (s : Debouncer) : Prop where
  distinct : (s.armed.map Prod.fst).Nodup
  armed : ∀ x ∈ s.armed, x.2.isIdle = false

theorem sound_new (policy : Policy) : Sound { policy } := ⟨.nil, by simp⟩

/-! ## Reading the table -/

/-- Entries can be dropped by their documents without disturbing the others. -/
theorem lookup_filter_fst {β : Type} (keep : DocumentId → Bool) (table : List (DocumentId × β))
    (id : DocumentId) :
    (table.filter fun x => keep x.1).lookup id = if keep id then table.lookup id else none := by
  induction table with
  | nil => simp
  | cons x rest ih =>
    obtain ⟨k, d⟩ := x
    rw [List.filter_cons, List.lookup_cons]
    by_cases hk : id = k
    · subst hk
      cases hp : keep id with
      | true => simp
      | false => rw [if_neg (by simp), ih, hp]; rfl
    · have hb : (id == k) = false := by simpa using hk
      rw [hb]
      split
      · rw [List.lookup_cons, hb]
        exact ih
      · exact ih

/-- In a table with distinct documents every entry is found. -/
theorem lookup_eq_some_of_mem {β : Type} {table : List (DocumentId × β)} {id : DocumentId} {d : β}
    (hn : (table.map Prod.fst).Nodup) (h : (id, d) ∈ table) : table.lookup id = some d := by
  induction table with
  | nil => simp at h
  | cons x rest ih =>
    obtain ⟨k, c⟩ := x
    simp only [List.map_cons, List.nodup_cons] at hn
    by_cases hk : id = k
    · subst hk
      rcases List.mem_cons.1 h with heq | hm
      · simp_all
      · exact absurd (List.mem_map_of_mem (f := Prod.fst) hm) hn.1
    · have hb : (id == k) = false := by simpa using hk
      have hm : (id, d) ∈ rest := by simpa [hk] using h
      rw [List.lookup_cons, hb]
      exact ih hn.2 hm

/-- An entry of a sound table is what the table says about its document. -/
theorem Sound.deadlines_of_mem {s : Debouncer} (hs : s.Sound) {id : DocumentId} {d : Deadlines}
    (h : (id, d) ∈ s.armed) : s.deadlines id = d := by
  rw [deadlines, lookup_eq_some_of_mem hs.distinct h, Option.getD_some]

/-- A document with deadlines has an entry. -/
theorem mem_of_deadlines_ne {s : Debouncer} {id : DocumentId} (h : s.deadlines id ≠ {}) :
    (id, s.deadlines id) ∈ s.armed := by
  unfold deadlines at h ⊢
  cases hl : s.armed.lookup id with
  | none => simp [hl] at h
  | some d =>
    obtain ⟨before, after, heq, -⟩ := List.lookup_eq_some_iff.1 hl
    simp [heq]

/-! ## The deadlines after an operation -/

theorem deadlines_cancel (s : Debouncer) (id other : DocumentId) :
    (s.cancel id).deadlines other = if other = id then {} else s.deadlines other := by
  have h := lookup_filter_fst (fun k => decide (k ≠ id)) s.armed other
  unfold deadlines cancel
  simp only [h]
  by_cases ho : other = id <;> simp [ho]

theorem deadlines_set (s : Debouncer) (id other : DocumentId) (d : Deadlines) :
    (s.set id d).deadlines other = if other = id then d else s.deadlines other := by
  unfold set
  split
  · next hd => rw [deadlines_cancel, Deadlines.isIdle_iff.1 hd]
  · have hc := deadlines_cancel s id other
    simp only [deadlines] at hc ⊢
    rw [List.lookup_append]
    by_cases ho : other = id
    · subst ho
      have hn : (s.cancel other).armed.lookup other = none := by
        rw [cancel, lookup_filter_fst fun k => decide (k ≠ other)]
        simp
      rw [hn, if_pos rfl, List.lookup_cons_self]
      rfl
    · have hb : (other == id) = false := by simpa using ho
      rw [if_neg ho] at hc ⊢
      rw [← hc, List.lookup_cons, hb, List.lookup_nil, Option.or_none]

theorem deadlines_trigger (s : Debouncer) (id other : DocumentId) (now : Time) (t : Trigger)
    (enabled : Bool) :
    (s.trigger id now t enabled).deadlines other =
      if other = id then .after now (s.policy.arm t enabled) else s.deadlines other :=
  deadlines_set s id other _

/-- Disarming the closed documents keeps the deadlines of the open ones. -/
theorem deadlines_dropClosed {s : Debouncer} (hs : s.Sound)
    (enabled? : DocumentId → Option Bool) (id : DocumentId) :
    (s.dropClosed enabled?).deadlines id =
      if (enabled? id).isSome then s.deadlines id else {} := by
  have heq : (s.dropClosed enabled?).armed =
      s.armed.filter fun x => (enabled? x.1).isSome := by
    refine List.filter_congr fun x hx => ?_
    simp [hs.armed x hx]
  have h := lookup_filter_fst (fun k => (enabled? k).isSome) s.armed id
  unfold deadlines
  rw [heq, h]
  split <;> rfl

/-! ## The table stays in order -/

/-- Dropping entries keeps a table in order. -/
theorem Sound.of_sublist {s s' : Debouncer} (hs : s.Sound) (h : s'.armed.Sublist s.armed) :
    s'.Sound :=
  ⟨(h.map Prod.fst).nodup hs.distinct, fun x hx => hs.armed x (h.subset hx)⟩

theorem Sound.cancel {s : Debouncer} (hs : s.Sound) (id : DocumentId) : (s.cancel id).Sound :=
  hs.of_sublist List.filter_sublist

theorem Sound.dropClosed {s : Debouncer} (hs : s.Sound) (enabled? : DocumentId → Option Bool) :
    (s.dropClosed enabled?).Sound :=
  hs.of_sublist List.filter_sublist

theorem Sound.set {s : Debouncer} (hs : s.Sound) (id : DocumentId) (d : Deadlines) :
    (s.set id d).Sound := by
  unfold Debouncer.set
  split
  · exact hs.cancel id
  · next hd =>
    refine ⟨?_, ?_⟩
    · simp only [List.map_append, List.map_cons, List.map_nil]
      refine List.nodup_append.2 ⟨(hs.cancel id).distinct, by simp, ?_⟩
      intro k hk k' hk'
      obtain ⟨x, hx, rfl⟩ := List.mem_map.1 hk
      rw [List.mem_singleton.1 hk']
      simpa [Debouncer.cancel] using (List.mem_filter.1 hx).2
    · intro x hx
      rcases List.mem_append.1 hx with hx | hx
      · exact (hs.cancel id).armed x hx
      · rw [List.mem_singleton.1 hx]
        simpa using hd

theorem Sound.trigger {s : Debouncer} (hs : s.Sound) (id : DocumentId) (now : Time) (t : Trigger)
    (enabled : Bool) : (s.trigger id now t enabled).Sound :=
  hs.set id _

theorem Sound.poll {s : Debouncer} (hs : s.Sound) (now : Time) (busy : Bool)
    (enabled? : DocumentId → Option Bool) : (s.poll now busy enabled?).2.Sound := by
  unfold Debouncer.poll
  dsimp only
  split
  · exact hs.dropClosed enabled?
  · split
    · exact hs.dropClosed enabled?
    · exact (hs.dropClosed enabled?).set _ _

/-! ## What a poll does -/

/-- A document that a poll finds due is open, and one of its deadlines has passed. -/
theorem mem_due_iff {s : Debouncer} (hs : s.Sound) {now : Time}
    {enabled? : DocumentId → Option Bool} {due : Due} :
    due ∈ s.due now enabled? ↔ ∃ enabled, enabled? due.document = some enabled ∧
      (s.deadlines due.document).due? now enabled = some (due.deadline, due.mode) := by
  obtain ⟨deadline, id, mode⟩ := due
  simp only [Debouncer.due, List.mem_filterMap]
  constructor
  · rintro ⟨⟨k, d⟩, hm, hb⟩
    obtain ⟨enabled, he, hd⟩ := Option.bind_eq_some_iff.1 hb
    obtain ⟨⟨t, m⟩, hdue, heq⟩ := Option.map_eq_some_iff.1 hd
    simp only [Due.mk.injEq] at heq
    obtain ⟨rfl, rfl, rfl⟩ := heq
    exact ⟨enabled, he, by rw [hs.deadlines_of_mem hm, hdue]⟩
  · rintro ⟨enabled, he, hdue⟩
    have hne : s.deadlines id ≠ {} := by
      intro h0
      rw [h0] at hdue
      cases enabled <;> simp [Deadlines.due?, Deadlines.earliest?] at hdue
    exact ⟨_, mem_of_deadlines_ne hne, by simp [he, hdue]⟩

/-- The two things that a poll can do: it fires nothing and only disarms what is
closed, or the place for passes is free and it fires a document that is due. -/
theorem poll_cases {s : Debouncer} (hs : s.Sound) (now : Time) (busy : Bool)
    (enabled? : DocumentId → Option Bool) :
    ((s.poll now busy enabled?).1.fired = none ∧
        (s.poll now busy enabled?).2 = s.dropClosed enabled? ∧
        (busy = false → s.due now enabled? = [])) ∨
      ∃ deadline id mode enabled, busy = false ∧ enabled? id = some enabled ∧
        (s.deadlines id).due? now enabled = some (deadline, mode) ∧
        (s.poll now busy enabled?).1.fired = some (id, mode) ∧
        (s.poll now busy enabled?).2 =
          (s.dropClosed enabled?).set id ((s.deadlines id).afterFiring mode enabled) := by
  unfold poll
  dsimp only
  split
  · next hf => exact .inl ⟨rfl, rfl, fun _ => Due.first?_eq_none_iff.1 hf⟩
  · next first hf =>
    cases busy with
    | true => exact .inl ⟨rfl, rfl, by simp⟩
    | false =>
      obtain ⟨enabled, he, hdue⟩ := (mem_due_iff hs).1 (Due.mem_of_first?_eq_some hf)
      refine .inr ⟨first.deadline, first.document, first.mode, enabled, rfl, he, hdue, rfl, ?_⟩
      simp [fire, deadlines_dropClosed hs, he]

theorem within_dropClosed {s : Debouncer} (hs : s.Sound) (enabled? : DocumentId → Option Bool)
    (id : DocumentId) : ((s.dropClosed enabled?).deadlines id).Within (s.deadlines id) := by
  rw [deadlines_dropClosed hs]
  split
  · exact .refl _
  · exact Deadlines.within_empty _

/-! ## The number of armed deadlines -/

/-- The number of armed deadlines. -/
def countIn (table : List (DocumentId × Deadlines)) : Nat :=
  table.foldr (fun x n => x.2.count + n) 0

def armedCount (s : Debouncer) : Nat := countIn s.armed

@[simp] theorem countIn_nil : countIn [] = 0 := rfl

@[simp] theorem countIn_cons (x : DocumentId × Deadlines) (table : List (DocumentId × Deadlines)) :
    countIn (x :: table) = x.2.count + countIn table := rfl

theorem countIn_append (table more : List (DocumentId × Deadlines)) :
    countIn (table ++ more) = countIn table + countIn more := by
  induction table with
  | nil => simp
  | cons x rest ih => simp [ih, Nat.add_assoc]

theorem countIn_eq_zero_iff {table : List (DocumentId × Deadlines)} :
    countIn table = 0 ↔ ∀ x ∈ table, x.2.count = 0 := by
  induction table with
  | nil => simp
  | cons x rest ih => simp [ih]

/-- The deadlines of one document count apart from those of the others. -/
theorem countIn_eq {table : List (DocumentId × Deadlines)} (hn : (table.map Prod.fst).Nodup)
    (id : DocumentId) :
    countIn table = ((table.lookup id).getD {}).count + countIn (table.filter (·.1 ≠ id)) := by
  induction table with
  | nil => rfl
  | cons x rest ih =>
    obtain ⟨k, d⟩ := x
    simp only [List.map_cons, List.nodup_cons] at hn
    have ih := ih hn.2
    rw [countIn_cons, List.lookup_cons, List.filter_cons]
    by_cases hk : id = k
    · subst hk
      have hrest : rest.filter (fun x => decide (x.1 ≠ id)) = rest := by
        refine List.filter_eq_self.2 fun x hx => decide_eq_true fun h => hn.1 ?_
        exact h ▸ List.mem_map_of_mem (f := Prod.fst) hx
      rw [beq_self_eq_true, if_neg (by simp), hrest]
      rfl
    · have hb : (id == k) = false := by simpa using hk
      have hd : decide (k ≠ id) = true := by simpa using Ne.symm hk
      simp only [hb, hd, if_true, countIn_cons]
      omega

theorem armedCount_cancel {s : Debouncer} (hs : s.Sound) (id : DocumentId) :
    s.armedCount = (s.deadlines id).count + (s.cancel id).armedCount :=
  countIn_eq hs.distinct id

theorem armedCount_set (s : Debouncer) (id : DocumentId) (d : Deadlines) :
    (s.set id d).armedCount = d.count + (s.cancel id).armedCount := by
  unfold set
  split
  · next h => simp [Deadlines.isIdle_iff.1 h, Deadlines.count]
  · simp only [armedCount, countIn_append, countIn_cons, countIn_nil]
    omega

/-- Dropping some entries takes away what they count. -/
theorem countIn_filter_add (keep : DocumentId × Deadlines → Bool)
    (table : List (DocumentId × Deadlines)) :
    countIn (table.filter keep) + countIn (table.filter (!keep ·)) = countIn table := by
  induction table with
  | nil => rfl
  | cons x rest ih =>
    simp only [List.filter_cons, countIn_cons]
    cases keep x <;> simp <;> omega

theorem armedCount_dropClosed_le (s : Debouncer) (enabled? : DocumentId → Option Bool) :
    (s.dropClosed enabled?).armedCount ≤ s.armedCount := by
  rw [armedCount, armedCount, ← countIn_filter_add _ s.armed]
  exact Nat.le_add_right _ _

/-- Where a closed document is armed, disarming the closed ones takes work away. -/
theorem armedCount_dropClosed_lt {s : Debouncer} (hs : s.Sound)
    {enabled? : DocumentId → Option Bool} {x : DocumentId × Deadlines} (hx : x ∈ s.armed)
    (hclosed : enabled? x.1 = none) : (s.dropClosed enabled?).armedCount < s.armedCount := by
  rw [armedCount, armedCount, ← countIn_filter_add _ s.armed]
  refine Nat.lt_add_of_pos_right (Nat.pos_of_ne_zero fun hzero => ?_)
  have hcount : x.2.count = 0 :=
    countIn_eq_zero_iff.1 hzero x (List.mem_filter.2 ⟨hx, by simp [hclosed]⟩)
  rw [Deadlines.count_eq_zero_iff, hs.armed x hx] at hcount
  contradiction

/-- Letting a deadline through takes it off. -/
theorem armedCount_fire_lt {s : Debouncer} (hs : s.Sound) {id : DocumentId} {now t : Time}
    {mode : Mode} {enabled : Bool} (hd : (s.deadlines id).due? now enabled = some (t, mode)) :
    (s.set id ((s.deadlines id).afterFiring mode enabled)).armedCount < s.armedCount := by
  rw [armedCount_set, armedCount_cancel hs id]
  exact Nat.add_lt_add_right (Deadlines.count_afterFiring_lt hd) _

/-- Nothing is due next exactly if nothing is armed. -/
theorem next?_eq_none_iff {s : Debouncer} : s.next? = none ↔ s.armedCount = 0 := by
  unfold next? armedCount
  rw [List.min?_eq_none_iff, List.filterMap_eq_nil_iff, countIn_eq_zero_iff]
  refine forall₂_congr fun x _ => ?_
  rw [Deadlines.count_eq_zero_iff, Deadlines.earliest?_eq_none_iff]

theorem deadlines_of_armedCount_eq_zero {s : Debouncer} (h : s.armedCount = 0)
    (id : DocumentId) : s.deadlines id = {} := by
  by_cases hne : s.deadlines id = {}
  · exact hne
  · have hcount := countIn_eq_zero_iff.1 h _ (mem_of_deadlines_ne hne)
    exact Deadlines.isIdle_iff.1 (Deadlines.count_eq_zero_iff.1 hcount)

end Debouncer

end ScriptDesk
