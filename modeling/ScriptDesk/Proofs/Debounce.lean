import Mathlib.Data.List.Induction
import ScriptDesk.Proofs.Armed

/-!
# ScriptDesk.Proofs.Debounce

What the debouncer promises about one document, whatever else it is asked in between.
A call can do five things to the deadlines of a document (`Debouncer.Affects`), and
the promises follow from these:

* it is let through only by the trigger that armed it last, and not before its time;
* one trigger lets it through twice at most, and not again after a full pass;
* it is not forgotten: only a cancellation, a poll that lets it through or one that
  finds it closed takes its deadlines away, and once its time has come a poll lets it
  or another document through, if the place for passes is free.

None of this needs the clock to go forward.
-/

namespace ScriptDesk

namespace Deadlines

theorem count_le_two (d : Deadlines) : d.count ≤ 2 := by
  obtain ⟨_ | names, _ | full⟩ := d <;> simp [count]

theorem not_due_empty (now : Time) (enabled : Bool) : due? {} now enabled = none := by
  cases enabled <;> rfl

/-- The deadline that is let through is armed, and it has passed. A full pass needs the
full deadline. -/
theorem armed_of_due? {d : Deadlines} {now deadline : Time} {enabled : Bool} {mode : Mode}
    (h : d.due? now enabled = some (deadline, mode)) :
    deadline ≤ now ∧ (d.names = some deadline ∨ d.full = some deadline) ∧
      (mode = .full → d.full = some deadline) := by
  cases enabled with
  | true =>
    obtain ⟨names, full⟩ := d
    cases names <;> cases full <;> simp [due?, Option.filter] at h ⊢ <;> grind
  | false =>
    obtain ⟨t, ht, heq⟩ := Option.map_eq_some_iff.1 h
    obtain ⟨ht, hle⟩ := Option.filter_eq_some_iff.1 ht
    obtain ⟨rfl, rfl⟩ := Prod.mk.inj heq
    exact ⟨of_decide_eq_true hle, eq_of_earliest? ht, by simp⟩

/-- Nothing is due before the first of the delays that armed it. -/
theorem le_of_due? {d : Deadlines} {t now deadline : Time} {delays : Delays} {enabled : Bool}
    {mode : Mode} (hd : d.Within (.after t delays))
    (hdelays : ∀ full, delays.full = some full → delays.names ≤ full)
    (h : d.due? now enabled = some (deadline, mode)) : t + delays.names ≤ now := by
  obtain ⟨hle, hnames | hfull, -⟩ := armed_of_due? h
  · have heq : t + delays.names = deadline := Option.some.inj (hd.names _ hnames)
    exact heq ▸ hle
  · obtain ⟨full, hf, rfl⟩ := Option.map_eq_some_iff.1 (hd.full _ hfull)
    exact Nat.le_trans (Nat.add_le_add_left (hdelays full hf) t) hle

/-- A full pass is due only after the delay for it. -/
theorem exists_full_of_due? {d : Deadlines} {t now deadline : Time} {delays : Delays}
    {enabled : Bool} (hd : d.Within (.after t delays))
    (h : d.due? now enabled = some (deadline, .full)) :
    ∃ full, delays.full = some full ∧ t + full ≤ now := by
  obtain ⟨hle, -, hfull⟩ := armed_of_due? h
  obtain ⟨full, hf, rfl⟩ := Option.map_eq_some_iff.1 (hd.full _ (hfull rfl))
  exact ⟨full, hf, hle⟩

end Deadlines

namespace Debouncer

/-- What the debouncer can be asked to do. -/
inductive Call where
  | trigger (id : DocumentId) (now : Time) (trigger : Trigger) (enabled : Bool)
  | cancel (id : DocumentId)
  | poll (now : Time) (busy : Bool) (enabled? : DocumentId → Option Bool)

/-- The call arms the document. -/
def Call.Arms (id : DocumentId) : Call → Prop
  | .trigger other _ _ _ => other = id
  | .cancel _ | .poll _ _ _ => False

/-- The call arms or disarms the document by name. -/
def Call.Touches (id : DocumentId) : Call → Prop
  | .trigger other _ _ _ | .cancel other => other = id
  | .poll _ _ _ => False

/-- Carries out a call, and answers what it lets through. -/
def perform (s : Debouncer) : Call → Option (DocumentId × Mode) × Debouncer
  | .trigger id now trigger enabled => (none, s.trigger id now trigger enabled)
  | .cancel id => (none, s.cancel id)
  | .poll now busy enabled? => let (poll, s) := s.poll now busy enabled?; (poll.fired, s)

def run (s : Debouncer) (calls : List Call) : Debouncer :=
  calls.foldl (fun s c => (s.perform c).2) s

/-- The mode in which the call lets the document through. -/
def fires? (s : Debouncer) (c : Call) (id : DocumentId) : Option Mode :=
  (s.perform c).1.bind fun fired => if fired.1 = id then some fired.2 else none

/-- The modes in which the calls let the document through, one after another. -/
def firings (s : Debouncer) (id : DocumentId) : List Call → List Mode
  | [] => []
  | c :: rest => (s.fires? c id).toList ++ (s.perform c).2.firings id rest

@[simp] theorem run_concat (s : Debouncer) (calls : List Call) (c : Call) :
    s.run (calls ++ [c]) = ((s.run calls).perform c).2 := by simp [run]

theorem fires?_eq_some_iff {s : Debouncer} {c : Call} {id : DocumentId} {mode : Mode} :
    s.fires? c id = some mode ↔ (s.perform c).1 = some (id, mode) := by
  unfold fires?
  rcases (s.perform c).1 with _ | ⟨other, m⟩ <;> grind

theorem Sound.perform {s : Debouncer} (hs : s.Sound) (c : Call) : (s.perform c).2.Sound := by
  cases c with
  | trigger id now t enabled => exact hs.trigger id now t enabled
  | cancel id => exact hs.cancel id
  | poll now busy enabled? => exact hs.poll now busy enabled?

theorem sound_run (policy : Policy) (calls : List Call) : (run { policy } calls).Sound := by
  induction calls using List.reverseRecOn with
  | nil => exact sound_new policy
  | append_singleton calls c ih => rw [run_concat]; exact ih.perform c

@[simp] theorem policy_perform (s : Debouncer) (c : Call) :
    (s.perform c).2.policy = s.policy := by
  cases c with
  | trigger id now t enabled => exact policy_set _ _ _
  | cancel id => rfl
  | poll now busy enabled? =>
    simp only [perform, poll]
    split
    · rfl
    · split
      · rfl
      · exact policy_set _ _ _

@[simp] theorem policy_run (s : Debouncer) (calls : List Call) :
    (s.run calls).policy = s.policy := by
  induction calls using List.reverseRecOn with
  | nil => rfl
  | append_singleton calls c ih => simp [ih]

/-! ## What a call does to a document -/

/-- What a call can do to the deadlines of a document, and the mode in which it lets
the document through. -/
inductive Affects (policy : Policy) (id : DocumentId) (d : Deadlines) :
    Call → Option Mode → Deadlines → Prop where
  | armed (now : Time) (trigger : Trigger) (enabled : Bool) :
      Affects policy id d (.trigger id now trigger enabled) none
        (.after now (policy.arm trigger enabled))
  | cancelled : Affects policy id d (.cancel id) none {}
  /-- The document is closed. -/
  | dropped (now : Time) (busy : Bool) (enabled? : DocumentId → Option Bool)
      (hclosed : enabled? id = none) : Affects policy id d (.poll now busy enabled?) none {}
  | fired (now : Time) (enabled? : DocumentId → Option Bool) (enabled : Bool) (deadline : Time)
      (mode : Mode) (hopen : enabled? id = some enabled)
      (hdue : d.due? now enabled = some (deadline, mode)) :
      Affects policy id d (.poll now false enabled?) (some mode) (d.afterFiring mode enabled)
  | kept (c : Call) (huntouched : ¬ c.Touches id) : Affects policy id d c none d

theorem affects_poll {s : Debouncer} (hs : s.Sound) (now : Time) (busy : Bool)
    (enabled? : DocumentId → Option Bool) (id : DocumentId) :
    Affects s.policy id (s.deadlines id) (.poll now busy enabled?)
      (s.fires? (.poll now busy enabled?) id)
      ((s.perform (.poll now busy enabled?)).2.deadlines id) := by
  have hdropped : Affects s.policy id (s.deadlines id) (.poll now busy enabled?) none
      ((s.dropClosed enabled?).deadlines id) := by
    rw [deadlines_dropClosed hs]
    cases hid : enabled? id with
    | none => exact .dropped now busy enabled? hid
    | some enabled => exact .kept _ not_false
  have hfired : (s.perform (.poll now busy enabled?)).1 = (s.poll now busy enabled?).1.fired := rfl
  have hafter : (s.perform (.poll now busy enabled?)).2 = (s.poll now busy enabled?).2 := rfl
  rw [fires?, hfired, hafter]
  rcases poll_cases hs now busy enabled? with
    ⟨hnone, hdeb, -⟩ | ⟨deadline, other, mode, enabled, rfl, hopen, hdue, hsome, hdeb⟩
  · rw [hnone, hdeb]
    exact hdropped
  · rw [hsome, hdeb, deadlines_set, Option.bind_some]
    by_cases hid : id = other
    · subst hid
      rw [if_pos rfl, if_pos rfl]
      exact .fired now enabled? enabled deadline mode hopen hdue
    · rw [if_neg hid, if_neg (Ne.symm hid)]
      exact hdropped

theorem affects_perform {s : Debouncer} (hs : s.Sound) (c : Call) (id : DocumentId) :
    Affects s.policy id (s.deadlines id) c (s.fires? c id) ((s.perform c).2.deadlines id) := by
  cases c with
  | trigger other now t enabled =>
    rw [show (s.perform (.trigger other now t enabled)).2 = s.trigger other now t enabled from rfl,
      deadlines_trigger]
    by_cases hid : id = other
    · subst hid
      rw [if_pos rfl]
      exact .armed now t enabled
    · rw [if_neg hid]
      exact .kept _ (Ne.symm hid)
  | cancel other =>
    rw [show (s.perform (.cancel other)).2 = s.cancel other from rfl, deadlines_cancel]
    by_cases hid : id = other
    · subst hid
      rw [if_pos rfl]
      exact .cancelled
    · rw [if_neg hid]
      exact .kept _ (Ne.symm hid)
  | poll now busy enabled? => exact affects_poll hs now busy enabled? id

/-! ## Not before its time -/

/-- What a poll lets through is due. -/
theorem due_of_fired {s : Debouncer} (hs : s.Sound) {now : Time} {busy : Bool}
    {enabled? : DocumentId → Option Bool} {id : DocumentId} {mode : Mode}
    (h : (s.poll now busy enabled?).1.fired = some (id, mode)) :
    ∃ enabled deadline, enabled? id = some enabled ∧
      (s.deadlines id).due? now enabled = some (deadline, mode) := by
  rcases poll_cases hs now busy enabled? with
    ⟨hnone, -, -⟩ | ⟨deadline, other, m, enabled, -, hopen, hdue, hsome, -⟩
  · rw [hnone] at h
    contradiction
  · rw [hsome] at h
    cases h
    exact ⟨enabled, deadline, hopen, hdue⟩

/-- The trigger is the last that armed the document, and it was not cancelled since. -/
def LastArmed (id : DocumentId) (t : Time) (trigger : Trigger) (enabled : Bool)
    (calls : List Call) : Prop :=
  ∃ before after, calls = before ++ .trigger id t trigger enabled :: after ∧
    ∀ c ∈ after, ¬ c.Touches id

theorem LastArmed.concat {id : DocumentId} {t : Time} {trigger : Trigger} {enabled : Bool}
    {calls : List Call} (h : LastArmed id t trigger enabled calls) {c : Call}
    (hc : ¬ c.Touches id) : LastArmed id t trigger enabled (calls ++ [c]) := by
  obtain ⟨before, after, rfl, hafter⟩ := h
  refine ⟨before, after ++ [c], by simp, ?_⟩
  simpa [or_imp, forall_and] using ⟨hafter, hc⟩

/-- The deadlines of a document are what is left of those that were armed last. -/
def ArmedLast (policy : Policy) (id : DocumentId) (d : Deadlines) (calls : List Call) : Prop :=
  d = {} ∨ ∃ t trigger enabled, LastArmed id t trigger enabled calls ∧
    d.Within (.after t (policy.arm trigger enabled))

theorem ArmedLast.concat {policy : Policy} {id : DocumentId} {d d' : Deadlines}
    {calls : List Call} (h : ArmedLast policy id d calls) {c : Call} {fired : Option Mode}
    (hc : Affects policy id d c fired d') : ArmedLast policy id d' (calls ++ [c]) := by
  cases hc with
  | armed now trigger enabled =>
    exact .inr ⟨now, trigger, enabled, ⟨calls, [], rfl, nofun⟩, .refl _⟩
  | cancelled => exact .inl rfl
  | dropped now busy enabled? hclosed => exact .inl rfl
  | fired now enabled? enabled deadline mode hopen hdue =>
    obtain rfl | ⟨t, trigger, on, hlast, hwithin⟩ := h
    · simp [Deadlines.not_due_empty] at hdue
    · exact .inr ⟨t, trigger, on, hlast.concat not_false,
        (d.within_afterFiring mode enabled).trans hwithin⟩
  | kept c huntouched =>
    exact h.imp_right fun ⟨t, trigger, on, hlast, hwithin⟩ =>
      ⟨t, trigger, on, hlast.concat huntouched, hwithin⟩

theorem armedLast_run (policy : Policy) (calls : List Call) (id : DocumentId) :
    ArmedLast policy id ((run { policy } calls).deadlines id) calls := by
  induction calls using List.reverseRecOn with
  | nil => exact .inl rfl
  | append_singleton calls c ih =>
    have hc := affects_perform (sound_run policy calls) c id
    rw [policy_run] at hc
    rw [run_concat]
    exact ih.concat hc

/-! ## Twice at most -/

/-- A call that does not arm a document takes a deadline off it for letting it through. -/
theorem Affects.count_le {policy : Policy} {id : DocumentId} {d d' : Deadlines} {c : Call}
    {fired : Option Mode} (h : Affects policy id d c fired d') (hc : ¬ c.Arms id) :
    fired.toList.length + d'.count ≤ d.count := by
  cases h with
  | armed now trigger enabled => exact absurd rfl hc
  | cancelled => simp [Deadlines.count]
  | dropped now busy enabled? hclosed => simp [Deadlines.count]
  | fired now enabled? enabled deadline mode hopen hdue =>
    have := Deadlines.count_afterFiring_lt hdue
    simp only [Option.toList_some, List.length_singleton]
    omega
  | kept c huntouched => simp

theorem length_firings_le {s : Debouncer} (hs : s.Sound) (id : DocumentId) {calls : List Call}
    (hc : ∀ c ∈ calls, ¬ c.Arms id) : (s.firings id calls).length ≤ (s.deadlines id).count := by
  induction calls generalizing s with
  | nil => simp [firings]
  | cons c rest ih =>
    obtain ⟨hfirst, hrest⟩ := List.forall_mem_cons.1 hc
    have hcount := (affects_perform hs c id).count_le hfirst
    have := ih (hs.perform c) hrest
    simp only [firings, List.length_append]
    omega

/-- After a full pass nothing is armed. -/
theorem Affects.eq_empty_of_full {policy : Policy} {id : DocumentId} {d d' : Deadlines} {c : Call}
    (h : Affects policy id d c (some .full) d') : d' = {} := by
  cases h with
  | fired now enabled? enabled deadline mode hopen hdue => rfl

theorem pairwise_firings {s : Debouncer} (hs : s.Sound) (id : DocumentId) {calls : List Call}
    (hc : ∀ c ∈ calls, ¬ c.Arms id) :
    (s.firings id calls).Pairwise fun first _ => first = .minimal := by
  induction calls generalizing s with
  | nil => exact .nil
  | cons c rest ih =>
    obtain ⟨-, hrest⟩ := List.forall_mem_cons.1 hc
    have haffects := affects_perform hs c id
    have hlater := ih (hs.perform c) hrest
    rw [firings]
    cases hfired : s.fires? c id with
    | none => exact hlater
    | some mode =>
      refine List.pairwise_cons.2 ⟨fun later hmem => ?_, hlater⟩
      cases mode with
      | minimal => rfl
      | full =>
        rw [hfired] at haffects
        have hcount := length_firings_le (hs.perform c) id hrest
        rw [haffects.eq_empty_of_full] at hcount
        have hnone : (s.perform c).2.firings id rest = [] :=
          List.eq_nil_of_length_eq_zero (Nat.le_zero.1 hcount)
        simp [hnone] at hmem

/-! ## Not forgotten -/

/-- The ways in which a document is disarmed. -/
inductive Disarms (s : Debouncer) (id : DocumentId) : Call → Prop where
  | cancelled : Disarms s id (.cancel id)
  | fired (now : Time) (busy : Bool) (enabled? : DocumentId → Option Bool) (mode : Mode)
      (h : (s.poll now busy enabled?).1.fired = some (id, mode)) :
      Disarms s id (.poll now busy enabled?)
  | closed (now : Time) (busy : Bool) (enabled? : DocumentId → Option Bool)
      (h : enabled? id = none) : Disarms s id (.poll now busy enabled?)

theorem disarms_of_isArmed {s : Debouncer} (hs : s.Sound) {c : Call} {id : DocumentId}
    (h : s.isArmed id = true) (h' : (s.perform c).2.isArmed id = false) : Disarms s id c := by
  have haffects := affects_perform hs c id
  have hfires : ∀ mode, s.fires? c id = some mode → (s.perform c).1 = some (id, mode) :=
    fun _ => fires?_eq_some_iff.1
  unfold isArmed at h h'
  generalize (s.perform c).2.deadlines id = d' at haffects h'
  generalize s.fires? c id = fired at haffects hfires
  cases haffects with
  | armed now trigger enabled => simp at h'
  | cancelled => exact .cancelled
  | dropped now busy enabled? hclosed => exact .closed now busy enabled? hclosed
  | fired now enabled? enabled deadline mode hopen hdue =>
    exact .fired now false enabled? mode (hfires mode rfl)
  | kept c huntouched => simp [h] at h'

/-- While the place for passes is taken, a poll disarms closed documents only. -/
theorem deadlines_poll_busy {s : Debouncer} (hs : s.Sound) (now : Time)
    {enabled? : DocumentId → Option Bool} {id : DocumentId} (hopen : (enabled? id).isSome) :
    (s.poll now true enabled?).2.deadlines id = s.deadlines id := by
  have haffects := affects_perform hs (.poll now true enabled?) id
  rw [show (s.perform (.poll now true enabled?)).2 = (s.poll now true enabled?).2 from rfl]
    at haffects
  generalize (s.poll now true enabled?).2.deadlines id = d' at haffects
  generalize s.fires? (.poll now true enabled?) id = fired at haffects
  cases haffects with
  | dropped _ _ _ hclosed => simp [hclosed] at hopen
  | kept _ _ => rfl

/-- If the place for passes is free and the deadline of an open document has passed, a
poll lets a document through. -/
theorem isSome_fired_poll {s : Debouncer} (hs : s.Sound) {now deadline : Time}
    {enabled? : DocumentId → Option Bool} {id : DocumentId} (hopen : (enabled? id).isSome)
    (hdeadline : (s.deadlines id).earliest? = some deadline) (hle : deadline ≤ now) :
    (s.poll now false enabled?).1.fired.isSome := by
  obtain ⟨enabled, hid⟩ := Option.isSome_iff_exists.1 hopen
  obtain ⟨⟨t, mode⟩, hdue⟩ := Option.isSome_iff_exists.1
    (Deadlines.due?_isSome_of_earliest? enabled hdeadline hle)
  have hmem : (⟨t, id, mode⟩ : Due) ∈ s.due now enabled? := (mem_due_iff hs).2 ⟨enabled, hid, hdue⟩
  rcases poll_cases hs now false enabled? with ⟨-, -, hnone⟩ | ⟨_, _, _, _, -, -, -, hsome, -⟩
  · simp [hnone rfl] at hmem
  · rw [hsome]
    rfl

/-! ## The promises -/

/-- What the debouncer promises after some calls. -/
structure Debounces (policy : Policy) (calls : List Call) : Prop where
  /-- A poll lets a document through only for the trigger that armed it last, and not
  before the delay of that trigger is over. -/
  notEarly : ∀ now busy enabled? id mode,
    ((run { policy } calls).poll now busy enabled?).1.fired = some (id, mode) →
      ∃ t trigger on, LastArmed id t trigger on calls ∧
        (on = true → t + min policy.names (policy.delay trigger) ≤ now) ∧
        (on = false → t + policy.delay trigger / 2 ≤ now) ∧
        (mode = .full →
          on = true ∧ enabled? id = some true ∧ t + policy.delay trigger ≤ now)
  /-- Until a document is armed again it is let through twice at most, -/
  twice : ∀ id later, (∀ c ∈ later, ¬ c.Arms id) →
    ((run { policy } calls).firings id later).length ≤ 2
  /-- and not again after a full pass. -/
  fullLast : ∀ id later, (∀ c ∈ later, ¬ c.Arms id) →
    ((run { policy } calls).firings id later).Pairwise fun first _ => first = .minimal
  /-- When its time has come and the place for passes is free, a document is let through. -/
  prompt : ∀ now enabled? id deadline, (enabled? id).isSome →
    ((run { policy } calls).deadlines id).earliest? = some deadline → deadline ≤ now →
      ((run { policy } calls).poll now false enabled?).1.fired.isSome
  /-- It is disarmed only if it is cancelled, let through or closed. -/
  noLoss : ∀ id c, (run { policy } calls).isArmed id = true →
    (run { policy } (calls ++ [c])).isArmed id = false → Disarms (run { policy } calls) id c
  /-- A poll that finds the place for passes taken lets the deadlines be. -/
  busy : ∀ now enabled? id, (enabled? id).isSome →
    ((run { policy } calls).poll now true enabled?).2.deadlines id =
      (run { policy } calls).deadlines id

/-- The debouncer keeps its promises, whatever it is asked. -/
theorem debounces (policy : Policy) (calls : List Call) : Debounces policy calls := by
  have hs := sound_run policy calls
  refine
    { notEarly := fun now busy enabled? id mode hfired => ?_
      twice := fun id later hc =>
        Nat.le_trans (length_firings_le hs id hc) (Deadlines.count_le_two _)
      fullLast := fun id later hc => pairwise_firings hs id hc
      prompt := fun now enabled? id deadline hopen => isSome_fired_poll hs hopen
      noLoss := fun id c h h' => disarms_of_isArmed hs h (run_concat _ calls c ▸ h')
      busy := fun now enabled? id hopen => deadlines_poll_busy hs now hopen }
  obtain ⟨enabled, deadline, hopen, hdue⟩ := due_of_fired hs hfired
  obtain hempty | ⟨t, trigger, on, hlast, hwithin⟩ := armedLast_run policy calls id
  · rw [hempty, Deadlines.not_due_empty] at hdue
    contradiction
  · have hnames := Deadlines.le_of_due? hwithin (fun _ => Policy.names_le_full) hdue
    refine ⟨t, trigger, on, hlast, ?_, ?_, ?_⟩
    · rintro rfl
      exact hnames
    · rintro rfl
      exact hnames
    · rintro rfl
      obtain ⟨full, hfull, hle⟩ := Deadlines.exists_full_of_due? hwithin hdue
      rw [Deadlines.enabled_of_due?_full hdue] at hopen
      cases on with
      | true =>
        obtain rfl : policy.delay trigger = full := Option.some.inj hfull
        exact ⟨rfl, hopen, hle⟩
      | false => contradiction

/-- After a burst of edits the full pass comes for the last of them. -/
theorem debounces_burst :
    ((run {} [.trigger ⟨1⟩ 0 .typing true, .trigger ⟨1⟩ (milliseconds 1000) .typing true]).poll
      (milliseconds 5000) false fun _ => some true).1.fired = some (⟨1⟩, .full) ∧
    ∃ t trigger on, LastArmed ⟨1⟩ t trigger on
      [.trigger ⟨1⟩ 0 .typing true, .trigger ⟨1⟩ (milliseconds 1000) .typing true] ∧
        on = true ∧ t + ({} : Policy).delay trigger ≤ milliseconds 5000 := by
  have hfired : ((run {} [.trigger ⟨1⟩ 0 .typing true,
      .trigger ⟨1⟩ (milliseconds 1000) .typing true]).poll (milliseconds 5000) false
        fun _ => some true).1.fired = some (⟨1⟩, .full) := by decide
  obtain ⟨t, trigger, on, hlast, -, -, hfull⟩ := (debounces {} _).notEarly _ _ _ _ _ hfired
  obtain ⟨hon, -, hle⟩ := hfull rfl
  exact ⟨hfired, t, trigger, on, hlast, hon, hle⟩

end Debouncer

end ScriptDesk
