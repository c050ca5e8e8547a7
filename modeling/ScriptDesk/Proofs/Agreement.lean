import ScriptDesk.Document.Tracking

/-!
# ScriptDesk.Proofs.Agreement

What a document keeps about its analysis agrees with the pass on it. The same
facts are kept twice, with the document and with the place for passes, and are
updated at different moments; `Tracking.Agrees` is what holds between them at
all times. From it follows that a full pass is never too late
(`settle_cases`): the only completions that are dropped are those of minimal
passes whose version already has a full analysis.
-/

namespace ScriptDesk

theorem Stamp.isOlder_eq_false_iff {a b : Stamp} :
    a.isOlder b = false ↔
      b.version < a.version ∨ b.version = a.version ∧ a.mode.covers b.mode = true := by
  simp only [isOlder, Bool.or_eq_false_iff, Bool.and_eq_false_iff, decide_eq_false_iff_not,
    beq_eq_false_iff_ne, Bool.not_eq_false']
  constructor
  · rintro ⟨hlt, heq⟩
    rcases heq with heq | hc
    · exact .inl (by omega)
    · by_cases hv : b.version = a.version
      · exact .inr ⟨hv, hc⟩
      · exact .inl (by omega)
  · rintro (hlt | ⟨hv, hc⟩)
    · exact ⟨by omega, .inl (by omega)⟩
    · exact ⟨by omega, .inr hc⟩

/-- Two stamps neither of which is older are the same. -/
theorem Stamp.eq_of_not_isOlder {a b : Stamp} (hab : a.isOlder b = false)
    (hba : b.isOlder a = false) : a = b := by
  obtain ⟨v, m⟩ := a
  obtain ⟨w, n⟩ := b
  rw [isOlder_eq_false_iff] at hab hba
  have hv : v = w := by simp only at hab hba; omega
  subst hv
  cases m <;> cases n <;> simp [Mode.covers] at hab hba ⊢

namespace Tracking

/-- The stamp of a pass on the document as it is. -/
def current (t : Tracking) : Stamp := ⟨t.version, t.mode⟩

/-- What is kept about a document agrees with the pass on it. -/
structure Agrees (t : Tracking) (pass : Option Stamp) : Prop where
  /-- The document knows the version that the pass is on. -/
  inFlight : t.inFlight = pass.map (·.version)
  /-- The status tells of a full pass only while there is one. -/
  working : t.status = .working → ∃ v, pass = some ⟨v, .full⟩
  /-- No pass is on anything newer than the document, -/
  passOld : ∀ p, pass = some p → t.current.isOlder p = false
  /-- and no analysis on record is of anything newer. -/
  appliedOld : ∀ a, t.applied = some a → t.current.isOlder a = false
  inOrder : ∀ a p, t.applied = some a → pass = some p → a.version ≤ p.version
  recorded : t.applied.isSome = t.analysis.isSome
  /-- A document that needs no analysis has one of the version and the mode that it
  is in, -/
  settled : t.needsAnalysis = false → t.applied = some t.current
  /-- and tells of it, unless a full pass makes it anew. -/
  told : t.needsAnalysis = false → t.status ≠ .working →
    ∀ a, t.analysis = some a → t.status = .ofAnalysis a t.enabled t.hasFile

/-! ## Changes of the document -/

/-- Everything is older than a later version. -/
theorem isOlder_current_of_lt {t : Tracking} {a : Stamp} (h : a.version < t.version) :
    t.current.isOlder a = false :=
  Stamp.isOlder_eq_false_iff.2 (.inl h)

theorem version_le_of_isOlder {t : Tracking} {a : Stamp} (h : t.current.isOlder a = false) :
    a.version ≤ t.version := by
  rcases Stamp.isOlder_eq_false_iff.1 h with h | ⟨h, -⟩
  · exact Nat.le_of_lt h
  · exact Nat.le_of_eq h

theorem agrees_new (enabled hasFile : Bool) : Agrees { enabled, hasFile } none where
  inFlight := rfl
  working h := by cases h
  passOld _ h := by cases h
  appliedOld _ h := by cases h
  inOrder _ _ h := by cases h
  recorded := rfl
  settled h := by cases h
  told h := by cases h

/-- What is kept still agrees with the pass when the version grows, whatever
becomes of the mode, as long as an analysis is needed and the status does not
tell of a pass anew. -/
theorem Agrees.bump {t t' : Tracking} {pass : Option Stamp} (h : t.Agrees pass)
    (hv : t.version < t'.version) (hn : t'.needsAnalysis = true) (hi : t'.inFlight = t.inFlight)
    (ha : t'.applied = t.applied) (hr : t'.analysis = t.analysis)
    (hs : t'.status = .working → t.status = .working) : t'.Agrees pass where
  inFlight := hi.trans h.inFlight
  working hw := h.working (hs hw)
  passOld p hp :=
    isOlder_current_of_lt (Nat.lt_of_le_of_lt (version_le_of_isOlder (h.passOld p hp)) hv)
  appliedOld a hp :=
    isOlder_current_of_lt
      (Nat.lt_of_le_of_lt (version_le_of_isOlder (h.appliedOld a (ha ▸ hp))) hv)
  inOrder a p hp := h.inOrder a p (ha ▸ hp)
  recorded := by rw [ha, hr, h.recorded]
  settled h0 := by rw [hn] at h0; cases h0
  told h0 := by rw [hn] at h0; cases h0

theorem Agrees.noteEdit {t : Tracking} {pass : Option Stamp} (h : t.Agrees pass) :
    t.noteEdit.Agrees pass :=
  h.bump (Nat.lt_succ_self _) rfl rfl rfl rfl (fun hw => by cases hw)

theorem Agrees.setEnabled {t : Tracking} {pass : Option Stamp} (h : t.Agrees pass)
    (enabled : Bool) : (t.setEnabled enabled).Agrees pass := by
  unfold Tracking.setEnabled
  split
  · exact h
  · exact h.bump (Nat.lt_succ_self _) rfl rfl rfl rfl id

theorem Agrees.invalidate {t : Tracking} {pass : Option Stamp} (h : t.Agrees pass) :
    t.invalidate.Agrees pass :=
  { h with
    settled := fun h0 => by cases h0
    told := fun h0 => by cases h0 }

theorem Agrees.showViews {t : Tracking} {pass : Option Stamp} (h : t.Agrees pass) :
    ({ t with viewsStale := false } : Tracking).Agrees pass :=
  { h with }

/-- A pass starts only when there is none on the document, and a full one only
with full analysis on. -/
theorem Agrees.noteStart {t : Tracking} {mode : Mode} (h : t.Agrees none)
    (hm : t.mode.covers mode = true) : (t.noteStart mode).Agrees (some ⟨t.version, mode⟩) where
  inFlight := rfl
  working hw := by
    simp only [Tracking.noteStart] at hw
    split at hw
    · next hf =>
      simp only [Bool.and_eq_true, decide_eq_true_eq] at hf
      exact ⟨t.version, by rw [hf.1]⟩
    · obtain ⟨v, hv⟩ := h.working hw
      cases hv
  passOld p hp := by
    cases hp
    exact Stamp.isOlder_eq_false_iff.2 (.inr ⟨rfl, hm⟩)
  appliedOld := h.appliedOld
  inOrder a p ha hp := by
    cases hp
    exact version_le_of_isOlder (h.appliedOld a ha)
  recorded := h.recorded
  settled := h.settled
  told hn hw := by
    simp only [Tracking.noteStart] at hw ⊢
    split
    · next hf => rw [if_pos hf] at hw; exact absurd rfl hw
    · next hf => rw [if_neg hf] at hw; exact h.told hn hw

/-! ## The end of a pass -/

/-- The pass in flight has ended. -/
def ended (t : Tracking) : Tracking := { t with inFlight := none }

@[simp] theorem isSettledBy_ended (t : Tracking) (mode : Mode) :
    t.ended.isSettledBy mode = t.isSettledBy mode := rfl

/-- The analysis that an outcome stands for on its own: a failure keeps the names on
record. -/
def resultOf (t : Tracking) : Outcome → Analysis
  | .ok found => found
  | .error failure => .afterFailure t.analysis failure

/-- A pass that settles the document replaces the analysis on record. -/
theorem analysisOf_of_isSettledBy {t : Tracking} {mode : Mode} (h : t.isSettledBy mode = true)
    (outcome : Outcome) : t.analysisOf mode outcome = t.resultOf outcome := by
  unfold analysisOf resultOf
  dsimp only
  split
  · exact if_pos h
  · rfl

/-- The end of a pass leaves all but the note of it as it is. -/
theorem noteEnd_eq (t : Tracking) (version : Nat) :
    ∃ inFlight, t.noteEnd version = { t with inFlight } := by
  unfold noteEnd
  split
  · exact ⟨_, rfl⟩
  · exact ⟨t.inFlight, rfl⟩

/-- The three outcomes of taking in a completion: the document never had its version; what
is on record is newer; or it goes on record. -/
theorem settle_outcomes (t : Tracking) (done : Completion) (shown : Bool) :
    (t.version < done.version ∧ t.settle done shown = (.unrecognized, t)) ∨
      (done.version ≤ t.version ∧ t.isStale ⟨done.version, done.mode⟩ = true ∧
        t.settle done shown = (.stale, t.noteEnd done.version)) ∨
      (done.version ≤ t.version ∧ t.isStale ⟨done.version, done.mode⟩ = false ∧
        t.settle done shown = (.applied shown (!t.isSettledBy done.mode),
          (t.noteEnd done.version).apply ⟨done.version, done.mode⟩ done.outcome shown)) := by
  have hkept : ∀ stamp mode, (t.noteEnd done.version).isStale stamp = t.isStale stamp ∧
      (t.noteEnd done.version).isSettledBy mode = t.isSettledBy mode := fun stamp mode => by
    obtain ⟨inFlight, heq⟩ := t.noteEnd_eq done.version
    rw [heq]
    exact ⟨rfl, rfl⟩
  unfold settle
  dsimp only
  rw [(hkept ⟨done.version, done.mode⟩ done.mode).1, (hkept ⟨done.version, done.mode⟩ done.mode).2]
  split
  · next hnew => exact .inl ⟨hnew, rfl⟩
  · next hold =>
    have hold := Nat.le_of_not_lt hold
    split
    · next hstale => exact .inr (.inl ⟨hold, hstale, rfl⟩)
    · next hfresh => exact .inr (.inr ⟨hold, by simpa using hfresh, rfl⟩)

/-- The pass in flight ends in one of two ways: its completion goes on record, or
it was a minimal pass and a full analysis of its version is on record. -/
theorem settle_cases {t : Tracking} {done : Completion}
    (h : t.Agrees (some ⟨done.version, done.mode⟩)) (shown : Bool) :
    (t.settle done shown = (.applied shown (!t.isSettledBy done.mode),
        t.ended.apply ⟨done.version, done.mode⟩ done.outcome shown) ∧
        t.isStale ⟨done.version, done.mode⟩ = false) ∨
      (t.settle done shown = (.stale, t.ended) ∧ done.mode = .minimal ∧
        t.applied = some ⟨done.version, .full⟩) := by
  have hv : ¬ t.version < done.version :=
    Nat.not_lt.2 (version_le_of_isOlder (h.passOld _ rfl))
  have hend : t.noteEnd done.version = t.ended := if_pos h.inFlight
  rcases t.settle_outcomes done shown with ⟨hnew, -⟩ | ⟨-, hs, heq⟩ | ⟨-, hfresh, heq⟩
  · exact absurd hnew hv
  · refine .inr ⟨hend ▸ heq, ?_⟩
    unfold isStale at hs
    cases ha : t.applied with
    | none => rw [ha] at hs; contradiction
    | some a =>
      rw [ha, Option.any_some] at hs
      have hle := h.inOrder a _ ha rfl
      simp only [Stamp.isOlder, Bool.or_eq_true, Bool.and_eq_true, decide_eq_true_eq, beq_iff_eq,
        Bool.not_eq_true'] at hs
      rcases hs with hlt | ⟨heq, hc⟩
      · exact absurd hlt (Nat.not_lt.2 hle)
      · -- The versions agree, so only a full analysis can be newer than the pass.
        obtain ⟨v, m⟩ := a
        cases hd : done.mode <;> cases m <;> simp [hd, Mode.covers] at hc
        exact ⟨rfl, by simpa using heq.symm⟩
  · exact .inl ⟨hend ▸ heq, hfresh⟩

theorem isSettledBy_mode (t : Tracking) : t.isSettledBy t.mode = true := by
  unfold isSettledBy mode
  cases t.enabled <;> rfl

/-- The analysis on record of a document that needs none is of the document as it
is, and so is every pass that ends then and is not too late. -/
theorem eq_current_of_apply {t : Tracking} {stamp : Stamp} {outcome : Outcome} {shown : Bool}
    (hold : t.current.isOlder stamp = false) (hfresh : t.isStale stamp = false)
    (hset : t.needsAnalysis = false → t.applied = some t.current)
    (hn : (t.apply stamp outcome shown).needsAnalysis = false) : stamp = t.current := by
  simp only [apply] at hn
  split at hn
  · next hs =>
    simp only [Bool.and_eq_true, beq_iff_eq] at hs
    obtain ⟨hs, hv⟩ := hs
    obtain ⟨v, m⟩ := stamp
    simp only [isSettledBy, Bool.or_eq_true, decide_eq_true_eq, Bool.not_eq_true'] at hs hv
    subst hv
    rcases Stamp.isOlder_eq_false_iff.1 hold with hlt | ⟨-, hc⟩
    · exact absurd hlt (Nat.lt_irrefl _)
    · cases he : t.enabled <;> cases m <;> simp_all [current, mode, Mode.covers]
  · have ha := hset hn
    unfold isStale at hfresh
    rw [ha, Option.any_some] at hfresh
    exact (Stamp.eq_of_not_isOlder hold hfresh).symm

/-- A completion changes neither the version nor the mode of the document. -/
theorem settle_keeps {t : Tracking} {done : Completion}
    (h : t.Agrees (some ⟨done.version, done.mode⟩)) (shown : Bool) :
    (t.settle done shown).2.version = t.version ∧ (t.settle done shown).2.enabled = t.enabled ∧
      (t.settle done shown).2.hasFile = t.hasFile := by
  rcases settle_cases h shown with ⟨heq, -⟩ | ⟨heq, -, -⟩ <;> rw [heq] <;> exact ⟨rfl, rfl, rfl⟩

/-- The completion of a pass on the document as it is settles the document. -/
theorem settle_current {t : Tracking} {done : Completion}
    (h : t.Agrees (some ⟨done.version, done.mode⟩)) (shown : Bool)
    (hc : t.current = ⟨done.version, done.mode⟩) :
    (t.settle done shown).2.needsAnalysis = false := by
  simp only [current, Stamp.mk.injEq] at hc
  obtain ⟨hv, hm⟩ := hc
  rcases settle_cases h shown with ⟨heq, -⟩ | ⟨heq, hmin, ha⟩
  · have hset : t.isSettledBy done.mode = true := hm ▸ t.isSettledBy_mode
    have hver : (done.version == t.ended.version) = true := by simpa [ended] using hv.symm
    rw [heq]
    simp [apply, hset, hver]
  · -- A full analysis of this version contradicts the minimal mode of the document.
    rcases Stamp.isOlder_eq_false_iff.1 (h.appliedOld _ ha) with hlt | ⟨-, hcov⟩
    · exact absurd hlt (Nat.not_lt.2 (Nat.le_of_eq hv))
    · rw [show t.current.mode = .minimal from hm.trans hmin] at hcov
      contradiction

theorem Agrees.settle {t : Tracking} {done : Completion}
    (h : t.Agrees (some ⟨done.version, done.mode⟩)) (shown : Bool) :
    (t.settle done shown).2.Agrees none := by
  rcases settle_cases h shown with ⟨heq, hfresh⟩ | ⟨heq, hmin, ha⟩ <;> rw [heq]
  · have hcur : (t.ended.apply ⟨done.version, done.mode⟩ done.outcome shown).needsAnalysis = false →
        (⟨done.version, done.mode⟩ : Stamp) = t.current :=
      eq_current_of_apply (t := t.ended) (h.passOld _ rfl) hfresh h.settled
    exact
      { inFlight := rfl
        working := fun hw => by
          simp only [apply] at hw
          split at hw
          · exact absurd hw (Status.ofAnalysis_ne_working _ _ _)
          · next hns =>
            -- Only a full pass lets the status tell of it, and a full pass settles.
            obtain ⟨v, hp⟩ := h.working hw
            simp only [Option.some.injEq, Stamp.mk.injEq] at hp
            simp [isSettledBy, hp.2] at hns
        passOld := fun _ hp => by cases hp
        appliedOld := fun a ha => by
          cases ha
          exact h.passOld _ rfl
        inOrder := fun _ _ _ hp => by cases hp
        recorded := rfl
        settled := fun hn => congrArg some (hcur hn)
        told := fun hn _ a ha => by
          have hs : t.ended.isSettledBy done.mode = true := by
            rw [show done.mode = t.mode from congrArg Stamp.mode (hcur hn)]
            exact t.isSettledBy_mode
          simp only [apply, Option.some.injEq] at ha ⊢
          rw [if_pos hs, ha] }
  · exact
      { inFlight := rfl
        working := fun hw => by
          obtain ⟨v, hp⟩ := h.working hw
          simp [hmin] at hp
        passOld := fun _ hp => by cases hp
        appliedOld := h.appliedOld
        inOrder := fun _ _ _ hp => by cases hp
        recorded := h.recorded
        settled := h.settled
        told := h.told }

end Tracking

end ScriptDesk
