import Mathlib.Data.List.Induction
import ScriptDesk.Proofs.Agreement

/-!
# ScriptDesk.Proofs.Record

What is on record of a document, whatever completions come in: late ones, repeated ones,
in any order, in any mode, and of versions that the document does not have yet. In the
editor completions come in order (`Tracking.Agrees`); nothing here relies on it.

* The record only moves forward, and it is never of anything newer than the document.
* A completion that is not put on record changes nothing but the note that a pass is under
  way.
* What a document that needs no analysis has on record came from a pass that settled it, on
  the version that it has now.
-/

namespace ScriptDesk

/-- What is not older than something is not older than what came before that. -/
theorem Stamp.isOlder_trans {a b c : Stamp} (hab : b.isOlder a = false)
    (hbc : c.isOlder b = false) : c.isOlder a = false := by
  rw [isOlder_eq_false_iff] at *
  rcases hab with hab | ⟨hab, hcovers⟩ <;> rcases hbc with hbc | ⟨hbc, hcovers'⟩
  · exact .inl (Nat.lt_trans hab hbc)
  · exact .inl (hbc ▸ hab)
  · exact .inl (hab ▸ hbc)
  · exact .inr ⟨hab.trans hbc, Mode.covers_trans hcovers' hcovers⟩

namespace Tracking

/-- What can happen to what is kept about a document. -/
inductive Call where
  | noteEdit
  | invalidate
  | setEnabled (enabled : Bool)
  | noteStart (mode : Mode)
  | settle (done : Completion) (shown : Bool)

def perform (t : Tracking) : Call → Tracking
  | .noteEdit => t.noteEdit
  | .invalidate => t.invalidate
  | .setEnabled enabled => t.setEnabled enabled
  | .noteStart mode => t.noteStart mode
  | .settle done shown => (t.settle done shown).2

def run (t : Tracking) (calls : List Call) : Tracking := calls.foldl perform t

@[simp] theorem run_concat (t : Tracking) (calls : List Call) (c : Call) :
    t.run (calls ++ [c]) = (t.run calls).perform c := by simp [run]

theorem run_append (t : Tracking) (calls more : List Call) :
    t.run (calls ++ more) = (t.run calls).run more := by simp [run]

/-! ## The record moves forward -/

/-- One record is not older than the other. -/
def Precedes (before after : Option Stamp) : Prop :=
  ∀ a, before = some a → ∃ b, after = some b ∧ b.isOlder a = false

theorem Precedes.refl (a : Option Stamp) : Precedes a a :=
  fun a ha => ⟨a, ha, by simp [Stamp.isOlder]⟩

theorem Precedes.trans {a b c : Option Stamp} (hab : Precedes a b) (hbc : Precedes b c) :
    Precedes a c := by
  intro x hx
  obtain ⟨y, hy, hxy⟩ := hab x hx
  obtain ⟨z, hz, hyz⟩ := hbc y hy
  exact ⟨z, hz, Stamp.isOlder_trans hxy hyz⟩

theorem precedes_of_not_isStale {t : Tracking} {stamp : Stamp} (h : t.isStale stamp = false) :
    Precedes t.applied (some stamp) := by
  intro a ha
  rw [isStale, ha] at h
  exact ⟨stamp, rfl, h⟩

theorem applied_setEnabled (t : Tracking) (enabled : Bool) :
    (t.setEnabled enabled).applied = t.applied := by
  unfold setEnabled
  split <;> rfl

theorem precedes_perform (t : Tracking) (c : Call) : Precedes t.applied (t.perform c).applied := by
  cases c with
  | noteEdit => exact .refl _
  | invalidate => exact .refl _
  | setEnabled enabled =>
    rw [perform, applied_setEnabled]
    exact .refl _
  | noteStart mode => exact .refl _
  | settle done shown =>
    obtain ⟨inFlight, hend⟩ := t.noteEnd_eq done.version
    rw [perform]
    rcases t.settle_outcomes done shown with ⟨-, heq⟩ | ⟨-, -, heq⟩ | ⟨-, hfresh, heq⟩ <;> rw [heq]
    · exact .refl _
    · rw [hend]
      exact .refl _
    · exact precedes_of_not_isStale hfresh

theorem precedes_run (t : Tracking) (calls : List Call) :
    Precedes t.applied (t.run calls).applied := by
  induction calls using List.reverseRecOn with
  | nil => exact .refl _
  | append_singleton calls c ih =>
    rw [run_concat]
    exact ih.trans (precedes_perform _ c)

/-! ## What is on record fits what is said of it -/

/-- What a document keeps fits together. -/
structure Coherent (t : Tracking) : Prop where
  /-- Nothing on record is newer than the document. -/
  notNewer : ∀ a, t.applied = some a → a.version ≤ t.version
  /-- A document that needs no analysis has one of its version that settles it, -/
  settled : t.needsAnalysis = false →
    ∃ mode, t.applied = some ⟨t.version, mode⟩ ∧ t.isSettledBy mode = true
  /-- and tells of it, unless a full pass makes it anew. -/
  told : t.needsAnalysis = false → t.status ≠ .working →
    ∀ a, t.analysis = some a → t.status = .ofAnalysis a t.enabled t.hasFile

theorem coherent_new (enabled hasFile : Bool) : Coherent { enabled, hasFile } :=
  ⟨nofun, nofun, nofun⟩

/-- A document that needs an analysis can get newer without losing anything. -/
theorem Coherent.of_needsAnalysis {t t' : Tracking} (h : t.Coherent)
    (hversion : t.version ≤ t'.version) (happlied : t'.applied = t.applied)
    (hneeds : t'.needsAnalysis = true) : t'.Coherent where
  notNewer a ha := Nat.le_trans (h.notNewer a (happlied ▸ ha)) hversion
  settled hn := by rw [hneeds] at hn; contradiction
  told hn := by rw [hneeds] at hn; contradiction

theorem Coherent.setEnabled {t : Tracking} (h : t.Coherent) (enabled : Bool) :
    (t.setEnabled enabled).Coherent := by
  unfold Tracking.setEnabled
  split
  · exact h
  · exact h.of_needsAnalysis (Nat.le_succ _) rfl rfl

theorem Coherent.noteStart {t : Tracking} (h : t.Coherent) (mode : Mode) :
    (t.noteStart mode).Coherent where
  notNewer := h.notNewer
  settled := h.settled
  told hn hw := by
    simp only [Tracking.noteStart] at hw ⊢
    split
    · next hfull => rw [if_pos hfull] at hw; exact absurd rfl hw
    · next hother => rw [if_neg hother] at hw; exact h.told hn hw

theorem Coherent.withInFlight {t : Tracking} (h : t.Coherent) (inFlight : Option Nat) :
    ({ t with inFlight } : Tracking).Coherent :=
  ⟨h.notNewer, h.settled, h.told⟩

/-- A pass that covers one that settles the document settles it too. -/
theorem isSettledBy_of_covers {t : Tracking} {m n : Mode} (hmn : m.covers n = true)
    (h : t.isSettledBy n = true) : t.isSettledBy m = true := by
  unfold isSettledBy at *
  cases m <;> cases n <;> simp [Mode.covers] at hmn h ⊢
  exact h

/-- A pass that leaves the document without need of an analysis settles it, and is on the
version that it has: a later pass on that version would come too late otherwise. -/
theorem Coherent.current_of_apply {t : Tracking} (h : t.Coherent) {stamp : Stamp}
    {outcome : Outcome} {shown : Bool} (hold : stamp.version ≤ t.version)
    (hfresh : t.isStale stamp = false)
    (hn : (t.apply stamp outcome shown).needsAnalysis = false) :
    stamp.version = t.version ∧ t.isSettledBy stamp.mode = true := by
  simp only [apply] at hn
  split at hn
  · next hsettles =>
    simp only [Bool.and_eq_true, beq_iff_eq] at hsettles
    exact hsettles.symm
  · obtain ⟨mode, happlied, hsettles⟩ := h.settled hn
    obtain ⟨_, hstamp, holder⟩ := precedes_of_not_isStale hfresh _ happlied
    obtain rfl := Option.some.inj hstamp
    rcases Stamp.isOlder_eq_false_iff.1 holder with hlt | ⟨heq, hcovers⟩
    · exact absurd hlt (Nat.not_lt.2 hold)
    · exact ⟨heq.symm, isSettledBy_of_covers hcovers hsettles⟩

theorem Coherent.apply {t : Tracking} (h : t.Coherent) {stamp : Stamp} (outcome : Outcome)
    (shown : Bool) (hold : stamp.version ≤ t.version) (hfresh : t.isStale stamp = false) :
    (t.apply stamp outcome shown).Coherent where
  notNewer a ha := by
    obtain rfl := Option.some.inj ha
    exact hold
  settled hn := by
    obtain ⟨hversion, hsettles⟩ := h.current_of_apply hold hfresh hn
    refine ⟨stamp.mode, ?_, hsettles⟩
    change some stamp = some ⟨t.version, stamp.mode⟩
    rw [← hversion]
  told hn _ a ha := by
    obtain ⟨-, hsettles⟩ := h.current_of_apply hold hfresh hn
    simp only [Tracking.apply, Option.some.injEq] at ha ⊢
    rw [if_pos hsettles, ha]

theorem Coherent.settle {t : Tracking} (h : t.Coherent) (done : Completion) (shown : Bool) :
    (t.settle done shown).2.Coherent := by
  obtain ⟨inFlight, hend⟩ := t.noteEnd_eq done.version
  rcases t.settle_outcomes done shown with ⟨-, heq⟩ | ⟨-, -, heq⟩ | ⟨hold, hfresh, heq⟩ <;> rw [heq]
  · exact h
  · rw [hend]
    exact h.withInFlight inFlight
  · rw [hend]
    exact (h.withInFlight inFlight).apply done.outcome shown hold hfresh

theorem Coherent.perform {t : Tracking} (h : t.Coherent) (c : Call) : (t.perform c).Coherent := by
  cases c with
  | noteEdit => exact h.of_needsAnalysis (Nat.le_succ _) rfl rfl
  | invalidate => exact h.of_needsAnalysis (Nat.le_refl _) rfl rfl
  | setEnabled enabled => exact h.setEnabled enabled
  | noteStart mode => exact h.noteStart mode
  | settle done shown => exact h.settle done shown

theorem Coherent.run {t : Tracking} (h : t.Coherent) (calls : List Call) :
    (t.run calls).Coherent := by
  induction calls using List.reverseRecOn with
  | nil => exact h
  | append_singleton calls c ih =>
    rw [run_concat]
    exact ih.perform c

/-! ## Where the record comes from -/

/-- Both have the same on record, of the same document. -/
structure SameRecord (t' t : Tracking) : Prop where
  version : t'.version = t.version
  needsAnalysis : t'.needsAnalysis = t.needsAnalysis
  enabled : t'.enabled = t.enabled
  applied : t'.applied = t.applied
  analysis : t'.analysis = t.analysis

/-- A call asks for an analysis, or it lets the record be, or it is a completion that goes on
record. -/
theorem perform_outcomes (t : Tracking) (c : Call) :
    (t.perform c).needsAnalysis = true ∨ (t.perform c).SameRecord t ∨
      ∃ done shown inFlight, c = .settle done shown ∧ done.version ≤ t.version ∧
        t.isStale ⟨done.version, done.mode⟩ = false ∧
          t.perform c = ({ t with inFlight } : Tracking).apply ⟨done.version, done.mode⟩
            done.outcome shown := by
  cases c with
  | noteEdit => exact .inl rfl
  | invalidate => exact .inl rfl
  | setEnabled enabled =>
    unfold perform setEnabled
    dsimp only
    split
    · exact .inr (.inl ⟨rfl, rfl, rfl, rfl, rfl⟩)
    · exact .inl rfl
  | noteStart mode => exact .inr (.inl ⟨rfl, rfl, rfl, rfl, rfl⟩)
  | settle done shown =>
    obtain ⟨inFlight, hend⟩ := t.noteEnd_eq done.version
    right
    rw [perform]
    rcases t.settle_outcomes done shown with ⟨-, heq⟩ | ⟨-, -, heq⟩ | ⟨hold, hfresh, heq⟩ <;>
      rw [heq]
    · exact .inl ⟨rfl, rfl, rfl, rfl, rfl⟩
    · rw [hend]
      exact .inl ⟨rfl, rfl, rfl, rfl, rfl⟩
    · rw [hend]
      exact .inr ⟨done, shown, inFlight, rfl, hold, hfresh, rfl⟩

/-- What is on record after the calls is what this completion stood for when it came in: that
of a pass that settled the document, on the version that the document has now. -/
structure OnRecord (start : Tracking) (calls : List Call) (done : Completion) : Prop where
  current : done.version = (start.run calls).version
  settles : done.mode = .full ∨ (start.run calls).enabled = false
  applied : (start.run calls).applied = some ⟨done.version, done.mode⟩
  analysis : ∃ before shown after, calls = before ++ .settle done shown :: after ∧
    (start.run before).version = done.version ∧
      (start.run before).isSettledBy done.mode = true ∧
        (start.run calls).analysis = some ((start.run before).resultOf done.outcome)

theorem OnRecord.concat {start : Tracking} {calls : List Call} {done : Completion}
    (h : OnRecord start calls done) {c : Call}
    (hc : ((start.run calls).perform c).SameRecord (start.run calls)) :
    OnRecord start (calls ++ [c]) done := by
  obtain ⟨before, shown, after, heq, hbefore, hsettles, hrecord⟩ := h.analysis
  refine ⟨?_, ?_, ?_, before, shown, after ++ [c], by simp [heq], hbefore, hsettles, ?_⟩
  · rw [run_concat, hc.version, h.current]
  · rw [run_concat, hc.enabled]
    exact h.settles
  · rw [run_concat, hc.applied, h.applied]
  · rw [run_concat, hc.analysis, hrecord]

/-- What a document that needs no analysis has on record goes back to a completion. -/
theorem exists_onRecord {start : Tracking} (h : start.Coherent)
    (hstart : start.needsAnalysis = true) {calls : List Call}
    (hn : (start.run calls).needsAnalysis = false) :
    ∃ done, OnRecord start calls done := by
  induction calls using List.reverseRecOn with
  | nil =>
    rw [show start.run [] = start from rfl, hstart] at hn
    contradiction
  | append_singleton calls c ih =>
    rw [run_concat] at hn
    rcases (start.run calls).perform_outcomes c with
      hneeds | hsame | ⟨done, shown, inFlight, rfl, hold, hfresh, heq⟩
    · rw [hneeds] at hn
      contradiction
    · obtain ⟨done, hdone⟩ := ih (hsame.needsAnalysis ▸ hn)
      exact ⟨done, hdone.concat hsame⟩
    · have hcoherent := (h.run calls).withInFlight inFlight
      rw [heq] at hn
      obtain ⟨hversion, hsettles⟩ := hcoherent.current_of_apply hold hfresh hn
      have hrun := (run_concat start calls (.settle done shown)).trans heq
      refine ⟨done, ?_, ?_, ?_, calls, shown, [], rfl, hversion.symm, hsettles, ?_⟩ <;> rw [hrun]
      · exact hversion
      · simpa [isSettledBy, apply] using hsettles
      · rfl
      · exact congrArg some (analysisOf_of_isSettledBy hsettles done.outcome)

/-! ## What is not put on record -/

theorem settle_of_unrecognized {t : Tracking} {done : Completion} {shown : Bool}
    (h : (t.settle done shown).1 = .unrecognized) : (t.settle done shown).2 = t := by
  rcases t.settle_outcomes done shown with ⟨-, heq⟩ | ⟨-, -, heq⟩ | ⟨-, -, heq⟩ <;> rw [heq] at h ⊢
  all_goals contradiction

theorem settle_of_stale {t : Tracking} {done : Completion} {shown : Bool}
    (h : (t.settle done shown).1 = .stale) :
    ∃ inFlight, (t.settle done shown).2 = { t with inFlight } := by
  rcases t.settle_outcomes done shown with ⟨-, heq⟩ | ⟨-, -, heq⟩ | ⟨-, -, heq⟩ <;> rw [heq] at h ⊢
  · contradiction
  · exact t.noteEnd_eq done.version
  · contradiction

/-! ## The record of a document -/

/-- What holds of the record of a document after any calls. -/
structure KeepsRecord (start : Tracking) (calls : List Call) : Prop where
  notNewer : ∀ a, (start.run calls).applied = some a → a.version ≤ (start.run calls).version
  /-- The record only moves forward. -/
  forward : ∀ before after, calls = before ++ after →
    Precedes (start.run before).applied (start.run calls).applied
  unrecognized : ∀ done shown, ((start.run calls).settle done shown).1 = .unrecognized →
    ((start.run calls).settle done shown).2 = start.run calls
  stale : ∀ done shown, ((start.run calls).settle done shown).1 = .stale →
    ∃ inFlight, ((start.run calls).settle done shown).2 = { start.run calls with inFlight }
  /-- A document that needs no analysis has one of its version on record, from a pass that
  settled it, -/
  settled : (start.run calls).needsAnalysis = false → ∃ done, OnRecord start calls done
  /-- and tells of it, unless a full pass makes it anew. -/
  told : (start.run calls).needsAnalysis = false →
    (start.run calls).status = .working ∨
      ∃ a, (start.run calls).analysis = some a ∧
        (start.run calls).status =
          .ofAnalysis a (start.run calls).enabled (start.run calls).hasFile

/-- The record of a document is kept well, whatever completions come in. -/
theorem keepsRecord_run (enabled hasFile : Bool) (calls : List Call) :
    KeepsRecord { enabled, hasFile } calls := by
  have hnew := coherent_new enabled hasFile
  have hcoherent := hnew.run calls
  refine
    { notNewer := hcoherent.notNewer, forward := ?_,
      unrecognized := fun done shown => settle_of_unrecognized,
      stale := fun done shown => settle_of_stale,
      settled := exists_onRecord hnew rfl, told := fun hn => ?_ }
  · rintro before after rfl
    rw [run_append]
    exact precedes_run _ after
  · obtain ⟨done, hdone⟩ := exists_onRecord hnew rfl hn
    obtain ⟨before, -, -, -, -, -, hanalysis⟩ := hdone.analysis
    by_cases hworking : (run { enabled, hasFile } calls).status = .working
    · exact .inl hworking
    · exact .inr ⟨_, hanalysis, hcoherent.told hn hworking _ hanalysis⟩

end Tracking

end ScriptDesk
