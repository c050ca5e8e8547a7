import Mathlib.Data.List.Forall2
import ScriptDesk.Script.Segment

/-!
# ScriptDesk.Script.Grammar

The scripts with nothing wrong in their structure, as a grammar over tokens. It has three
clauses: each `procedure` is completed before the next one (`Complete`), what is left over
outside of procedures never closes more than it opened (`Loose`), and no two bodies are of one
name.

No clause reads tokens one after the other as `Script.Structure` does, and none says what to do
about a mistake. The lemmas here relate the clauses to the functions of `Script.Segment`, which
find the parts that the clauses speak of.
-/

namespace ScriptDesk.Script

variable {t e : Token} {ts rest : List Token} {d d' n : Nat}

/-! ## Balanced tokens -/

/-- The number of `begin`s. -/
def openings (ts : List Token) : Nat := ts.countP (·.role = .opening)

/-- The number of `end`s. -/
def closings (ts : List Token) : Nat := ts.countP (·.role = .closing)

@[simp] theorem openings_cons (t : Token) (ts : List Token) :
    openings (t :: ts) = openings ts + if t.role = .opening then 1 else 0 := by
  simp [openings, List.countP_cons]

@[simp] theorem closings_cons (t : Token) (ts : List Token) :
    closings (t :: ts) = closings ts + if t.role = .closing then 1 else 0 := by
  simp [closings, List.countP_cons]

/-- The `end`s match the `begin`s, if `n` more `begin`s stand in front: at no point there are more
`end`s than `begin`s, and on the whole there are as many. -/
structure BalancedFrom (n : Nat) (ts : List Token) : Prop where
  le : ∀ front, front <+: ts → closings front ≤ n + openings front
  eq : closings ts = n + openings ts

/-- Each `end` matches a `begin` in front of it and each `begin` an `end` behind it. -/
abbrev Balanced (ts : List Token) : Prop := BalancedFrom 0 ts

theorem balancedFrom_nil : BalancedFrom n [] ↔ n = 0 := by
  constructor
  · intro h
    simpa [openings, closings] using h.eq.symm
  · rintro rfl
    exact ⟨fun front hfront => by rw [List.prefix_nil.1 hfront]; exact Nat.le_refl _, rfl⟩

/-- A token that leaves `m` `begin`s open where there were `n`. -/
theorem balancedFrom_cons {m : Nat}
    (h : n + (if t.role = .opening then 1 else 0) = m + if t.role = .closing then 1 else 0) :
    BalancedFrom n (t :: ts) ↔ BalancedFrom m ts := by
  constructor
  · rintro ⟨hle, heq⟩
    refine ⟨fun front hfront => ?_, ?_⟩
    · have := hle (t :: front) (List.cons_prefix_cons.2 ⟨rfl, hfront⟩)
      rw [closings_cons, openings_cons] at this
      omega
    · rw [closings_cons, openings_cons] at heq
      omega
  · rintro ⟨hle, heq⟩
    refine ⟨fun front hfront => ?_, ?_⟩
    · cases front with
      | nil => exact Nat.zero_le _
      | cons u front =>
        obtain ⟨rfl, hrest⟩ := List.cons_prefix_cons.1 hfront
        have := hle front hrest
        rw [closings_cons, openings_cons]
        omega
    · rw [closings_cons, openings_cons]
      omega

theorem balancedFrom_opening (ht : t.role = .opening) :
    BalancedFrom n (t :: ts) ↔ BalancedFrom (n + 1) ts :=
  balancedFrom_cons (by simp [ht])

theorem balancedFrom_closing (ht : t.role = .closing) :
    BalancedFrom (n + 1) (t :: ts) ↔ BalancedFrom n ts :=
  balancedFrom_cons (by simp [ht])

theorem balancedFrom_other (hopen : t.role ≠ .opening) (hclose : t.role ≠ .closing) :
    BalancedFrom n (t :: ts) ↔ BalancedFrom n ts :=
  balancedFrom_cons (by simp [hopen, hclose])

theorem not_balanced_closing (ht : t.role = .closing) : ¬ Balanced (t :: ts) := by
  intro h
  have := h.le [t] (by simp)
  simp [openings, closings, ht] at this

/-- The matching `end` is the one that balanced tokens lead up to. -/
theorem afterEnd?_eq_some_iff :
    afterEnd? n ts = some (e, rest) ↔
      ∃ inner, ts = inner ++ e :: rest ∧ BalancedFrom n inner ∧ e.role = .closing := by
  -- What is said of the tokens behind the first one carries over to all of them.
  have hcons : ∀ {t : Token} {ts : List Token} {m n : Nat},
      (∀ inner, BalancedFrom n (t :: inner) ↔ BalancedFrom m inner) →
        ¬ (BalancedFrom n [] ∧ t.role = .closing) →
          ((∃ inner, ts = inner ++ e :: rest ∧ BalancedFrom m inner ∧ e.role = .closing) ↔
            ∃ inner, t :: ts = inner ++ e :: rest ∧ BalancedFrom n inner ∧ e.role = .closing) := by
    intro t ts m n hstep hfirst
    constructor
    · rintro ⟨inner, rfl, hinner, he⟩
      exact ⟨t :: inner, rfl, (hstep inner).2 hinner, he⟩
    · rintro ⟨inner, heq, hinner, he⟩
      cases inner with
      | nil =>
        obtain ⟨rfl, -⟩ := List.cons.inj heq
        exact absurd ⟨hinner, he⟩ hfirst
      | cons u inner =>
        obtain ⟨rfl, rfl⟩ := List.cons.inj heq
        exact ⟨inner, rfl, (hstep inner).1 hinner, he⟩
  fun_induction afterEnd? n ts with
  | case1 => simp
  | case2 n t ts ht ih =>
    exact ih.trans (hcons (fun _ => balancedFrom_opening ht) (by simp [ht]))
  | case3 t ts ht =>
    constructor
    · intro h
      obtain ⟨rfl, rfl⟩ := Prod.mk.inj (Option.some.inj h)
      exact ⟨[], rfl, balancedFrom_nil.2 rfl, ht⟩
    · rintro ⟨inner, heq, hinner, -⟩
      cases inner with
      | nil =>
        obtain ⟨rfl, rfl⟩ := List.cons.inj heq
        rfl
      | cons u inner =>
        obtain ⟨rfl, rfl⟩ := List.cons.inj heq
        exact absurd hinner (not_balanced_closing ht)
  | case4 t ts ht n ih =>
    exact ih.trans (hcons (fun _ => balancedFrom_closing ht) (by simp [balancedFrom_nil]))
  | case5 n t ts hopen hclose ih =>
    exact ih.trans (hcons (fun _ => balancedFrom_other hopen hclose) fun h => hclose h.2)

/-! ## The clauses -/

/-- The tokens behind a `procedure` complete it and leave `rest` over. Without a name there is
nothing to complete. -/
inductive Complete : (ts rest : List Token) → Prop where
  | nameless {ts : List Token} (hname : ∀ t ∈ ts.head?, t.isName = false) : Complete ts ts
  | declared {name stop : Token} {header rest : List Token} (hname : name.isName = true)
      (hheader : ∀ t ∈ header, t.endsHeader = false) (hstop : stop.role = .semicolon) :
      Complete (name :: (header ++ stop :: rest)) rest
  | defined {name start e : Token} {header inner rest : List Token} (hname : name.isName = true)
      (hheader : ∀ t ∈ header, t.endsHeader = false) (hstart : start.role = .opening)
      (hinner : Balanced inner) (hend : e.role = .closing) :
      Complete (name :: (header ++ start :: (inner ++ e :: rest))) rest

/-- Tokens outside of procedures, met with `d` `begin`s open, leave `d'` of them open. A
`variable` block stands apart from these. -/
inductive Loose : (d : Nat) → (ts : List Token) → (d' : Nat) → Prop where
  | nil {d : Nat} : Loose d [] d
  | opening {t : Token} {ts : List Token} {d d' : Nat} (ht : t.role = .opening)
      (h : Loose (d + 1) ts d') : Loose d (t :: ts) d'
  | closing {t : Token} {ts : List Token} {d d' : Nat} (ht : t.role = .closing)
      (h : Loose d ts d') : Loose (d + 1) (t :: ts) d'
  | block {v b e : Token} {inner ts : List Token} {d d' : Nat} (hv : v.role = .variables)
      (hb : b.role = .opening) (hinner : Balanced inner) (he : e.role = .closing)
      (h : Loose d ts d') : Loose d (v :: b :: (inner ++ e :: ts)) d'
  | other {t : Token} {ts : List Token} {d d' : Nat} (hopen : t.role ≠ .opening)
      (hclose : t.role ≠ .closing) (hblock : opensBlock t ts = false) (h : Loose d ts d') :
      Loose d (t :: ts) d'

/-- Several stretches of tokens outside of procedures, one after the other. -/
inductive LooseThrough : (d : Nat) → (stretches : List (List Token)) → (d' : Nat) → Prop where
  | nil {d : Nat} : LooseThrough d [] d
  | cons {d m d' : Nat} {ts : List Token} {stretches : List (List Token)} (h : Loose d ts m)
      (hrest : LooseThrough m stretches d') : LooseThrough d (ts :: stretches) d'

/-- The tokens behind a `procedure` name it and start a body. -/
inductive HasBody : (ts : List Token) → (name : String) → Prop where
  | intro {name start : Token} {header rest : List Token} (hname : name.isName = true)
      (hheader : ∀ t ∈ header, t.endsHeader = false) (hstart : start.role = .opening) :
      HasBody (name :: (header ++ start :: rest)) name.text

/-- A text with nothing wrong in its structure. -/
structure Grammatical (text : List Char) : Prop where
  /-- Each `procedure` is completed before the next one, and what is left over never closes more
  than it opened. -/
  complete : ∃ rests, List.Forall₂ (fun s rest => Complete s.tokens rest) (segments text) rests ∧
    ∃ d, LooseThrough 0 (leadingTokens text :: rests) d
  /-- No two bodies are of one name. -/
  distinct : (segments text).Pairwise fun s s' => ∀ name name',
    HasBody s.tokens name → HasBody s'.tokens name' → Text.sameCaseless name name' = false

/-! ## Segments that are complete -/

/-- A segment has a body if its occurrence has one. -/
theorem hasBody_iff {s : Segment} {name : String} :
    HasBody s.tokens name ↔ ∃ o, s.occurrence? = some o ∧ o.last?.isSome ∧ o.name = name := by
  constructor
  · intro h
    generalize hs : s.tokens = ts at h
    cases h with
    | @intro name start header rest hname hheader hstart =>
      unfold Segment.occurrence? Segment.heading
      cases hend : afterEnd? 0 rest with
      | none =>
        rw [Segment.parse_eq hs (.cutOff hname hheader hstart hend)]
        exact ⟨_, rfl, rfl, rfl⟩
      | some found =>
        rw [Segment.parse_eq hs (.defined (e := found.1) hname hheader hstart hend)]
        exact ⟨_, rfl, rfl, rfl⟩
  · rintro ⟨o, ho, hlast, rfl⟩
    have hsays := s.says_parse
    unfold Segment.occurrence? at ho
    generalize s.tokens = ts, s.heading = heading, s.remaining = rest at hsays ho
    cases hsays with
    | nameless => contradiction
    | unfinished | declared =>
      cases ho
      contradiction
    | defined hname hheader hstart | cutOff hname hheader hstart =>
      cases ho
      exact .intro hname hheader hstart

/-! ## Tokens outside of procedures -/

theorem loose_nil : Loose d [] d' ↔ d = d' := by
  constructor
  · intro h
    cases h
    rfl
  · rintro rfl
    exact .nil

theorem loose_opening (ht : t.role = .opening) :
    Loose d (t :: ts) d' ↔ Loose (d + 1) ts d' := by
  constructor
  · intro h
    cases h with
    | opening _ h => exact h
    | closing hclose => simp [ht] at hclose
    | block hv => simp [ht] at hv
    | other hopen => contradiction
  · exact .opening ht

theorem loose_closing (ht : t.role = .closing) :
    Loose d (t :: ts) d' ↔ ∃ m, d = m + 1 ∧ Loose m ts d' := by
  constructor
  · intro h
    cases h with
    | opening hopen => simp [ht] at hopen
    | closing _ h => exact ⟨_, rfl, h⟩
    | block hv => simp [ht] at hv
    | other _ hclose => contradiction
  · rintro ⟨m, rfl, h⟩
    exact .closing ht h

theorem loose_other (hopen : t.role ≠ .opening) (hclose : t.role ≠ .closing)
    (hblock : opensBlock t ts = false) : Loose d (t :: ts) d' ↔ Loose d ts d' := by
  constructor
  · intro h
    cases h with
    | opening hopen' => contradiction
    | closing hclose' => contradiction
    | block hv hb => simp [opensBlock, hv, hb] at hblock
    | other _ _ _ h => exact h
  · exact .other hopen hclose hblock

/-- Where a block opens, it has to be closed. -/
theorem loose_block_of_some (hblock : opensBlock t ts = true)
    (hend : afterEnd? 0 ts.tail = some (e, rest)) : Loose d (t :: ts) d' ↔ Loose d rest d' := by
  obtain ⟨ht, b, us, rfl, hb⟩ := opensBlock_iff.1 hblock
  rw [List.tail_cons] at hend
  constructor
  · intro h
    cases h with
    | opening hopen => simp [ht] at hopen
    | closing hclose => simp [ht] at hclose
    | block _ _ hinner he h =>
      rw [afterEnd?_eq_some_iff.2 ⟨_, rfl, hinner, he⟩] at hend
      obtain ⟨-, rfl⟩ := Prod.mk.inj (Option.some.inj hend)
      exact h
    | other _ _ hblock' => simp [hblock] at hblock'
  · obtain ⟨inner, rfl, hinner, he⟩ := afterEnd?_eq_some_iff.1 hend
    exact .block ht hb hinner he

theorem loose_block_of_none (hblock : opensBlock t ts = true) (hend : afterEnd? 0 ts.tail = none) :
    Loose d (t :: ts) d' ↔ False := by
  obtain ⟨ht, b, us, rfl, hb⟩ := opensBlock_iff.1 hblock
  rw [List.tail_cons] at hend
  refine iff_false_intro fun h => ?_
  cases h with
  | opening hopen => simp [ht] at hopen
  | closing hclose => simp [ht] at hclose
  | block _ _ hinner he h =>
    rw [afterEnd?_eq_some_iff.2 ⟨_, rfl, hinner, he⟩] at hend
    contradiction
  | other _ _ hblock' => simp [hblock] at hblock'

end ScriptDesk.Script
