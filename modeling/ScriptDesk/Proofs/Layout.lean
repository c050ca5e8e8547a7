import Mathlib.Data.List.Basic
import Mathlib.Data.List.Pairwise
import Mathlib.Data.List.Perm.Basic
import ScriptDesk.Proofs.Reading
import ScriptDesk.Proofs.Table

/-!
# ScriptDesk.Proofs.Layout

Where the parts of a script lie. Each segment spans the lines of its body and of the blocks
behind it, and the spans of a text come one after the other (`pairwise_spans`): at most the last
line of one is the first line of the next. The bodies in the table and the blocks are some of
these spans, in another order, so any two of them share one line at most
(`Structure.pairwise_apart`).
-/

namespace ScriptDesk.Script

variable {t : Token} {ts rest : List Token} {s : Segment} {range : LineRange}

/-! ## Ranges -/

namespace LineRange

/-- The range ends no later than the other one starts. -/
def Precedes (a b : LineRange) : Prop := a.last ≤ b.first

/-- The ranges share one line at most. -/
def Apart (a b : LineRange) : Prop := a.Precedes b ∨ b.Precedes a

theorem Apart.symm {a b : LineRange} (h : a.Apart b) : b.Apart a := Or.symm h

/-- The line does not stand inside of the range, though it can be the first or the last one. -/
def Clears (a : LineRange) (line : Nat) : Prop := line ≤ a.first ∨ a.last ≤ line

end LineRange

/-! ## Blocks -/

/-- The tokens come line by line. -/
abbrev InLineOrder (ts : List Token) : Prop := ts.Pairwise (·.line ≤ ·.line)

/-- The range of the block that an item is. -/
def Item.block? : Item → Option LineRange
  | .block range => some range
  | _ => none

@[simp] theorem Item.block?_block (range : LineRange) : (block range).block? = some range := rfl

/-- The variable blocks among tokens outside of procedures. -/
def blocksIn (ts : List Token) : List LineRange := (items ts).filterMap Item.block?

/-- The matching `end` of a block and what follows it stand at the end of the tokens. -/
theorem suffix_of_afterEnd? {n : Nat} {e : Token} (h : afterEnd? n ts.tail = some (e, rest)) :
    e :: rest <:+ t :: ts := by
  obtain ⟨inner, hts⟩ := exists_of_afterEnd?_eq_some h
  have htail : e :: rest <:+ ts.tail := ⟨inner, hts.symm⟩
  exact (htail.trans (List.tail_suffix ts)).trans (List.suffix_cons t ts)

/-- A block runs from the line of one token to the line of another. -/
theorem of_mem_blocksIn (h : range ∈ blocksIn ts) :
    range.first ∈ ts.map (·.line) ∧ range.last ∈ ts.map (·.line) := by
  unfold blocksIn at h
  fun_induction items ts with
  | case1 => contradiction
  | case2 t ts _ e rest hend ih =>
    have hsuffix : (e :: rest).map (·.line) <:+ (t :: ts).map (·.line) :=
      (suffix_of_afterEnd? hend).map _
    rw [List.filterMap_cons_some (Item.block?_block _)] at h
    rcases List.mem_cons.1 h with rfl | h
    · exact ⟨List.mem_cons_self, hsuffix.subset List.mem_cons_self⟩
    · obtain ⟨hfirst, hlast⟩ := ih h
      exact ⟨hsuffix.subset (List.mem_cons_of_mem _ hfirst),
        hsuffix.subset (List.mem_cons_of_mem _ hlast)⟩
  | case3 t ts _ _ => contradiction
  | case4 t ts _ _ ih | case5 t ts _ _ ih =>
    rw [List.filterMap_cons_none rfl] at h
    exact (ih h).imp (List.mem_cons_of_mem _) (List.mem_cons_of_mem _)
  | case6 t ts _ _ _ ih =>
    exact (ih h).imp (List.mem_cons_of_mem _) (List.mem_cons_of_mem _)

/-- The blocks of tokens come one after the other. -/
theorem pairwise_blocksIn (h : InLineOrder ts) : (blocksIn ts).Pairwise LineRange.Precedes := by
  unfold blocksIn
  fun_induction items ts with
  | case1 => exact .nil
  | case2 t ts _ e rest hend ih =>
    obtain ⟨hle, hrest⟩ := List.pairwise_cons.1 (h.sublist (suffix_of_afterEnd? hend).sublist)
    rw [List.filterMap_cons_some (Item.block?_block _)]
    refine .cons (fun range hrange => ?_) (ih hrest)
    obtain ⟨u, hu, hfirst⟩ := List.mem_map.1 (of_mem_blocksIn hrange).1
    have hend : e.line ≤ u.line := hle u hu
    rwa [hfirst] at hend
  | case3 t ts _ _ => exact .nil
  | case4 t ts _ _ ih | case5 t ts _ _ ih =>
    rw [List.filterMap_cons_none rfl]
    exact ih h.of_cons
  | case6 t ts _ _ _ ih => exact ih h.of_cons

/-! ## Segments -/

/-- What is left over stands at the end of the tokens. -/
theorem Says.suffix {heading : Heading} (h : Says ts heading rest) : rest <:+ ts := by
  cases h with
  | nameless => exact List.suffix_rfl
  | unfinished | cutOff => exact List.nil_suffix
  | @declared name stop header => exact ⟨name :: (header ++ [stop]), by simp⟩
  | @defined name start e header body _ _ _ _ hend =>
    obtain ⟨inner, rfl⟩ := exists_of_afterEnd?_eq_some hend
    exact ⟨name :: (header ++ start :: (inner ++ [e])), by simp⟩

namespace Segment

/-- The body that the segment gives to its procedure. -/
def body? (s : Segment) : Option LineRange := s.occurrence?.bind Occurrence.body

/-- The ranges that the segment enters, in order. -/
def spans (s : Segment) : List LineRange := s.body?.toList ++ blocksIn s.remaining

/-- A body starts with the segment. It ends with the `end` in front of what is left over, or else
nothing is left over and it ends where the segment does. -/
theorem of_body? (h : s.body? = some range) :
    range.first = s.opener.line ∧
      ((∃ e, e :: s.remaining <:+ s.tokens ∧ range.last = e.line) ∨
        s.remaining = [] ∧ range.last = max s.last s.opener.line) := by
  have hsays := s.says_parse
  unfold body? occurrence? at h
  generalize s.tokens = ts, s.heading = heading, s.remaining = rest at hsays h
  cases hsays with
  | nameless | unfinished | declared => contradiction
  | @defined name start e header body _ _ _ _ hend =>
    cases h
    obtain ⟨inner, rfl⟩ := exists_of_afterEnd?_eq_some hend
    exact ⟨rfl, .inl ⟨e, ⟨name :: (header ++ start :: inner), by simp⟩, rfl⟩⟩
  | cutOff =>
    cases h
    exact ⟨rfl, .inr ⟨rfl, rfl⟩⟩

theorem remaining_suffix (s : Segment) : s.remaining <:+ s.opener :: s.tokens :=
  s.says_parse.suffix.trans (List.suffix_cons _ _)

theorem pairwise_spans (h : InLineOrder (s.opener :: s.tokens)) :
    s.spans.Pairwise LineRange.Precedes := by
  refine List.pairwise_append.2 ⟨?_, pairwise_blocksIn (h.sublist s.remaining_suffix.sublist), ?_⟩
  · cases s.body? <;> simp
  · intro body hbody block hblock
    obtain ⟨u, hu, hfirst⟩ := List.mem_map.1 (of_mem_blocksIn hblock).1
    obtain ⟨-, ⟨e, he, hlast⟩ | ⟨hrest, -⟩⟩ := of_body? (Option.mem_toList.1 hbody)
    · have hle : e.line ≤ u.line := (List.pairwise_cons.1 (h.of_cons.sublist he.sublist)).1 u hu
      rwa [← hlast, hfirst] at hle
    · rw [hrest] at hu
      contradiction

theorem le_first_of_mem_spans (h : InLineOrder (s.opener :: s.tokens)) (hrange : range ∈ s.spans) :
    s.opener.line ≤ range.first := by
  rcases List.mem_append.1 hrange with hbody | hblock
  · exact Nat.le_of_eq (of_body? (Option.mem_toList.1 hbody)).1.symm
  · obtain ⟨u, hu, hfirst⟩ := List.mem_map.1 (of_mem_blocksIn hblock).1
    rw [← hfirst]
    rcases List.mem_cons.1 (s.remaining_suffix.subset hu) with rfl | hu
    · exact Nat.le_refl _
    · exact (List.pairwise_cons.1 h).1 u hu

theorem last_le_of_mem_spans {m : Nat} (hlast : s.last ≤ m)
    (htokens : ∀ t ∈ s.opener :: s.tokens, t.line ≤ m) (hrange : range ∈ s.spans) :
    range.last ≤ m := by
  rcases List.mem_append.1 hrange with hbody | hblock
  · obtain ⟨-, ⟨e, he, hend⟩ | ⟨-, hend⟩⟩ := of_body? (Option.mem_toList.1 hbody)
    · rw [hend]
      exact htokens e (List.mem_cons_of_mem _ (he.subset List.mem_cons_self))
    · rw [hend]
      exact Nat.max_le.2 ⟨hlast, htokens _ List.mem_cons_self⟩
  · obtain ⟨u, hu, hend⟩ := List.mem_map.1 (of_mem_blocksIn hblock).2
    exact hend ▸ htokens u (s.remaining_suffix.subset hu)

/-- An occurrence is placed where its segment starts. -/
theorem line_of_occurrence? {o : Occurrence} (h : s.occurrence? = some o) :
    o.line = s.opener.line := by
  unfold occurrence? at h
  split at h
  · contradiction
  all_goals
    cases h
    rfl

end Segment

/-! ## The text -/

/-- If the tokens of a text come line by line, its segments do. -/
theorem inLineOrder_cut (lastLine : Nat) (h : InLineOrder ts) :
    InLineOrder (cut lastLine ts).1 ∧
      (∀ t ∈ (cut lastLine ts).1, ∀ s ∈ (cut lastLine ts).2, t.line ≤ s.opener.line) ∧
      (∀ s ∈ (cut lastLine ts).2, InLineOrder (s.opener :: s.tokens)) ∧
      (cut lastLine ts).2.Pairwise fun s s' =>
        ∀ t ∈ s.opener :: s.tokens, t.line ≤ s'.opener.line := by
  rw [← cut_append lastLine ts] at h
  obtain ⟨hlead, hsegments, hcross⟩ := List.pairwise_append.1 h
  obtain ⟨hinner, hbetween⟩ := List.pairwise_flatMap.1 hsegments
  refine ⟨hlead, fun t ht s hs => ?_, hinner, hbetween.imp fun {s s'} hle t ht => ?_⟩
  · exact hcross t ht _ (List.mem_flatMap.2 ⟨s, hs, List.mem_cons_self⟩)
  · exact hle t ht _ List.mem_cons_self

/-- Each segment ends before the next ones start. -/
theorem pairwise_last_cut (lastLine : Nat) (h : InLineOrder ts) :
    (cut lastLine ts).2.Pairwise fun s s' => s.last ≤ s'.opener.line := by
  induction ts with
  | nil => exact .nil
  | cons t ts ih =>
    obtain ⟨-, -, -, hbetween⟩ := inLineOrder_cut lastLine h.of_cons
    have hrest := ih h.of_cons
    rw [cut]
    split
    · refine .cons (fun s' hs' => ?_) hrest
      cases hss : (cut lastLine ts).2 with
      | nil =>
        rw [hss] at hs'
        contradiction
      | cons s ss =>
        rw [hss] at hs' hbetween
        have hle : s.opener.line ≤ s'.opener.line := by
          rcases List.mem_cons.1 hs' with rfl | hs'
          · exact Nat.le_refl _
          · exact (List.pairwise_cons.1 hbetween).1 s' hs' s.opener List.mem_cons_self
        exact Nat.le_trans (Nat.sub_le _ _) hle
    · exact hrest

/-- The ranges that a text enters, in order. -/
def spans (text : List Char) : List LineRange :=
  blocksIn (leadingTokens text) ++ (segments text).flatMap Segment.spans

theorem inLineOrder_codeTokens (text : List Char) : InLineOrder (codeTokens text) :=
  pairwise_codeTokensFrom 1 _

/-- The ranges that a text enters come one after the other. -/
theorem pairwise_spans (text : List Char) : (spans text).Pairwise LineRange.Precedes := by
  have horder := inLineOrder_codeTokens text
  have hlast := pairwise_last_cut (cleanLines text).length horder
  obtain ⟨hlead, hfront, hinner, hbetween⟩ := inLineOrder_cut (cleanLines text).length horder
  refine List.pairwise_append.2 ⟨pairwise_blocksIn hlead, List.pairwise_flatMap.2
    ⟨fun s hs => s.pairwise_spans (hinner s hs), ?_⟩, ?_⟩
  · refine (hlast.and hbetween).imp_of_mem fun {s s'} hs hs' hle range hrange range' hrange' => ?_
    exact Nat.le_trans (Segment.last_le_of_mem_spans hle.1 hle.2 hrange)
      (Segment.le_first_of_mem_spans (hinner s' hs') hrange')
  · intro block hblock range hrange
    obtain ⟨s, hs, hrange⟩ := List.mem_flatMap.1 hrange
    obtain ⟨u, hu, hlast⟩ := List.mem_map.1 (of_mem_blocksIn hblock).2
    have hle := Nat.le_trans (hfront u hu s hs)
      (Segment.le_first_of_mem_spans (hinner s hs) hrange)
    rwa [hlast] at hle

/-! ## The blocks of a text -/

namespace Reading

variable {r : Reading}

theorem blocks_readItem (r : Reading) (i : Item) :
    (r.readItem i).blocks = r.blocks ++ i.block?.toList := by
  cases i with
  | closing t => cases hd : r.depth <;> simp [readItem, hd, report, Item.block?]
  | opening | block range | cutOffBlock t => simp [readItem, cutOffBlock, report, Item.block?]

theorem blocks_readItems (r : Reading) (ts : List Token) :
    (r.readItems ts).blocks = r.blocks ++ blocksIn ts := by
  unfold readItems blocksIn
  generalize items ts = is
  induction is generalizing r with
  | nil => simp
  | cons i is ih =>
    rw [List.foldl_cons, ih, blocks_readItem, List.append_assoc, List.filterMap_cons]
    cases i.block? <;> rfl

theorem blocks_foldl_readSegment {os : List Occurrence} (h : r.procedures = tableOf os)
    (ss : List Segment) :
    (ss.foldl readSegment r).blocks =
      r.blocks ++ ss.flatMap fun s => blocksIn s.remaining := by
  induction ss generalizing r os with
  | nil => simp
  | cons s ss ih =>
    rw [List.foldl_cons, ih (readSegment_table h s).1, readSegment, blocks_readItems,
      readHeading_eq h, List.flatMap_cons, List.append_assoc]

end Reading

theorem Structure.blocks_ofText (text : List Char) :
    (ofText text).blocks =
      blocksIn (leadingTokens text) ++ (segments text).flatMap fun s => blocksIn s.remaining := by
  rw [(ofText_eq_bySegments text).2.1, Reading.bySegments,
    Reading.blocks_foldl_readSegment (Reading.procedures_leadingTokens text),
    Reading.blocks_readItems, List.nil_append]

/-- The bodies of all occurrences and the blocks are what a text enters. -/
theorem perm_spans (text : List Char) :
    ((occurrences text).filterMap Occurrence.body ++ (Structure.ofText text).blocks).Perm
      (spans text) := by
  have hbodies : (occurrences text).filterMap Occurrence.body =
      (segments text).flatMap fun s => s.body?.toList := by
    rw [occurrences, List.filterMap_filterMap, List.filterMap_eq_flatMap_toList]
    rfl
  rw [hbodies, Structure.blocks_ofText, spans]
  exact (List.perm_append_comm_assoc _ _ _).trans
    ((List.flatMap_append_perm _ _ _).append_left _)

/-! ## The bodies in the table -/

section Table

variable {os : List Occurrence} {o f g : Occurrence}

theorem mem_of_mem_firsts (h : f ∈ firsts os) : f ∈ os := by
  induction os using List.reverseRecOn with
  | nil => contradiction
  | append_singleton os o ih =>
    rw [firsts_concat] at h
    split at h
    · exact List.mem_append_left _ (ih h)
    · rcases List.mem_append.1 h with h | h
      · exact List.mem_append_left _ (ih h)
      · exact List.mem_append_right _ h

/-- No two of the first occurrences are of one name. -/
theorem pairwise_firsts (os : List Occurrence) :
    (firsts os).Pairwise fun a b => a.isNamed b.name = false := by
  induction os using List.reverseRecOn with
  | nil => exact .nil
  | append_singleton os o ih =>
    rw [firsts_concat]
    split
    · exact ih
    · next hnew =>
      refine List.pairwise_append.2 ⟨ih, List.pairwise_singleton _ _, fun a ha b hb => ?_⟩
      rw [List.mem_singleton.1 hb]
      simp only [List.any_eq_true, not_exists, not_and, Bool.not_eq_true] at hnew
      exact hnew a (mem_of_mem_firsts ha)

/-- An occurrence comes no earlier than the first one of its name. -/
theorem line_le_of_mem_firsts (horder : os.Pairwise (·.line ≤ ·.line)) (hf : f ∈ firsts os)
    (hg : g ∈ os) (hnamed : g.isNamed f.name = true) : f.line ≤ g.line := by
  induction os using List.reverseRecOn with
  | nil => contradiction
  | append_singleton os o ih =>
    obtain ⟨hos, -, hlast⟩ := List.pairwise_append.1 horder
    have hold : f ∈ firsts os → f.line ≤ g.line := fun hf => by
      rcases List.mem_append.1 hg with hg | hg
      · exact ih hos hf hg
      · exact hlast f (mem_of_mem_firsts hf) g hg
    rw [firsts_concat] at hf
    split at hf
    · exact hold hf
    · next hnew =>
      rcases List.mem_append.1 hf with hf | hf
      · exact hold hf
      · rw [List.mem_singleton.1 hf] at hnamed ⊢
        rcases List.mem_append.1 hg with hg | hg
        · exact absurd (List.any_eq_true.2 ⟨g, hg, hnamed⟩) hnew
        · exact Nat.le_of_eq (congrArg Occurrence.line (List.mem_singleton.1 hg)).symm

/-- The body of an entry is that of an occurrence of its name. -/
theorem exists_of_body_entry (h : (entry os f).body = some range) :
    ∃ g ∈ os, g.isNamed f.name = true ∧ g.body = some range := by
  unfold entry at h
  obtain ⟨g, hg, hbody⟩ := Option.bind_eq_some_iff.1 h
  obtain ⟨hmem, -, hnamed⟩ := of_firstBody? hg
  exact ⟨g, hmem, hnamed, hbody⟩

/-- Unless the occurrences are of one name, their bodies share one line at most. -/
def Occurrence.Separate (a b : Occurrence) : Prop :=
  a.isNamed b.name = false →
    ∀ range, a.body = some range → ∀ range', b.body = some range' → range.Apart range'

theorem Occurrence.Separate.symm {a b : Occurrence} (h : a.Separate b) : b.Separate a :=
  fun hne range hrange range' hrange' =>
    (h (a.isNamed_comm b ▸ hne) range' hrange' range hrange).symm

/-- If the bodies of all occurrences lie apart, so do those in the table: these belong to
different names, thus to different occurrences. -/
theorem pairwise_bodies_tableOf (h : (os.filterMap Occurrence.body).Pairwise LineRange.Apart) :
    ((tableOf os).filterMap (·.body)).Pairwise LineRange.Apart := by
  have hsymm : Std.Symm Occurrence.Separate := ⟨fun _ _ => Occurrence.Separate.symm⟩
  have hself : ∀ a ∈ os, a.Separate a := fun a _ hne => by
    rw [a.isNamed_self] at hne
    contradiction
  have hpairs : os.Pairwise Occurrence.Separate :=
    (List.pairwise_filterMap.1 h).imp (S := Occurrence.Separate) fun hab _ => hab
  have hall := List.Pairwise.forall_of_forall hself hpairs
  rw [tableOf, List.pairwise_filterMap, List.pairwise_map]
  refine (pairwise_firsts os).imp fun {f f'} hne range hrange range' hrange' => ?_
  obtain ⟨g, hg, hnamed, hbody⟩ := exists_of_body_entry hrange
  obtain ⟨g', hg', hnamed', hbody'⟩ := exists_of_body_entry hrange'
  refine hall hg hg' ?_ range hbody range' hbody'
  rw [Occurrence.isNamed_congr hnamed, f.isNamed_comm, Occurrence.isNamed_congr hnamed',
    f'.isNamed_comm]
  exact hne

end Table

/-! ## The layout of a text -/

/-- The procedures have different names. -/
def Procedure.Distinct (ps : List Procedure) : Prop :=
  ps.Pairwise fun p q => p.isNamed q.name = false

theorem pairwise_line_occurrences (text : List Char) :
    (occurrences text).Pairwise (·.line ≤ ·.line) := by
  obtain ⟨-, -, -, hbetween⟩ :=
    inLineOrder_cut (cleanLines text).length (inLineOrder_codeTokens text)
  refine List.pairwise_filterMap.2 (hbetween.imp fun {s s'} hle o ho o' ho' => ?_)
  rw [Segment.line_of_occurrence? ho, Segment.line_of_occurrence? ho']
  exact hle _ List.mem_cons_self

/-- No block of one segment has the `procedure` of the other one inside. -/
def Segment.Clear (s s' : Segment) : Prop :=
  ∀ range ∈ blocksIn s.remaining, range.Clears s'.opener.line

/-- No `procedure` stands inside of a block. -/
theorem clear_of_mem_segments (text : List Char) {s s' : Segment} (hs : s ∈ segments text)
    (hs' : s' ∈ segments text) : s.Clear s' := by
  obtain ⟨-, -, hinner, hbetween⟩ :=
    inLineOrder_cut (cleanLines text).length (inLineOrder_codeTokens text)
  have hfirst : ∀ s ∈ segments text, ∀ range ∈ blocksIn s.remaining,
      s.opener.line ≤ range.first := fun s hs range hrange =>
    Segment.le_first_of_mem_spans (hinner s hs) (List.mem_append_right _ hrange)
  have hsymm : Std.Symm fun s s' : Segment => s.Clear s' ∧ s'.Clear s := ⟨fun _ _ => And.symm⟩
  have hself : ∀ s ∈ segments text, s.Clear s ∧ s.Clear s := fun s hs =>
    have hclear : s.Clear s := fun range hrange => .inl (hfirst s hs range hrange)
    ⟨hclear, hclear⟩
  have hpairs : (segments text).Pairwise fun s s' => s.Clear s' ∧ s'.Clear s := by
    refine hbetween.imp_of_mem fun {s s'} hs hs' hle => ?_
    refine ⟨fun range hrange => ?_, fun range hrange => ?_⟩
    · obtain ⟨u, hu, hlast⟩ := List.mem_map.1 (of_mem_blocksIn hrange).2
      exact .inr (hlast ▸ hle u (s.remaining_suffix.subset hu))
    · exact .inl (Nat.le_trans (hle _ List.mem_cons_self) (hfirst s' hs' range hrange))
  exact (hpairs.forall_of_forall hself hs hs').1

namespace Structure

/-- Any two bodies and blocks of a text share one line at most. -/
theorem pairwise_apart (text : List Char) :
    ((ofText text).procedures.filterMap (·.body) ++ (ofText text).blocks).Pairwise
      LineRange.Apart := by
  have hspans : (spans text).Pairwise LineRange.Apart := (pairwise_spans text).imp Or.inl
  have hall := (perm_spans text).symm.pairwise hspans LineRange.Apart.symm
  obtain ⟨hbodies, hblocks, hcross⟩ := List.pairwise_append.1 hall
  rw [procedures_ofText]
  refine List.pairwise_append.2 ⟨pairwise_bodies_tableOf hbodies, hblocks, fun body hbody => ?_⟩
  obtain ⟨p, hp, hbody⟩ := List.mem_filterMap.1 hbody
  obtain ⟨f, -, rfl⟩ := List.mem_map.1 hp
  obtain ⟨g, hg, -, hbody⟩ := exists_of_body_entry hbody
  exact hcross body (List.mem_filterMap.2 ⟨g, hg, hbody⟩)

/-- No body starts before its procedure is declared. -/
theorem declaredAt_le (text : List Char) {p : Procedure} (hp : p ∈ (ofText text).procedures)
    (hbody : p.body = some range) : p.declaredAt ≤ range.first := by
  rw [procedures_ofText] at hp
  obtain ⟨f, hf, rfl⟩ := List.mem_map.1 hp
  obtain ⟨g, hg, hnamed, hbody⟩ := exists_of_body_entry hbody
  have hle := line_le_of_mem_firsts (pairwise_line_occurrences text) hf hg hnamed
  obtain ⟨last, -, rfl⟩ := Option.map_eq_some_iff.1 hbody
  exact hle

/-- No procedure is declared inside of a block. -/
theorem clears_declaredAt (text : List Char) {p : Procedure} (hp : p ∈ (ofText text).procedures)
    (hrange : range ∈ (ofText text).blocks) : range.Clears p.declaredAt := by
  rw [procedures_ofText] at hp
  obtain ⟨f, hf, rfl⟩ := List.mem_map.1 hp
  obtain ⟨s, hs, hoccurs⟩ := List.mem_filterMap.1 (mem_of_mem_firsts hf)
  have hline : (entry (occurrences text) f).declaredAt = s.opener.line :=
    Segment.line_of_occurrence? hoccurs
  rw [hline]
  rw [blocks_ofText, List.mem_append] at hrange
  rcases hrange with hlead | hrange
  · obtain ⟨-, hfront, -⟩ :=
      inLineOrder_cut (cleanLines text).length (inLineOrder_codeTokens text)
    obtain ⟨u, hu, hlast⟩ := List.mem_map.1 (of_mem_blocksIn hlead).2
    exact .inr (hlast ▸ hfront u hu s hs)
  · obtain ⟨s', hs', hrange⟩ := List.mem_flatMap.1 hrange
    exact clear_of_mem_segments text hs' hs range hrange

/-- No two procedures of a text are of one name. -/
theorem distinct_procedures (text : List Char) : Procedure.Distinct (ofText text).procedures := by
  rw [procedures_ofText]
  exact List.pairwise_map.2 (pairwise_firsts _)

end Structure

end ScriptDesk.Script
