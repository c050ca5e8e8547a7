import ScriptDesk.Script.Structure

/-!
# ScriptDesk.Proofs.Reading

What a reading finds lies within the text: every part starts on a line of the
text, ends no earlier than it starts, and ends before the text does. The tokens
come line by line, so what is true up to the line of one token is true up to the
line of the next (`WellRead.step`).
-/

namespace ScriptDesk.Script

/-! ## The order of tokens -/

theorem text_ne_of_mem_wordToken {line column : Nat} {word : List Char} {t : Token}
    (h : t ∈ wordToken line word column) : t.text ≠ "" := by
  cases word with
  | nil => simp [wordToken] at h
  | cons c rest =>
    have ht : t = ⟨String.ofList (c :: rest).reverse, line, column - (c :: rest).length⟩ := by
      simpa [wordToken] using h
    rw [ht]
    simp

/-- No token is empty. -/
theorem text_ne_of_mem_tokensFrom {line column : Nat} {word text : List Char} {t : Token}
    (h : t ∈ tokensFrom line word column text) : t.text ≠ "" := by
  fun_induction tokensFrom line word column text with
  | case1 word column => exact text_ne_of_mem_wordToken h
  | case2 word column c rest _ ih => exact ih h
  | case3 word column c rest _ ih =>
    simp only [List.mem_append] at h
    rcases h with (h | h) | h
    · exact text_ne_of_mem_wordToken h
    · split at h
      · rw [List.mem_singleton.1 h]
        simp
      · contradiction
    · exact ih h

/-- A token of some lines is one of the line whose number it carries. -/
theorem exists_of_mem_codeTokensFrom {first : Nat} {ls : List (Bool × List Char)} {t : Token}
    (h : t ∈ codeTokensFrom first ls) :
    first ≤ t.line ∧ ∃ line, (ls.map Prod.snd)[t.line - first]? = some line ∧
      t ∈ tokens t.line line := by
  induction ls generalizing first with
  | nil => simp [codeTokensFrom] at h
  | cons head ls ih =>
    rw [codeTokensFrom, List.mem_append] at h
    rcases h with h | h
    · split at h
      · contradiction
      · have hline : t.line = first := line_of_mem_tokensFrom h
        subst hline
        exact ⟨Nat.le_refl _, head.2, by simp, h⟩
    · obtain ⟨hfirst, line, hline, ht⟩ := ih h
      have hindex : t.line - first = t.line - (first + 1) + 1 := by omega
      refine ⟨by omega, line, ?_, ht⟩
      rw [hindex, List.map_cons, List.getElem?_cons_succ]
      exact hline

/-- The tokens of some lines carry their line numbers. -/
theorem of_mem_codeTokensFrom {line : Nat} {ls : List (Bool × List Char)} {t : Token}
    (h : t ∈ codeTokensFrom line ls) :
    line ≤ t.line ∧ t.line < line + ls.length ∧ t.text ≠ "" := by
  obtain ⟨hfirst, text, htext, ht⟩ := exists_of_mem_codeTokensFrom h
  obtain ⟨hlast, -⟩ := List.getElem?_eq_some_iff.1 htext
  rw [List.length_map] at hlast
  exact ⟨hfirst, by omega, text_ne_of_mem_tokensFrom ht⟩

/-- The tokens come line by line. -/
theorem pairwise_codeTokensFrom (line : Nat) (ls : List (Bool × List Char)) :
    (codeTokensFrom line ls).Pairwise (·.line ≤ ·.line) := by
  induction ls generalizing line with
  | nil => exact .nil
  | cons head rest ih =>
    obtain ⟨directive, text⟩ := head
    have hline : ∀ t ∈ (if directive then [] else tokens line text), t.line = line := by
      intro t ht
      split at ht
      · contradiction
      · exact line_of_mem_tokensFrom ht
    rw [codeTokensFrom, List.pairwise_append]
    refine ⟨?_, ih (line + 1), ?_⟩
    · refine List.Pairwise.imp_of_mem (R := fun _ _ => True) (fun ha hb _ => ?_)
        (List.pairwise_of_forall fun _ _ => trivial)
      exact Nat.le_of_eq ((hline _ ha).trans (hline _ hb).symm)
    · intro a ha b hb
      rw [hline a ha]
      exact Nat.le_of_succ_le (of_mem_codeTokensFrom hb).1

/-! ## What a reading has found -/

/-- The range lies within the first `last` lines. -/
def LineRange.Within (range : LineRange) (last : Nat) : Prop :=
  1 ≤ range.first ∧ range.first ≤ range.last ∧ range.last ≤ last

/-- The procedure has a name and lies within the first `last` lines. -/
structure Procedure.Within (p : Procedure) (last : Nat) : Prop where
  named : p.name ≠ ""
  declared : 1 ≤ p.declaredAt ∧ p.declaredAt ≤ last
  body : ∀ range, p.body = some range → range.Within last

/-- The part that is open was opened within the first `last` lines. -/
def Context.Within (last : Nat) : Context → Prop
  | .top => True
  | .naming line _ | .variables line _ | .block line _ _ => 1 ≤ line ∧ line ≤ last
  | .header name line _ | .body name line _ _ => name ≠ "" ∧ 1 ≤ line ∧ line ≤ last

/-- All that was read lies within the first `last` lines. -/
structure Reading.WellRead (r : Reading) (last : Nat) : Prop where
  context : r.context.Within last
  procedures : ∀ p ∈ r.procedures, p.Within last
  blocks : ∀ range ∈ r.blocks, range.Within last
  issues : ∀ i ∈ r.issues, 1 ≤ i.line ∧ i.line ≤ last

theorem LineRange.Within.mono {range : LineRange} {m n : Nat} (h : range.Within m) (hmn : m ≤ n) :
    range.Within n :=
  ⟨h.1, h.2.1, Nat.le_trans h.2.2 hmn⟩

theorem Procedure.Within.mono {p : Procedure} {m n : Nat} (h : p.Within m) (hmn : m ≤ n) :
    p.Within n :=
  ⟨h.named, ⟨h.declared.1, Nat.le_trans h.declared.2 hmn⟩,
    fun range hr => (h.body range hr).mono hmn⟩

theorem Context.Within.mono {m n : Nat} : ∀ {c : Context}, c.Within m → m ≤ n → c.Within n
  | .top, _, _ => trivial
  | .naming _ _, h, hmn => ⟨h.1, Nat.le_trans h.2 hmn⟩
  | .header _ _ _, h, hmn => ⟨h.1, h.2.1, Nat.le_trans h.2.2 hmn⟩
  | .body _ _ _ _, h, hmn => ⟨h.1, h.2.1, Nat.le_trans h.2.2 hmn⟩
  | .variables _ _, h, hmn => ⟨h.1, Nat.le_trans h.2 hmn⟩
  | .block _ _ _, h, hmn => ⟨h.1, Nat.le_trans h.2 hmn⟩

namespace Reading

variable {r : Reading} {m n : Nat}

theorem WellRead.mono (h : r.WellRead m) (hmn : m ≤ n) : r.WellRead n where
  context := h.context.mono hmn
  procedures p hp := (h.procedures p hp).mono hmn
  blocks range hr := (h.blocks range hr).mono hmn
  issues i hi := ⟨(h.issues i hi).1, Nat.le_trans (h.issues i hi).2 hmn⟩

theorem wellRead_new (n : Nat) : WellRead {} n := ⟨trivial, nofun, nofun, nofun⟩

theorem WellRead.enter (h : r.WellRead n) {context : Context} (hc : context.Within n) :
    (r.enter context).WellRead n :=
  { h with context := hc }

theorem WellRead.report (h : r.WellRead n) (problem : Problem) {line : Nat} (column length : Nat)
    (hfirst : 1 ≤ line) (hlast : line ≤ n) : (r.report problem line column length).WellRead n :=
  { h with
    issues := fun i hi => by
      rcases List.mem_append.1 hi with hi | hi
      · exact h.issues i hi
      · rw [List.mem_singleton.1 hi]
        exact ⟨hfirst, hlast⟩ }

theorem WellRead.addProcedure (h : r.WellRead n) {p : Procedure} (hp : p.Within n) :
    WellRead { r with procedures := r.procedures ++ [p] } n :=
  { h with
    procedures := fun q hq => by
      rcases List.mem_append.1 hq with hq | hq
      · exact h.procedures q hq
      · exact List.mem_singleton.1 hq ▸ hp }

theorem WellRead.declare (h : r.WellRead n) {name : String} {line : Nat} (hname : name ≠ "")
    (hfirst : 1 ≤ line) (hlast : line ≤ n) : (r.declare name line).WellRead n := by
  unfold Reading.declare
  split
  · exact h
  · exact h.addProcedure ⟨hname, ⟨hfirst, hlast⟩, nofun⟩

theorem WellRead.define (h : r.WellRead n) {name : String} {range : LineRange} (column : Nat)
    (hname : name ≠ "") (hr : range.Within n) : (r.define name range column).WellRead n := by
  have hlast : range.first ≤ n := Nat.le_trans hr.2.1 hr.2.2
  unfold Reading.define
  split
  · exact h.report _ _ _ hr.1 hlast
  · refine { h with procedures := fun q hq => ?_ }
    obtain ⟨p, hp, rfl⟩ := List.mem_map.1 hq
    have hp := h.procedures p hp
    split
    · refine ⟨hp.named, hp.declared, fun body hb => ?_⟩
      rw [← Option.some.inj hb]
      exact hr
    · exact hp
  · refine h.addProcedure ⟨hname, ⟨hr.1, hlast⟩, fun body hb => ?_⟩
    rw [← Option.some.inj hb]
    exact hr

theorem WellRead.cutOff (h : r.WellRead n) {name : String} {line last : Nat} (column : Nat)
    (hname : name ≠ "") (hfirst : 1 ≤ line) (hline : line ≤ n) (hlast : last ≤ n) :
    (r.cutOff name line column last).WellRead n :=
  (h.report _ _ _ hfirst hline).define column hname
    ⟨hfirst, Nat.le_max_right _ _, Nat.max_le.2 ⟨hlast, hline⟩⟩

theorem WellRead.missBody (h : r.WellRead n) {name : String} {line : Nat} (column : Nat)
    (hname : name ≠ "") (hfirst : 1 ≤ line) (hline : line ≤ n) :
    (r.missBody name line column).WellRead n :=
  (h.report _ _ _ hfirst hline).declare hname hfirst hline

theorem WellRead.cutOffBlock (h : r.WellRead n) {line : Nat} (column : Nat) (hfirst : 1 ≤ line)
    (hline : line ≤ n) : (r.cutOffBlock line column).WellRead n :=
  h.report _ _ _ hfirst hline

/-! ## One token more -/

theorem WellRead.stepTop {t : Token} (h : r.WellRead t.line) (hfirst : 1 ≤ t.line) :
    (r.stepTop t).WellRead t.line := by
  have hline : 1 ≤ t.line ∧ t.line ≤ t.line := ⟨hfirst, Nat.le_refl _⟩
  unfold Reading.stepTop
  split
  · exact h.enter hline
  · exact h.enter hline
  · exact { h with context := trivial }
  · split
    · exact (h.report _ _ _ hfirst (Nat.le_refl _)).enter trivial
    · exact { h with context := trivial }
  · exact h.enter trivial
  · exact h.enter trivial

/-- A token that comes no earlier than what was read leaves everything read within
its line. -/
theorem WellRead.step {t : Token} (h : r.WellRead m) (hm : m ≤ t.line) (hfirst : 1 ≤ t.line)
    (htext : t.text ≠ "") : (r.step t).WellRead t.line := by
  have h := h.mono hm
  have hctx := h.context
  unfold Reading.step
  split
  · exact h.stepTop hfirst
  · next line column hc =>
    rw [hc] at hctx
    split
    · exact h.enter ⟨htext, hctx⟩
    · exact h.enter ⟨htext, hctx⟩
    · exact h.stepTop hfirst
  · next name line column hc =>
    rw [hc] at hctx
    obtain ⟨hname, hopen, hline⟩ := hctx
    split
    · exact (h.declare hname hopen hline).enter trivial
    · exact h.enter ⟨hname, hopen, hline⟩
    · exact (h.missBody column hname hopen hline).stepTop hfirst
    · exact h
  · next name line column nested hc =>
    rw [hc] at hctx
    obtain ⟨hname, hopen, hline⟩ := hctx
    split
    · exact h.enter ⟨hname, hopen, hline⟩
    · split
      · exact (h.define column hname ⟨hopen, hline, Nat.le_refl _⟩).enter trivial
      · exact h.enter ⟨hname, hopen, hline⟩
    · exact (h.cutOff column hname hopen hline (Nat.sub_le _ _)).stepTop hfirst
    · exact h
  · next line column hc =>
    rw [hc] at hctx
    split
    · exact h.enter hctx
    · exact h.stepTop hfirst
  · next line column nested hc =>
    rw [hc] at hctx
    split
    · exact h.enter hctx
    · split
      · refine ⟨trivial, h.procedures, fun range hr => ?_, h.issues⟩
        rcases List.mem_append.1 hr with hr | hr
        · exact h.blocks range hr
        · rw [List.mem_singleton.1 hr]
          exact ⟨hctx.1, hctx.2, Nat.le_refl _⟩
      · exact h.enter hctx
    · exact (h.cutOffBlock column hctx.1 hctx.2).stepTop hfirst
    · exact h

/-- Reading on keeps everything within the lines read. -/
theorem WellRead.foldl {ts : List Token} (h : r.WellRead m) (hmn : m ≤ n)
    (hs : ts.Pairwise (·.line ≤ ·.line))
    (ht : ∀ t ∈ ts, m ≤ t.line ∧ 1 ≤ t.line ∧ t.line ≤ n ∧ t.text ≠ "") :
    (ts.foldl Reading.step r).WellRead n := by
  induction ts generalizing r m with
  | nil => exact h.mono hmn
  | cons t rest ih =>
    obtain ⟨hm, hfirst, hlast, htext⟩ := ht t List.mem_cons_self
    obtain ⟨hle, hs⟩ := List.pairwise_cons.1 hs
    refine ih (h.step hm hfirst htext) hlast hs fun u hu => ?_
    obtain ⟨-, hu'⟩ := ht u (List.mem_cons_of_mem _ hu)
    exact ⟨hle u hu, hu'⟩

theorem WellRead.finish (h : r.WellRead n) : (r.finish n).WellRead n := by
  have hctx := h.context
  unfold Reading.finish
  split
  · next name line column nested hc =>
    rw [hc] at hctx
    exact h.cutOff column hctx.1 hctx.2.1 hctx.2.2 (Nat.le_refl _)
  · next name line column hc =>
    rw [hc] at hctx
    exact h.missBody column hctx.1 hctx.2.1 hctx.2.2
  · next line column nested hc =>
    rw [hc] at hctx
    exact h.cutOffBlock column hctx.1 hctx.2
  all_goals exact h

end Reading

/-- What a text says about its own structure lies within its lines. -/
structure Structure.Within (s : Structure) (last : Nat) : Prop where
  procedures : ∀ p ∈ s.procedures, p.Within last
  blocks : ∀ range ∈ s.blocks, range.Within last
  issues : ∀ i ∈ s.issues, 1 ≤ i.line ∧ i.line ≤ last

theorem Structure.within_ofText (text : List Char) :
    (Structure.ofText text).Within (cleanLines text).length := by
  have hlen : (markedLines text).length = (cleanLines text).length :=
    length_markDirectives false (cleanLines text)
  have hread : (Reading.ofTokens (codeTokens text)).WellRead (cleanLines text).length := by
    refine Reading.WellRead.foldl (Reading.wellRead_new 0) (Nat.zero_le _)
      (pairwise_codeTokensFrom 1 _) fun t ht => ?_
    obtain ⟨hfirst, hlast, htext⟩ := of_mem_codeTokensFrom ht
    exact ⟨Nat.zero_le _, hfirst, by omega, htext⟩
  exact ⟨hread.finish.procedures, hread.finish.blocks, hread.finish.issues⟩

end ScriptDesk.Script
