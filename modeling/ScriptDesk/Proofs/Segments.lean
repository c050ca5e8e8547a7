import ScriptDesk.Script.Segment

/-!
# ScriptDesk.Proofs.Segments

Reading a script token by token comes to the same as reading it segment by segment
(`finish_ofTokens`): `procedure` ends whatever is open (`step_procedure`), so nothing that stands in
one segment reaches into the next, apart from what was found and the number of `begin`s open
at top level.

Within a segment the reading goes through its states only to find the tokens that
`Segment.parse` and `items` look for. What it finds is entered in one go for the heading
(`readHeading`) and in one go for each item (`readItem`).
-/

namespace ScriptDesk.Script.Reading

variable {r : Reading} {s : Segment} {t : Token} {ts : List Token} {last : Nat}

/-! ## Effects of the parts of a segment -/

/-- Enters the heading of a segment that starts with `opener` and can go on to line `last`. -/
def readHeading (r : Reading) (opener : Token) (last : Nat) : Heading → Reading
  | .nameless => r
  | .unfinished name => r.missBody name opener.line opener.column
  | .declared name => r.declare name opener.line
  | .defined name last => r.define name ⟨opener.line, last⟩ opener.column
  | .cutOff name => r.cutOff name opener.line opener.column last

/-- Enters an item that stands outside of procedures. -/
def readItem (r : Reading) : Item → Reading
  | .opening => { r with depth := r.depth + 1 }
  | .closing t =>
    match r.depth with
    | 0 => r.report .unmatchedEnd t.line t.column t.text.length
    | depth + 1 => { r with depth }
  | .block range => { r with blocks := r.blocks ++ [range] }
  | .cutOffBlock v => r.cutOffBlock v.line v.column

def readItems (r : Reading) (ts : List Token) : Reading := (items ts).foldl readItem r

def readSegment (r : Reading) (s : Segment) : Reading :=
  (r.readHeading s.opener s.last s.heading).readItems s.remaining

/-! ## The context stays as it is -/

theorem enter_of_context {c : Context} (h : r.context = c) : r.enter c = r := by
  rw [← h]
  rfl

@[simp] theorem enter_enter (c d : Context) : (r.enter c).enter d = r.enter d := rfl

@[simp] theorem context_enter (c : Context) : (r.enter c).context = c := rfl

@[simp] theorem report_enter (c : Context) (problem : Problem) (line column length : Nat) :
    (r.enter c).report problem line column length =
      (r.report problem line column length).enter c := rfl

@[simp] theorem declare_enter (c : Context) (name : String) (line : Nat) :
    (r.enter c).declare name line = (r.declare name line).enter c := by
  unfold declare procedure? enter
  dsimp only
  split <;> rfl

@[simp] theorem define_enter (c : Context) (name : String) (range : LineRange) (column : Nat) :
    (r.enter c).define name range column = (r.define name range column).enter c := by
  unfold define procedure? enter
  dsimp only
  split <;> rfl

@[simp] theorem context_declare (name : String) (line : Nat) :
    (r.declare name line).context = r.context := by
  unfold declare
  split <;> rfl

@[simp] theorem context_define (name : String) (range : LineRange) (column : Nat) :
    (r.define name range column).context = r.context := by
  unfold define
  split <;> rfl

theorem context_readHeading (r : Reading) (opener : Token) (last : Nat) (heading : Heading) :
    (r.readHeading opener last heading).context = r.context := by
  cases heading <;> simp [readHeading, missBody, cutOff, report]

theorem context_readItem (r : Reading) (i : Item) : (r.readItem i).context = r.context := by
  unfold readItem
  split
  · rfl
  · split <;> rfl
  · rfl
  · rfl

theorem context_readItems (r : Reading) (ts : List Token) :
    (r.readItems ts).context = r.context := by
  unfold readItems
  generalize items ts = is
  induction is generalizing r with
  | nil => rfl
  | cons i is ih => rw [List.foldl_cons, ih, context_readItem]

theorem context_readSegment (r : Reading) (s : Segment) :
    (r.readSegment s).context = r.context := by
  rw [readSegment, context_readItems, context_readHeading]

/-! ## Looking for the matching end -/

/-- A part that counts `begin`s and `end`s goes on to the `end` that matches its `begin`, or,
without one, to the end of the tokens. -/
theorem foldl_to_end (part : Nat → Context) (close : Token → Reading)
    (hopening : ∀ n t, t.role = .opening → (r.enter (part n)).step t = r.enter (part (n + 1)))
    (hclosing : ∀ n t, t.role = .closing → (r.enter (part (n + 1))).step t = r.enter (part n))
    (hend : ∀ t, t.role = .closing → (r.enter (part 0)).step t = close t)
    (hother : ∀ n t, t.role ≠ .opening → t.role ≠ .closing → t.role ≠ .procedure →
      (r.enter (part n)).step t = r.enter (part n))
    (hts : ∀ t ∈ ts, t.role ≠ .procedure) (n : Nat) :
    (∃ e rest, afterEnd? n ts = some (e, rest) ∧
        ts.foldl step (r.enter (part n)) = rest.foldl step (close e)) ∨
      afterEnd? n ts = none ∧ ∃ m, ts.foldl step (r.enter (part n)) = r.enter (part m) := by
  fun_induction afterEnd? n ts with
  | case1 n => exact .inr ⟨rfl, n, rfl⟩
  | case2 n t ts ht ih =>
    rw [List.foldl_cons, hopening n t ht]
    exact ih (List.forall_mem_cons.1 hts).2
  | case3 t ts ht =>
    refine .inl ⟨t, ts, rfl, ?_⟩
    rw [List.foldl_cons, hend t ht]
  | case4 t ts ht n ih =>
    rw [List.foldl_cons, hclosing n t ht]
    exact ih (List.forall_mem_cons.1 hts).2
  | case5 n t ts hopen hclose ih =>
    obtain ⟨ht, hts⟩ := List.forall_mem_cons.1 hts
    rw [List.foldl_cons, hother n t hopen hclose ht]
    exact ih hts

theorem foldl_body (hts : ∀ t ∈ ts, t.role ≠ .procedure) (name : String) (line column : Nat) :
    (∃ e rest, afterEnd? 0 ts = some (e, rest) ∧
        ts.foldl step (r.enter (.body name line column 0)) =
          rest.foldl step ((r.define name ⟨line, e.line⟩ column).enter .top)) ∨
      afterEnd? 0 ts = none ∧ ∃ n,
        ts.foldl step (r.enter (.body name line column 0)) =
          r.enter (.body name line column n) := by
  refine foldl_to_end (.body name line column)
    (fun e => (r.define name ⟨line, e.line⟩ column).enter .top)
    (fun n t ht => ?_) (fun n t ht => ?_) (fun t ht => ?_) (fun n t hopen hclose hproc => ?_) hts 0
  · simp [step, ht]
  · simp [step, ht]
  · simp [step, ht]
  · cases h : t.role <;> simp_all [step]

theorem foldl_block (hts : ∀ t ∈ ts, t.role ≠ .procedure) (line column : Nat) :
    (∃ e rest, afterEnd? 0 ts = some (e, rest) ∧
        ts.foldl step (r.enter (.block line column 0)) =
          rest.foldl step ((r.readItem (.block ⟨line, e.line⟩)).enter .top)) ∨
      afterEnd? 0 ts = none ∧
        ∃ n, ts.foldl step (r.enter (.block line column 0)) = r.enter (.block line column n) := by
  refine foldl_to_end (.block line column)
    (fun e => (r.readItem (.block ⟨line, e.line⟩)).enter .top)
    (fun n t ht => ?_) (fun n t ht => ?_) (fun t ht => ?_) (fun n t hopen hclose hproc => ?_) hts 0
  · simp [step, ht]
  · simp [step, ht]
  · simp [step, ht, readItem]
    rfl
  · cases h : t.role <;> simp_all [step]

/-! ## Tokens outside of procedures -/

@[simp] theorem stepTop_enter (c : Context) (t : Token) : (r.enter c).stepTop t = r.stepTop t := by
  unfold stepTop enter report
  rfl

theorem step_top (t : Token) : (r.enter .top).step t = r.stepTop t := by
  simp [step]

/-- A `variable` that opens no block leaves the reading at top level. -/
theorem finish_foldl_variables {line column : Nat} (h : ts.head?.any (·.role = .opening) = false) :
    ((ts.foldl step (r.enter (.variables line column))).finish last).enter .top =
      ((ts.foldl step (r.enter .top)).finish last).enter .top := by
  cases ts with
  | nil => rfl
  | cons u us =>
    have hu : u.role ≠ .opening := by simpa using h
    have hstep : (r.enter (.variables line column)).step u = (r.enter .top).step u := by
      simp [step]
    rw [List.foldl_cons, List.foldl_cons, hstep]

/-- Outside of procedures, reading token by token comes to the same as item by item. -/
theorem finish_foldl_top (hts : ∀ t ∈ ts, t.role ≠ .procedure) :
    ((ts.foldl step (r.enter .top)).finish last).enter .top = (r.readItems ts).enter .top := by
  unfold readItems
  fun_induction items ts generalizing r with
  | case1 => rfl
  | case2 t ts hopens e rest hend ih =>
    obtain ⟨ht, b, us, rfl, hb⟩ := opensBlock_iff.1 hopens
    have hus : ∀ u ∈ us, u.role ≠ .procedure := fun u hu =>
      hts u (List.mem_cons_of_mem _ (List.mem_cons_of_mem _ hu))
    have hstep : ((r.enter .top).step t).step b = r.enter (.block t.line t.column 0) := by
      simp [step, stepTop, ht, hb]
    rw [List.tail_cons] at hend
    rw [List.foldl_cons, List.foldl_cons, hstep]
    rcases foldl_block hus t.line t.column with ⟨_, _, hend', heq⟩ | ⟨hnone, -⟩
    · obtain ⟨rfl, rfl⟩ := Prod.mk.inj (Option.some.inj (hend.symm.trans hend'))
      obtain ⟨inner, rfl⟩ := exists_of_afterEnd?_eq_some hend
      rw [heq, List.foldl_cons]
      exact ih fun u hu => hus u (by simp [hu])
    · rw [hend] at hnone
      contradiction
  | case3 t ts hopens hend =>
    obtain ⟨ht, b, us, rfl, hb⟩ := opensBlock_iff.1 hopens
    have hus : ∀ u ∈ us, u.role ≠ .procedure := fun u hu =>
      hts u (List.mem_cons_of_mem _ (List.mem_cons_of_mem _ hu))
    have hstep : ((r.enter .top).step t).step b = r.enter (.block t.line t.column 0) := by
      simp [step, stepTop, ht, hb]
    rw [List.tail_cons] at hend
    rw [List.foldl_cons, List.foldl_cons, hstep]
    rcases foldl_block hus t.line t.column with ⟨_, _, hend', -⟩ | ⟨-, n, heq⟩
    · rw [hend] at hend'
      contradiction
    · rw [heq]
      rfl
  | case4 t ts _ ht ih =>
    have hstep : (r.enter .top).step t = (r.readItem .opening).enter .top := by
      simp [step, stepTop, ht, readItem, enter]
    rw [List.foldl_cons, List.foldl_cons, hstep]
    exact ih (List.forall_mem_cons.1 hts).2
  | case5 t ts _ ht ih =>
    have hstep : (r.enter .top).step t = (r.readItem (.closing t)).enter .top := by
      simp only [step_top, stepTop, ht, readItem]
      cases r.depth <;> rfl
    rw [List.foldl_cons, List.foldl_cons, hstep]
    exact ih (List.forall_mem_cons.1 hts).2
  | case6 t ts hopens hopen hclose ih =>
    obtain ⟨ht, hts⟩ := List.forall_mem_cons.1 hts
    rw [List.foldl_cons, ← ih hts]
    by_cases hvariables : t.role = .variables
    · have hstep : (r.enter .top).step t = r.enter (.variables t.line t.column) := by
        simp [step, stepTop, hvariables]
      rw [hstep]
      exact finish_foldl_variables (by simpa [opensBlock, hvariables] using hopens)
    · have hstep : (r.enter .top).step t = r.enter .top := by
        cases hrole : t.role <;> simp_all [step, stepTop]
      rw [hstep]

/-! ## Headings -/

/-- The rest of a header makes no difference. -/
theorem foldl_header {header : List Token} (hts : ∀ t ∈ header, t.role ≠ .procedure)
    (hheader : ∀ t ∈ header, t.endsHeader = false) (name : String) (line column : Nat) :
    header.foldl step (r.enter (.header name line column)) =
      r.enter (.header name line column) := by
  induction header with
  | nil => rfl
  | cons t ts ih =>
    obtain ⟨ht, hts⟩ := List.forall_mem_cons.1 hts
    obtain ⟨hnot, hheader⟩ := List.forall_mem_cons.1 hheader
    have hstep : (r.enter (.header name line column)).step t =
        r.enter (.header name line column) := by
      cases hrole : t.role <;> simp_all [step, Token.endsHeader]
    rw [List.foldl_cons, hstep]
    exact ih hts hheader

/-- The body of a procedure, and what stands behind it. -/
theorem finish_foldl_body (hts : ∀ t ∈ ts, t.role ≠ .procedure) (name : String)
    (line column : Nat) :
    ((ts.foldl step (r.enter (.body name line column 0))).finish last).enter .top =
      match afterEnd? 0 ts with
      | some (e, rest) => ((r.define name ⟨line, e.line⟩ column).readItems rest).enter .top
      | none => (r.cutOff name line column last).enter .top := by
  rcases foldl_body (r := r) hts name line column with ⟨e, rest, hend, heq⟩ | ⟨hend, n, heq⟩ <;>
    rw [hend, heq]
  · obtain ⟨inner, rfl⟩ := exists_of_afterEnd?_eq_some hend
    exact finish_foldl_top fun t ht => hts t (by simp [ht])
  · simp [finish, cutOff]

/-- Reading the tokens behind a `procedure` comes to the same as entering what they say and then
the items that they leave over. -/
theorem finish_foldl_naming {heading : Heading} {rest : List Token} (h : Says ts heading rest)
    (hts : ∀ t ∈ ts, t.role ≠ .procedure) (opener : Token) :
    ((ts.foldl step (r.enter (.naming opener.line opener.column))).finish last).enter .top =
      ((r.readHeading opener last heading).readItems rest).enter .top := by
  -- After the name and the rest of the header.
  have hnamed : ∀ {name : Token} {header rest : List Token}, name.isName = true →
      (∀ t ∈ header, t.endsHeader = false) → (∀ t ∈ name :: (header ++ rest), t.role ≠ .procedure) →
        (name :: (header ++ rest)).foldl step (r.enter (.naming opener.line opener.column)) =
          rest.foldl step (r.enter (.header name.text opener.line opener.column)) := by
    intro name header rest hname hheader hts
    have hstep : (r.enter (.naming opener.line opener.column)).step name =
        r.enter (.header name.text opener.line opener.column) := by
      cases hrole : name.role <;> simp [Token.isName, hrole] at hname <;> simp [step, hrole]
    have hts : ∀ t ∈ header, t.role ≠ .procedure := fun t ht => hts t (by simp [ht])
    rw [List.foldl_cons, List.foldl_append, hstep, foldl_header hts hheader]
  cases h with
  | nameless hname =>
    cases ts with
    | nil => simp [readHeading, readItems, items, finish]
    | cons t ts =>
      have hstep : (r.enter (.naming opener.line opener.column)).step t =
          (r.enter .top).step t := by
        have hnot := hname t rfl
        cases hrole : t.role <;> simp [Token.isName, hrole] at hnot <;> simp [step, hrole]
      rw [List.foldl_cons, hstep]
      exact finish_foldl_top hts
  | @unfinished name header hname hheader =>
    rw [← List.append_nil header, hnamed hname hheader (by simpa using hts)]
    simp [finish, readHeading, missBody, readItems, items]
  | @declared name stop header rest hname hheader hstop =>
    rw [hnamed hname hheader hts]
    have hstep : (r.enter (.header name.text opener.line opener.column)).step stop =
        (r.declare name.text opener.line).enter .top := by simp [step, hstop]
    rw [List.foldl_cons, hstep]
    exact finish_foldl_top fun t ht => hts t (by simp [ht])
  | @defined name start e header body rest hname hheader hstart hend =>
    rw [hnamed hname hheader hts]
    have hstep : (r.enter (.header name.text opener.line opener.column)).step start =
        r.enter (.body name.text opener.line opener.column 0) := by simp [step, hstart]
    rw [List.foldl_cons, hstep, finish_foldl_body fun t ht => hts t (by simp [ht]), hend]
    rfl
  | @cutOff name start header body hname hheader hstart hend =>
    rw [hnamed hname hheader hts]
    have hstep : (r.enter (.header name.text opener.line opener.column)).step start =
        r.enter (.body name.text opener.line opener.column 0) := by simp [step, hstart]
    rw [List.foldl_cons, hstep, finish_foldl_body fun t ht => hts t (by simp [ht]), hend]
    simp [readHeading, readItems, items]

theorem finish_foldl_segment (hs : ∀ t ∈ s.tokens, t.role ≠ .procedure) (hr : r.context = .top) :
    ((s.tokens.foldl step (r.enter (.naming s.opener.line s.opener.column))).finish s.last).enter
        .top = r.readSegment s := by
  rw [finish_foldl_naming s.says_parse hs]
  exact enter_of_context ((context_readSegment r s).trans hr)

/-! ## The whole text -/

/-- `procedure` ends whatever is open, as the end of the text would on the line before. -/
theorem step_procedure (ht : t.role = .procedure) :
    r.step t = (r.finish (t.line - 1)).enter (.naming t.line t.column) := by
  unfold step finish
  cases r.context <;> simp [ht, stepTop, missBody, cutOff, cutOffBlock]

/-- No `procedure` stands within a segment, nor in front of the first one. -/
theorem role_of_cut (lastLine : Nat) (ts : List Token) :
    (∀ t ∈ (cut lastLine ts).1, t.role ≠ .procedure) ∧
      ∀ s ∈ (cut lastLine ts).2, ∀ t ∈ s.tokens, t.role ≠ .procedure := by
  induction ts with
  | nil => simp [cut]
  | cons t ts ih =>
    rw [cut]
    split
    · exact ⟨by simp, List.forall_mem_cons.2 ih⟩
    · next ht => exact ⟨List.forall_mem_cons.2 ⟨ht, ih.1⟩, ih.2⟩

theorem finish_foldl_cut (lastLine : Nat) (ts : List Token) (r : Reading) :
    ((ts.foldl step r).finish lastLine).enter .top =
      (cut lastLine ts).2.foldl readSegment
        ((((cut lastLine ts).1.foldl step r).finish (lastBefore lastLine (cut lastLine ts).2)).enter
          .top) := by
  induction ts generalizing r with
  | nil => rfl
  | cons t ts ih =>
    rw [List.foldl_cons, cut, ih]
    split
    · next ht =>
      rw [step_procedure ht, List.foldl_cons]
      congr 1
      exact finish_foldl_segment (r := (r.finish (t.line - 1)).enter .top) (s := ⟨t, _, _⟩)
        (role_of_cut lastLine ts).1 rfl
    · rfl

/-- The reading of a text, segment by segment. -/
def bySegments (text : List Char) : Reading :=
  (segments text).foldl readSegment (readItems {} (leadingTokens text))

/-- Reading a text token by token comes to the same as reading it segment by segment. -/
theorem finish_ofTokens (text : List Char) :
    ((ofTokens (codeTokens text)).finish (cleanLines text).length).enter .top =
      bySegments text := by
  have hlead := (role_of_cut (cleanLines text).length (codeTokens text)).1
  unfold ofTokens
  rw [finish_foldl_cut, show ({} : Reading) = enter {} .top from rfl, finish_foldl_top hlead,
    enter_of_context (context_readItems _ _)]
  rfl

end ScriptDesk.Script.Reading
