import ScriptDesk.Script.Structure

/-!
# ScriptDesk.Script.Segment

A script by its `procedure`s. Cut at every `procedure`, the tokens of a text fall into
segments. What a segment says about its procedure (`Segment.heading`), and the tokens that it
leaves over (`Segment.remaining`), can be told from the segment alone; the table of
procedures is put together from what the segments say (`tableOf`).

`Script.Structure` reads the same tokens one at a time. Here nothing is read: every part is
found by looking for the token that ends it.
-/

namespace ScriptDesk.Script

/-! ## Matching ends -/

/-- The `end` that closes what was open before these tokens, and what follows it. Of the
`begin`s among the tokens `nested` more are open before that one. -/
def afterEnd? : (nested : Nat) → List Token → Option (Token × List Token)
  | _, [] => none
  | nested, t :: ts =>
    match t.role with
    | .opening => afterEnd? (nested + 1) ts
    | .closing =>
      match nested with
      | 0 => some (t, ts)
      | nested + 1 => afterEnd? nested ts
    | _ => afterEnd? nested ts

theorem exists_of_afterEnd?_eq_some {nested : Nat} {ts : List Token} {e : Token} {rest : List Token}
    (h : afterEnd? nested ts = some (e, rest)) : ∃ inner, ts = inner ++ e :: rest := by
  fun_induction afterEnd? nested ts with
  | case1 => contradiction
  | case2 nested t ts _ ih | case4 t ts nested _ ih | case5 nested t ts _ _ ih =>
    obtain ⟨inner, rfl⟩ := ih h
    exact ⟨t :: inner, rfl⟩
  | case3 t ts =>
    obtain ⟨rfl, rfl⟩ := Prod.mk.inj (Option.some.inj h)
    exact ⟨[], rfl⟩

theorem length_lt_of_afterEnd?_eq_some {nested : Nat} {ts : List Token} {e : Token}
    {rest : List Token} (h : afterEnd? nested ts = some (e, rest)) : rest.length < ts.length := by
  obtain ⟨inner, rfl⟩ := exists_of_afterEnd?_eq_some h
  rw [List.length_append, List.length_cons]
  omega

/-! ## Segments -/

/-- A `procedure` and what stands between it and the next one. -/
structure Segment where
  opener : Token
  tokens : List Token
  /-- The line before the next `procedure`; without one, the last line of the text. -/
  last : Nat
deriving Repr

/-- The last line that can belong to what stands before these segments. -/
def lastBefore (lastLine : Nat) : List Segment → Nat
  | [] => lastLine
  | s :: _ => s.opener.line - 1

/-- Cuts the tokens of a text with that many lines: the tokens in front of the first
`procedure`, and the segments. -/
def cut (lastLine : Nat) : List Token → List Token × List Segment
  | [] => ([], [])
  | t :: ts =>
    if t.role = .procedure then
      ([], ⟨t, (cut lastLine ts).1, lastBefore lastLine (cut lastLine ts).2⟩ :: (cut lastLine ts).2)
    else (t :: (cut lastLine ts).1, (cut lastLine ts).2)

/-- Cutting loses nothing. -/
theorem cut_append (lastLine : Nat) (ts : List Token) :
    (cut lastLine ts).1 ++ (cut lastLine ts).2.flatMap (fun s => s.opener :: s.tokens) = ts := by
  induction ts with
  | nil => rfl
  | cons t ts ih =>
    rw [cut]
    split <;> simp [ih]

/-- The tokens of a text in front of its first `procedure`. -/
def leadingTokens (text : List Char) : List Token :=
  (cut (cleanLines text).length (codeTokens text)).1

/-- The segments of a text. -/
def segments (text : List Char) : List Segment :=
  (cut (cleanLines text).length (codeTokens text)).2

/-- What a segment says about its procedure. -/
inductive Heading where
  /-- There is no name behind `procedure`. -/
  | nameless
  /-- There is neither a `;` nor a `begin` behind the name. -/
  | unfinished (name : String)
  | declared (name : String)
  /-- The `end` that matches the `begin` of the body is on line `last`. -/
  | defined (name : String) (last : Nat)
  /-- No `end` matches the `begin` of the body. -/
  | cutOff (name : String)
deriving DecidableEq, Repr

/-- A procedure can have any name but `;`, `procedure`, `begin` and `end`. -/
def Token.isName (t : Token) : Bool := t.role = .variables || t.role = .word

/-- A header ends with `;` or with the `begin` of the body. -/
def Token.endsHeader (t : Token) : Bool := t.role = .semicolon || t.role = .opening

/-- Tokens behind a `procedure`, what they say about it, and which of them they leave over. -/
inductive Says : List Token → Heading → List Token → Prop where
  | nameless {ts : List Token} (hname : ∀ t ∈ ts.head?, t.isName = false) : Says ts .nameless ts
  | unfinished {name : Token} {header : List Token} (hname : name.isName = true)
      (hheader : ∀ t ∈ header, t.endsHeader = false) :
      Says (name :: header) (.unfinished name.text) []
  | declared {name stop : Token} {header rest : List Token} (hname : name.isName = true)
      (hheader : ∀ t ∈ header, t.endsHeader = false) (hstop : stop.role = .semicolon) :
      Says (name :: (header ++ stop :: rest)) (.declared name.text) rest
  | defined {name start e : Token} {header body rest : List Token} (hname : name.isName = true)
      (hheader : ∀ t ∈ header, t.endsHeader = false) (hstart : start.role = .opening)
      (hend : afterEnd? 0 body = some (e, rest)) :
      Says (name :: (header ++ start :: body)) (.defined name.text e.line) rest
  | cutOff {name start : Token} {header body : List Token} (hname : name.isName = true)
      (hheader : ∀ t ∈ header, t.endsHeader = false) (hstart : start.role = .opening)
      (hend : afterEnd? 0 body = none) :
      Says (name :: (header ++ start :: body)) (.cutOff name.text) []

namespace Segment

/-- What the segment says about its procedure, and the tokens that it leaves over. -/
def parse (s : Segment) : Heading × List Token :=
  match s.tokens with
  | [] => (.nameless, [])
  | name :: rest =>
    if name.isName then
      match rest.dropWhile (!·.endsHeader) with
      | [] => (.unfinished name.text, [])
      | stop :: rest =>
        if stop.role = .semicolon then (.declared name.text, rest)
        else
          match afterEnd? 0 rest with
          | some (e, rest) => (.defined name.text e.line, rest)
          | none => (.cutOff name.text, [])
    else (.nameless, name :: rest)

def heading (s : Segment) : Heading := s.parse.1

def remaining (s : Segment) : List Token := s.parse.2

theorem says_parse (s : Segment) : Says s.tokens s.heading s.remaining := by
  obtain ⟨opener, tokens, last⟩ := s
  unfold heading remaining parse
  dsimp only
  split
  · exact .nameless nofun
  · next name ts =>
    split
    · next hname =>
      have hheader : ∀ t ∈ ts.takeWhile (!·.endsHeader), t.endsHeader = false := fun t ht => by
        have hall := List.all_takeWhile (p := fun t : Token => !t.endsHeader) (l := ts)
        simpa using List.all_eq_true.1 hall t ht
      have hsplit := List.takeWhile_append_dropWhile (p := fun t : Token => !t.endsHeader) (l := ts)
      split
      · next hrest =>
        rw [hrest, List.append_nil] at hsplit
        rw [hsplit] at hheader
        exact .unfinished hname hheader
      · next stop rest hrest =>
        have hstop : stop.endsHeader = true := by
          have := List.head?_dropWhile_not (fun t : Token => !t.endsHeader) ts
          simpa [hrest] using this
        rw [hrest] at hsplit
        rw [← hsplit]
        split
        · next hsemicolon => exact .declared hname hheader hsemicolon
        · next hother =>
          have hstart : stop.role = .opening := by simpa [Token.endsHeader, hother] using hstop
          split
          · next e rest hend => exact .defined hname hheader hstart hend
          · next hend => exact .cutOff hname hheader hstart hend
    · next hname => exact .nameless (by simpa using hname)

theorem dropWhile_header {header : List Token} (h : ∀ t ∈ header, t.endsHeader = false)
    (rest : List Token) :
    (header ++ rest).dropWhile (!·.endsHeader) = rest.dropWhile (!·.endsHeader) :=
  List.dropWhile_append_of_pos (by simpa using h)

/-- Tokens say one thing only. -/
theorem parse_eq {s : Segment} {ts rest : List Token} {heading : Heading}
    (hs : s.tokens = ts) (h : Says ts heading rest) : s.parse = (heading, rest) := by
  unfold parse
  rw [hs]
  cases h with
  | nameless hname =>
    cases ts with
    | nil => rfl
    | cons name ts => simp [hname name rfl]
  | @unfinished name header hname hheader =>
    have hdrop := dropWhile_header hheader []
    rw [List.append_nil, List.dropWhile_nil] at hdrop
    dsimp only
    rw [if_pos hname, hdrop]
  | @declared name stop header rest hname hheader hstop =>
    have hends : stop.endsHeader = true := by simp [Token.endsHeader, hstop]
    simp [hname, dropWhile_header hheader, hends, hstop]
  | @defined name start e header body rest hname hheader hstart hend =>
    have hends : start.endsHeader = true := by simp [Token.endsHeader, hstart]
    simp [hname, dropWhile_header hheader, hends, hstart, hend]
  | @cutOff name start header body hname hheader hstart hend =>
    have hends : start.endsHeader = true := by simp [Token.endsHeader, hstart]
    simp [hname, dropWhile_header hheader, hends, hstart, hend]

end Segment

/-! ## Tokens outside of procedures -/

/-- What stands outside of procedures. -/
inductive Item where
  | opening
  | closing (t : Token)
  /-- A `variable` block, from its `variable` to the matching `end`. -/
  | block (range : LineRange)
  /-- A `variable` block without a matching `end`. -/
  | cutOffBlock (opener : Token)
deriving Repr

/-- A `variable` directly before a `begin` opens a block. -/
def opensBlock (t : Token) (ts : List Token) : Bool :=
  t.role = .variables && ts.head?.any (·.role = .opening)

theorem opensBlock_iff {t : Token} {ts : List Token} :
    opensBlock t ts = true ↔
      t.role = .variables ∧ ∃ b rest, ts = b :: rest ∧ b.role = .opening := by
  cases ts <;> simp [opensBlock]

/-- The items of tokens outside of procedures. -/
def items : List Token → List Item
  | [] => []
  | t :: ts =>
    if opensBlock t ts then
      match _h : afterEnd? 0 ts.tail with
      | some (e, rest) => .block ⟨t.line, e.line⟩ :: items rest
      | none => [.cutOffBlock t]
    else
      match t.role with
      | .opening => .opening :: items ts
      | .closing => .closing t :: items ts
      | _ => items ts
termination_by ts => ts.length
decreasing_by
  · have hlt := length_lt_of_afterEnd?_eq_some _h
    rw [List.length_tail] at hlt
    rw [List.length_cons]
    omega
  all_goals simp

/-! ## The table of procedures -/

/-- A name that a text gives to a procedure. -/
structure Occurrence where
  name : String
  /-- The place of its `procedure`. -/
  line : Nat
  column : Nat
  /-- The line on which the body ends, if there is one. -/
  last? : Option Nat
deriving DecidableEq, Repr

namespace Occurrence

/-- The body, from the `procedure` on. -/
def body (o : Occurrence) : Option LineRange := o.last?.map (⟨o.line, ·⟩)

/-- The occurrence is of that name, in any case. -/
def isNamed (o : Occurrence) (name : String) : Bool := Text.sameCaseless o.name name

end Occurrence

/-- The occurrence of a name in a segment. A body that is cut off ends with the segment, though
not before it starts. -/
def Segment.occurrence? (s : Segment) : Option Occurrence :=
  match s.heading with
  | .nameless => none
  | .unfinished name | .declared name => some ⟨name, s.opener.line, s.opener.column, none⟩
  | .defined name last => some ⟨name, s.opener.line, s.opener.column, some last⟩
  | .cutOff name => some ⟨name, s.opener.line, s.opener.column, some (max s.last s.opener.line)⟩

/-- The occurrences of names of procedures in a text. -/
def occurrences (text : List Char) : List Occurrence :=
  (segments text).filterMap Segment.occurrence?

/-- The first occurrence of that name with a body. -/
def firstBody? (os : List Occurrence) (name : String) : Option Occurrence :=
  os.find? fun o => o.last?.isSome && o.isNamed name

/-- Of the occurrences of each name the first one. -/
def firsts (os : List Occurrence) : List Occurrence := os.eraseDupsBy fun a b => a.isNamed b.name

/-- The entry for a name: where it occurs first, and the first body that any occurrence has. -/
def entry (os : List Occurrence) (first : Occurrence) : Procedure :=
  ⟨first.name, first.line, (firstBody? os first.name).bind (·.body), none⟩

/-- The table of procedures: one entry for each name, in the order of the first occurrences. -/
def tableOf (os : List Occurrence) : List Procedure := (firsts os).map (entry os)

/-- What is reported of an occurrence after others: a body after the first one of its name is a
duplicate of that one. -/
def duplicateOf (earlier : List Occurrence) (o : Occurrence) : List Issue :=
  match o.last?, firstBody? earlier o.name with
  | some _, some first =>
    [⟨.duplicateProcedure o.name first.line, o.line, o.column, o.name.length⟩]
  | _, _ => []

/-- The duplicates among the occurrences that follow on `earlier` ones. -/
def duplicatesAfter (earlier : List Occurrence) : List Occurrence → List Issue
  | [] => []
  | o :: os => duplicateOf earlier o ++ duplicatesAfter (earlier ++ [o]) os

/-- The problem is a second body for a procedure. -/
def Problem.isDuplicate : Problem → Bool
  | .duplicateProcedure _ _ => true
  | _ => false

end ScriptDesk.Script
