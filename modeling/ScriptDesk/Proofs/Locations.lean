import ScriptDesk.CommandLine.Location
import ScriptDesk.Proofs.Numerals
import ScriptDesk.Text.Offset

/-!
# ScriptDesk.Proofs.Locations

Reading a location inverts writing it (`Location.reads_back`). A line that is read was written
behind the last colon of the text, and a path with a line is read back, whatever colons, digits and
drives it has in it. The one exception are paths of one ASCII character, since these are taken for
drives.

Read by offsets into the bytes of the text (`Location.ofOffsets?`), a location comes out as well:
the drive is found by its second byte, which no longer character has, and so no offset ever cuts a
character.
-/

namespace ScriptDesk

namespace Location

/-! ## Splitting -/

theorem splitLastColon?_eq_none_iff {cs : List Char} : splitLastColon? cs = none ↔ ':' ∉ cs := by
  induction cs with
  | nil => simp [splitLastColon?]
  | cons c rest ih =>
    rw [splitLastColon?, List.mem_cons]
    split
    · next before after hrest =>
      have hmem : ':' ∈ rest := by
        by_contra hno
        rw [ih.2 hno] at hrest
        contradiction
      simp [hmem]
    · next hrest =>
      have hno := ih.1 hrest
      simp [hno, eq_comm]

/-- The colon at which is cut is the last one. -/
theorem splitLastColon?_eq_some_iff {cs before after : List Char} :
    splitLastColon? cs = some (before, after) ↔ before ++ ':' :: after = cs ∧ ':' ∉ after := by
  constructor
  · intro h
    refine ⟨append_of_splitLastColon? h, ?_⟩
    induction cs generalizing before with
    | nil => contradiction
    | cons c rest ih =>
      rw [splitLastColon?] at h
      split at h
      · next before after' hrest =>
        cases h
        exact ih hrest
      · next hrest =>
        split at h
        · cases h
          exact splitLastColon?_eq_none_iff.1 hrest
        · contradiction
  · rintro ⟨rfl, hlast⟩
    induction before with
    | nil => simp [splitLastColon?, splitLastColon?_eq_none_iff.2 hlast]
    | cons c before ih => simp [splitLastColon?, ih]

/-- Only a text that starts with an ASCII character and a colon has a drive, and only if it goes on
behind them. -/
theorem splitDrive_cases (cs : List Char) :
    (∃ c d rest, c.toNat < 128 ∧ cs = c :: ':' :: d :: rest ∧
      splitDrive cs = ([c, ':'], d :: rest)) ∨
    splitDrive cs = ([], cs) ∧ ∀ c d rest, cs = c :: ':' :: d :: rest → 128 ≤ c.toNat := by
  unfold splitDrive
  split
  · next c d rest =>
    split
    · next hc => exact .inl ⟨c, d, rest, hc, rfl, rfl⟩
    · next hc =>
      refine .inr ⟨rfl, fun _ _ _ heq => ?_⟩
      cases heq
      exact Nat.le_of_not_lt hc
  · next hno => exact .inr ⟨rfl, fun c d rest heq => absurd heq (hno c d rest)⟩

theorem lineNumber?_eq_some_iff {cs : List Char} {n : Nat} :
    lineNumber? cs = some n ↔ 0 < n ∧ n < UInt32.size ∧ Text.Writes cs n := by
  rw [lineNumber?, Option.filter_eq_some_iff, Text.natural?_eq_some_iff, decide_eq_true_eq,
    and_comm]

/-! ## Reading by offsets -/

/-- The number of bytes that the drive takes. -/
def driveLength (cs : List Char) : Nat :=
  if 2 < (Text.bytes cs).length ∧ (Text.bytes cs)[1]? = some (UInt8.ofNat ':'.toNat) then 2 else 0

/-- Reads a location by offsets. There is none if an offset is no place to cut at. -/
def ofOffsets? (s : String) : Option Location :=
  let drive := driveLength s.toList
  (Text.cutAt? drive s.toList).bind fun cut =>
    match Text.lastOffset? ':' cut.2 with
    | none => some ⟨s, none⟩
    | some colon =>
      (Text.cutAt? (drive + colon + 1) s.toList).bind fun cut =>
        match lineNumber? cut.2 with
        | none => some ⟨s, none⟩
        | some line =>
          (Text.cutAt? (drive + colon) s.toList).map fun cut =>
            ⟨String.ofList cut.1, some line⟩

/-- The second byte of a text is a colon only if its second character is one. -/
theorem driveLength_eq (cs : List Char) :
    driveLength cs = (Text.bytes (splitDrive cs).1).length := by
  have hcolon : (Text.bytes cs)[1]? = some (UInt8.ofNat ':'.toNat) ↔
      ∃ c rest, c.toNat < 128 ∧ cs = c :: ':' :: rest :=
    Text.getElem?_one_bytes_eq_iff (by decide)
  unfold driveLength
  rcases splitDrive_cases cs with ⟨c, d, rest, hc, rfl, hsplit⟩ | ⟨hsplit, hno⟩
  · have hone : (Text.bytes [c, ':']).length = 2 := by
      simp only [Text.bytes_cons, Text.utf8EncodeChar_of_lt hc]
      rfl
    have hlong : 2 < (Text.bytes (c :: ':' :: d :: rest)).length := by
      have happend : Text.bytes (c :: ':' :: d :: rest) =
          Text.bytes [c, ':'] ++ Text.bytes (d :: rest) := Text.bytes_append [c, ':'] _
      have hpos := d.utf8Size_pos
      rw [happend, List.length_append, hone, Text.bytes_cons, List.length_append,
        String.length_utf8EncodeChar]
      omega
    rw [if_pos ⟨hlong, hcolon.2 ⟨c, d :: rest, hc, rfl⟩⟩, hsplit, hone]
  · have hshort : ¬ (2 < (Text.bytes cs).length ∧
        (Text.bytes cs)[1]? = some (UInt8.ofNat ':'.toNat)) := by
      rintro ⟨hlong, hsecond⟩
      obtain ⟨c, rest, hc, rfl⟩ := hcolon.1 hsecond
      cases rest with
      | nil =>
        simp only [Text.bytes_cons, Text.utf8EncodeChar_of_lt hc] at hlong
        contradiction
      | cons d rest => exact absurd (hno c d rest rfl) (Nat.not_le.2 hc)
    rw [if_neg hshort, hsplit]
    rfl

theorem lastOffset?_colon (cs : List Char) :
    Text.lastOffset? ':' cs =
      (splitLastColon? cs).map fun split => (Text.bytes split.1).length := by
  induction cs with
  | nil => rfl
  | cons c rest ih =>
    rw [Text.lastOffset?, splitLastColon?, ih]
    cases splitLastColon? rest with
    | none =>
      by_cases hc : c = ':' <;> simp [hc]
    | some split => simp

/-- Reading by offsets never cuts a character, and it reads the same. -/
theorem ofOffsets?_eq (s : String) : ofOffsets? s = some (ofString s) := by
  have hsplit := append_splitDrive s.toList
  have hlength := driveLength_eq s.toList
  unfold ofOffsets? ofString
  generalize splitDrive s.toList = parts at hsplit hlength ⊢
  obtain ⟨drive, rest⟩ := parts
  dsimp only at hsplit hlength ⊢
  rw [hlength, ← hsplit, Text.cutAt?_append, Option.bind_some, lastOffset?_colon]
  cases hcolon : splitLastColon? rest with
  | none => rfl
  | some split =>
    obtain ⟨before, after⟩ := split
    obtain ⟨rfl, -⟩ := splitLastColon?_eq_some_iff.1 hcolon
    have hbefore : Text.cutAt? ((Text.bytes drive).length + (Text.bytes before).length)
        (drive ++ (before ++ ':' :: after)) = some (drive ++ before, ':' :: after) := by
      rw [Text.cutAt?_eq_some_iff]
      simp
    have hafter : Text.cutAt? ((Text.bytes drive).length + (Text.bytes before).length + 1)
        (drive ++ (before ++ ':' :: after)) = some (drive ++ before ++ [':'], after) := by
      rw [Text.cutAt?_eq_some_iff]
      simp [Nat.add_assoc, Text.utf8EncodeChar_of_lt (show ':'.toNat < 128 by decide)]
    simp only [Option.map_some, hbefore, hafter, Option.bind_some]
    cases lineNumber? after <;> rfl

/-! ## Writing -/

/-- Writes a location. -/
def render (l : Location) : String :=
  match l.line with
  | some n => l.path ++ ":" ++ toString n
  | none => l.path

/-- A path that is taken for a drive, if a colon follows it: one ASCII character. -/
def IsDrive (path : String) : Prop := ∃ c : Char, c.toNat < 128 ∧ path.toList = [c]

/-- The path and the line are what stands before and behind the last colon that is none of a
drive. -/
theorem ofString_eq_split_iff {text path : String} {n : Nat} :
    ofString text = ⟨path, some n⟩ ↔ ∃ before after,
      splitLastColon? (splitDrive text.toList).2 = some (before, after) ∧
        lineNumber? after = some n ∧ (splitDrive text.toList).1 ++ before = path.toList := by
  unfold ofString
  generalize splitDrive text.toList = parts
  dsimp only
  cases splitLastColon? parts.2 with
  | none => simp
  | some split =>
    obtain ⟨before, after⟩ := split
    dsimp only
    cases hline : lineNumber? after with
    | none => simp [hline]
    | some line => simp [hline, and_comm, ← String.toList_inj]

/-- A path with a line is read from the texts that write them, and only a drive is no path with a
line. -/
theorem ofString_eq_line_iff {text path : String} {n : Nat} :
    ofString text = ⟨path, some n⟩ ↔ 0 < n ∧ n < UInt32.size ∧ ¬ IsDrive path ∧
      ∃ numeral, Text.Writes numeral n ∧ path.toList ++ ':' :: numeral = text.toList := by
  simp only [ofString_eq_split_iff, splitLastColon?_eq_some_iff, lineNumber?_eq_some_iff]
  constructor
  · rintro ⟨before, after, ⟨hrest, hlast⟩, ⟨hpos, hlt, hwrites⟩, hpath⟩
    have htext : path.toList ++ ':' :: after = text.toList := by
      rw [← hpath, List.append_assoc, hrest, append_splitDrive]
    refine ⟨hpos, hlt, ?_, after, hwrites, htext⟩
    rintro ⟨c, hc, hone⟩
    obtain ⟨d, rest, rfl⟩ := List.exists_cons_of_ne_nil hwrites.ne_nil
    rcases splitDrive_cases text.toList with ⟨_, _, _, -, -, hsplit⟩ | ⟨-, hno⟩
    · rw [hsplit, hone] at hpath
      have hlength := congrArg List.length hpath
      simp at hlength
    · rw [hone] at htext
      exact absurd (hno c d rest htext.symm) (Nat.not_le.2 hc)
  · rintro ⟨hpos, hlt, hdrive, numeral, hwrites, htext⟩
    have hlast := hwrites.colon_notMem
    have hline : 0 < n ∧ n < UInt32.size ∧ Text.Writes numeral n := ⟨hpos, hlt, hwrites⟩
    rcases splitDrive_cases text.toList with ⟨c, d, rest, hc, heq, hsplit⟩ | ⟨hsplit, -⟩
    · rw [heq] at htext
      rw [hsplit]
      match hpath : path.toList with
      | [] =>
        rw [hpath, List.nil_append] at htext
        have hmem : ':' ∈ numeral := List.tail_eq_of_cons_eq htext ▸ List.mem_cons_self
        contradiction
      | [x] =>
        rw [hpath] at htext
        exact absurd ⟨c, hc, List.head_eq_of_cons_eq htext ▸ hpath⟩ hdrive
      | x :: y :: before =>
        simp only [hpath, List.cons_append, List.cons.injEq] at htext
        obtain ⟨rfl, rfl, hrest⟩ := htext
        exact ⟨before, numeral, ⟨hrest, hlast⟩, hline, rfl⟩
    · rw [hsplit]
      exact ⟨path.toList, numeral, ⟨htext, hlast⟩, hline, rfl⟩

-- The colon of a drive is no colon of a line, also where nothing but a number follows it.
example : ofString "C:7" = ⟨"C:7", none⟩ ∧ ofString "C::7" = ⟨"C:", some 7⟩ := by
  decide +kernel

/-- A path that is read without a line is the whole text. -/
theorem path_of_ofString {text path : String} (h : ofString text = ⟨path, none⟩) : path = text := by
  unfold ofString at h
  dsimp only at h
  split at h
  · split at h <;> cases h
    rfl
  · cases h
    rfl

/-- A location that is written is read back. -/
theorem ofString_render {path : String} {n : Nat} (hdrive : ¬ IsDrive path) (hpos : 0 < n)
    (hlt : n < UInt32.size) : ofString (render ⟨path, some n⟩) = ⟨path, some n⟩ := by
  refine ofString_eq_line_iff.2 ⟨hpos, hlt, hdrive, _, Text.writes_toDigits n, ?_⟩
  simp [render]

/-- Reading and writing a location, as one sees it on a text. -/
structure ReadsBack (text : String) : Prop where
  /-- Read by offsets into its bytes, no character of the text is cut. -/
  uncut : ofOffsets? text = some (ofString text)
  /-- If the text is a written path with a line, these are read. -/
  written : ∀ path n, ¬ IsDrive path → 0 < n → n < UInt32.size → text = render ⟨path, some n⟩ →
    ofString text = ⟨path, some n⟩
  /-- If a line is read, it stands behind the last colon of the text, maybe with zeros and a plus
  sign in front, and its path before it. -/
  line : ∀ path n, ofString text = ⟨path, some n⟩ →
    0 < n ∧ n < UInt32.size ∧ ∃ numeral, ':' ∉ numeral ∧ Text.Writes numeral n ∧
      text = path ++ ":" ++ String.ofList numeral
  /-- If no line is read, the text is a path. -/
  noLine : ∀ path, ofString text = ⟨path, none⟩ → path = text
  /-- What is read is read again when it is written. -/
  again : ofString (render (ofString text)) = ofString text

/-- Reading a location inverts writing it, for any text. -/
theorem reads_back (text : String) : ReadsBack text where
  uncut := ofOffsets?_eq text
  written := by
    rintro path n hdrive hpos hlt rfl
    exact ofString_render hdrive hpos hlt
  line := by
    intro path n h
    obtain ⟨hpos, hlt, -, numeral, hwrites, htext⟩ := ofString_eq_line_iff.1 h
    refine ⟨hpos, hlt, numeral, hwrites.colon_notMem, hwrites, String.toList_inj.1 ?_⟩
    simp [← htext]
  noLine := fun path => path_of_ofString
  again := by
    cases h : ofString text with
    | mk path line =>
      cases line with
      | none =>
        obtain rfl := path_of_ofString h
        exact h
      | some n =>
        obtain ⟨hpos, hlt, hdrive, -⟩ := ofString_eq_line_iff.1 h
        exact ofString_render hdrive hpos hlt

end Location

end ScriptDesk
