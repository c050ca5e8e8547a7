/-!
# ScriptDesk.Text.Offset

Places in a text as offsets into its UTF-8 bytes. An offset behind the end or inside of a character
is no place to cut at (`cutAt?_eq_some_iff`).
-/

namespace ScriptDesk.Text

/-- The bytes of a text in UTF-8. -/
def bytes (cs : List Char) : List UInt8 := cs.flatMap String.utf8EncodeChar

/-- Cuts a text at an offset, if this does not cut a character. -/
def cutAt? : Nat → List Char → Option (List Char × List Char)
  | 0, cs => some ([], cs)
  | _ + 1, [] => none
  | n + 1, c :: rest =>
    if c.utf8Size ≤ n + 1 then
      (cutAt? (n + 1 - c.utf8Size) rest).map fun (before, after) => (c :: before, after)
    else none

/-- The offset of the last occurrence of a character. -/
def lastOffset? (c : Char) : List Char → Option Nat
  | [] => none
  | d :: rest =>
    match lastOffset? c rest with
    | some n => some (d.utf8Size + n)
    | none => if d = c then some 0 else none

@[simp] theorem bytes_nil : bytes [] = [] := rfl

@[simp] theorem bytes_cons (c : Char) (cs : List Char) :
    bytes (c :: cs) = String.utf8EncodeChar c ++ bytes cs := rfl

@[simp] theorem bytes_append (before after : List Char) :
    bytes (before ++ after) = bytes before ++ bytes after :=
  List.flatMap_append

/-- Cutting behind what comes first. -/
theorem cutAt?_append (before after : List Char) :
    cutAt? (bytes before).length (before ++ after) = some (before, after) := by
  induction before with
  | nil => simp [cutAt?]
  | cons c before ih =>
    have hsize := c.utf8Size_pos
    obtain ⟨n, hn⟩ : ∃ n, (bytes (c :: before)).length = n + 1 :=
      Nat.exists_eq_succ_of_ne_zero (by simp; omega)
    have hrest : n + 1 - c.utf8Size = (bytes before).length := by
      rw [← hn]
      simp
    have hle : c.utf8Size ≤ n + 1 := by
      rw [← hn]
      simp
    rw [hn, List.cons_append, cutAt?, if_pos hle, hrest, ih]
    rfl

/-- The offsets at which a text can be cut are the lengths of what then comes first. -/
theorem cutAt?_eq_some_iff {n : Nat} {cs before after : List Char} :
    cutAt? n cs = some (before, after) ↔ before ++ after = cs ∧ (bytes before).length = n := by
  constructor
  · intro h
    fun_induction cutAt? n cs generalizing before with
    | case1 cs =>
      cases h
      exact ⟨rfl, rfl⟩
    | case2 n => contradiction
    | case3 n c rest hle ih =>
      obtain ⟨⟨start, after⟩, hcut, heq⟩ := Option.map_eq_some_iff.1 h
      cases heq
      obtain ⟨rfl, hlength⟩ := ih hcut
      refine ⟨rfl, ?_⟩
      rw [bytes_cons, List.length_append, hlength, String.length_utf8EncodeChar]
      omega
    | case4 n c rest hgt => contradiction
  · rintro ⟨rfl, rfl⟩
    exact cutAt?_append before after

/-! ## What the bytes tell -/

/-- An ASCII character is the one byte of its own number. The bytes of the others, two at least,
are no ASCII. -/
theorem utf8EncodeChar_cases (c : Char) :
    (c.toNat < 128 ∧ String.utf8EncodeChar c = [UInt8.ofNat c.toNat]) ∨
      128 ≤ c.toNat ∧
        ∃ a b rest, String.utf8EncodeChar c = a :: b :: rest ∧ 128 ≤ a.toNat ∧ 128 ≤ b.toNat := by
  have hsize : UInt8.size = 256 := rfl
  fun_cases String.utf8EncodeChar c with
  | case1 v hone => exact .inl ⟨Nat.lt_succ_of_le hone, rfl⟩
  | case2 v hone htwo =>
    refine .inr ⟨Nat.lt_of_not_le hone, _, _, _, rfl, ?_, ?_⟩ <;>
      rw [UInt8.toNat_ofNat_of_lt'] <;> omega
  | case3 v hone htwo hthree =>
    refine .inr ⟨Nat.lt_of_not_le hone, _, _, _, rfl, ?_, ?_⟩ <;>
      rw [UInt8.toNat_ofNat_of_lt'] <;> omega
  | case4 v hone htwo hthree =>
    refine .inr ⟨Nat.lt_of_not_le hone, _, _, _, rfl, ?_, ?_⟩ <;>
      rw [UInt8.toNat_ofNat_of_lt'] <;> omega

theorem utf8EncodeChar_of_lt {c : Char} (h : c.toNat < 128) :
    String.utf8EncodeChar c = [UInt8.ofNat c.toNat] := by
  rcases utf8EncodeChar_cases c with ⟨-, heq⟩ | ⟨hc, -⟩
  · exact heq
  · omega

/-- The first byte of a character shows whether it is a given ASCII character. -/
theorem head?_utf8EncodeChar_eq_iff {c d : Char} (hd : d.toNat < 128) :
    (String.utf8EncodeChar c).head? = some (UInt8.ofNat d.toNat) ↔ c = d := by
  have hsize : UInt8.size = 256 := rfl
  have hbyte : (UInt8.ofNat d.toNat).toNat = d.toNat := UInt8.toNat_ofNat_of_lt' (by omega)
  rcases utf8EncodeChar_cases c with ⟨hc, heq⟩ | ⟨hc, a, b, rest, heq, ha, -⟩
  · rw [heq, List.head?_cons, Option.some.injEq, ← UInt8.toNat_inj, hbyte,
      UInt8.toNat_ofNat_of_lt' (by omega), Char.toNat_inj]
  · rw [heq, List.head?_cons, Option.some.injEq, ← UInt8.toNat_inj, hbyte]
    constructor
    · intro h
      omega
    · rintro rfl
      omega

/-- A text with an ASCII character for its second byte has it for its second character, and another
one before it. -/
theorem getElem?_one_bytes_eq_iff {cs : List Char} {d : Char} (hd : d.toNat < 128) :
    (bytes cs)[1]? = some (UInt8.ofNat d.toNat) ↔
      ∃ c rest, c.toNat < 128 ∧ cs = c :: d :: rest := by
  cases cs with
  | nil => simp
  | cons c tail =>
    rcases utf8EncodeChar_cases c with ⟨hc, heq⟩ | ⟨hc, a, b, rest, heq, -, hb⟩
    · cases tail with
      | nil => simp [heq]
      | cons e rest =>
        have hhead : (bytes (c :: e :: rest))[1]? = (String.utf8EncodeChar e).head? := by
          obtain ⟨b, more, he⟩ := List.exists_cons_of_ne_nil (@String.utf8EncodeChar_ne_nil e)
          simp [heq, he]
        rw [hhead, head?_utf8EncodeChar_eq_iff hd]
        constructor
        · rintro rfl
          exact ⟨c, rest, hc, rfl⟩
        · rintro ⟨_, _, -, h⟩
          cases h
          rfl
    · have hsecond : (bytes (c :: tail))[1]? = some b := by
        rw [bytes_cons, heq]
        rfl
      rw [hsecond, Option.some.injEq, ← UInt8.toNat_inj,
        UInt8.toNat_ofNat_of_lt' (show d.toNat < 256 by omega)]
      constructor
      · intro h
        omega
      · rintro ⟨_, _, hlt, h⟩
        cases h
        omega

end ScriptDesk.Text
