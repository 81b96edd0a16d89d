import ExprSampler.Json.Decoder
import ExprSampler.Json.Printer

/-!
# Strings in documents

A string is written in ASCII, and reading it gives the string back. The writer goes from characters
to escapes; the reader takes a detour, from escapes to code points and from those to characters,
for the two halves of a pair are escaped one by one and meet only afterwards. What stands between
the two is the list of UTF-16 units of the string, and each half of the way is about one side of it.
-/

namespace ExprSampler

namespace JsonText

/-! ## Hexadecimal digits -/

theorem hexValue?_digitChar {d : Nat} (h : d < 16) : hexValue? d.digitChar = some d := by
  revert d
  decide

theorem toNat_digitChar_lt {d : Nat} (h : d < 16) : d.digitChar.toNat < 128 := by
  revert d
  decide

theorem hex_succ {width : Nat} (h : 0 < width) (n : Nat) :
    Text.hex (width + 1) n = Text.hex width (n / 16) ++ [(n % 16).digitChar] := by
  by_cases hn : n < 16
  · have hquotient : n / 16 = 0 := Nat.div_eq_of_lt hn
    rw [Text.hex, Text.hex, hquotient, Nat.mod_eq_of_lt hn, Nat.toDigits_of_lt_base hn,
      Nat.toDigits_zero, List.length_singleton, List.length_singleton, Nat.add_sub_cancel,
      ← List.replicate_succ', Nat.sub_add_cancel h]
  · have hdigits : Nat.toDigits 16 n = Nat.toDigits 16 (n / 16) ++ [(n % 16).digitChar] :=
      Nat.toDigits_of_base_le (by decide) (Nat.not_lt.mp hn)
    rw [Text.hex, Text.hex, hdigits, List.length_append, List.length_singleton,
      Nat.add_sub_add_right, List.append_assoc]

/-- A unit is written by four digits, the first of them zeros if it is small. -/
theorem hex_four {n : Nat} (h : n < 0x10000) :
    Text.hex 4 n = [(n / 4096).digitChar, (n / 256 % 16).digitChar, (n / 16 % 16).digitChar,
      (n % 16).digitChar] := by
  have hfirst : Text.hex 1 (n / 4096) = [(n / 4096).digitChar] := by
    rw [Text.hex, Nat.toDigits_of_lt_base (by omega)]
    rfl
  rw [hex_succ (by decide), hex_succ (by decide), hex_succ (by decide), Nat.div_div_eq_div_mul n,
    Nat.div_div_eq_div_mul n, hfirst]
  rfl

theorem unit?_digits {n : Nat} (h : n < 0x10000) :
    unit? (n / 4096).digitChar (n / 256 % 16).digitChar (n / 16 % 16).digitChar
      (n % 16).digitChar = some n := by
  have hvalue : ((n / 4096 * 16 + n / 256 % 16) * 16 + n / 16 % 16) * 16 + n % 16 = n := by omega
  rw [unit?, hexValue?_digitChar (by omega), hexValue?_digitChar (by omega),
    hexValue?_digitChar (by omega), hexValue?_digitChar (by omega)]
  exact congrArg some hvalue

/-! ## Escapes -/

/-- The UTF-16 units of a character. -/
def unitsOf (c : Char) : List Nat :=
  if c.toNat < 0x10000 then [c.toNat]
  else [0xD800 + (c.toNat - 0x10000) / 0x400, 0xDC00 + (c.toNat - 0x10000) % 0x400]

/-- What is read of a string, with some units in front. -/
def withUnits (units : List Nat) (r : Option (List Nat × List Char)) :
    Option (List Nat × List Char) :=
  r.map fun p ↦ (units ++ p.1, p.2)

theorem withUnits_singleton (unit : Nat) (r : Option (List Nat × List Char)) :
    (do let (codes, rest) ← r; some (unit :: codes, rest)) = withUnits [unit] r := by
  cases r <;> rfl

theorem stringCodes_escapeUnit {n : Nat} (h : n < 0x10000) (cs : List Char) :
    stringCodes (escapeUnit n ++ cs) = withUnits [n] (stringCodes cs) := by
  rw [escapeUnit, hex_four h]
  change ((unit? _ _ _ _).bind fun unit ↦ _) = _
  rw [unit?_digits h]
  exact withUnits_singleton n (stringCodes cs)

theorem stringCodes_escaped {c d : Char} (hc : c ≠ 'u') (h : escaped? c = some d)
    (cs : List Char) :
    stringCodes ('\\' :: c :: cs) = withUnits [d.toNat] (stringCodes cs) := by
  rw [stringCodes]
  · rw [h]
    exact withUnits_singleton d.toNat (stringCodes cs)
  · exact fun _ _ _ _ _ hu _ ↦ hc hu

theorem stringCodes_plain {c : Char} (hspace : ¬c < ' ') (hquote : c ≠ '"') (hback : c ≠ '\\')
    (cs : List Char) : stringCodes (c :: cs) = withUnits [c.toNat] (stringCodes cs) := by
  rw [stringCodes]
  · rw [if_neg (not_or.mpr ⟨hspace, hback⟩)]
    exact withUnits_singleton c.toNat (stringCodes cs)
  · exact hquote
  · exact fun _ _ _ _ _ h _ ↦ hback h
  · exact fun _ _ h _ ↦ hback h

/-- No character has the code of half a pair. -/
theorem toNat_valid (c : Char) :
    c.toNat < 0xD800 ∨ 0xDFFF < c.toNat ∧ c.toNat < 0x110000 :=
  c.valid

theorem unitsOf_of_lt {c : Char} (h : c.toNat < 0x10000) : unitsOf c = [c.toNat] :=
  if_pos h

/-- A character is read as its units, whichever way it is written. -/
theorem stringCodes_escapeChar (c : Char) (cs : List Char) :
    stringCodes (escapeChar c ++ cs) = withUnits (unitsOf c) (stringCodes cs) := by
  -- Seven characters have an escape of their own; of the others, printable ones are written as they
  -- are, small ones as one unit and large ones as two.
  rw [escapeChar]
  split
  · next h =>
    rcases h with rfl | rfl
    · exact stringCodes_escaped (d := '"') (by decide) rfl cs
    · exact stringCodes_escaped (d := '\\') (by decide) rfl cs
  next hquote =>
  obtain ⟨hquote, hback⟩ := not_or.mp hquote
  split
  · next h =>
    subst h
    exact stringCodes_escaped (d := '\n') (by decide) rfl cs
  split
  · next h =>
    subst h
    exact stringCodes_escaped (d := '\r') (by decide) rfl cs
  split
  · next h =>
    subst h
    exact stringCodes_escaped (d := '\t') (by decide) rfl cs
  split
  · next h =>
    subst h
    exact stringCodes_escaped (d := '\x08') (by decide) rfl cs
  split
  · next h =>
    subst h
    exact stringCodes_escaped (d := '\x0c') (by decide) rfl cs
  split
  · next h =>
    have hsmall : c.toNat < 0x10000 := Nat.lt_of_le_of_lt (show c.toNat ≤ 126 from h.2) (by decide)
    rw [unitsOf_of_lt hsmall]
    exact stringCodes_plain (Char.not_lt.mpr h.1) hquote hback cs
  split
  · next hsmall =>
    rw [unitsOf_of_lt hsmall]
    exact stringCodes_escapeUnit hsmall cs
  · next hlarge =>
    have hvalid := toNat_valid c
    rw [unitsOf, if_neg hlarge, List.append_assoc, stringCodes_escapeUnit (by omega),
      stringCodes_escapeUnit (by omega)]
    cases stringCodes cs <;> rfl

/-- The units of a string, and what follows its closing quote. -/
theorem stringCodes_flatMap (cs rest : List Char) :
    stringCodes (cs.flatMap escapeChar ++ '"' :: rest) = some (cs.flatMap unitsOf, rest) := by
  induction cs with
  | nil => rfl
  | cons c cs ih =>
    rw [List.flatMap_cons, List.append_assoc, stringCodes_escapeChar, ih]
    rfl

/-! ## Pairs -/

theorem charOfCode_toNat (c : Char) : charOfCode c.toNat = c := by
  rw [charOfCode, if_pos (toNat_valid c), Char.ofNat_toNat]

/-- A character whose units are more than one is told from them. -/
theorem ofNat_pair {c : Char} (h : ¬c.toNat < 0x10000) :
    Char.ofNat (0x10000 + (0xD800 + (c.toNat - 0x10000) / 0x400 - 0xD800) * 0x400
      + (0xDC00 + (c.toNat - 0x10000) % 0x400 - 0xDC00)) = c := by
  have hcode : 0x10000 + (0xD800 + (c.toNat - 0x10000) / 0x400 - 0xD800) * 0x400
      + (0xDC00 + (c.toNat - 0x10000) % 0x400 - 0xDC00) = c.toNat := by omega
  rw [hcode, Char.ofNat_toNat]

/-- Units are joined to the characters they are of. -/
theorem joinPairs_flatMap (cs : List Char) : joinPairs (cs.flatMap unitsOf) = cs := by
  induction cs with
  | nil => rfl
  | cons c cs ih =>
    rw [List.flatMap_cons]
    by_cases hsmall : c.toNat < 0x10000
    · -- A small character is not half a pair, so it is not joined to what follows.
      have hwhole : ¬(0xD800 ≤ c.toNat ∧ c.toNat < 0xDC00) := by
        have hvalid := toNat_valid c
        omega
      rw [unitsOf_of_lt hsmall, List.singleton_append]
      generalize cs.flatMap unitsOf = units at ih ⊢
      cases units with
      | nil =>
        rw [← ih, joinPairs, joinPairs, charOfCode_toNat]
      | cons unit units =>
        rw [joinPairs, if_neg fun h ↦ hwhole ⟨h.1, h.2.1⟩, charOfCode_toNat, ih]
    · have hpair : 0xD800 ≤ 0xD800 + (c.toNat - 0x10000) / 0x400 ∧
          0xD800 + (c.toNat - 0x10000) / 0x400 < 0xDC00 ∧
          0xDC00 ≤ 0xDC00 + (c.toNat - 0x10000) % 0x400 ∧
          0xDC00 + (c.toNat - 0x10000) % 0x400 < 0xE000 := by
        have hvalid := toNat_valid c
        omega
      rw [unitsOf, if_neg hsmall, List.cons_append, List.singleton_append, joinPairs,
        if_pos hpair, ofNat_pair hsmall, ih]

/-- **A written string is read as it was.** -/
theorem readString_chars (s : String) (rest : List Char) :
    readString (s.toList.flatMap escapeChar ++ '"' :: rest) = .ok (s, rest) := by
  rw [readString, stringCodes_flatMap]
  dsimp only
  rw [joinPairs_flatMap, String.ofList_toList]

/-! ## ASCII -/

/-- Every character is one of ASCII. -/
def IsAscii (cs : List Char) : Prop :=
  ∀ c ∈ cs, c.toNat < 128

namespace IsAscii

variable {cs cs' : List Char}

theorem of_all (h : (cs.all fun c ↦ decide (c.toNat < 128)) = true) : IsAscii cs := fun c hc ↦
  of_decide_eq_true (List.all_eq_true.mp h c hc)

theorem nil : IsAscii [] :=
  List.forall_mem_nil _

theorem append (h : IsAscii cs) (h' : IsAscii cs') : IsAscii (cs ++ cs') :=
  List.forall_mem_append.mpr ⟨h, h'⟩

theorem cons {c : Char} (hc : c.toNat < 128) (h : IsAscii cs) : IsAscii (c :: cs) :=
  List.forall_mem_cons.mpr ⟨hc, h⟩

theorem singleton {c : Char} (hc : c.toNat < 128) : IsAscii [c] :=
  cons hc nil

end IsAscii

theorem isAscii_escapeUnit {n : Nat} (h : n < 0x10000) : IsAscii (escapeUnit n) := by
  have hdigit : ∀ {d : Nat}, d < 16 → d.digitChar.toNat < 128 := toNat_digitChar_lt
  rw [escapeUnit, hex_four h]
  exact .cons (by decide) (.cons (by decide) (.cons (hdigit (by omega)) (.cons (hdigit (by omega))
    (.cons (hdigit (by omega)) (.singleton (hdigit (by omega)))))))

theorem isAscii_escapeChar (c : Char) : IsAscii (escapeChar c) := by
  have hescape : ∀ {d : Char}, d.toNat < 128 → IsAscii ['\\', d] := fun hd ↦
    .cons (by decide) (.singleton hd)
  rw [escapeChar]
  split
  · next h => rcases h with rfl | rfl <;> exact hescape (by decide)
  split
  · exact hescape (by decide)
  split
  · exact hescape (by decide)
  split
  · exact hescape (by decide)
  split
  · exact hescape (by decide)
  split
  · exact hescape (by decide)
  split
  · next h => exact .singleton (Nat.lt_of_le_of_lt (show c.toNat ≤ 126 from h.2) (by decide))
  split
  · next hsmall => exact isAscii_escapeUnit hsmall
  · have hvalid := toNat_valid c
    exact (isAscii_escapeUnit (by omega)).append (isAscii_escapeUnit (by omega))

theorem isAscii_stringChars (s : String) : IsAscii (stringChars s) := by
  have hchars : IsAscii (s.toList.flatMap escapeChar) := by
    intro c hc
    obtain ⟨d, -, hd⟩ := List.mem_flatMap.mp hc
    exact isAscii_escapeChar d c hd
  exact (hchars.cons (by decide)).append (.singleton (by decide))

end JsonText

end ExprSampler
