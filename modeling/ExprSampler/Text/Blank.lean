/-!
# Blank characters

An expression may be spaced freely and the name of an output format may be padded, so both are
cleared of blanks before anything else looks at them. "Blank" is wider than the space: it takes in
the separators of lines and paragraphs and every typographic space, so that a text cleared of
blanks always stands on one line.
-/

namespace ExprSampler.Text

/-- Whether a character lies in one of the closed ranges of code points. -/
def inRanges (ranges : List (Nat × Nat)) (c : Char) : Bool :=
  ranges.any fun r ↦ decide (r.1 ≤ c.toNat) && decide (c.toNat ≤ r.2)

theorem inRanges_iff {ranges : List (Nat × Nat)} {c : Char} :
    inRanges ranges c = true ↔ ∃ r ∈ ranges, r.1 ≤ c.toNat ∧ c.toNat ≤ r.2 := by
  simp [inRanges]

/-- The code points that separate words or lines. -/
def blankRanges : List (Nat × Nat) :=
  [(0x09, 0x0D), (0x1C, 0x20), (0x85, 0x85), (0xA0, 0xA0), (0x1680, 0x1680), (0x2000, 0x200A),
    (0x2028, 0x2029), (0x202F, 0x202F), (0x205F, 0x205F), (0x3000, 0x3000)]

/-- A character that only sets other characters apart. -/
def isBlank (c : Char) : Bool :=
  inRanges blankRanges c

/-- The text without any of its blanks. -/
def stripBlanks (s : String) : String :=
  String.ofList (s.toList.filter fun c ↦ !isBlank c)

/-- The text without the characters of a class at either end. -/
def trimWith (drop : Char → Bool) (s : String) : String :=
  String.ofList (((s.toList.dropWhile drop).reverse.dropWhile drop).reverse)

/-- The text without the blanks at either end. -/
def trimBlanks (s : String) : String :=
  trimWith isBlank s

theorem toList_stripBlanks (s : String) :
    (stripBlanks s).toList = s.toList.filter fun c ↦ !isBlank c := by
  simp [stripBlanks]

theorem mem_stripBlanks {s : String} {c : Char} :
    c ∈ (stripBlanks s).toList ↔ c ∈ s.toList ∧ isBlank c = false := by
  rw [toList_stripBlanks, List.mem_filter, Bool.not_eq_true']

theorem not_isBlank_of_mem_stripBlanks {s : String} {c : Char} (h : c ∈ (stripBlanks s).toList) :
    isBlank c = false :=
  (mem_stripBlanks.mp h).2

theorem stripBlanks_stripBlanks (s : String) : stripBlanks (stripBlanks s) = stripBlanks s := by
  simp [stripBlanks, List.filter_filter]

end ExprSampler.Text
