import ExprSampler.Text.Quoted

/-!
# Lines

A text has more lines than it has line feeds: a dozen characters break a line wherever it is shown
or read, among them the separators of lines and paragraphs that a text can carry without anybody
seeing them. What is put on a line of its own must hold none of them, or everything below it moves
down and a pointer points nowhere.

There are two ways to be rid of them. A text cleared of blanks has none left, for every line break
is a blank (`isBlank_of_isLineBreak`); and a quoted text has none whatever it quotes, for every line
break is unprintable and so written by its code point (`oneLine_quote`).
-/

namespace ExprSampler.Text

/-! ## Breaking lines -/

/-- The code points at which a line ends. -/
def lineBreakRanges : List (Nat × Nat) :=
  [(0x0A, 0x0D), (0x1C, 0x1E), (0x85, 0x85), (0x2028, 0x2029)]

/-- A character that ends a line. -/
def isLineBreak (c : Char) : Bool :=
  inRanges lineBreakRanges c

/-- The lines of a list of characters, without the characters that end them. A carriage return and
the line feed behind it end one line; what ends the last line opens no further one. -/
def linesOf : List Char → List (List Char)
  | [] => []
  | '\r' :: '\n' :: cs => [] :: linesOf cs
  | c :: cs =>
    if isLineBreak c then [] :: linesOf cs
    else match linesOf cs with
      | [] => [[c]]
      | line :: lines => (c :: line) :: lines

/-- The lines of a text. -/
def lines (s : String) : List String :=
  (linesOf s.toList).map String.ofList

theorem linesOf_cons {c : Char} (h : isLineBreak c = false) (cs : List Char) :
    linesOf (c :: cs) = match linesOf cs with
      | [] => [[c]]
      | line :: lines => (c :: line) :: lines := by
  rw [linesOf, h]
  · rfl
  · rintro rest rfl
    cases h

theorem linesOf_append_newline {line : List Char} (h : ∀ c ∈ line, isLineBreak c = false)
    (rest : List Char) : linesOf (line ++ '\n' :: rest) = line :: linesOf rest := by
  induction line with
  | nil => rfl
  | cons c line ih =>
    obtain ⟨hc, hline⟩ := List.forall_mem_cons.mp h
    rw [List.cons_append, linesOf_cons hc, ih hline]

/-- The last line needs nothing behind it, as long as there is something in it. -/
theorem linesOf_of_last {line : List Char} (hne : line ≠ [])
    (h : ∀ c ∈ line, isLineBreak c = false) : linesOf line = [line] := by
  induction line with
  | nil => exact absurd rfl hne
  | cons c line ih =>
    obtain ⟨hc, hline⟩ := List.forall_mem_cons.mp h
    rw [linesOf_cons hc]
    by_cases hlast : line = []
    · rw [hlast, linesOf]
    · rw [ih hlast hline]

/-! ## Texts on one line -/

/-- A text in which no line ends. -/
def OneLine (s : String) : Prop :=
  ∀ c ∈ s.toList, isLineBreak c = false

/-- A text is on one line if a check finds it to be. -/
theorem OneLine.of_all {s : String} (h : s.toList.all (!isLineBreak ·) = true) : OneLine s := by
  intro c hc
  exact Bool.not_eq_true' _ ▸ List.all_eq_true.mp h c hc

theorem OneLine.append {s s' : String} (h : OneLine s) (h' : OneLine s') : OneLine (s ++ s') := by
  rw [OneLine, String.toList_append]
  exact List.forall_mem_append.mpr ⟨h, h'⟩

/-! ## Where line breaks cannot stand -/

/-- What lies in ranges lies in ranges that cover them. -/
theorem inRanges_of_covered (ranges ranges' : List (Nat × Nat)) {c : Char}
    (hcovered : (ranges.all fun r ↦ ranges'.any fun r' ↦
      decide (r'.1 ≤ r.1) && decide (r.2 ≤ r'.2)) = true)
    (h : inRanges ranges c = true) : inRanges ranges' c = true := by
  obtain ⟨r, hr, hlo, hhi⟩ := inRanges_iff.mp h
  obtain ⟨r', hr', hwithin⟩ := List.any_eq_true.mp (List.all_eq_true.mp hcovered r hr)
  rw [Bool.and_eq_true, decide_eq_true_iff, decide_eq_true_iff] at hwithin
  exact inRanges_iff.mpr ⟨r', hr', Nat.le_trans hwithin.1 hlo, Nat.le_trans hhi hwithin.2⟩

theorem isBlank_of_isLineBreak {c : Char} (h : isLineBreak c = true) : isBlank c = true :=
  inRanges_of_covered lineBreakRanges _ rfl h

set_option maxRecDepth 2000 in
theorem isPrintable_of_isLineBreak {c : Char} (h : isLineBreak c = true) :
    isPrintable c = false := by
  rw [isPrintable, inRanges_of_covered lineBreakRanges _ rfl h]
  rfl

/-- **A text cleared of blanks is on one line.** -/
theorem oneLine_stripBlanks (s : String) : OneLine (stripBlanks s) := by
  intro c hc
  refine Bool.eq_false_iff.mpr fun hbreak ↦ ?_
  have hblank := isBlank_of_isLineBreak hbreak
  rw [not_isBlank_of_mem_stripBlanks hc] at hblank
  cases hblank

/-- No line ends at a sign, digit or letter of ASCII, nor at the space. -/
theorem not_isLineBreak_of_range {c : Char} (hlo : 0x20 ≤ c.toNat) (hhi : c.toNat < 0x7F) :
    isLineBreak c = false := by
  refine Bool.eq_false_iff.mpr fun hbreak ↦ ?_
  obtain ⟨r, hr, hfirst, hlast⟩ := inRanges_iff.mp hbreak
  have hends : ∀ r ∈ lineBreakRanges, r.2 < 0x20 ∨ 0x7F ≤ r.1 := by decide
  rcases hends r hr with hbefore | hafter
  · omega
  · omega

/-! ## Quoted texts -/

theorem mem_toDigits_range {n : Nat} {c : Char} (h : c ∈ Nat.toDigits 16 n) :
    0x20 ≤ c.toNat ∧ c.toNat < 0x7F := by
  have hdigit : ∀ d < 16, 0x20 ≤ d.digitChar.toNat ∧ d.digitChar.toNat < 0x7F := by decide
  induction n using Nat.strongRecOn with
  | ind n ih =>
    by_cases hn : n < 16
    · rw [Nat.toDigits_of_lt_base hn, List.mem_singleton] at h
      exact h ▸ hdigit n hn
    · rw [Nat.toDigits_of_base_le (by decide) (Nat.not_lt.mp hn), List.mem_append,
        List.mem_singleton] at h
      rcases h with h | rfl
      · exact ih (n / 16) (by omega) h
      · exact hdigit (n % 16) (Nat.mod_lt n (by decide))

theorem not_isLineBreak_of_mem_hex {width n : Nat} {c : Char} (h : c ∈ hex width n) :
    isLineBreak c = false := by
  rcases List.mem_append.mp h with h | h
  · rw [List.eq_of_mem_replicate h]
    rfl
  · obtain ⟨hlo, hhi⟩ := mem_toDigits_range h
    exact not_isLineBreak_of_range hlo hhi

/-- A character written by its code point is a backslash, a letter and digits. -/
theorem not_isLineBreak_of_mem_escapeCode {c d : Char} (h : d ∈ escapeCode c) :
    isLineBreak d = false := by
  have hcode : ∀ {letter : Char} {width : Nat}, isLineBreak letter = false →
      d ∈ '\\' :: letter :: hex width c.toNat → isLineBreak d = false := by
    intro letter width hletter hd
    rcases List.mem_cons.mp hd with rfl | hd
    · rfl
    rcases List.mem_cons.mp hd with rfl | hd
    · exact hletter
    · exact not_isLineBreak_of_mem_hex hd
  rw [escapeCode] at h
  split at h
  · exact hcode rfl h
  split at h
  · exact hcode rfl h
  · exact hcode rfl h

/-- What stands between quotes for a character: the character itself only if no line ends at it. -/
theorem not_isLineBreak_of_mem_quoteChar {quote c d : Char} (hquote : isLineBreak quote = false)
    (h : d ∈ quoteChar quote c) : isLineBreak d = false := by
  have hpair : ∀ {e : Char}, isLineBreak e = false → d ∈ ['\\', e] → isLineBreak d = false := by
    intro e he hd
    rcases List.mem_cons.mp hd with rfl | hd
    · rfl
    · exact List.mem_singleton.mp hd ▸ he
  rw [quoteChar] at h
  split at h
  · next hc =>
    rcases hc with rfl | rfl
    · exact hpair hquote h
    · exact hpair rfl h
  split at h
  · exact hpair rfl h
  split at h
  · exact hpair rfl h
  split at h
  · exact hpair rfl h
  split at h
  · next hprintable =>
    rw [List.mem_singleton.mp h]
    refine Bool.eq_false_iff.mpr fun hbreak ↦ ?_
    rw [isPrintable_of_isLineBreak hbreak] at hprintable
    cases hprintable
  · exact not_isLineBreak_of_mem_escapeCode h

/-- **A quoted text is on one line**, whatever it quotes. -/
theorem oneLine_quote (s : String) : OneLine (quote s) := by
  have hquote : isLineBreak (quoteFor s.toList) = false := by
    rw [quoteFor]
    split <;> rfl
  intro c hc
  rw [quote, String.toList_ofList, quoteChars, List.mem_append, List.mem_cons,
    List.mem_singleton] at hc
  rcases hc with (rfl | hc) | rfl
  · exact hquote
  · obtain ⟨d, -, hc⟩ := List.mem_flatMap.mp hc
    exact not_isLineBreak_of_mem_quoteChar hquote hc
  · exact hquote

end ExprSampler.Text
