import ExprSampler.Output.Csv
import ExprSampler.Output.Table
import ExprSampler.Proofs.Decimal.ExactReading
import ExprSampler.Proofs.Evaluation.PowersInTrees
import ExprSampler.Proofs.Grammar.RoundTrip

/-!
# Renderings show the same rows

Samples are written as CSV and shown in a table, each in its own way: fields of CSV may be quoted
and the last line end is taken off, cells of a table may be escaped and styled. None of this touches
the texts of doubles, which are made of characters that mean nothing in either format. So line by
line and row by row both show the same two texts, and those of the exact form are read as the
doubles that were sampled.
-/

namespace ExprSampler

/-! ## Lines -/

namespace Csv

theorem endedLines_append (lines lines' : List String) :
    endedLines (lines ++ lines') = endedLines lines ++ endedLines lines' :=
  List.flatMap_append

/-- The lines are found again between the line ends. -/
theorem splitOn_endedLines {lines : List String} (h : ∀ line ∈ lines, '\n' ∉ line.toList)
    {last : List Char} (hlast : '\n' ∉ last) :
    (endedLines lines ++ last).splitOn '\n' = lines.map String.toList ++ [last] := by
  induction lines with
  | nil => exact List.splitOn_eq_singleton hlast
  | cons line lines ih =>
    obtain ⟨hline, hlines⟩ := List.forall_mem_cons.mp h
    have htext : endedLines (line :: lines) ++ last
        = line.toList ++ '\n' :: (endedLines lines ++ last) := by
      simp only [endedLines, List.flatMap_cons, List.append_assoc, List.cons_append,
        List.nil_append]
    rw [htext, List.splitOn_append_cons_self_of_not_mem hline, ih hlines]
    rfl

/-- Taking off the line ends at the end takes off that of the last line and nothing else. -/
theorem rdropWhile_endedLines {lines : List String} {last : String} (hne : last.toList ≠ [])
    (hlast : '\n' ∉ last.toList) :
    (endedLines (lines ++ [last])).rdropWhile (· == '\n') = endedLines lines ++ last.toList := by
  have hself : endedLines [last] = last.toList ++ ['\n'] := List.flatMap_singleton _ _
  rw [endedLines_append, hself, ← List.append_assoc, List.rdropWhile_concat_pos _ _ _ rfl,
    List.rdropWhile_eq_self_iff]
  -- What is left ends in a character of the last line, which is no line end.
  intro hl hend
  rw [List.getLast_append_of_ne_nil _ hne, beq_iff_eq] at hend
  exact hlast (hend ▸ List.getLast_mem hne)

/-- The text has the lines that it was made of. -/
theorem splitOn_ofSamples {e : Expression} {s : Samples} {precision : Option Int}
    {first : String} {more : List String} (hlines : lines e s precision = .ok (first :: more))
    (h : ∀ line ∈ first :: more, line.toList ≠ [] ∧ '\n' ∉ line.toList) :
    ∃ csv, ofSamples e s precision = .ok csv ∧
      csv.toList.splitOn '\n' = (first :: more).map String.toList := by
  refine ⟨_, by rw [ofSamples, hlines]; rfl, ?_⟩
  obtain ⟨lines, last, hcons⟩ : ∃ lines last, first :: more = lines ++ [last] :=
    ⟨_, _, (List.dropLast_append_getLast (List.cons_ne_nil _ _)).symm⟩
  rw [hcons] at h ⊢
  obtain ⟨hne, hlast⟩ := h last (List.mem_append_right _ (List.mem_singleton_self _))
  have hstrip : ((endedLines (lines ++ [last])).reverse.dropWhile (· == '\n')).reverse
      = endedLines lines ++ last.toList := rdropWhile_endedLines hne hlast
  rw [String.toList_ofList, hstrip,
    splitOn_endedLines (fun line hline ↦ (h line (List.mem_append_left _ hline)).2) hlast,
    List.map_append]
  rfl

/-! ## Fields -/

theorem field_of_plain {s : String} (h : needsQuotes s.toList = false) : field s = s := by
  rw [field, fieldChars, h, if_neg Bool.false_ne_true, String.ofList_toList]

theorem toList_line {s s' : String} (h : needsQuotes s.toList = false)
    (h' : needsQuotes s'.toList = false) :
    (line [s, s']).toList = s.toList ++ ',' :: s'.toList := by
  rw [line, List.map_cons, List.map_singleton, field_of_plain h, field_of_plain h',
    String.toList_intercalate]
  simp

/-- A character that calls for quotes is not in a field without them. -/
theorem not_mem_of_plain {cs : List Char} (h : needsQuotes cs = false) {c : Char}
    (hc : (c == ',' || c == '"' || c == '\r' || c == '\n') = true) : c ∉ cs := by
  intro hmem
  rw [needsQuotes] at h
  exact absurd hc (List.any_eq_false.mp h c hmem)

/-- A line of two fields that stand without quotes. -/
def TwoFields (line : List Char) : Prop :=
  ∃ cs cs', needsQuotes cs = false ∧ needsQuotes cs' = false ∧ line = cs ++ ',' :: cs'

theorem twoFields_line {s s' : String} (h : needsQuotes s.toList = false)
    (h' : needsQuotes s'.toList = false) : TwoFields (line [s, s']).toList :=
  ⟨_, _, h, h', toList_line h h'⟩

theorem TwoFields.ne_nil {cs : List Char} (h : TwoFields cs) : cs ≠ [] := by
  obtain ⟨cs, cs', -, -, rfl⟩ := h
  exact List.append_ne_nil_of_right_ne_nil _ (List.cons_ne_nil _ _)

theorem TwoFields.not_mem {cs : List Char} (h : TwoFields cs) {c : Char}
    (hc : (c == ',' || c == '"' || c == '\r' || c == '\n') = true) (hne : c ≠ ',') : c ∉ cs := by
  obtain ⟨cs, cs', hcs, hcs', rfl⟩ := h
  intro hin
  rcases List.mem_append.mp hin with hin | hin
  · exact not_mem_of_plain hcs hc hin
  · rcases List.mem_cons.mp hin with heq | hin
    · exact hne heq
    · exact not_mem_of_plain hcs' hc hin

theorem TwoFields.count_comma {cs : List Char} (h : TwoFields cs) : cs.count ',' = 1 := by
  obtain ⟨cs, cs', hcs, hcs', rfl⟩ := h
  rw [List.count_append, List.count_cons_self, List.count_eq_zero.mpr (not_mem_of_plain hcs rfl),
    List.count_eq_zero.mpr (not_mem_of_plain hcs' rfl)]

/-- Characters of a class without the special ones call for no quotes. -/
theorem needsQuotes_eq_false {p : Char → Bool} (hp : [',', '"', '\r', '\n'].any p = false)
    {cs : List Char} (h : ∀ c ∈ cs, p c = true) : needsQuotes cs = false := by
  refine List.any_eq_false.mpr fun c hc hspecial ↦ ?_
  have hmem : c ∈ [',', '"', '\r', '\n'] := by simpa [or_assoc] using hspecial
  exact List.any_eq_false.mp hp c hmem (h c hc)

theorem needsQuotes_of_numberText {cs : List Char} (h : NumberText cs) :
    needsQuotes cs = false :=
  needsQuotes_eq_false rfl h

end Csv

/-! ## Markup -/

namespace Markup

theorem escapeTags_of_plain {cs : List Char} (h : ∀ c ∈ cs, c ≠ '[' ∧ c ≠ '\\') :
    escapeTags 0 cs = cs := by
  induction cs with
  | nil => rfl
  | cons c cs ih =>
    obtain ⟨⟨hbracket, hback⟩, hcs⟩ := List.forall_mem_cons.mp h
    rw [escapeTags, ih hcs]
    · rfl
    · exact hback
    · exact hbracket

theorem closeBackslash_of_plain {cs : List Char} (h : ∀ c ∈ cs, c ≠ '\\') :
    closeBackslash cs = cs := by
  have hreverse : ∀ c ∈ cs.reverse, c ≠ '\\' := fun c hc ↦ h c (List.mem_reverse.mp hc)
  rw [closeBackslash]
  split
  · rfl
  · next heq => exact absurd rfl (hreverse '\\' (heq ▸ List.mem_cons_self))
  · rfl

theorem escape_of_plain {s : String} (h : ∀ c ∈ s.toList, c ≠ '[' ∧ c ≠ '\\') : escape s = s := by
  rw [escape, escapeTags_of_plain h, closeBackslash_of_plain fun c hc ↦ (h c hc).2,
    String.ofList_toList]

theorem escape_of_numberText {s : String} (h : NumberText s.toList) : escape s = s :=
  escape_of_plain fun c hc ↦ by
    have hchar := h c hc
    constructor <;> rintro rfl <;> cases hchar

theorem colorize_false (style text : String) : colorize false style text = text :=
  if_neg Bool.false_ne_true

/-- A text that is markup as it is stands between the tags of its style. -/
theorem colorize_true {text : String} (h : escape text = text) (style : String) :
    colorize true style text = "[" ++ style ++ "]" ++ text ++ "[/]" := by
  rw [colorize, if_pos rfl, h]

theorem styleValue_of_isFinite {v : Float} (hv : v.isFinite = true) {s : String}
    (h : NumberText s.toList) (enabled : Bool) : styleValue enabled v s = s := by
  have hstyle : valueStyle v = "" := by
    rw [valueStyle, Binary64.isNaN_eq_false_of_isFinite hv, Binary64.isInf_eq_false_of_isFinite hv]
    rfl
  rw [styleValue, if_pos hstyle, escape_of_numberText h, ite_self]

theorem styleValue_disabled (v : Float) (s : String) : styleValue false v s = s := by
  rw [styleValue, colorize_false, if_neg Bool.false_ne_true, ite_self]

theorem styleValue_of_not_isFinite {v : Float} (hv : v.isFinite = false) {s : String}
    (h : NumberText s.toList) :
    styleValue true v s
      = "[" ++ (if v.isNaN then "dim white" else "magenta") ++ "]" ++ s ++ "[/]" := by
  have hstyle : valueStyle v = if v.isNaN then "dim white" else "magenta" := by
    rcases Binary64.eq_of_not_isFinite hv with rfl | rfl | rfl <;> rfl
  have hne : valueStyle v ≠ "" := by
    rw [hstyle]
    split <;> decide
  rw [styleValue, if_neg hne, colorize_true (escape_of_numberText h), hstyle]

end Markup

/-! ## Texts of values -/

section

variable {precision : Option Int}

/-- The text of a value where the number of digits is one that may be asked for. -/
def shownText (precision : Option Int) (v : Float) : String :=
  precision.elim (Binary64.exactText v) fun p ↦ Binary64.roundedText p.toNat v

theorem numberText_shownText (precision : Option Int) (v : Float) :
    NumberText (shownText precision v).toList := by
  cases precision with
  | none => exact numberText_exactText v
  | some p => exact numberText_roundedText p.toNat v

/-- The words for what is no finite number do not depend on the style. -/
theorem Binary64.roundedText_of_not_isFinite {v : Float} (h : v.isFinite = false) (count : Nat) :
    roundedText count v = exactText v := by
  rw [roundedText, exactText, write, write]
  split_ifs with hnan hinf
  · rfl
  · rfl
  · rfl
  · rw [isFinite_of_not (Bool.eq_false_iff.mpr hnan) (Bool.eq_false_iff.mpr hinf)] at h
    cases h

/-- Every value has a text. -/
theorem formatValue_eq_ok (h : ∀ p ∈ precision, 0 ≤ p ∧ p ≤ maxPrecision) (v : Float) :
    formatValue precision v = .ok (shownText precision v) := by
  cases precision with
  | none => exact ite_self _
  | some p =>
    obtain ⟨hlo, hhi⟩ := h p rfl
    have hrange : ¬(p < 0 ∨ maxPrecision < p) :=
      not_or.mpr ⟨Int.not_lt.mpr hlo, Int.not_lt.mpr hhi⟩
    change (if v.isFinite then if p < 0 ∨ maxPrecision < p then _ else _ else _) = _
    rw [if_neg hrange]
    cases hfinite : v.isFinite with
    | true => rfl
    | false => exact congrArg Except.ok (Binary64.roundedText_of_not_isFinite hfinite _).symm

end

/-! ## Rows -/

/-- A row of a table and a line of CSV show a point and a value by the same two texts. With styles
the text of a value that is no finite number stands in one tag; and texts of the exact form are read
as what they show. -/
structure ShowsRow (precision : Option Int) (x y : Float) (row : TableRow) (line : List Char)
    (xText yText : String) : Prop where
  point : formatValue precision x = .ok xText
  value : formatValue precision y = .ok yText
  line : line = xText.toList ++ ',' :: yText.toList
  plain : SampleTable.rowMarkup false row = (xText, yText)
  finite : y.isFinite = true → SampleTable.rowMarkup true row = (xText, yText)
  tagged : y.isFinite = false → SampleTable.rowMarkup true row
    = (xText, "[" ++ (if y.isNaN then "dim white" else "magenta") ++ "]" ++ yText ++ "[/]")
  readBack : precision = none → readFloat? xText = some x ∧ readFloat? yText = some y

section

variable {precision : Option Int}

/-- The row of a sample where all values have a text. -/
def tableRow (precision : Option Int) (row : Float × Float) : TableRow :=
  ⟨shownText precision row.1, shownText precision row.2, row.2⟩

/-- The line of a sample where all values have a text. -/
def csvLine (precision : Option Int) (row : Float × Float) : String :=
  Csv.line [shownText precision row.1, shownText precision row.2]

theorem needsQuotes_shownText (precision : Option Int) (v : Float) :
    Csv.needsQuotes (shownText precision v).toList = false :=
  Csv.needsQuotes_of_numberText (numberText_shownText precision v)

theorem toList_csvLine (precision : Option Int) (x y : Float) :
    (csvLine precision (x, y)).toList
      = (shownText precision x).toList ++ ',' :: (shownText precision y).toList :=
  Csv.toList_line (needsQuotes_shownText precision x) (needsQuotes_shownText precision y)

theorem showsRow (h : ∀ p ∈ precision, 0 ≤ p ∧ p ≤ maxPrecision) (x y : Float) :
    ShowsRow precision x y (tableRow precision (x, y)) (csvLine precision (x, y)).toList
      (shownText precision x) (shownText precision y) where
  point := formatValue_eq_ok h x
  value := formatValue_eq_ok h y
  line := toList_csvLine precision x y
  plain := congrArg (_, ·) (Markup.styleValue_disabled y _)
  finite hy := congrArg (_, ·)
    (Markup.styleValue_of_isFinite hy (numberText_shownText precision y) true)
  tagged hy := congrArg (_, ·)
    (Markup.styleValue_of_not_isFinite hy (numberText_shownText precision y))
  readBack hnone := by
    subst hnone
    exact ⟨Binary64.readFloat?_exactText x, Binary64.readFloat?_exactText y⟩

theorem ShowsRow.texts (h : ∀ p ∈ precision, 0 ≤ p ∧ p ≤ maxPrecision) {x y : Float}
    {row : TableRow} {line : List Char} {xText yText : String}
    (hshows : ShowsRow precision x y row line xText yText) :
    xText = shownText precision x ∧ yText = shownText precision y :=
  ⟨Except.ok.inj (hshows.point.symm.trans (formatValue_eq_ok h x)),
    Except.ok.inj (hshows.value.symm.trans (formatValue_eq_ok h y))⟩

variable {e : Expression} {s : Samples}

theorem SampleTable.rows_ofSamples (h : ∀ p ∈ precision, 0 ≤ p ∧ p ≤ maxPrecision)
    (heven : s.xs.length = s.ys.length) :
    ∃ table, ofSamples e s precision = .ok table ∧
      table.rows = s.rows.map (tableRow precision) := by
  have hrow : rowOf precision = fun row ↦ pure (tableRow precision row) := funext fun row ↦ by
    rw [rowOf, formatValue_eq_ok h, formatValue_eq_ok h]
    rfl
  refine ⟨⟨"f(" ++ shownName e.input ++ ") = " ++ e.source, shownName e.input,
    s.rows.map (tableRow precision)⟩, ?_, rfl⟩
  rw [ofSamples, Samples.isEven, beq_iff_eq.mpr heven, hrow, List.mapM_pure]
  rfl

theorem Csv.lines_eq_ok (h : ∀ p ∈ precision, 0 ≤ p ∧ p ≤ maxPrecision)
    (heven : s.xs.length = s.ys.length) :
    lines e s precision
      = .ok (line [shownName e.input, "value"] :: s.rows.map (csvLine precision)) := by
  have hrow : rowLine precision = fun row ↦ pure (csvLine precision row) := funext fun row ↦ by
    rw [rowLine, formatValue_eq_ok h, formatValue_eq_ok h]
    rfl
  rw [lines, Samples.isEven, beq_iff_eq.mpr heven, hrow, List.mapM_pure]
  rfl

/-- Under a heading without special characters the text has the headings and then a line for each
sample, all of two fields. -/
theorem Csv.splitOn_ofSamples_of_heading (h : ∀ p ∈ precision, 0 ≤ p ∧ p ≤ maxPrecision)
    (heven : s.xs.length = s.ys.length) (hheading : needsQuotes (shownName e.input).toList = false) :
    ∃ csv, ofSamples e s precision = .ok csv ∧
      csv.toList.splitOn '\n' = ((shownName e.input).toList ++ ",value".toList) ::
        s.rows.map (fun row ↦ (csvLine precision row).toList) ∧
      ∀ line ∈ csv.toList.splitOn '\n', TwoFields line := by
  have hvalue : needsQuotes "value".toList = false := by decide
  have hfields : ∀ line' ∈ line [shownName e.input, "value"] :: s.rows.map (csvLine precision),
      TwoFields line'.toList := by
    refine List.forall_mem_cons.mpr ⟨twoFields_line hheading hvalue, fun line' hline ↦ ?_⟩
    obtain ⟨row, -, rfl⟩ := List.mem_map.mp hline
    exact twoFields_line (needsQuotes_shownText precision _) (needsQuotes_shownText precision _)
  -- The comma keeps every line from being empty, so only the last line end is taken off.
  obtain ⟨csv, hcsv, hsplit⟩ := splitOn_ofSamples (lines_eq_ok h heven) fun line' hline ↦
    ⟨(hfields line' hline).ne_nil, (hfields line' hline).not_mem rfl (by decide)⟩
  refine ⟨csv, hcsv, ?_, ?_⟩
  · rw [hsplit, List.map_cons, List.map_map, toList_line hheading hvalue]
    rfl
  · rw [hsplit]
    exact List.forall_mem_map.mpr hfields

end

/-! ## Sample runs -/

section

variable {text : String} {e : Expression} {start stop : Float} {count : Int} {s : Samples}

theorem points_of_sample (h : e.sample start stop count = .ok s) :
    samplePoints start stop count = .ok s.xs ∧ s.ys = e.evalList s.xs ∧
      s.xs.length = count.toNat := by
  cases hpoints : samplePoints start stop count with
  | error cause =>
    rw [Expression.sample, hpoints] at h
    cases h
  | ok xs =>
    rw [Expression.sample, hpoints] at h
    obtain rfl := Except.ok.inj h
    refine ⟨rfl, rfl, ?_⟩
    unfold samplePoints at hpoints
    split_ifs at hpoints
    obtain rfl := Except.ok.inj hpoints
    rw [evenlySpaced, List.length_map, List.length_range]

/-- The heading of the points is the variable, or `x` for a constant, and needs no quotes. -/
theorem shownName_of_parse (h : Expression.parse text = .ok e) :
    shownName e.input = e.input.getD "x" ∧ Csv.needsQuotes (shownName e.input).toList = false := by
  obtain ⟨-, v, hv, -, hinput⟩ := Grammar.shaped_of_parse h
  have hplain : Csv.needsQuotes (String.singleton v).toList = false := by
    rw [String.toList_singleton]
    exact Csv.needsQuotes_eq_false rfl (List.forall_mem_singleton.mpr hv)
  rw [hinput]
  split
  · have hne : String.singleton v ≠ "" := by simp
    rw [shownName, if_neg hne]
    exact ⟨rfl, hplain⟩
  · exact ⟨rfl, by decide⟩

/-- **CSV and table show the same rows.** The CSV of a sample run has a line of headings and one line
for each point, without a quote and with one comma; the table has one row for each point; and at
each point, line and row show the point and the value of the expression by the same two texts. -/
theorem renderings_agree {precision : Option Int} (hparse : Expression.parse text = .ok e)
    (hsample : e.sample start stop count = .ok s)
    (hprecision : ∀ p ∈ precision, 0 ≤ p ∧ p ≤ maxPrecision) :
    ∃ csv table, Csv.ofSamples e s precision = .ok csv ∧
      SampleTable.ofSamples e s precision = .ok table ∧
      samplePoints start stop count = .ok s.xs ∧
      (csv.toList.splitOn '\n').length = count.toNat + 1 ∧ table.rows.length = count.toNat ∧
      (∀ line ∈ csv.toList.splitOn '\n', '"' ∉ line ∧ line.count ',' = 1) ∧
      (csv.toList.splitOn '\n')[0]? = some ((e.input.getD "x").toList ++ ",value".toList) ∧
      ∀ (i : Nat) (x : Float), s.xs[i]? = some x →
        ∃ y row line xText yText, s.ys[i]? = some y ∧ e.evalList [x] = [y] ∧
          (¬e.root.PartsAt x → y = e.eval x) ∧
          table.rows[i]? = some row ∧ (csv.toList.splitOn '\n')[i + 1]? = some line ∧
          ShowsRow precision x y row line xText yText := by
  obtain ⟨hpoints, hys, hlength⟩ := points_of_sample hsample
  obtain ⟨hname, hheading⟩ := shownName_of_parse hparse
  have hys' : s.ys = s.xs.map fun x ↦ e.root.evalEach x := by
    rw [hys, Expression.evalList, Node.evalList_eq_map]
  have heven : s.xs.length = s.ys.length := by rw [hys', List.length_map]
  have hrows : s.rows.length = count.toNat := by
    rw [Samples.rows, List.length_zip, ← heven, Nat.min_self, hlength]
  obtain ⟨csv, hcsv, hsplit, hfields⟩ := Csv.splitOn_ofSamples_of_heading hprecision heven hheading
  obtain ⟨table, htable, htableRows⟩ := SampleTable.rows_ofSamples (e := e) hprecision heven
  refine ⟨csv, table, hcsv, htable, hpoints, ?_, ?_, fun line hline ↦ ?_, ?_, fun i x hx ↦ ?_⟩
  · rw [hsplit, List.length_cons, List.length_map, hrows]
  · rw [htableRows, List.length_map, hrows]
  · exact ⟨(hfields line hline).not_mem rfl (by decide), (hfields line hline).count_comma⟩
  · rw [hsplit, hname, List.getElem?_cons_zero]
  · -- The value at one of many points depends on that point alone.
    have hy : s.ys[i]? = some (e.root.evalEach x) := by
      rw [hys', List.getElem?_map, hx]
      rfl
    have hrow : s.rows[i]? = some (x, e.root.evalEach x) :=
      List.getElem?_zip_eq_some.mpr ⟨hx, hy⟩
    refine ⟨e.root.evalEach x, _, _, _, _, hy, ?_, Node.evalEach_eq_eval, ?_, ?_,
      showsRow hprecision x _⟩
    · rw [Expression.evalList, Node.evalList_eq_map]
      rfl
    · rw [htableRows, List.getElem?_map, hrow]
      rfl
    · rw [hsplit, List.getElem?_cons_succ, List.getElem?_map, hrow]
      rfl

/-- The reciprocal at zero is infinite, so it stands in a tag between values that stand in none. -/
theorem renderings_agree_of_reciprocal :
    ∃ e s csv table, Expression.parse "1/x" = .ok e ∧ e.sample (-1.0) 1.0 3 = .ok s ∧
      Csv.ofSamples e s (some 6) = .ok csv ∧ (csv.toList.splitOn '\n').length = 4 ∧
      (csv.toList.splitOn '\n')[0]? = some "x,value".toList ∧
      (csv.toList.splitOn '\n')[1]? = some "-1,-1".toList ∧
      (csv.toList.splitOn '\n')[2]? = some "0,inf".toList ∧
      (csv.toList.splitOn '\n')[3]? = some "1,1".toList ∧
      SampleTable.ofSamples e s (some 6) = .ok table ∧ table.rows.length = 3 ∧
      table.rows[0]?.map (SampleTable.rowMarkup true) = some ("-1", "-1") ∧
      table.rows[1]?.map (SampleTable.rowMarkup true) = some ("0", "[magenta]inf[/]") ∧
      table.rows[2]?.map (SampleTable.rowMarkup true) = some ("1", "1") := by
  obtain ⟨e, hparse, hinput, hlow, hmid, hhigh⟩ : ∃ e, Expression.parse "1/x" = .ok e ∧
      e.input = some "x" ∧ e.evalList [-1.0] = [-1.0] ∧
      e.evalList [0.0] = [Binary64.positiveInfinity] ∧ e.evalList [1.0] = [1.0] :=
    ⟨_, Grammar.parse_of_parseTree (show parseTree none _ = (.ok _, some "x") from rfl), rfl,
      by decide +kernel, by decide +kernel, by decide +kernel⟩
  have hxs : samplePoints (-1.0) 1.0 3 = .ok [-1.0, 0.0, 1.0] :=
    congrArg Except.ok (by decide +kernel : evenlySpaced (-1.0) 1.0 3 = [-1.0, 0.0, 1.0])
  obtain ⟨s, hsample⟩ : ∃ s, e.sample (-1.0) 1.0 3 = .ok s :=
    ⟨_, by rw [Expression.sample, hxs]; rfl⟩
  have hprecision : ∀ p ∈ some (6 : Int), 0 ≤ p ∧ p ≤ maxPrecision := by
    rintro p ⟨⟩
    decide
  obtain ⟨csv, table, hcsv, htable, hpoints, hlines, hlength, -, hheading, hrows⟩ :=
    renderings_agree hparse hsample hprecision
  rw [← Except.ok.inj (hxs.symm.trans hpoints)] at hrows
  rw [hinput] at hheading
  have hrow (i : Nat) (x : Float) {y : Float} (xText yText : String)
      (hx : [-1.0, 0.0, 1.0][i]? = some x) (hy : e.evalList [x] = [y])
      (hxText : shownText (some 6) x = xText) (hyText : shownText (some 6) y = yText) :
      ∃ row, table.rows[i]? = some row ∧
        (csv.toList.splitOn '\n')[i + 1]? = some (xText.toList ++ ',' :: yText.toList) ∧
        ShowsRow (some 6) x y row (xText.toList ++ ',' :: yText.toList) xText yText := by
    obtain ⟨y', row, line, xText', yText', -, hy', -, hrow, hline, hshows⟩ := hrows i x hx
    obtain rfl := List.singleton_inj.mp (hy.symm.trans hy')
    obtain ⟨rfl, rfl⟩ := hshows.texts hprecision
    subst hxText hyText
    exact ⟨row, hrow, hshows.line ▸ hline, hshows.line ▸ hshows⟩
  obtain ⟨row, hlowRow, hlowLine, hlowShows⟩ :=
    hrow 0 (-1.0) "-1" "-1" rfl hlow (by decide +kernel) (by decide +kernel)
  obtain ⟨row', hmidRow, hmidLine, hmidShows⟩ :=
    hrow 1 0.0 "0" "inf" rfl hmid (by decide +kernel) rfl
  obtain ⟨row'', hhighRow, hhighLine, hhighShows⟩ :=
    hrow 2 1.0 "1" "1" rfl hhigh (by decide +kernel) (by decide +kernel)
  refine ⟨e, s, csv, table, hparse, hsample, hcsv, hlines, hheading, hlowLine, hmidLine,
    hhighLine, htable, hlength, ?_, ?_, ?_⟩
  · rw [hlowRow, Option.map_some, hlowShows.finite (by decide +kernel)]
  · rw [hmidRow, Option.map_some, hmidShows.tagged rfl]
    rfl
  · rw [hhighRow, Option.map_some, hhighShows.finite (by decide +kernel)]

end

end ExprSampler
