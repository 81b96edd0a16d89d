import ExprSampler.Proofs.Output.Outlines

/-!
# Texts that need no escapes

The source of an expression, its variable, its canonical text, the title of a table and the lines of
an uncoloured outline are printed as they are, on a screen that takes brackets for tags. They cannot
be mistaken for tags, since all that varies in them is written in the alphabet of the grammar, and
that has neither brackets nor backslashes nor colons. Written doubles keep to the same alphabet.
-/

namespace ExprSampler

/-! ## Plain and solid texts -/

/-- The characters that markup gives a meaning to: brackets make tags, a backslash escapes them, and
colons make names of signs. -/
def Markup.specials : List Char := ['[', ']', '\\', ':']

/-- A text without such characters. -/
def Plain (s : String) : Prop :=
  ∀ c ∈ s.toList, c ∉ Markup.specials

/-- A text without such characters and without blanks. -/
def Solid (s : String) : Prop :=
  Plain s ∧ ∀ c ∈ s.toList, Text.isBlank c = false

/-- A text is plain if a check finds it to be. -/
theorem Plain.of_all {s : String} (h : s.toList.all (!Markup.specials.contains ·) = true) :
    Plain s := fun c hc hspecial ↦ by
  have hc' := List.all_eq_true.mp h c hc
  rw [List.contains_iff_mem.mpr hspecial] at hc'
  cases hc'

theorem Plain.append {s s' : String} (h : Plain s) (h' : Plain s') : Plain (s ++ s') := by
  rw [Plain, String.toList_append]
  exact List.forall_mem_append.mpr ⟨h, h'⟩

/-- A plain text is markup as it is. -/
theorem Plain.escape_eq {s : String} (h : Plain s) : Markup.escape s = s :=
  Markup.escape_of_plain fun c hc ↦ by
    have hspecial := h c hc
    constructor <;> rintro rfl <;> exact hspecial (by decide)

theorem solid_of_inAlphabet {s : String} (h : ∀ c ∈ s.toList, Grammar.inAlphabet c = true) :
    Solid s := by
  refine ⟨fun c hc hspecial ↦ ?_, fun c hc ↦ Grammar.not_isBlank_of_inAlphabet (h c hc)⟩
  have hnone : Markup.specials.all (fun c ↦ !Grammar.inAlphabet c) = true := rfl
  have hc' := List.all_eq_true.mp hnone c hspecial
  rw [h c hc] at hc'
  cases hc'

/-- Doubles are written in the alphabet of the grammar, if not always as numerals of it. -/
theorem inAlphabet_of_isNumberChar {c : Char} (h : isNumberChar c = true) :
    Grammar.inAlphabet c = true := by
  rcases Bool.or_eq_true_iff.mp h with hdigit | hother
  · exact Grammar.inAlphabet_of_isDigit hdigit
  · have hall : ['.', '+', '-', 'e', 'n', 'a', 'i', 'f'].all Grammar.inAlphabet = true := rfl
    exact List.all_eq_true.mp hall c (List.contains_iff_mem.mp hother)

theorem solid_exactText (v : Float) : Solid (Binary64.exactText v) :=
  solid_of_inAlphabet fun c hc ↦ inAlphabet_of_isNumberChar (numberText_exactText v c hc)

theorem solid_shownName {bound : Option String} (h : ∀ name ∈ bound, Solid name) :
    Solid (shownName bound) := by
  have hx : Solid "x" := solid_of_inAlphabet (List.forall_mem_singleton.mpr rfl)
  match bound with
  | none => exact hx
  | some name =>
    rw [shownName]
    split
    · exact hx
    · exact h name rfl

/-! ## Labels -/

/-- The words that labels begin with. -/
def labelWords : List String :=
  ["Number ", "Variable ", "Power", "Power (no exponent)", "UnaryChain", "UnaryChain (negate)",
    "Product", "Sum"]

/-- The label of an uncoloured outline: a mark, words, and a text without blanks. -/
def PlainLabel (label : String) : Prop :=
  ∃ mark ∈ Node.marks, ∃ words ∈ labelWords, ∃ named, Solid named ∧ label = mark ++ words ++ named

theorem PlainLabel.plain {label : String} (h : PlainLabel label) : Plain label := by
  obtain ⟨mark, hmark, words, hwords, named, hnamed, rfl⟩ := h
  have hfixed : (Node.marks ++ labelWords).all
      (fun s ↦ s.toList.all (!Markup.specials.contains ·)) = true := rfl
  have hplain : ∀ s ∈ Node.marks ++ labelWords, Plain s := fun s hs ↦
    .of_all (List.all_eq_true.mp hfixed s hs)
  exact ((hplain mark (List.mem_append_left _ hmark)).append
    (hplain words (List.mem_append_right _ hwords))).append hnamed.1

theorem Tagged.plainLabel {name label label' : String} (hname : Solid name)
    (h : Tagged name label label') : PlainLabel label := by
  cases h with
  | number hmark v => exact ⟨_, hmark, "Number ", by decide, _, solid_exactText v, rfl⟩
  | var hmark => exact ⟨_, hmark, "Variable ", by decide, _, hname, rfl⟩
  | @words mark hmark words hwords =>
    have hmem : words ∈ labelWords := List.mem_of_mem_tail (List.mem_of_mem_tail hwords)
    have hempty : Solid "" := solid_of_inAlphabet (List.forall_mem_nil _)
    exact ⟨mark, hmark, words, hmem, "", hempty, String.append_empty.symm⟩

namespace MarkupTree

mutual

/-- The labels of a tree, those of a node before those below it. -/
def labels : MarkupTree → List String
  | .entry label children => label :: labelsOfAll children

/-- The labels of several trees. -/
def labelsOfAll : List MarkupTree → List String
  | [] => []
  | child :: children => labels child ++ labelsOfAll children

end

theorem labelsOfAll_eq_flatMap (children : List MarkupTree) :
    labelsOfAll children = children.flatMap labels := by
  induction children with
  | nil => rfl
  | cons child children ih => rw [labelsOfAll, ih, List.flatMap_cons]

end MarkupTree

theorem Node.exists_of_mem_labels {enabled : Bool} {name label : String} (t : Node) :
    ∀ {mark : String}, mark ∈ marks →
      label ∈ ((t.outlineFrom name mark).markup enabled).labels →
      ∃ (t' : Node) (mark' : String), mark' ∈ marks ∧
        label = mark' ++ (t'.label name).markup enabled := by
  induction t using operands_induction with
  | node t ih =>
    intro mark hmark h
    rw [markup_outlineFrom, MarkupTree.labels, MarkupTree.labelsOfAll_eq_flatMap] at h
    rcases List.mem_cons.mp h with rfl | h
    · exact ⟨t, mark, hmark, rfl⟩
    · obtain ⟨child, hchild, h⟩ := List.mem_flatMap.mp h
      obtain ⟨p, hp, rfl⟩ := List.mem_map.mp hchild
      exact ih p hp (mem_marks_of_mem_operands hp) h

/-! ## Accepted texts -/

/-- What is shown of an expression without escapes is plain: its source, its variable, its canonical
text, the labels of its outline and the title of a table of it. Where styles are on, the title and
the outline are the same texts with tags. -/
structure Expression.ShownPlain (e : Expression) : Prop where
  source : Solid e.source ∧ Markup.escape e.source = e.source
  input : ∀ name ∈ e.input, Solid name ∧ Markup.escape name = name
  canonical : Solid e.canonical ∧ Markup.escape e.canonical = e.canonical
  labels : ∀ label ∈ ((e.root.outline e.input).markup false).labels,
    Plain label ∧ PlainLabel label ∧ Markup.escape label = label
  title : ∀ s precision table, SampleTable.ofSamples e s precision = .ok table →
    table.titleMarkup false = "f(" ++ shownName e.input ++ ") = " ++ e.source ∧
      Plain (table.titleMarkup false) ∧
      Markup.escape (table.titleMarkup false) = table.titleMarkup false ∧
      table.titleMarkup true = "[bold white]" ++ table.titleMarkup false ++ "[/]"
  outline : MarkupTree.Alike (Tagged (shownName e.input)) ((e.root.outline e.input).markup false)
    ((e.root.outline e.input).markup true)

section

variable {text : String} {e : Expression}

theorem solid_source (h : Expression.parse text = .ok e) : Solid e.source := by
  obtain ⟨d, proper, htext, -, rfl⟩ := Grammar.exists_derivation_of_parse h
  exact solid_of_inAlphabet (htext ▸ d.inAlphabet_of_mem_text proper)

theorem solid_input (h : Expression.parse text = .ok e) : ∀ name ∈ e.input, Solid name := by
  obtain ⟨-, v, hv, -, hinput⟩ := Grammar.shaped_of_parse h
  intro name hname
  rw [hinput, Option.mem_def, Option.ite_none_right_eq_some] at hname
  obtain ⟨-, hname⟩ := hname
  obtain rfl := Option.some.inj hname
  refine solid_of_inAlphabet ?_
  rw [String.toList_singleton]
  exact List.forall_mem_singleton.mpr (Grammar.inAlphabet_of_isAlpha hv)

/-- The canonical text is a text of the grammar, for the tree is shaped. -/
theorem solid_canonical (h : Expression.parse text = .ok e) : Solid e.canonical := by
  obtain ⟨hshaped, v, hv, hcanonical, -⟩ := Grammar.shaped_of_parse h
  obtain ⟨d, proper, -, htext, -⟩ := hshaped.exists_derivation hv
  have htext : d.text = e.root.chars [v] := htext
  rw [hcanonical, Grammar.canonical_singleton, ← htext]
  refine solid_of_inAlphabet ?_
  rw [String.toList_ofList]
  exact d.inAlphabet_of_mem_text proper

theorem title_ofSamples {s : Samples} {precision : Option Int} {table : SampleTable}
    (h : SampleTable.ofSamples e s precision = .ok table) :
    table.title = "f(" ++ shownName e.input ++ ") = " ++ e.source := by
  rw [SampleTable.ofSamples] at h
  cases heven : s.isEven with
  | false =>
    rw [heven] at h
    cases h
  | true =>
    rw [heven] at h
    cases hrows : s.rows.mapM (SampleTable.rowOf precision) with
    | error cause =>
      rw [hrows] at h
      cases h
    | ok rows =>
      rw [hrows] at h
      obtain rfl := Except.ok.inj h
      rfl

/-- The title of a table is as plain as the name and the source in it. -/
theorem plain_title (h : Expression.parse text = .ok e) {s : Samples} {precision : Option Int}
    {table : SampleTable} (htable : SampleTable.ofSamples e s precision = .ok table) :
    Plain table.title := by
  have hopen : Plain "f(" := .of_all rfl
  have hclose : Plain ") = " := .of_all rfl
  rw [title_ofSamples htable]
  exact ((hopen.append (solid_shownName (solid_input h)).1).append hclose).append (solid_source h).1

/-- **What is shown of an accepted text without escapes can never be taken for markup**, and styles
put tags around parts of it and change nothing else. -/
theorem shownPlain_of_parse (h : Expression.parse text = .ok e) : e.ShownPlain := by
  have hname := solid_shownName (solid_input h)
  have halike := Node.alike_outlineFrom hname.1.escape_eq e.root List.mem_cons_self
  refine ⟨?_, fun name hname ↦ ?_, ?_, fun label hlabel ↦ ?_,
    fun s precision table htable ↦ ?_, halike⟩
  · exact ⟨solid_source h, (solid_source h).1.escape_eq⟩
  · exact ⟨solid_input h name hname, (solid_input h name hname).1.escape_eq⟩
  · exact ⟨solid_canonical h, (solid_canonical h).1.escape_eq⟩
  · obtain ⟨t, mark, hmark, rfl⟩ := Node.exists_of_mem_labels e.root List.mem_cons_self hlabel
    have hplain := (Node.tagged_label hname.1.escape_eq hmark t).plainLabel hname
    exact ⟨hplain.plain, hplain, hplain.plain.escape_eq⟩
  · have hplain := plain_title h htable
    have htitle : table.titleMarkup false = table.title :=
      Markup.colorize_false Markup.headingStyle _
    rw [htitle]
    exact ⟨title_ofSamples htable, hplain, hplain.escape_eq,
      Markup.colorize_true hplain.escape_eq Markup.headingStyle⟩

/-- A product with a blank and without a sign: its canonical text, a label of its outline and the
title of a table of it. -/
theorem shownPlain_of_parse_of_product :
    ∃ e table, Expression.parse "x (-x)" = .ok e ∧ e.source = "x(-x)" ∧
      Solid "x*(-x)" ∧ Markup.escape "* UnaryChain" = "* UnaryChain" ∧
      SampleTable.ofSamples e ⟨[], []⟩ none = .ok table ∧
      table.titleMarkup true = "[bold white]f(x) = x(-x)[/]" := by
  have hparse : Expression.parse "x (-x)" = _ :=
    Grammar.parse_of_parseTree (show parseTree none _ = (.ok _, some "x") from rfl)
  have h := shownPlain_of_parse hparse
  obtain ⟨hfalse, -, -, htrue⟩ := h.title ⟨[], []⟩ none _ rfl
  refine ⟨_, _, hparse, rfl, ?_, ?_, rfl, ?_⟩
  · exact h.canonical.1
  · exact (h.labels _ (by decide)).2.2
  · rw [htrue, hfalse]
    rfl

end

end ExprSampler
