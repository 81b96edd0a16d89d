import ExprSampler.Output.Outline
import ExprSampler.Proofs.Output.Renderings

/-!
# Outlines determine their trees

An outline says what every node is in a label and hangs the operands below it. Nothing of a tree is
lost in this: the kind of a node and the value of a number are read from the label, and how an
operand joins its parent is the mark in front of it. A mark has no capital letter and every label
begins with one, so the two are told apart wherever they meet.

All six kinds of nodes are treated alike here. A node is its *kind* and its marked *operands*, the
outline has the operands' outlines as children, and trees are taken apart by induction on operands.
-/

namespace ExprSampler

/-! ## Kinds and operands -/

/-- The mark of a further factor. -/
def MulOp.mark (op : MulOp) : String := String.ofList [op.sign, ' ']

/-- The mark of a further term. -/
def AddOp.mark (op : AddOp) : String := String.ofList [op.sign, ' ']

theorem MulOp.mark_injective : Function.Injective MulOp.mark := fun _ _ h ↦
  sign_inj (List.head_eq_of_cons_eq (String.ofList_injective h))

theorem AddOp.mark_injective : Function.Injective AddOp.mark := fun _ _ h ↦
  sign_inj (List.head_eq_of_cons_eq (String.ofList_injective h))

namespace Node

/-- What a node is, apart from its operands. -/
inductive Kind
  | number (value : Float)
  | var
  | raised
  | unraised
  | signed (negate : Bool)
  | product
  | sum

/-- What a node is. -/
def kind : Node → Kind
  | .number v => .number v
  | .var => .var
  | .power _ none => .unraised
  | .power _ (some _) => .raised
  | .signed negate _ => .signed negate
  | .product _ _ => .product
  | .sum _ _ => .sum

/-- The first operand without a mark, the further ones with that of their operation. -/
def joined {Op : Type} (mark : Op → String) (first : Node) (rest : List (Op × Node)) :
    List (String × Node) :=
  ("", first) :: rest.map fun p ↦ (mark p.1, p.2)

/-- The operands of a node in order, each with its mark. -/
def operands : Node → List (String × Node)
  | .number _ | .var => []
  | .power base none => [("", base)]
  | .power base (some exponent) => [("", base), ("^ ", exponent)]
  | .signed _ inner => [("", inner)]
  | .product first rest => joined MulOp.mark first rest
  | .sum first rest => joined AddOp.mark first rest

theorem joined_inj {Op : Type} {mark : Op → String} (hmark : Function.Injective mark)
    {first first' : Node} {rest rest' : List (Op × Node)}
    (h : joined mark first rest = joined mark first' rest') : first = first' ∧ rest = rest' := by
  obtain ⟨hfirst, hrest⟩ := List.cons_eq_cons.mp h
  refine ⟨(Prod.mk.inj hfirst).2, List.map_injective_iff.mpr (fun p p' hp ↦ ?_) hrest⟩
  obtain ⟨hop, hoperand⟩ := Prod.mk.inj hp
  exact Prod.ext (hmark hop) hoperand

/-- A node is determined by its kind and its operands. -/
theorem eq_of_kind_of_operands {t t' : Node} (hkind : t.kind = t'.kind)
    (h : t.operands = t'.operands) : t = t' := by
  match t, t' with
  | .number _, .number _ => exact congrArg Node.number (Kind.number.inj hkind)
  | .var, .var => rfl
  | .power base none, .power base' none => simpa [operands] using h
  | .power base (some exponent), .power base' (some exponent') => simpa [operands] using h
  | .signed negate inner, .signed negate' inner' =>
    obtain rfl := Kind.signed.inj hkind
    simpa [operands] using h
  | .product first rest, .product first' rest' =>
    obtain ⟨rfl, rfl⟩ := joined_inj MulOp.mark_injective h
    rfl
  | .sum first rest, .sum first' rest' =>
    obtain ⟨rfl, rfl⟩ := joined_inj AddOp.mark_injective h
    rfl

theorem sizeOf_lt_of_mem_joined {Op : Type} [SizeOf Op] {mark : Op → String} {first : Node}
    {rest : List (Op × Node)} {p : String × Node} (h : p ∈ joined mark first rest) :
    sizeOf p.2 < 1 + sizeOf first + sizeOf rest := by
  rcases List.mem_cons.mp h with rfl | h
  · dsimp only
    omega
  · obtain ⟨⟨op, operand⟩, hq, rfl⟩ := List.mem_map.mp h
    have hlist := List.sizeOf_lt_of_mem hq
    rw [Prod.mk.sizeOf_spec] at hlist
    dsimp only
    omega

theorem sizeOf_lt_of_mem_operands {t : Node} {p : String × Node} (h : p ∈ t.operands) :
    sizeOf p.2 < sizeOf t := by
  match t with
  | .number _ | .var => cases h
  | .power base none =>
    rw [List.mem_singleton.mp h, power.sizeOf_spec]
    dsimp only
    omega
  | .power base (some exponent) =>
    rw [power.sizeOf_spec, Option.some.sizeOf_spec]
    have h : p ∈ [("", base), ("^ ", exponent)] := h
    rcases List.mem_pair.mp h with rfl | rfl <;> (dsimp only; omega)
  | .signed _ inner =>
    rw [List.mem_singleton.mp h, signed.sizeOf_spec]
    dsimp only
    omega
  | .product first rest => exact product.sizeOf_spec first rest ▸ sizeOf_lt_of_mem_joined h
  | .sum first rest => exact sum.sizeOf_spec first rest ▸ sizeOf_lt_of_mem_joined h

/-- Induction from the operands of a node to the node. -/
@[elab_as_elim]
theorem operands_induction {motive : Node → Prop}
    (node : ∀ t : Node, (∀ p ∈ t.operands, motive p.2) → motive t) (t : Node) : motive t :=
  node t fun p _ ↦ operands_induction node p.2
termination_by sizeOf t
decreasing_by exact sizeOf_lt_of_mem_operands ‹_›

/-! ## Marks -/

/-- The marks that operands have. -/
def marks : List String := ["", "^ ", "* ", "/ ", "+ ", "- "]

theorem mem_marks_of_mem_joined {Op : Type} {mark : Op → String} (hmark : ∀ op, mark op ∈ marks)
    {first : Node} {rest : List (Op × Node)} {p : String × Node}
    (h : p ∈ joined mark first rest) : p.1 ∈ marks := by
  rcases List.mem_cons.mp h with rfl | h
  · exact List.mem_cons_self
  · obtain ⟨q, -, rfl⟩ := List.mem_map.mp h
    exact hmark q.1

theorem mem_marks_of_mem_operands {t : Node} {p : String × Node} (h : p ∈ t.operands) :
    p.1 ∈ marks := by
  match t with
  | .number _ | .var => cases h
  | .power base none | .signed _ base =>
    rw [List.mem_singleton.mp h]
    exact List.mem_cons_self
  | .power base (some exponent) =>
    have h : p ∈ [("", base), ("^ ", exponent)] := h
    rcases List.mem_pair.mp h with rfl | rfl
    · exact List.mem_cons_self
    · exact List.mem_cons_of_mem _ List.mem_cons_self
  | .product first rest => exact mem_marks_of_mem_joined (by rintro ⟨⟩ <;> decide) h
  | .sum first rest => exact mem_marks_of_mem_joined (by rintro ⟨⟩ <;> decide) h

theorem not_isUpper_of_mem_mark {mark : String} (hmark : mark ∈ marks) {c : Char}
    (hc : c ∈ mark.toList) : (!c.isUpper) = true := by
  have hall : marks.all (fun mark ↦ mark.toList.all fun c ↦ !c.isUpper) = true := rfl
  exact List.all_eq_true.mp (List.all_eq_true.mp hall mark hmark) c hc

/-- The text begins with a capital letter. -/
def OpensUpper (s : String) : Prop :=
  ∃ c cs, s.toList = c :: cs ∧ c.isUpper = true

theorem takeWhile_mark_append {mark s : String} (hmark : mark ∈ marks) (hs : OpensUpper s) :
    (mark ++ s).toList.takeWhile (fun c ↦ !c.isUpper) = mark.toList := by
  obtain ⟨c, cs, hcs, hc⟩ := hs
  have hstop : (c :: cs).takeWhile (fun c ↦ !c.isUpper) = [] :=
    List.takeWhile_cons_of_neg (by rw [hc]; decide)
  rw [String.toList_append, hcs,
    List.takeWhile_append_of_pos fun _ ↦ not_isUpper_of_mem_mark hmark, hstop, List.append_nil]

/-- A mark and what it stands before are told apart if that begins with a capital letter. -/
theorem mark_append_inj {mark mark' s s' : String} (hmark : mark ∈ marks) (hmark' : mark' ∈ marks)
    (hs : OpensUpper s) (hs' : OpensUpper s') (h : mark ++ s = mark' ++ s') :
    mark = mark' ∧ s = s' := by
  have hmarks : mark.toList = mark'.toList := by
    rw [← takeWhile_mark_append hmark hs, h, takeWhile_mark_append hmark' hs']
  have htext := congrArg String.toList h
  rw [String.toList_append, String.toList_append, hmarks, List.append_cancel_left_eq] at htext
  exact ⟨String.toList_inj.mp hmarks, String.toList_inj.mp htext⟩

/-! ## Labels -/

end Node

namespace Label

theorem markup_plain (enabled : Bool) (words : String) : (plain words).markup enabled = words :=
  String.append_empty

theorem markup_named (enabled : Bool) (words style text : String) :
    markup enabled ⟨words, some (style, text)⟩ = words ++ Markup.colorize enabled style text :=
  rfl

theorem markup_marked (enabled : Bool) (mark : String) (l : Label) :
    (l.marked mark).markup enabled = mark ++ l.markup enabled := by
  rw [markup, marked, markup, String.append_assoc]

end Label

namespace Node

/-- What a node is, read from its label. The value of a number is read from the characters between
the word, or the style, and what follows. -/
def Kind.read? (enabled : Bool) : List Char → Option Kind
  | 'N' :: cs =>
    (readFloat? (String.ofList
      ((cs.drop (if enabled then 12 else 6)).takeWhile isNumberChar))).map .number
  | 'V' :: _ => some .var
  | cs =>
    [("Power".toList, raised), ("Power (no exponent)".toList, unraised),
      ("UnaryChain (negate)".toList, signed true), ("UnaryChain".toList, signed false),
      ("Product".toList, product), ("Sum".toList, sum)].lookup cs

theorem takeWhile_exactText (v : Float) (enabled : Bool) :
    ((Binary64.exactText v).toList ++ if enabled then "[/]".toList else []).takeWhile isNumberChar
      = (Binary64.exactText v).toList := by
  rw [List.takeWhile_append_of_pos (numberText_exactText v)]
  cases enabled <;> exact List.append_nil _

theorem Kind.read?_label (enabled : Bool) (name : String) (t : Node) :
    Kind.read? enabled ((t.label name).markup enabled).toList = some t.kind := by
  match t with
  | .number v =>
    have hread : Kind.read? enabled (((Node.number v).label name).markup enabled).toList
        = (readFloat? (String.ofList (((Binary64.exactText v).toList ++
            if enabled then "[/]".toList else []).takeWhile isNumberChar))).map .number := by
      rw [label, Label.markup_named, String.toList_append]
      cases enabled with
      | false =>
        rw [Markup.colorize_false, if_neg Bool.false_ne_true, List.append_nil]
        rfl
      | true =>
        rw [Markup.colorize_true (Markup.escape_of_numberText (numberText_exactText v)),
          String.toList_append, String.toList_append]
        rfl
    rw [hread, takeWhile_exactText, String.ofList_toList, Binary64.readFloat?_exactText]
    rfl
  | .var =>
    rw [label, Label.markup_named, String.toList_append]
    rfl
  | .power _ none | .power _ (some _) | .signed true _ | .signed false _ | .product _ _
  | .sum _ _ =>
    rw [label, Label.markup_plain]
    rfl

theorem opensUpper_label (enabled : Bool) (name : String) (t : Node) :
    OpensUpper ((t.label name).markup enabled) := by
  match t with
  | .number v | .var =>
    rw [label, OpensUpper, Label.markup_named, String.toList_append]
    exact ⟨_, _, rfl, rfl⟩
  | .power _ none | .power _ (some _) | .signed true _ | .signed false _ | .product _ _
  | .sum _ _ =>
    rw [label, OpensUpper, Label.markup_plain]
    exact ⟨_, _, rfl, rfl⟩

end Node

/-! ## Displayed trees -/

/-- A tree of texts in which styles are tags, as it is handed over for display. -/
inductive MarkupTree
  | entry (label : String) (children : List MarkupTree)

namespace Outline

mutual

/-- An outline as markup. -/
def markup (enabled : Bool) : Outline → MarkupTree
  | .entry label children => .entry (label.markup enabled) (markupChildren enabled children)

/-- Several outlines as markup. -/
def markupChildren (enabled : Bool) : List Outline → List MarkupTree
  | [] => []
  | child :: children => markup enabled child :: markupChildren enabled children

end

theorem markupChildren_eq_map (enabled : Bool) (children : List Outline) :
    markupChildren enabled children = children.map (markup enabled) := by
  induction children with
  | nil => rfl
  | cons child children ih => rw [markupChildren, ih, List.map_cons]

end Outline

namespace Node

section

variable (enabled : Bool) (name : String)

theorem outlineFactors_eq_map (rest : List (MulOp × Node)) :
    outlineFactors name rest = rest.map fun p ↦ p.2.outlineFrom name p.1.mark := by
  induction rest with
  | nil => rfl
  | cons p rest ih =>
    rw [outlineFactors, ih]
    rfl

theorem outlineTerms_eq_map (rest : List (AddOp × Node)) :
    outlineTerms name rest = rest.map fun p ↦ p.2.outlineFrom name p.1.mark := by
  induction rest with
  | nil => rfl
  | cons p rest ih =>
    rw [outlineTerms, ih]
    rfl

theorem map_outlineFrom_joined {Op : Type} (mark : Op → String) (first : Node)
    (rest : List (Op × Node)) :
    (joined mark first rest).map (fun p ↦ p.2.outlineFrom name p.1)
      = first.outlineFrom name "" :: rest.map fun p ↦ p.2.outlineFrom name (mark p.1) := by
  rw [joined, List.map_cons, List.map_map]
  rfl

/-- An outline has the label of the node above the outlines of the operands. -/
theorem outlineFrom_eq (mark : String) (t : Node) :
    t.outlineFrom name mark
      = .entry ((t.label name).marked mark) (t.operands.map fun p ↦ p.2.outlineFrom name p.1) := by
  cases t with
  | number _ => rfl
  | var => rfl
  | power _ exponent => cases exponent <;> rfl
  | signed _ _ => rfl
  | product first rest =>
    rw [outlineFrom, outlineFactors_eq_map, operands, map_outlineFrom_joined]
  | sum first rest =>
    rw [outlineFrom, outlineTerms_eq_map, operands, map_outlineFrom_joined]

theorem markup_outlineFrom (mark : String) (t : Node) :
    (t.outlineFrom name mark).markup enabled
      = .entry (mark ++ (t.label name).markup enabled)
          (t.operands.map fun p ↦ (p.2.outlineFrom name p.1).markup enabled) := by
  rw [outlineFrom_eq, Outline.markup, Label.markup_marked, Outline.markupChildren_eq_map,
    List.map_map]
  rfl

/-- Lists are equal if a function takes them to the same list and tells their members apart. -/
theorem eq_of_map_eq_map {α β : Type} {f : α → β} {l l' : List α}
    (h : l.map f = l'.map f) (hf : ∀ a ∈ l, ∀ a' ∈ l', f a = f a' → a = a') : l = l' := by
  induction l generalizing l' with
  | nil => exact (List.map_eq_nil_iff.mp h.symm).symm
  | cons a l ih =>
    obtain ⟨a', l', rfl, hhead, htail⟩ := List.map_eq_cons_iff.mp h.symm
    have ha := hf a List.mem_cons_self a' List.mem_cons_self hhead.symm
    rw [ha, ih htail.symm fun b hb b' hb' ↦
      hf b (List.mem_cons_of_mem _ hb) b' (List.mem_cons_of_mem _ hb')]

/-- The markup of an outline tells trees and marks apart. -/
theorem markup_outlineFrom_inj {t : Node} : ∀ {t' : Node} {mark mark' : String},
    mark ∈ marks → mark' ∈ marks →
    (t.outlineFrom name mark).markup enabled = (t'.outlineFrom name mark').markup enabled →
    mark = mark' ∧ t = t' := by
  induction t using operands_induction with
  | node t ih =>
    intro t' mark mark' hmark hmark' h
    rw [markup_outlineFrom, markup_outlineFrom] at h
    obtain ⟨hlabel, hchildren⟩ := MarkupTree.entry.inj h
    obtain ⟨hmarks, hlabel⟩ := mark_append_inj hmark hmark' (opensUpper_label enabled name t)
      (opensUpper_label enabled name t') hlabel
    have hkind : t.kind = t'.kind := by
      rw [← Option.some_inj, ← Kind.read?_label enabled name t, hlabel, Kind.read?_label]
    -- The label gives the mark and the kind, the children give the operands.
    have hoperands : t.operands = t'.operands := eq_of_map_eq_map hchildren fun p hp p' hp' h ↦ by
      obtain ⟨hmark, hoperand⟩ :=
        ih p hp (mem_marks_of_mem_operands hp) (mem_marks_of_mem_operands hp') h
      exact Prod.ext hmark hoperand
    exact ⟨hmarks, eq_of_kind_of_operands hkind hoperands⟩

end

end Node

/-! ## Styles -/

namespace MarkupTree

/-- Two trees of one shape whose labels are related place by place. -/
inductive Alike (R : String → String → Prop) : MarkupTree → MarkupTree → Prop
  | entry {label label' : String} {children children' : List MarkupTree} (h : R label label')
      (h' : List.Forall₂ (Alike R) children children') :
      Alike R (.entry label children) (.entry label' children')

end MarkupTree

/-- A label without styles and the same label with styles, where the variable is shown as `name`.
Only a number and the variable have a style, which stands in tags around them. -/
inductive Tagged (name : String) : String → String → Prop
  | number {mark : String} (hmark : mark ∈ Node.marks) (v : Float) :
      Tagged name (mark ++ "Number " ++ Binary64.exactText v)
        (mark ++ "Number " ++ "[cyan]" ++ Binary64.exactText v ++ "[/]")
  | var {mark : String} (hmark : mark ∈ Node.marks) :
      Tagged name (mark ++ "Variable " ++ name) (mark ++ "Variable " ++ "[green]" ++ name ++ "[/]")
  | words {mark : String} (hmark : mark ∈ Node.marks) {words : String}
      (hwords : words ∈ ["Power", "Power (no exponent)", "UnaryChain", "UnaryChain (negate)",
        "Product", "Sum"]) :
      Tagged name (mark ++ words) (mark ++ words)

namespace Node

theorem tagged_label {name : String} (hname : Markup.escape name = name) {mark : String}
    (hmark : mark ∈ marks) (t : Node) :
    Tagged name (mark ++ (t.label name).markup false) (mark ++ (t.label name).markup true) := by
  match t with
  | .number v =>
    have htag : "[" ++ Markup.numberStyle ++ "]" = "[cyan]" := rfl
    rw [label, Label.markup_named, Label.markup_named, Markup.colorize_false,
      Markup.colorize_true (Markup.escape_of_numberText (numberText_exactText v)), htag]
    simp only [← String.append_assoc]
    exact .number hmark v
  | .var =>
    have htag : "[" ++ Markup.variableStyle ++ "]" = "[green]" := rfl
    rw [label, Label.markup_named, Label.markup_named, Markup.colorize_false,
      Markup.colorize_true hname, htag]
    simp only [← String.append_assoc]
    exact .var hmark
  | .power _ none | .power _ (some _) | .signed true _ | .signed false _ | .product _ _
  | .sum _ _ =>
    rw [label, Label.markup_plain, Label.markup_plain]
    exact .words hmark (by decide)

theorem alike_outlineFrom {name : String} (hname : Markup.escape name = name) (t : Node) :
    ∀ {mark : String}, mark ∈ marks → MarkupTree.Alike (Tagged name)
      ((t.outlineFrom name mark).markup false) ((t.outlineFrom name mark).markup true) := by
  induction t using operands_induction with
  | node t ih =>
    intro mark hmark
    rw [markup_outlineFrom, markup_outlineFrom]
    refine .entry (tagged_label hname hmark t) ?_
    rw [List.forall₂_map_left_iff, List.forall₂_map_right_iff, List.forall₂_same]
    exact fun p hp ↦ ih p hp (mem_marks_of_mem_operands hp)

theorem escape_shownName {bound : Option String}
    (h : ∀ name ∈ bound, ∃ c : Char, c.isAlpha = true ∧ name = String.singleton c) :
    Markup.escape (shownName bound) = shownName bound := by
  match bound with
  | none => rfl
  | some name =>
    obtain ⟨c, hc, rfl⟩ := h name rfl
    have hne : String.singleton c ≠ "" := by simp
    refine Markup.escape_of_plain fun c' hc' ↦ ?_
    rw [shownName, if_neg hne, String.toList_singleton, List.mem_singleton] at hc'
    exact hc' ▸ ⟨Grammar.ne_of_isAlpha hc rfl, Grammar.ne_of_isAlpha hc rfl⟩

/-- **The display of a tree determines the tree**, with styles and without, whatever name the
variable is shown under. If that is a letter or none is bound, the two displays have one shape, and
styles only put tags around numbers and around the variable. -/
theorem outline_determines_tree (bound : Option String) :
    (∀ (enabled : Bool) (t t' : Node),
      (t.outline bound).markup enabled = (t'.outline bound).markup enabled → t = t') ∧
    ((∀ name ∈ bound, ∃ c : Char, c.isAlpha = true ∧ name = String.singleton c) → ∀ t : Node,
      MarkupTree.Alike (Tagged (shownName bound)) ((t.outline bound).markup false)
        ((t.outline bound).markup true)) := by
  refine ⟨fun enabled t t' h ↦ ?_, fun h t ↦ ?_⟩
  · exact (markup_outlineFrom_inj enabled _ List.mem_cons_self List.mem_cons_self h).2
  · exact alike_outlineFrom (escape_shownName h) t List.mem_cons_self

/-- A power of the variable in both displays, and two trees that differ in one operation. -/
theorem outline_determines_tree_of_letter :
    (∀ name ∈ some "y", ∃ c : Char, c.isAlpha = true ∧ name = String.singleton c) ∧
    MarkupTree.Alike (Tagged "y")
      (.entry "Power" [.entry "Variable y" [], .entry "^ Variable y" []])
      (.entry "Power" [.entry "Variable [green]y[/]" [], .entry "^ Variable [green]y[/]" []]) ∧
    ((Node.product .var [(.times, .var)]).outline (some "y")).markup true
      ≠ ((Node.product .var [(.over, .var)]).outline (some "y")).markup true := by
  have hletter : ∀ name ∈ some "y", ∃ c : Char, c.isAlpha = true ∧ name = String.singleton c := by
    rintro name ⟨⟩
    exact ⟨'y', rfl, rfl⟩
  obtain ⟨hinj, halike⟩ := outline_determines_tree (some "y")
  refine ⟨hletter, halike hletter (.power .var (some .var)), fun h ↦ ?_⟩
  cases hinj true _ _ h

end Node

end ExprSampler
