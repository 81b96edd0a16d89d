import ExprSampler.Proofs.Evaluation.Constants
import ExprSampler.Proofs.Grammar.Shapes
import ExprSampler.Proofs.Grammar.Texts

/-!
# Variable, text and tree

The tree of an expression does not say what its variable is called, and the name that was bound is
kept beside it. The two belong together all the same: a letter of the text is a place of the
variable in the tree and the other way round, so the name is there exactly if the variable occurs
anywhere, and an expression without a name is a constant.
-/

namespace ExprSampler

namespace Node

mutual

/-- In how many places of a tree the variable occurs. -/
def varCount : Node → Nat
  | .number _ => 0
  | .var => 1
  | .power base none => base.varCount
  | .power base (some exponent) => base.varCount + exponent.varCount
  | .signed _ inner => inner.varCount
  | .product first rest => first.varCount + factorsVarCount rest
  | .sum first rest => first.varCount + termsVarCount rest

/-- In how many places of the factors the variable occurs. -/
def factorsVarCount : List (MulOp × Node) → Nat
  | [] => 0
  | (_, factor) :: rest => factor.varCount + factorsVarCount rest

/-- In how many places of the terms the variable occurs. -/
def termsVarCount : List (AddOp × Node) → Nat
  | [] => 0
  | (_, term) :: rest => term.varCount + termsVarCount rest

end

end Node

namespace Grammar

/-- In how many places of what a text of the rule stands for the variable occurs. -/
def Symbol.varCount : (s : Symbol) → s.Value → Nat
  | .addends, rest => Node.termsVarCount rest
  | .multiplicands, rest => Node.factorsVarCount rest
  | .sum, node | .term, node | .factor, node | .base, node | .primary, node => Node.varCount node

theorem countP_of_noLetters {cs : List Char} (h : NoLetters cs) : cs.countP Char.isAlpha = 0 :=
  List.countP_eq_zero.mpr fun c hc ↦ by rw [h c hc]; exact Bool.false_ne_true

/-- **A text has as many letters as its tree has places of the variable.** -/
theorem Derivation.countP_isAlpha_text {s : Symbol} (d : Derivation s) :
    d.Proper → d.text.countP Char.isAlpha = s.varCount d.tree := by
  induction d with
  | sum first rest ih ih' =>
    intro h
    rw [text, List.countP_append, ih h.1, ih' h.2]
    rfl
  | noAddend => exact fun _ ↦ rfl
  | addend op operand rest ih ih' =>
    intro h
    rw [text, List.countP_cons, List.countP_append, op.isAlpha_sign, ih h.1, ih' h.2]
    rfl
  | term first rest ih ih' =>
    intro h
    rw [text, List.countP_append, ih h.1, ih' h.2]
    rfl
  | noFactor => exact fun _ ↦ rfl
  | multiplicand op operand rest ih ih' =>
    intro h
    rw [text, List.countP_cons, List.countP_append, op.isAlpha_sign, ih h.1, ih' h.2]
    rfl
  | juxtaposed operand rest ih ih' =>
    intro h
    rw [text, List.countP_append, ih h.1, ih' h.2.2]
    rfl
  | factor signs operand ih =>
    intro h
    rw [text, List.countP_append, countP_of_noLetters (noLetters_signs signs), Nat.zero_add, ih h]
    rfl
  | plain operand ih => exact fun h ↦ ih h
  | raised operand exponent ih ih' =>
    intro h
    rw [text, List.countP_append, List.countP_cons, ih h.1, ih' h.2]
    rfl
  | letter name =>
    intro h
    have h : name.isAlpha = true := h
    rw [text, List.countP_singleton, if_pos h]
    rfl
  | number whole fraction => exact fun h ↦ countP_of_noLetters (noLetters_number h)
  | group inner ih =>
    intro h
    have hclosing : [')'].countP Char.isAlpha = 0 := rfl
    rw [text, List.countP_cons, List.countP_append, ih h, hclosing, Nat.add_zero]
    rfl

/-! ## The name -/

section

variable {cs : List Char}

theorem nameAfter_none_eq_none_iff : nameAfter none cs = none ↔ NoLetters cs := by
  simp [nameAfter, NoLetters]

theorem exists_of_nameAfter_none {name : String} (h : nameAfter none cs = some name) :
    ∃ c ∈ cs, c.isAlpha = true ∧ name = String.singleton c := by
  obtain ⟨c, hc, rfl⟩ : ∃ c, cs.find? Char.isAlpha = some c ∧ String.singleton c = name := by
    simpa [nameAfter] using h
  exact ⟨c, List.mem_of_find?_eq_some hc, List.find?_some hc, rfl⟩

theorem countP_isAlpha_of_uniform {c : Char} (halpha : c.isAlpha = true)
    (h : ∀ c' ∈ cs, c'.isAlpha = true → c' = c) : cs.countP Char.isAlpha = cs.count c := by
  rw [List.count_eq_countP]
  refine List.countP_congr fun c' hc' ↦ ?_
  rw [beq_iff_eq]
  exact ⟨h c' hc', fun heq ↦ heq ▸ halpha⟩

end

/-- **Variable, text and tree tell the same story.** An expression has no variable exactly if its
source has no letter and exactly if the variable occurs nowhere in its tree. Otherwise the variable
is the only letter of the source, and occurs in the tree as often as there. Without a variable the
value is the same at every point, and fills lists and grids of every shape. -/
theorem input_of_source_and_root {text : String} {e : Expression}
    (h : Expression.parse text = .ok e) :
    e.source = Text.stripBlanks text ∧
      (e.input = none ↔ ∀ c ∈ e.source.toList, c.isAlpha = false) ∧
      (e.input = none ↔ e.root.varCount = 0) ∧
      (∀ name : String, e.input = some name → ∃ c ∈ e.source.toList, c.isAlpha = true ∧
        name = String.singleton c ∧ (∀ c' ∈ e.source.toList, c'.isAlpha = true → c' = c) ∧
        e.root.varCount = e.source.toList.count c) ∧
      (e.input = none → ∃ y : Float, (∀ x : Float, e.eval x = y) ∧
        (∀ xs : List Float, e.evalList xs = List.replicate xs.length y) ∧
        ∀ (xs : Grid) (shape : List Nat), xs.shape? = some shape →
          ∃ ys : Grid, e.root.evalGrid xs = some ys ∧ ys.shape? = some shape ∧
            ∀ path : List Nat, List.Forall₂ (· < ·) path shape → ys.at? path = some y) := by
  obtain ⟨d, proper, htext, uniform, hrun⟩ | ⟨blame, name, -, hrun⟩ := parse_cases text
  · obtain rfl := Except.ok.inj (hrun.symm.trans h)
    dsimp only
    rw [← htext]
    have hcount : d.text.countP Char.isAlpha = Node.varCount d.tree :=
      d.countP_isAlpha_text proper
    have hnone : nameAfter none d.text = none ↔ NoLetters d.text := nameAfter_none_eq_none_iff
    refine ⟨rfl, hnone, ?_, fun name hname ↦ ?_, fun hinput ↦ ?_⟩
    · rw [hnone, ← hcount, List.countP_eq_zero]
      exact forall₂_congr fun c _ ↦ Bool.eq_false_iff
    · obtain ⟨c, hc, halpha, rfl⟩ := exists_of_nameAfter_none hname
      have honly : ∀ c' ∈ d.text, c'.isAlpha = true → c' = c := fun c' hc' halpha' ↦
        (uniform_iff.mp uniform).1 c' hc' c hc halpha' halpha
      exact ⟨c, hc, halpha, rfl, honly, hcount.symm.trans (countP_isAlpha_of_uniform halpha honly)⟩
    · have hconst : Node.hasVar d.tree = false :=
        (d.any_isAlpha_text proper).symm.trans (any_of_noLetters (hnone.mp hinput))
      refine ⟨Node.eval d.tree 0.0, fun x ↦ Node.eval_of_const hconst x 0.0,
        Node.evalList_of_const hconst 0.0, fun xs shape hshape ↦ ?_⟩
      refine ⟨_, Node.evalGrid_of_const hconst hshape 0.0, (Grid.shape?_map _ _).trans hshape,
        fun path hpath ↦ ?_⟩
      obtain ⟨x, hx⟩ := (Grid.exists_at?_iff hshape).mpr hpath
      rw [Grid.at?_map, hx, Option.map_some]
  · rw [hrun] at h
    cases h

/-- A variable in three places, and a negated number at two points. -/
theorem input_of_source_and_root_of_difference :
    (∃ e : Expression, Expression.parse "x - x x" = .ok e ∧ e.input = some "x" ∧
      e.root.varCount = 3) ∧
      ∃ (e : Expression) (ys : Grid) (y : Float),
        Expression.parse (String.ofList ['-', '2']) = .ok e ∧ e.input = none ∧
        e.root.evalGrid (.row [.row [.point 0.5], .row [.point 3.0]]) = some ys ∧
        ys.at? [1, 0] = some y ∧ e.eval 7.0 = y := by
  constructor
  · have h : Expression.parse "x - x x" = _ :=
      parse_of_parseTree (show parseTree none _ = (.ok _, some "x") from rfl)
    obtain ⟨hsource, -, -, hname, -⟩ := input_of_source_and_root h
    obtain ⟨c, -, -, hc, -, hcount⟩ := hname "x" rfl
    obtain rfl : 'x' = c := singleton_inj hc
    exact ⟨_, h, rfl, hcount.trans (by rw [hsource]; decide)⟩
  · let d : Derivation .sum :=
      .sum (.term (.factor 1 (.plain (.number ['2'] none))) .noFactor) .noAddend
    have proper : d.Proper :=
      ⟨⟨⟨⟨List.cons_ne_nil _ _, fun c hc ↦ List.mem_singleton.mp hc ▸ rfl⟩, nofun⟩, trivial⟩,
        trivial⟩
    have hnone : NoLetters d.text :=
      List.forall_mem_cons.mpr ⟨rfl, List.forall_mem_singleton.mpr rfl⟩
    have hinput : nameAfter none d.text = none := nameAfter_of_noLetters hnone
    have h := parse_of_derivation proper (uniform_of_noLetters hnone)
    obtain ⟨-, -, -, -, hconst⟩ := input_of_source_and_root h
    obtain ⟨y, heval, -, hgrid⟩ := hconst hinput
    obtain ⟨ys, hys, -, hat⟩ := hgrid (.row [.row [.point 0.5], .row [.point 3.0]]) [2, 1] rfl
    exact ⟨_, ys, y, h, hinput, hys, hat [1, 0] (by simp), heval 7.0⟩

end Grammar

end ExprSampler
