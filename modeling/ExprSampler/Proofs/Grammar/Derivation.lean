import ExprSampler.Decimal.Layout
import ExprSampler.Expr.Node
import ExprSampler.Expr.Printer
import Mathlib.Tactic.Tauto

/-!
# Derivations of the grammar

The grammar, apart from any way of reading it. A derivation is a tree of rules; it has a text and
it has the expression tree that it stands for. What the shape of a derivation leaves open (that
letters are letters, that digits are digits, that a sign of multiplication is only left out before
a group or a letter) is what makes it *proper*.

The main result is that the grammar is unambiguous: no text has two proper derivations. Each symbol
has its *continuers*, the characters that can go on a text of that symbol, and before anything else
a derivation is determined from its first character on.
-/

namespace ExprSampler

theorem AddOp.sign_inj {op op' : AddOp} (h : op.sign = op'.sign) : op = op' := by
  cases op <;> cases op' <;> first | rfl | exact absurd h (by decide)

theorem MulOp.sign_inj {op op' : MulOp} (h : op.sign = op'.sign) : op = op' := by
  cases op <;> cases op' <;> first | rfl | exact absurd h (by decide)

theorem AddOp.isAlpha_sign (op : AddOp) : op.sign.isAlpha = false := by
  cases op <;> rfl

theorem MulOp.isAlpha_sign (op : MulOp) : op.sign.isAlpha = false := by
  cases op <;> rfl

namespace Grammar

/-- The rules of the grammar. The two repetitions, of terms in a sum and of factors in a product,
count as rules of their own. -/
inductive Symbol
  | sum
  | addends
  | term
  | multiplicands
  | factor
  | base
  | primary
deriving DecidableEq, Repr

/-- What a text of a rule stands for. -/
def Symbol.Value : Symbol → Type
  | .addends => List (AddOp × Node)
  | .multiplicands => List (MulOp × Node)
  | _ => Node

/-- A derivation from a rule of the grammar. -/
inductive Derivation : Symbol → Type
  /-- `sum := term addends` -/
  | sum (first : Derivation .term) (rest : Derivation .addends) : Derivation .sum
  /-- `addends :=` -/
  | noAddend : Derivation .addends
  /-- `addends := ('+' | '-') term addends` -/
  | addend (op : AddOp) (operand : Derivation .term) (rest : Derivation .addends) :
      Derivation .addends
  /-- `term := factor multiplicands` -/
  | term (first : Derivation .factor) (rest : Derivation .multiplicands) : Derivation .term
  /-- `multiplicands :=` -/
  | noFactor : Derivation .multiplicands
  /-- `multiplicands := ('*' | '/') factor multiplicands` -/
  | multiplicand (op : MulOp) (operand : Derivation .factor) (rest : Derivation .multiplicands) :
      Derivation .multiplicands
  /-- `multiplicands := factor multiplicands`, the factor beginning with `'('` or a letter -/
  | juxtaposed (operand : Derivation .factor) (rest : Derivation .multiplicands) :
      Derivation .multiplicands
  /-- `factor := '-'* base` -/
  | factor (signs : Nat) (operand : Derivation .base) : Derivation .factor
  /-- `base := primary` -/
  | plain (operand : Derivation .primary) : Derivation .base
  /-- `base := primary '^' factor` -/
  | raised (operand : Derivation .primary) (exponent : Derivation .factor) : Derivation .base
  /-- `primary := letter` -/
  | letter (name : Char) : Derivation .primary
  /-- `primary := digit+ ('.' digit+)?` -/
  | number (whole : List Char) (fraction : Option (List Char)) : Derivation .primary
  /-- `primary := '(' sum ')'` -/
  | group (inner : Derivation .sum) : Derivation .primary

/-- Whether a text begins with a group or a letter, before which the sign of a multiplication may be
left out. -/
def opensFactor : List Char → Bool
  | [] => false
  | c :: _ => c == '(' || c.isAlpha

/-- The point and the digits behind it, if there are any. -/
def fractionChars : Option (List Char) → List Char
  | none => []
  | some digits => '.' :: digits

namespace Derivation

/-- The text of a derivation. -/
def text : {s : Symbol} → Derivation s → List Char
  | _, sum first rest => first.text ++ rest.text
  | _, noAddend => []
  | _, addend op operand rest => op.sign :: (operand.text ++ rest.text)
  | _, term first rest => first.text ++ rest.text
  | _, noFactor => []
  | _, multiplicand op operand rest => op.sign :: (operand.text ++ rest.text)
  | _, juxtaposed operand rest => operand.text ++ rest.text
  | _, factor signs operand => List.replicate signs '-' ++ operand.text
  | _, plain operand => operand.text
  | _, raised operand exponent => operand.text ++ '^' :: exponent.text
  | _, letter name => [name]
  | _, number whole fraction => whole ++ fractionChars fraction
  | _, group inner => '(' :: (inner.text ++ [')'])

/-- The expression tree, or the list of operands, that a derivation stands for. Of a run of signs
the parity counts, and a number is the double nearest to its digits. -/
def tree : {s : Symbol} → Derivation s → s.Value
  | _, sum first rest => Node.sum first.tree rest.tree
  | _, noAddend => []
  | _, addend op operand rest => (op, operand.tree) :: rest.tree
  | _, term first rest => Node.product first.tree rest.tree
  | _, noFactor => []
  | _, multiplicand op operand rest => (op, operand.tree) :: rest.tree
  | _, juxtaposed operand rest => (.times, operand.tree) :: rest.tree
  | _, factor signs operand => Node.signed (signs % 2 == 1) operand.tree
  | _, plain operand => Node.power operand.tree none
  | _, raised operand exponent => Node.power operand.tree (some exponent.tree)
  | _, letter _ => Node.var
  | _, number whole fraction => Node.number (Decimal.ofPlaces whole (fraction.getD [])).toFloat
  | _, group inner => inner.tree

/-- One or more digits. -/
def IsDigits (cs : List Char) : Prop :=
  cs ≠ [] ∧ ∀ c ∈ cs, c.isDigit = true

/-- The conditions on a derivation that its shape leaves open. -/
def Proper : {s : Symbol} → Derivation s → Prop
  | _, sum first rest => first.Proper ∧ rest.Proper
  | _, noAddend => True
  | _, addend _ operand rest => operand.Proper ∧ rest.Proper
  | _, term first rest => first.Proper ∧ rest.Proper
  | _, noFactor => True
  | _, multiplicand _ operand rest => operand.Proper ∧ rest.Proper
  | _, juxtaposed operand rest => operand.Proper ∧ opensFactor operand.text = true ∧ rest.Proper
  | _, factor _ operand => operand.Proper
  | _, plain operand => operand.Proper
  | _, raised operand exponent => operand.Proper ∧ exponent.Proper
  | _, letter name => name.isAlpha = true
  | _, number whole fraction => IsDigits whole ∧ ∀ digits ∈ fraction, IsDigits digits
  | _, group inner => inner.Proper

end Derivation

/-! ## Continuers -/

/-- Whether a text of the rule might go on with the character. -/
def Symbol.continues (s : Symbol) (c : Char) : Bool :=
  match s with
  | .primary => c.isDigit || c == '.'
  | .base | .factor => c.isDigit || c == '.' || c == '^'
  | .multiplicands | .term =>
    c.isDigit || c == '.' || c == '^' || c == '*' || c == '/' || c == '(' || c.isAlpha
  | .addends | .sum =>
    c.isDigit || c == '.' || c == '^' || c == '*' || c == '/' || c == '(' || c.isAlpha
      || c == '+' || c == '-'

/-- What follows does not go on a text of the rule. -/
def Stops (s : Symbol) (rest : List Char) : Prop :=
  ∀ c ∈ rest.head?, s.continues c = false

@[simp] theorem stops_nil (s : Symbol) : Stops s [] := by
  simp [Stops]

@[simp] theorem stops_cons {s : Symbol} {c : Char} {rest : List Char} :
    Stops s (c :: rest) ↔ s.continues c = false := by
  simp [Stops]

theorem Stops.term {rest : List Char} (h : Stops .sum rest) : Stops .term rest := fun c hc ↦ by
  have := h c hc
  simp only [Symbol.continues, Bool.or_eq_false_iff] at this ⊢
  tauto

theorem Stops.factor {rest : List Char} (h : Stops .term rest) : Stops .factor rest := fun c hc ↦ by
  have := h c hc
  simp only [Symbol.continues, Bool.or_eq_false_iff] at this ⊢
  tauto

theorem Stops.primary {rest : List Char} (h : Stops .base rest) : Stops .primary rest :=
    fun c hc ↦ by
  have := h c hc
  simp only [Symbol.continues, Bool.or_eq_false_iff] at this ⊢
  tauto

theorem toNat_of_isAlpha {c : Char} (h : c.isAlpha = true) :
    65 ≤ c.toNat ∧ c.toNat ≤ 90 ∨ 97 ≤ c.toNat ∧ c.toNat ≤ 122 := by
  have h : (decide (65 ≤ c.val.toNat ∧ c.val.toNat ≤ 90)
      || (decide (97 ≤ c.val.toNat) && decide (c.val.toNat ≤ 122))) = true := h
  rw [Bool.or_eq_true, Bool.and_eq_true, decide_eq_true_iff, decide_eq_true_iff,
    decide_eq_true_iff] at h
  exact h

theorem toNat_of_isDigit {c : Char} (h : c.isDigit = true) : 48 ≤ c.toNat ∧ c.toNat ≤ 57 := by
  have h : (decide (48 ≤ c.val.toNat) && decide (c.val.toNat ≤ 57)) = true := h
  rw [Bool.and_eq_true, decide_eq_true_iff, decide_eq_true_iff] at h
  exact h

theorem not_isDigit_of_isAlpha {c : Char} (h : c.isAlpha = true) : c.isDigit = false := by
  have hletter := toNat_of_isAlpha h
  refine Bool.eq_false_iff.mpr fun hdigit ↦ ?_
  have hdigit := toNat_of_isDigit hdigit
  omega

theorem not_isAlpha_of_isDigit {c : Char} (h : c.isDigit = true) : c.isAlpha = false := by
  refine Bool.eq_false_iff.mpr fun halpha ↦ ?_
  rw [not_isDigit_of_isAlpha halpha] at h
  cases h

theorem ne_of_isAlpha {c sign : Char} (h : c.isAlpha = true) (hsign : sign.isAlpha = false) :
    c ≠ sign := by
  rintro rfl
  rw [h] at hsign
  cases hsign

/-- A text that opens a factor begins with a character that goes on a term but not a factor. -/
theorem exists_of_opensFactor {cs : List Char} (h : opensFactor cs = true) :
    ∃ c rest, cs = c :: rest ∧ (c = '(' ∨ c.isAlpha = true) ∧
      Symbol.multiplicands.continues c = true ∧ Symbol.factor.continues c = false := by
  cases cs with
  | nil => cases h
  | cons c rest =>
    have hc : c = '(' ∨ c.isAlpha = true := by simpa [opensFactor] using h
    refine ⟨c, rest, rfl, hc, ?_⟩
    obtain rfl | halpha := hc
    · decide
    · have hpoint : c ≠ '.' := ne_of_isAlpha halpha rfl
      have hcaret : c ≠ '^' := ne_of_isAlpha halpha rfl
      simp [Symbol.continues, halpha, not_isDigit_of_isAlpha halpha, hpoint, hcaret]

namespace Derivation

/-- What follows a term goes on only a sum. -/
theorem stops_addends (rest : Derivation .addends) {r : List Char} (hr : Stops .sum r) :
    Stops .term (rest.text ++ r) := by
  cases rest with
  | noAddend => exact hr.term
  | addend op operand rest =>
    rw [text, List.cons_append, stops_cons]
    cases op <;> rfl

theorem stops_multiplicands {rest : Derivation .multiplicands} (h : rest.Proper) {r : List Char}
    (hr : Stops .term r) : Stops .factor (rest.text ++ r) := by
  cases rest with
  | noFactor => exact hr.factor
  | multiplicand op operand rest =>
    rw [text, List.cons_append, stops_cons]
    cases op <;> rfl
  | juxtaposed operand rest =>
    obtain ⟨c, cs, htext, -, -, hc⟩ := exists_of_opensFactor h.2.1
    rw [text, htext, List.cons_append, List.cons_append, stops_cons]
    exact hc

theorem exists_cons_of_number {whole : List Char} {fraction : Option (List Char)}
    (h : (number whole fraction).Proper) :
    ∃ c cs, (number whole fraction).text = c :: cs ∧ c.isDigit = true := by
  obtain ⟨⟨hne, hdigits⟩, -⟩ := h
  obtain ⟨c, cs, rfl⟩ := List.exists_cons_of_ne_nil hne
  exact ⟨c, cs ++ fractionChars fraction, rfl, hdigits c List.mem_cons_self⟩

theorem exists_cons_of_primary {d : Derivation .primary} (h : d.Proper) :
    ∃ c cs, d.text = c :: cs ∧ (c.isAlpha = true ∨ c.isDigit = true ∨ c = '(') := by
  cases d with
  | letter name => exact ⟨name, [], rfl, .inl h⟩
  | number whole fraction =>
    obtain ⟨c, cs, hcs, hc⟩ := exists_cons_of_number h
    exact ⟨c, cs, hcs, .inr (.inl hc)⟩
  | group inner => exact ⟨'(', inner.text ++ [')'], rfl, .inr (.inr rfl)⟩

theorem exists_cons_of_base {d : Derivation .base} (h : d.Proper) :
    ∃ c cs, d.text = c :: cs ∧ (c.isAlpha = true ∨ c.isDigit = true ∨ c = '(') := by
  cases d with
  | plain operand => exact exists_cons_of_primary h
  | raised operand exponent =>
    obtain ⟨c, cs, hcs, hc⟩ := exists_cons_of_primary h.1
    exact ⟨c, cs ++ '^' :: exponent.text, by rw [text, hcs, List.cons_append], hc⟩

theorem exists_cons_of_factor {d : Derivation .factor} (h : d.Proper) :
    ∃ c cs, d.text = c :: cs := by
  cases d with
  | factor signs operand =>
    obtain ⟨c, cs, hcs, -⟩ := exists_cons_of_base h
    refine List.exists_cons_of_ne_nil ?_
    rw [text, hcs]
    exact List.append_ne_nil_of_right_ne_nil _ (List.cons_ne_nil c cs)

theorem head?_base_ne {d : Derivation .base} (h : d.Proper) (r : List Char) :
    ∀ c ∈ (d.text ++ r).head?, ¬c = '-' := by
  obtain ⟨c, cs, hcs, hc⟩ := exists_cons_of_base h
  have hne : ¬c = '-' := by
    rintro rfl
    revert hc
    decide
  simpa [hcs] using hne

/-- A written sign of multiplication is told from one left out by its character. -/
theorem sign_append_ne {op : MulOp} {operand operand' : Derivation .factor}
    {rest rest' : Derivation .multiplicands} {r r' : List Char} {c : Char} {cs : List Char}
    (hcs : operand'.text = c :: cs) (hc : c = '(' ∨ c.isAlpha = true) :
    (multiplicand op operand rest).text ++ r ≠ (juxtaposed operand' rest').text ++ r' := by
  intro h
  rw [text, text, hcs] at h
  obtain ⟨rfl, -⟩ := List.cons.inj h
  cases op <;> exact absurd hc (by decide)

/-! ## Unambiguity -/

/-- A run of characters of one kind ends at the first that is of another. -/
theorem append_inj_of_run {P : Char → Prop} {w w' r r' : List Char} (hw : ∀ c ∈ w, P c)
    (hw' : ∀ c ∈ w', P c) (hr : ∀ c ∈ r.head?, ¬P c) (hr' : ∀ c ∈ r'.head?, ¬P c)
    (h : w ++ r = w' ++ r') : w = w' ∧ r = r' := by
  induction w generalizing w' with
  | nil =>
    cases w' with
    | nil => exact ⟨rfl, h⟩
    | cons c w' =>
      have hc := hr c (by rw [show r = c :: (w' ++ r') from h]; rfl)
      exact absurd (hw' c List.mem_cons_self) hc
  | cons c w ih =>
    cases w' with
    | nil =>
      have hc := hr' c (by rw [show r' = c :: (w ++ r) from h.symm]; rfl)
      exact absurd (hw c List.mem_cons_self) hc
    | cons c' w' =>
      obtain ⟨rfl, htail⟩ := List.cons.inj h
      obtain ⟨rfl, hrest⟩ := ih (fun x hx ↦ hw x (List.mem_cons_of_mem _ hx))
        (fun x hx ↦ hw' x (List.mem_cons_of_mem _ hx)) htail
      exact ⟨rfl, hrest⟩

theorem not_isDigit_of_stops {s : Symbol} {r : List Char} (hr : Stops s r) :
    ∀ c ∈ r.head?, ¬c.isDigit = true := by
  intro c hc hdigit
  have hstop := hr c hc
  cases s <;> simp [Symbol.continues, hdigit] at hstop

/-- Before a text that does not go on a number, only one division into digits is possible. -/
theorem number_inj {whole whole' : List Char} {fraction fraction' : Option (List Char)}
    {r r' : List Char} (hw : IsDigits whole) (hf : ∀ digits ∈ fraction, IsDigits digits)
    (hw' : IsDigits whole') (hf' : ∀ digits ∈ fraction', IsDigits digits)
    (hr : Stops .primary r) (hr' : Stops .primary r')
    (h : whole ++ (fractionChars fraction ++ r) = whole' ++ (fractionChars fraction' ++ r')) :
    whole = whole' ∧ fraction = fraction' ∧ r = r' := by
  have hhead : ∀ {fraction : Option (List Char)} {r : List Char}, Stops .primary r →
      ∀ c ∈ (fractionChars fraction ++ r).head?, ¬c.isDigit = true := by
    intro fraction r hr c hc
    cases fraction with
    | none => exact not_isDigit_of_stops hr c hc
    | some digits =>
      obtain rfl : '.' = c := by simpa [fractionChars] using hc
      decide
  -- The whole parts end at the first character that is no digit, a point or what follows.
  obtain ⟨rfl, hrest⟩ := append_inj_of_run hw.2 hw'.2 (hhead hr) (hhead hr') h
  cases fraction with
  | none =>
    cases fraction' with
    | none => exact ⟨rfl, rfl, hrest⟩
    | some digits' =>
      rw [show r = '.' :: (digits' ++ r') from hrest, stops_cons] at hr
      exact absurd hr (by decide)
  | some digits =>
    cases fraction' with
    | none =>
      rw [show r' = '.' :: (digits ++ r) from hrest.symm, stops_cons] at hr'
      exact absurd hr' (by decide)
    | some digits' =>
      obtain ⟨rfl, rfl⟩ := append_inj_of_run (hf _ rfl).2 (hf' _ rfl).2
        (not_isDigit_of_stops hr) (not_isDigit_of_stops hr') (List.cons.inj hrest).2
      exact ⟨rfl, rfl, rfl⟩

/-- A derivation is determined by a text that begins with its own and goes on otherwise. -/
theorem eq_of_text_append {s : Symbol} (d : Derivation s) : ∀ {d' : Derivation s}, d.Proper →
    d'.Proper → ∀ {r r' : List Char}, Stops s r → Stops s r' → d.text ++ r = d'.text ++ r' →
      d = d' ∧ r = r' := by
  -- The other derivation begins with the same rule, or the first character tells the two apart.
  induction d with
  | sum first rest ihFirst ihRest =>
    intro d' h h' r r' hr hr' heq
    cases d' with
    | sum first' rest' =>
      rw [text, text, List.append_assoc, List.append_assoc] at heq
      obtain ⟨rfl, hrest⟩ := ihFirst h.1 h'.1 (stops_addends _ hr) (stops_addends _ hr') heq
      obtain ⟨rfl, rfl⟩ := ihRest h.2 h'.2 hr hr' hrest
      exact ⟨rfl, rfl⟩
  | noAddend =>
    intro d' h h' r r' hr hr' heq
    cases d' with
    | noAddend => exact ⟨rfl, heq⟩
    | addend op operand rest =>
      rw [show r = op.sign :: (operand.text ++ rest.text ++ r') from heq, stops_cons] at hr
      cases op <;> exact absurd hr (by decide)
  | addend op operand rest ihOperand ihRest =>
    intro d' h h' r r' hr hr' heq
    cases d' with
    | noAddend =>
      rw [show r' = op.sign :: (operand.text ++ rest.text ++ r) from heq.symm, stops_cons] at hr'
      cases op <;> exact absurd hr' (by decide)
    | addend op' operand' rest' =>
      obtain ⟨hsign, heq⟩ := List.cons.inj heq
      have hop : op = op' := AddOp.sign_inj hsign
      rw [List.append_eq, List.append_eq, List.append_assoc, List.append_assoc] at heq
      obtain ⟨rfl, hrest⟩ := ihOperand h.1 h'.1 (stops_addends _ hr) (stops_addends _ hr') heq
      obtain ⟨rfl, rfl⟩ := ihRest h.2 h'.2 hr hr' hrest
      exact ⟨by rw [hop], rfl⟩
  | term first rest ihFirst ihRest =>
    intro d' h h' r r' hr hr' heq
    cases d' with
    | term first' rest' =>
      rw [text, text, List.append_assoc, List.append_assoc] at heq
      obtain ⟨rfl, hrest⟩ := ihFirst h.1 h'.1 (stops_multiplicands h.2 hr)
        (stops_multiplicands h'.2 hr') heq
      obtain ⟨rfl, rfl⟩ := ihRest h.2 h'.2 hr hr' hrest
      exact ⟨rfl, rfl⟩
  | noFactor =>
    intro d' h h' r r' hr hr' heq
    cases d' with
    | noFactor => exact ⟨rfl, heq⟩
    | multiplicand op operand rest =>
      rw [show r = op.sign :: (operand.text ++ rest.text ++ r') from heq, stops_cons] at hr
      cases op <;> exact absurd hr (by decide)
    | juxtaposed operand rest =>
      obtain ⟨c, cs, hcs, -, hc, -⟩ := exists_of_opensFactor h'.2.1
      rw [text, text, hcs] at heq
      rw [show r = c :: (cs ++ rest.text ++ r') from heq, stops_cons, hc] at hr
      cases hr
  | multiplicand op operand rest ihOperand ihRest =>
    intro d' h h' r r' hr hr' heq
    cases d' with
    | noFactor =>
      rw [show r' = op.sign :: (operand.text ++ rest.text ++ r) from heq.symm, stops_cons] at hr'
      cases op <;> exact absurd hr' (by decide)
    | multiplicand op' operand' rest' =>
      obtain ⟨hsign, heq⟩ := List.cons.inj heq
      have hop : op = op' := MulOp.sign_inj hsign
      rw [List.append_eq, List.append_eq, List.append_assoc, List.append_assoc] at heq
      obtain ⟨rfl, hrest⟩ := ihOperand h.1 h'.1 (stops_multiplicands h.2 hr)
        (stops_multiplicands h'.2 hr') heq
      obtain ⟨rfl, rfl⟩ := ihRest h.2 h'.2 hr hr' hrest
      exact ⟨by rw [hop], rfl⟩
    | juxtaposed operand' rest' =>
      obtain ⟨c, cs, hcs, hc, -⟩ := exists_of_opensFactor h'.2.1
      exact absurd heq (sign_append_ne hcs hc)
  | juxtaposed operand rest ihOperand ihRest =>
    intro d' h h' r r' hr hr' heq
    cases d' with
    | noFactor =>
      obtain ⟨c, cs, hcs, -, hc, -⟩ := exists_of_opensFactor h.2.1
      rw [text, text, hcs] at heq
      rw [show r' = c :: (cs ++ rest.text ++ r) from heq.symm, stops_cons, hc] at hr'
      cases hr'
    | multiplicand op' operand' rest' =>
      obtain ⟨c, cs, hcs, hc, -⟩ := exists_of_opensFactor h.2.1
      exact absurd heq.symm (sign_append_ne hcs hc)
    | juxtaposed operand' rest' =>
      rw [text, text, List.append_assoc, List.append_assoc] at heq
      obtain ⟨rfl, hrest⟩ := ihOperand h.1 h'.1 (stops_multiplicands h.2.2 hr)
        (stops_multiplicands h'.2.2 hr') heq
      obtain ⟨rfl, rfl⟩ := ihRest h.2.2 h'.2.2 hr hr' hrest
      exact ⟨rfl, rfl⟩
  | factor signs operand ih =>
    intro d' h h' r r' hr hr' heq
    cases d' with
    | factor signs' operand' =>
      rw [text, text, List.append_assoc, List.append_assoc] at heq
      obtain ⟨hsigns, heq⟩ := append_inj_of_run (P := (· = '-'))
        (fun c hc ↦ List.eq_of_mem_replicate hc) (fun c hc ↦ List.eq_of_mem_replicate hc)
        (head?_base_ne h r) (head?_base_ne h' r') heq
      obtain ⟨rfl, rfl⟩ := ih h h' hr hr' heq
      have hlen : signs = signs' := by simpa using congrArg List.length hsigns
      exact ⟨by rw [hlen], rfl⟩
  | plain operand ih =>
    intro d' h h' r r' hr hr' heq
    cases d' with
    | plain operand' =>
      obtain ⟨rfl, rfl⟩ := ih h h' hr.primary hr'.primary heq
      exact ⟨rfl, rfl⟩
    | raised operand' exponent' =>
      rw [text, text, List.append_assoc] at heq
      obtain ⟨-, rfl⟩ := ih h h'.1 hr.primary (by simp [Symbol.continues]) heq
      rw [List.cons_append, stops_cons] at hr
      exact absurd hr (by decide)
  | raised operand exponent ih ihExponent =>
    intro d' h h' r r' hr hr' heq
    cases d' with
    | plain operand' =>
      rw [text, text, List.append_assoc] at heq
      obtain ⟨-, rfl⟩ := ih h.1 h' (by simp [Symbol.continues]) hr'.primary heq
      rw [List.cons_append, stops_cons] at hr'
      exact absurd hr' (by decide)
    | raised operand' exponent' =>
      rw [text, text, List.append_assoc, List.append_assoc] at heq
      obtain ⟨rfl, hrest⟩ := ih h.1 h'.1 (by simp [Symbol.continues])
        (by simp [Symbol.continues]) heq
      obtain ⟨rfl, rfl⟩ := ihExponent h.2 h'.2 hr hr' (List.cons.inj hrest).2
      exact ⟨rfl, rfl⟩
  | letter name =>
    intro d' h h' r r' hr hr' heq
    cases d' with
    | letter name' =>
      obtain ⟨rfl, rfl⟩ := List.cons.inj heq
      exact ⟨rfl, rfl⟩
    | number whole fraction =>
      obtain ⟨c, cs, hcs, hc⟩ := exists_cons_of_number h'
      rw [hcs] at heq
      obtain ⟨rfl, -⟩ := List.cons.inj heq
      exact absurd hc (by simp [not_isDigit_of_isAlpha h])
    | group inner =>
      obtain ⟨rfl, -⟩ := List.cons.inj heq
      cases h
  | number whole fraction =>
    intro d' h h' r r' hr hr' heq
    cases d' with
    | letter name' =>
      obtain ⟨c, cs, hcs, hc⟩ := exists_cons_of_number h
      rw [hcs] at heq
      obtain ⟨rfl, -⟩ := List.cons.inj heq
      exact absurd hc (by simp [not_isDigit_of_isAlpha h'])
    | number whole' fraction' =>
      rw [text, text, List.append_assoc, List.append_assoc] at heq
      obtain ⟨rfl, rfl, rfl⟩ := number_inj h.1 h.2 h'.1 h'.2 hr hr' heq
      exact ⟨rfl, rfl⟩
    | group inner =>
      obtain ⟨c, cs, hcs, hc⟩ := exists_cons_of_number h
      rw [hcs] at heq
      obtain ⟨rfl, -⟩ := List.cons.inj heq
      exact absurd hc (by decide)
  | group inner ih =>
    intro d' h h' r r' hr hr' heq
    cases d' with
    | letter name' =>
      obtain ⟨rfl, -⟩ := List.cons.inj heq
      cases h'
    | number whole fraction =>
      obtain ⟨c, cs, hcs, hc⟩ := exists_cons_of_number h'
      rw [hcs] at heq
      obtain ⟨rfl, -⟩ := List.cons.inj heq
      exact absurd hc (by decide)
    | group inner' =>
      have heq := (List.cons.inj heq).2
      rw [List.append_eq, List.append_eq, List.append_assoc, List.append_assoc] at heq
      obtain ⟨rfl, hrest⟩ := ih h h' (by simp [Symbol.continues]) (by simp [Symbol.continues]) heq
      exact ⟨rfl, (List.cons.inj hrest).2⟩

/-- **The grammar is unambiguous.** -/
theorem eq_of_text_eq {s : Symbol} {d d' : Derivation s} (h : d.Proper) (h' : d'.Proper)
    (heq : d.text = d'.text) : d = d' :=
  (d.eq_of_text_append h h' (stops_nil s) (stops_nil s) (by rw [heq])).1

end Derivation

end Grammar

end ExprSampler
