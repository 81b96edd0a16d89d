import ExprSampler.Text.Quoted

/-!
# Character classes

The grammar looks at one character at a time and asks of it only whether it is a digit, a letter or
one given sign. Digits and letters are those of ASCII.
-/

namespace ExprSampler

/-- What the grammar can ask of a character. -/
inductive CharClass
  | digit
  | letter
  | literal (text : String)
deriving DecidableEq, Repr

namespace CharClass

/-- How messages name the class. -/
def description : CharClass → String
  | digit => "digit"
  | letter => "letter"
  | literal text => Text.quote text

/-- Whether a text is a member of the class: of digits and letters only a single one is, of a
literal only the whole text of it. -/
def containsText : CharClass → String → Bool
  | digit, s => match s.toList with
    | [c] => c.isDigit
    | _ => false
  | letter, s => match s.toList with
    | [c] => c.isAlpha
    | _ => false
  | literal text, s => s == text

/-- Whether a character, as a text of its own, is a member of the class. -/
def contains (k : CharClass) (c : Char) : Bool :=
  k.containsText (String.singleton c)

/-- Whether the next character is a member of the class; the end of the text never is. -/
def matchesNext (k : CharClass) : Option Char → Bool
  | none => false
  | some c => k.contains c

def plus : CharClass := literal "+"
def minus : CharClass := literal "-"
def times : CharClass := literal "*"
def divide : CharClass := literal "/"
def caret : CharClass := literal "^"
def openParen : CharClass := literal "("
def closeParen : CharClass := literal ")"
def decimalPoint : CharClass := literal "."

@[simp] theorem contains_digit (c : Char) : digit.contains c = c.isDigit := by
  simp [contains, containsText]

@[simp] theorem contains_letter (c : Char) : letter.contains c = c.isAlpha := by
  simp [contains, containsText]

theorem contains_literal_iff {text : String} {c : Char} :
    (literal text).contains c = true ↔ text.toList = [c] := by
  rw [contains, containsText, beq_iff_eq, ← String.toList_inj, String.toList_singleton, eq_comm]

@[simp] theorem matchesNext_none (k : CharClass) : k.matchesNext none = false := rfl

@[simp] theorem matchesNext_some (k : CharClass) (c : Char) :
    k.matchesNext (some c) = k.contains c := rfl

end CharClass

end ExprSampler
