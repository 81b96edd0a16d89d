import ExprSampler.Expr.Parser

/-!
# Parse errors

What is reported about a text that is no expression: what was expected, in which rule, at which
place of the text without its blanks, and what stands there instead.
-/

namespace ExprSampler

/-- A report that a text is no expression. -/
structure ParseError where
  expected : String
  /-- What stands at the position; nothing at the end of the text. -/
  found : Option String
  rule : String
  position : Int
  /-- The text without blanks. -/
  text : String
deriving DecidableEq, Repr

namespace ParseError

/-- How messages name what was found. -/
def describeFound : Option String → String
  | none => Parser.endOfInput
  | some found => Text.quote found

/-- The error in one sentence. -/
def message (e : ParseError) : String :=
  "Expected " ++ e.expected ++ " but found " ++ describeFound e.found ++ " in " ++ e.rule ++
    " at position " ++ toString e.position

/-- The error over the text it is about, with a pointer under the place; a place before the text is
shown at its start. -/
def display (e : ParseError) : String :=
  "Invalid expression: " ++ e.message ++ "\n\n" ++ e.text ++ "\n" ++
    String.ofList (List.replicate e.position.toNat ' ') ++ "^"

/-- What is found at a place of the text. A negative place is counted back from the end. -/
def foundAt (text : String) (position : Int) : Option String :=
  let place := if position < 0 then position + text.length else position
  if place < 0 then none else text.toList[place.toNat]?.map String.singleton

@[simp] theorem foundAt_natCast (text : String) (position : Nat) :
    foundAt text position = text.toList[position]?.map String.singleton := by
  have h : ¬(position : Int) < 0 := by omega
  simp only [foundAt, h, if_false, Int.toNat_natCast]

/-! ## From requirements to one report -/

/-- The requirements that name a rule, as pairs of rule and expected token. -/
def tokens (required : List Requirement) : List (String × String) :=
  required.filterMap fun
    | .token expected rule => some (rule, expected)
    | .plain _ => none

/-- The bare descriptions among the requirements. -/
def descriptions (required : List Requirement) : List String :=
  required.filterMap fun
    | .token _ _ => none
    | .plain expected => some expected

/-- Whether a pair comes no later than another, first by rule, then by token. -/
def comesBefore (a b : String × String) : Bool :=
  decide (a.1 < b.1) || (a.1 == b.1 && decide (a.2 ≤ b.2))

/-- The report for requirements not met at a place: the first in order of rule and token, or, where
no rule is named, all descriptions in order. -/
def ofRequirements (text : String) (position : Int) (required : List Requirement) : ParseError :=
  match (tokens required).mergeSort comesBefore with
  | (rule, expected) :: _ => ⟨expected, foundAt text position, rule, position, text⟩
  | [] =>
    let all := (descriptions required).eraseDups.mergeSort fun a b ↦ decide (a ≤ b)
    ⟨", ".intercalate all, foundAt text position, "expression", position, text⟩

/-- The report for a recorded failure. -/
def ofBlame (text : String) (blame : Blame) : ParseError :=
  ofRequirements text blame.position blame.required

/-- The report for a text whose groups and exponents nest more deeply than they may. -/
def ofTooDeep (text : String) : ParseError :=
  ⟨"shallower nesting", foundAt text 0, "expression", 0, text⟩

end ParseError

end ExprSampler
