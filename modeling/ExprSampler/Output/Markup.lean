import ExprSampler.Decimal.Layout

/-!
# Markup

Coloured output is prepared as text with style tags in brackets. Text that is shown as it is must
not be taken for a tag, so brackets that could open one are escaped, as is a backslash that would
escape the tag after it.
-/

namespace ExprSampler.Markup

/-- Whether an opened bracket is a tag: a letter or mark that can begin one follows, and it is
closed before another bracket opens. -/
def opensTag : List Char → Bool
  | [] => false
  | c :: cs =>
    (('a' ≤ c && c ≤ 'z') || c == '#' || c == '/' || c == '@') &&
      (cs.find? fun d ↦ d == '[' || d == ']') == some ']'

/-- The text with its tags escaped, `pending` backslashes being read already. Backslashes before a
tag are doubled, and one more is put in front of it. -/
def escapeTags (pending : Nat) : List Char → List Char
  | [] => List.replicate pending '\\'
  | '\\' :: cs => escapeTags (pending + 1) cs
  | '[' :: cs =>
    List.replicate (if opensTag cs then 2 * pending + 1 else pending) '\\' ++
      '[' :: escapeTags 0 cs
  | c :: cs => List.replicate pending '\\' ++ c :: escapeTags 0 cs

/-- A lone backslash at the end is doubled. -/
def closeBackslash (cs : List Char) : List Char :=
  match cs.reverse with
  | '\\' :: '\\' :: _ => cs
  | '\\' :: _ => cs ++ ['\\']
  | _ => cs

/-- The text as markup that shows it unchanged. -/
def escape (s : String) : String :=
  String.ofList (closeBackslash (escapeTags 0 s.toList))

/-- The text in a style, if styles are on. -/
def colorize (enabled : Bool) (style text : String) : String :=
  if enabled then "[" ++ style ++ "]" ++ escape text ++ "[/]" else text

/-- The style of headings. -/
def headingStyle : String := "bold white"

/-- The style of numbers in a displayed tree. -/
def numberStyle : String := "cyan"

/-- The style of variables in a displayed tree. -/
def variableStyle : String := "green"

/-- The text as a heading, if styles are on. -/
def brightWhite (enabled : Bool) (text : String) : String :=
  colorize enabled headingStyle text

/-- The style of a value: only values that are no finite number have one. -/
def valueStyle (v : Float) : String :=
  if v.isNaN then "dim white" else if v.isInf then "magenta" else ""

/-- The text of a value in the style of that value, if styles are on. -/
def styleValue (enabled : Bool) (v : Float) (text : String) : String :=
  if valueStyle v = "" then
    if enabled then escape text else text
  else colorize enabled (valueStyle v) text

end ExprSampler.Markup
