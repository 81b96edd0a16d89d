import ExprSampler.Decimal.Layout
import ExprSampler.Json.Value
import ExprSampler.Text.Quoted

/-!
# Writing JSON

Documents are written on one line in ASCII: characters outside it, and the one control character in
it that needs no escape, are written as escaped UTF-16 units. Doubles are written in their exact
form, so reading them back gives the same doubles.
-/

namespace ExprSampler

namespace JsonText

/-- One UTF-16 unit, escaped. -/
def escapeUnit (unit : Nat) : List Char :=
  '\\' :: 'u' :: Text.hex 4 unit

/-- One character inside a string. -/
def escapeChar (c : Char) : List Char :=
  if c = '"' ∨ c = '\\' then ['\\', c]
  else if c = '\n' then ['\\', 'n']
  else if c = '\r' then ['\\', 'r']
  else if c = '\t' then ['\\', 't']
  else if c = '\x08' then ['\\', 'b']
  else if c = '\x0c' then ['\\', 'f']
  else if ' ' ≤ c ∧ c ≤ '~' then [c]
  else if c.toNat < 0x10000 then escapeUnit c.toNat
  else
    escapeUnit (0xD800 + (c.toNat - 0x10000) / 0x400) ++
      escapeUnit (0xDC00 + (c.toNat - 0x10000) % 0x400)

/-- A string in its quotes. -/
def stringChars (s : String) : List Char :=
  '"' :: s.toList.flatMap escapeChar ++ ['"']

/-- A double; those that are no finite number are written as words. -/
def floatChars (v : Float) : List Char :=
  if v.isNaN then "NaN".toList
  else if v.isInf then
    if Binary64.isNegative v then "-Infinity".toList else "Infinity".toList
  else Binary64.writeFinite .exactForm Binary64.shortest v

mutual

/-- A document. -/
def chars : JsonValue → List Char
  | .null => "null".toList
  | .bool true => "true".toList
  | .bool false => "false".toList
  | .int n => (toString n).toList
  | .float v => floatChars v
  | .str s => stringChars s
  | .list [] => ['[', ']']
  | .list (item :: items) => '[' :: chars item ++ itemsChars items ++ [']']
  | .object [] => ['{', '}']
  | .object ((key, value) :: entries) =>
    '{' :: stringChars key ++ ':' :: ' ' :: chars value ++ entriesChars entries ++ ['}']

/-- The items after the first. -/
def itemsChars : List JsonValue → List Char
  | [] => []
  | item :: items => ',' :: ' ' :: chars item ++ itemsChars items

/-- The entries after the first. -/
def entriesChars : List (String × JsonValue) → List Char
  | [] => []
  | (key, value) :: entries =>
    ',' :: ' ' :: stringChars key ++ ':' :: ' ' :: chars value ++ entriesChars entries

end

end JsonText

/-- The document of a value, on one line. -/
def JsonValue.print (j : JsonValue) : String :=
  String.ofList (JsonText.chars j)

end ExprSampler
