import ExprSampler.Decimal.Layout
import ExprSampler.Json.Value
import ExprSampler.Text.Quoted

/-!
# Values in log lines

The form in which log lines show settings and arguments: texts are quoted, doubles stand in their
exact form, and what is absent is called `None`.
-/

namespace ExprSampler

mutual

/-- A value as log lines show it. Integers are written out whatever their length: none that stands in
a setting or an argument has more than `maxIntDigits` digits, as both are read under that bound. -/
def JsonValue.shown : JsonValue → List Char
  | .null => "None".toList
  | .bool true => "True".toList
  | .bool false => "False".toList
  | .int n => (toString n).toList
  | .float v => (Binary64.exactText v).toList
  | .str s => Text.quoteChars s.toList
  | .list [] => ['[', ']']
  | .list (item :: items) => '[' :: item.shown ++ JsonValue.shownItems items ++ [']']
  | .object [] => ['{', '}']
  | .object ((key, value) :: entries) =>
    '{' :: Text.quoteChars key.toList ++ ':' :: ' ' :: value.shown ++
      JsonValue.shownEntries entries ++ ['}']

/-- The items after the first. -/
def JsonValue.shownItems : List JsonValue → List Char
  | [] => []
  | item :: items => ',' :: ' ' :: item.shown ++ JsonValue.shownItems items

/-- The entries after the first. -/
def JsonValue.shownEntries : List (String × JsonValue) → List Char
  | [] => []
  | (key, value) :: entries =>
    ',' :: ' ' :: Text.quoteChars key.toList ++ ':' :: ' ' :: value.shown ++
      JsonValue.shownEntries entries

end

/-- A name and its value as log lines show them. -/
def shownEntry (entry : String × JsonValue) : String :=
  entry.1 ++ "=" ++ String.ofList entry.2.shown

/-- Names and values as one text. -/
def shownList (entries : List (String × JsonValue)) : String :=
  ", ".intercalate (entries.map shownEntry)

end ExprSampler
