import ExprSampler.Decimal.Reader
import ExprSampler.Json.Value

/-!
# Reading JSON

A document is one value with blanks around it. Strings hold no bare control characters, numbers have
no superfluous zeros, nothing follows a last comma, and of entries with one key the last counts. The
words `NaN`, `Infinity` and `-Infinity` are numbers if the reader is told to take them. An integer
of too many digits is refused in its own way, as soon as it is met, and so is a list or an object
inside more others than the reader is allowed to be in at once.
-/

namespace ExprSampler

/-- Why a text is no JSON document. -/
inductive JsonError
  | malformed
  | tooManyDigits
  /-- Lists and objects are nested more deeply than the reader can follow. -/
  | tooDeep
deriving DecidableEq, Repr

namespace JsonText

/-- The text without the blanks at its start. -/
def skipSpace (cs : List Char) : List Char :=
  cs.dropWhile fun c ↦ c == ' ' || c == '\t' || c == '\n' || c == '\r'

/-- The text after a given start, if it starts so. -/
def after? (start : String) (cs : List Char) : Option (List Char) :=
  if start.toList.isPrefixOf cs then some (cs.drop start.length) else none

/-! ## Strings -/

/-- The value of a hexadecimal digit. -/
def hexValue? (c : Char) : Option Nat :=
  if '0' ≤ c ∧ c ≤ '9' then some (c.toNat - '0'.toNat)
  else if 'a' ≤ c ∧ c ≤ 'f' then some (c.toNat - 'a'.toNat + 10)
  else if 'A' ≤ c ∧ c ≤ 'F' then some (c.toNat - 'A'.toNat + 10)
  else none

/-- The number written by four hexadecimal digits. -/
def unit? (a b c d : Char) : Option Nat := do
  let a ← hexValue? a
  let b ← hexValue? b
  let c ← hexValue? c
  let d ← hexValue? d
  some (((a * 16 + b) * 16 + c) * 16 + d)

/-- The character that a letter stands for behind a backslash. -/
def escaped? : Char → Option Char
  | '"' => some '"'
  | '\\' => some '\\'
  | '/' => some '/'
  | 'b' => some '\x08'
  | 'f' => some '\x0c'
  | 'n' => some '\n'
  | 'r' => some '\r'
  | 't' => some '\t'
  | _ => none

/-- The code points of a string up to its closing quote, and the text after that. Escaped UTF-16
units stand as they are. -/
def stringCodes : List Char → Option (List Nat × List Char)
  | [] => none
  | '"' :: cs => some ([], cs)
  | '\\' :: 'u' :: a :: b :: c :: d :: cs => do
    let unit ← unit? a b c d
    let (codes, rest) ← stringCodes cs
    some (unit :: codes, rest)
  | '\\' :: c :: cs => do
    let ch ← escaped? c
    let (codes, rest) ← stringCodes cs
    some (ch.toNat :: codes, rest)
  | c :: cs => do
    if c < ' ' ∨ c = '\\' then none
    else
      let (codes, rest) ← stringCodes cs
      some (c.toNat :: codes, rest)

/-- The character with a code point; half of a pair that stands alone is shown as replaced. -/
def charOfCode (code : Nat) : Char :=
  if code.isValidChar then Char.ofNat code else '\uFFFD'

/-- The characters of code points among which two halves of a pair make one character. -/
def joinPairs : List Nat → List Char
  | [] => []
  | [code] => [charOfCode code]
  | high :: low :: codes =>
    if 0xD800 ≤ high ∧ high < 0xDC00 ∧ 0xDC00 ≤ low ∧ low < 0xE000 then
      Char.ofNat (0x10000 + (high - 0xD800) * 0x400 + (low - 0xDC00)) :: joinPairs codes
    else charOfCode high :: joinPairs (low :: codes)

/-- A string after its opening quote. -/
def readString (cs : List Char) : Except JsonError (String × List Char) :=
  match stringCodes cs with
  | none => .error .malformed
  | some (codes, rest) => .ok (String.ofList (joinPairs codes), rest)

/-! ## Numbers -/

/-- The digits before the point: a lone zero, or digits that start with another. -/
def wholePart : List Char → List Char × List Char
  | '0' :: cs => (['0'], cs)
  | cs => (cs.takeWhile Char.isDigit, cs.dropWhile Char.isDigit)

/-- The digits behind the point, if a point and digits follow. -/
def fractionPart : List Char → Option (List Char) × List Char
  | '.' :: cs =>
    match cs.takeWhile Char.isDigit with
    | [] => (none, '.' :: cs)
    | digits => (some digits, cs.dropWhile Char.isDigit)
  | cs => (none, cs)

/-- The exponent, if a mark and digits follow. -/
def exponentPart : List Char → Option Int × List Char
  | c :: cs =>
    let (negative, more) := splitSign cs
    match c == 'e' || c == 'E', more.takeWhile Char.isDigit with
    | true, d :: digits =>
      let size : Int := natOfDigits (d :: digits)
      (some (if negative then -size else size), more.dropWhile Char.isDigit)
    | _, _ => (none, c :: cs)
  | [] => (none, [])

/-- A number behind its sign: an integer, unless a fraction or an exponent follows. -/
def readNumber (negative : Bool) (cs : List Char) : Except JsonError (JsonValue × List Char) :=
  let (whole, cs) := wholePart cs
  let (fraction, cs) := fractionPart cs
  let (exponent, cs) := exponentPart cs
  if whole.isEmpty then .error .malformed
  else if fraction.isNone && exponent.isNone then
    if maxIntDigits < whole.length then .error .tooManyDigits
    else .ok (.int (if negative then -(natOfDigits whole : Int) else natOfDigits whole), cs)
  else
    let d := Decimal.ofPlaces whole (fraction.getD [])
    let d := { d with exponent := d.exponent + exponent.getD 0 }
    .ok (.float (d.toSignedFloat negative), cs)

/-! ## Values -/

/-- A value that is one word or number. -/
def readAtom (words : Bool) (cs : List Char) : Except JsonError (JsonValue × List Char) :=
  if let some rest := after? "null" cs then .ok (.null, rest)
  else if let some rest := after? "true" cs then .ok (.bool true, rest)
  else if let some rest := after? "false" cs then .ok (.bool false, rest)
  else if let some rest := (if words then after? "NaN" cs else none) then
    .ok (.float (0.0 / 0.0), rest)
  else if let some rest := (if words then after? "Infinity" cs else none) then
    .ok (.float (1.0 / 0.0), rest)
  else if let some rest := (if words then after? "-Infinity" cs else none) then
    .ok (.float (-1.0 / 0.0), rest)
  else match cs with
    | '-' :: cs => readNumber true cs
    | cs => readNumber false cs

/-- The nesting that is left inside one more list or object. -/
def deeper : Nat → Except JsonError Nat
  | 0 => .error .tooDeep
  | nesting + 1 => .ok nesting

mutual

/-- A value at the start of the text, where so much nesting is left. Every call takes at least one
character of the text, or leads to one that does, so twice its length bounds how many calls are
open at once. -/
def readValue (words : Bool) : Nat → Nat → List Char → Except JsonError (JsonValue × List Char)
  | 0, _, _ => .error .malformed
  | n + 1, nesting, cs =>
    match cs with
    | '"' :: cs => do
      let (s, cs) ← readString cs
      .ok (.str s, cs)
    | '[' :: cs => do
      let nesting ← deeper nesting
      match skipSpace cs with
      | ']' :: cs => .ok (.list [], cs)
      | cs => do
        let (items, cs) ← readItems words n nesting cs
        .ok (.list items, cs)
    | '{' :: cs => do
      let nesting ← deeper nesting
      match skipSpace cs with
      | '}' :: cs => .ok (.object [], cs)
      | cs => do
        let (entries, cs) ← readEntries words n nesting [] cs
        .ok (.object entries, cs)
    | cs => readAtom words cs

/-- The items of a list up to its closing bracket. -/
def readItems (words : Bool) :
    Nat → Nat → List Char → Except JsonError (List JsonValue × List Char)
  | 0, _, _ => .error .malformed
  | n + 1, nesting, cs => do
    let (item, cs) ← readValue words n nesting cs
    match skipSpace cs with
    | ']' :: cs => .ok ([item], cs)
    | ',' :: cs => do
      let (items, cs) ← readItems words n nesting (skipSpace cs)
      .ok (item :: items, cs)
    | _ => .error .malformed

/-- The entries of an object up to its closing brace, added to those read before. -/
def readEntries (words : Bool) :
    Nat → Nat → List (String × JsonValue) → List Char →
      Except JsonError (List (String × JsonValue) × List Char)
  | 0, _, _, _ => .error .malformed
  | n + 1, nesting, entries, cs =>
    match cs with
    | '"' :: cs => do
      let (key, cs) ← readString cs
      match skipSpace cs with
      | ':' :: cs => do
        let (value, cs) ← readValue words n nesting (skipSpace cs)
        let entries := putEntry key value entries
        match skipSpace cs with
        | '}' :: cs => .ok (entries, cs)
        | ',' :: cs => readEntries words n nesting entries (skipSpace cs)
        | _ => .error .malformed
      | _ => .error .malformed
    | _ => .error .malformed

end

/-- The value of a document in which lists and objects nest no more deeply than allowed. -/
def read (words : Bool) (nesting : Nat) (cs : List Char) : Except JsonError JsonValue := do
  let (value, rest) ← readValue words (2 * cs.length + 1) nesting (skipSpace cs)
  if (skipSpace rest).isEmpty then .ok value else .error .malformed

end JsonText

/-- The value of a document in which `NaN`, `Infinity` and `-Infinity` are numbers, read by a reader
that can follow so much nesting. -/
def JsonValue.decode (nesting : Nat) (s : String) : Except JsonError JsonValue :=
  JsonText.read true nesting s.toList

/-- The value of a document whose numbers are all finite numerals, however deeply it is nested: each
list and each object takes a character to open. -/
def JsonValue.decodeStrict (s : String) : Except JsonError JsonValue :=
  JsonText.read false s.length s.toList

end ExprSampler
