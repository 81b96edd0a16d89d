/-!
# Words of a command line

A command line is a list of words, some of which are options. A long option is a word of its own,
with its value behind an equals sign or in the next word; short options share a word, the last of
them with its value in the rest of the word or in the next one. An option that takes a value takes
the next word whatever it looks like. Two dashes end the options.
-/

namespace ExprSampler.Command

/-- What an option is for. -/
inductive OptionKey
  | verbose
  | config
  | start
  | stop
  | count
  | out
  | precision
  | color
  | noColor
deriving DecidableEq, Repr

/-- Whether an option takes a value. -/
def OptionKey.takesValue : OptionKey → Bool
  | verbose | color | noColor => false
  | _ => true

/-- A way to write an option: two dashes and a word, or one dash and a letter. -/
structure OptionName where
  text : String
  key : OptionKey

/-- Why words cannot be read. -/
inductive WordError
  | noSuchOption
  /-- A value is missing, or given to an option that takes none. -/
  | badUsage
deriving DecidableEq, Repr

/-- The words of a command line: options with their values, and the operands between them. -/
structure Words where
  given : List (OptionKey × String)
  operands : List String
deriving DecidableEq, Repr

namespace Words

/-- The last value given for an option. -/
def last? (w : Words) (key : OptionKey) : Option String :=
  ((w.given.filter fun g ↦ g.1 == key).getLast?).map (·.2)

/-- How often an option is given. -/
def countOf (w : Words) (key : OptionKey) : Nat :=
  (w.given.filter fun g ↦ g.1 == key).length

/-- The words after an option that was read. -/
def addGiven (given : List (OptionKey × String)) (w : Words) : Words :=
  ⟨given ++ w.given, w.operands⟩

/-- The words after an operand. -/
def addOperand (word : String) (w : Words) : Words :=
  ⟨w.given, word :: w.operands⟩

/-- Whether a word is an option or several. -/
def isOption (word : String) : Bool :=
  match word.toList with
  | '-' :: _ :: _ => true
  | _ => false

/-- The option of a name. -/
def key? (names : List OptionName) (name : List Char) : Option OptionKey :=
  (names.find? fun n ↦ n.text.toList == name).map (·.key)

/-- The text before the first equals sign, and the text after it if there is one. -/
def splitEquals (cs : List Char) : List Char × Option (List Char) :=
  match cs.dropWhile (· != '=') with
  | [] => (cs, none)
  | _ :: value => (cs.takeWhile (· != '='), some value)

/-- What one word gives: options with their values, and an option whose value is in the next
word. -/
abbrev Reading := List (OptionKey × String) × Option OptionKey

/-- Short options in one word, behind the dash. -/
def readShort (names : List OptionName) : List Char → Except WordError Reading
  | [] => .ok ([], none)
  | c :: cs =>
    match key? names ['-', c] with
    | none => .error .noSuchOption
    | some key =>
      if key.takesValue then
        if cs.isEmpty then .ok ([], some key) else .ok ([(key, String.ofList cs)], none)
      else
        match readShort names cs with
        | .ok (given, pending) => .ok ((key, "") :: given, pending)
        | .error e => .error e

/-- One long option. -/
def readLong (names : List OptionName) (cs : List Char) : Except WordError Reading :=
  let (name, value) := splitEquals cs
  match key? names name with
  | none => .error .noSuchOption
  | some key =>
    match key.takesValue, value with
    | true, some value => .ok ([(key, String.ofList value)], none)
    | true, none => .ok ([], some key)
    | false, some _ => .error .badUsage
    | false, none => .ok ([(key, "")], none)

/-- One word that is an option or several. -/
def readOption (names : List OptionName) (word : String) : Except WordError Reading :=
  match word.toList with
  | '-' :: '-' :: _ => readLong names word.toList
  | _ :: cs => readShort names cs
  | [] => .error .noSuchOption

/-- The words of a command line. Where options may not stand behind operands, the first operand ends
them. -/
def read (names : List OptionName) (interspersed : Bool) : List String → Except WordError Words
  | [] => .ok ⟨[], []⟩
  | word :: rest =>
    if word = "--" then .ok ⟨[], rest⟩
    else if isOption word then
      match readOption names word with
      | .error e => .error e
      | .ok (given, none) => (read names interspersed rest).map (addGiven given)
      | .ok (given, some key) =>
        match rest with
        | [] => .error .badUsage
        | value :: rest =>
          (read names interspersed rest).map (addGiven (given ++ [(key, value)]))
    else if interspersed then (read names interspersed rest).map (addOperand word)
    else .ok ⟨[], word :: rest⟩

end Words

end ExprSampler.Command
