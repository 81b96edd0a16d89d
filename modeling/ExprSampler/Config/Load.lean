import ExprSampler.Config.Directory
import ExprSampler.Config.Settings
import ExprSampler.Json.Decoder

/-!
# Loading a configuration

The file is found by scanning the words of the command line for `--config`, before anything else is
made of them. A file that is not there is an empty configuration; one that cannot be read, or is not
what a configuration has to be, is malformed.

How deeply a file may nest lists and objects is no property of configurations: it is what the
machine has left for the reader at the time, and so it is given from outside.
-/

namespace ExprSampler

namespace Config

/-- The file that is read unless another one is named. -/
def defaultName : String := ".explot.json"

/-- The file named among words: by the word after the first `--config` that has one, or by what
follows `--config=`, whichever comes first. -/
def nameAmong : List String → String
  | [] => defaultName
  | word :: rest =>
    if word = "--config" then
      match rest with
      | next :: _ => next
      | [] => nameAmong rest
    else if word.startsWith "--config=" then (word.drop "--config=".length).toString
    else nameAmong rest

/-- The file named on a command line, whose first word is the name of the program. -/
def fileName (argv : List String) : String :=
  nameAmong argv.tail

/-- The nesting that the reader can count on in a run of the program of its own. -/
def usualNesting : Nat := 980

/-- What a text that the reader refuses is as a configuration. -/
def ofReader : JsonError → ConfigError
  | .malformed => .malformed
  | .tooManyDigits => .tooManyDigits
  | .tooDeep => .tooDeep

/-- The entries of a configuration file. -/
def entriesOf (nesting : Nat) (found : Found) : Except ConfigError (List (String × JsonValue)) :=
  match found with
  | .missing => .ok []
  | .unreadable => .error .malformed
  | .badName => .error .badName
  | .bytes bytes =>
    match String.fromUTF8? bytes with
    | none => .error .notUtf8
    | some text =>
      match JsonValue.decode nesting text with
      | .ok (.object entries) => .ok entries
      | .ok _ => .error .malformed
      | .error e => .error (ofReader e)

/-- A configuration: defaults for options, and the verbosity it asks for. -/
structure Loaded where
  settings : Settings
  verbose : Int

/-- The configuration in a file, read by a reader that can follow so much nesting. -/
def load (nesting : Nat) (found : Found) : Except ConfigError Loaded := do
  let config ← entriesOf nesting found
  let entries ← Settings.required (Settings.sectionOf config)
  let settings ← Settings.ofEntries entries
  return ⟨{ settings with verbose := none }, settings.verbose.getD 0⟩

end Config

end ExprSampler
