import ExprSampler.Text.Blank

/-!
# Output formats

Samples are shown as a table, as JSON or as CSV. A format is named in any case, with blanks around
the name or without.
-/

namespace ExprSampler

/-- How samples are shown. -/
inductive OutputFormat
  | table
  | json
  | csv
deriving DecidableEq, Repr

namespace OutputFormat

/-- All formats, in the order in which messages list them. -/
def all : List OutputFormat := [table, json, csv]

/-- The name of a format. -/
def name : OutputFormat → String
  | table => "table"
  | json => "json"
  | csv => "csv"

/-- A name as it is compared. No letter outside ASCII has a lower-case form that occurs in the name
of a format, so only the letters of ASCII are brought to lower case. -/
def normalize (s : String) : String :=
  String.ofList ((Text.trimBlanks s).toList.map Char.toLower)

/-- The format with a name, whatever its case and the blanks around it. -/
def parse? (s : String) : Option OutputFormat :=
  all.find? fun f ↦ f.name == normalize s

/-- The message about a name that no format has. -/
def unsupportedMessage (s : String) : String :=
  "Unsupported output format: " ++ s ++ ". Available formats: " ++
    ", ".intercalate (all.map name)

end OutputFormat

end ExprSampler
