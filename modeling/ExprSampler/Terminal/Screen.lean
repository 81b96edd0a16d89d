import ExprSampler.Output.Outline
import ExprSampler.Output.Table
import ExprSampler.Terminal.Wrap

/-!
# The screen

How lines, tables and outlines are laid out on eighty columns. Without colour a line is printed as
it is and a line of an outline is cut at the edge; in colour both are wrapped. A table keeps to the
width of the screen by narrowing its wider column, whose texts are then cut.
-/

namespace ExprSampler.Terminal

/-- The columns of the screen. -/
def columns : Nat := 80

/-- A plain piece. -/
def plainPiece (text : List Char) : Piece := ⟨[], text⟩

/-- A number of spaces in a style. -/
def spaces (ink : Ink) (count : Nat) : Piece := ⟨ink, List.replicate count ' '⟩

/-! ## Lines -/

/-- A line as it is printed. -/
def showLine (mode : Mode) (pieces : List Piece) : List String :=
  if mode = .colored then
    (wrap columns (cellsOf pieces)).map fun line ↦ writeLine mode (piecesOf line)
  else [writeLine mode pieces]

/-! ## Tables -/

/-- The widths of two columns that may take `room` columns together. Neither asks for more than the
room itself; the wider one gives way until both are as wide, then both do in equal parts, the first
giving the even half of an odd rest. -/
def fitWidths (room a b : Nat) : Nat × Nat :=
  let a := min a room
  let b := min b room
  let low := min a b
  if a + b ≤ room then (a, b)
  else if 2 * low ≤ room then if b ≤ a then (room - b, b) else (a, room - a)
  else
    let excess := 2 * low - room
    let first := divRound excess 2
    (low - first, low - (excess - first))

/-- A text that fits into a width; if it is cut, the last column says so. -/
def cutText (width : Nat) (text : List Char) : List Char :=
  if text.length ≤ width then text
  else text.take (width - 1) ++ (if width = 0 then [] else ['…'])

/-- The pieces of a cell in the body of a table, aligned to the right between two spaces. -/
def bodyCell (width : Nat) (ink : Ink) (text : List Char) : List Piece :=
  let text := cutText (width - 2) text
  [spaces [] (width - 1 - text.length), ⟨ink, text⟩, plainPiece [' ']]

/-- The pieces of a heading, aligned to the right between two spaces. -/
def headCell (width : Nat) (text : List Char) : List Piece :=
  let text := cutText (width - 2) text
  [spaces bold 1, ⟨bold, List.replicate (width - 2 - text.length) ' ' ++ text⟩, spaces bold 1]

/-- The style of a value; without colour it has none. -/
def valueInk (mode : Mode) (v : Float) : Ink :=
  if mode ≠ .colored then []
  else if v.isNaN then dimWhite
  else if v.isInf then magenta
  else []

/-- A line in the middle of a width, an odd space being on the right. -/
def centered (width : Nat) (line : List Cell) : List Piece :=
  let line := trimEnd line
  let left := (width - line.length) / 2
  spaces italic left :: piecesOf line ++ [spaces italic (width - line.length - left)]

/-- The lines of a title over a table of the given width. -/
def titleLines (mode : Mode) (width : Nat) (title : List Char) : List String :=
  if mode = .colored then
    (wrap width (Piece.cells ⟨titleInk, title⟩)).map fun line ↦ writeLine mode (centered width line)
  else [writeLine mode [⟨italic, title⟩]]

/-- The widest of texts, with a space on either side. -/
def columnWidth (texts : List String) : Nat :=
  (texts.map String.length).foldl max 0 + 2

/-- The lines of a table. -/
def showTable (mode : Mode) (t : SampleTable) : List String :=
  let head := SampleTable.valueHeading
  let widths := fitWidths (columns - 1) (columnWidth (t.pointHeading :: t.rows.map (·.point)))
    (columnWidth (head :: t.rows.map (·.valueText)))
  let headLine := writeLine mode (headCell widths.1 t.pointHeading.toList ++ plainPiece ['┃'] ::
    headCell widths.2 head.toList)
  let rule := String.ofList
    (List.replicate widths.1 '━' ++ '╇' :: List.replicate widths.2 '━')
  let row (r : TableRow) : String :=
    writeLine mode (bodyCell widths.1 [] r.point.toList ++ plainPiece ['│'] ::
      bodyCell widths.2 (valueInk mode r.value) r.valueText.toList)
  titleLines mode (widths.1 + widths.2 + 1) t.title.toList ++ headLine :: rule :: t.rows.map row

/-! ## Outlines -/

/-- The style that a label names by a word. -/
def inkOfStyle (style : String) : Ink :=
  if style = Markup.numberStyle then cyan
  else if style = Markup.variableStyle then green
  else []

/-- The pieces of a label. -/
def labelPieces (l : Label) : List Piece :=
  plainPiece l.words.toList ::
    match l.named with
    | none => []
    | some (style, text) => [⟨inkOfStyle style, text.toList⟩]

/-- The lines of a label beside guides: `first` stands before the first line, `further` before any
other. Guides that fill the screen leave no room for a line. -/
def labelLines (mode : Mode) (first further : List Char) (l : Label) : List String :=
  let room := columns - first.length
  let cells := cellsOf (labelPieces l)
  let lines :=
    if room = 0 then []
    else if mode = .colored then wrap room cells
    else [cells.take room]
  match lines with
  | [] => []
  | line :: lines =>
    writeLine mode (plainPiece first :: piecesOf line) ::
      lines.map fun line ↦ writeLine mode (plainPiece further :: piecesOf line)

mutual

/-- The lines of an outline that hangs below `stem`; the last of its siblings closes the guide. -/
def branchLines (mode : Mode) (stem : List Char) (last : Bool) : Outline → List String
  | .entry label children =>
    let below := stem ++ if last then "    ".toList else "│   ".toList
    labelLines mode (stem ++ if last then "└── ".toList else "├── ".toList) below label ++
      childLines mode below children

/-- The lines of sibling outlines. -/
def childLines (mode : Mode) (stem : List Char) : List Outline → List String
  | [] => []
  | child :: children =>
    branchLines mode stem children.isEmpty child ++ childLines mode stem children

end

/-- The lines of an outline. -/
def showOutline (mode : Mode) : Outline → List String
  | .entry label children => labelLines mode [] [] label ++ childLines mode [] children

end ExprSampler.Terminal
