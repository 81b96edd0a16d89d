/-!
# Styled text

What a terminal shows: pieces of text, each with the codes of its style. A terminal in colour shows
all codes, one without colour only those that are no colours, and anything that is no terminal none
of them.
-/

namespace ExprSampler.Terminal

/-- The codes of a style, in ascending order; the plain style has none. -/
abbrev Ink := List Nat

def bold : Ink := [1]
def italic : Ink := [3]
def heading : Ink := [1, 37]
def titleInk : Ink := [1, 3, 37]
def cyan : Ink := [36]
def green : Ink := [32]
def magenta : Ink := [35]
def dimWhite : Ink := [2, 37]

/-- What is shown of styles. -/
inductive Mode
  | colored
  | attributes
  | plain
deriving DecidableEq, Repr

/-- The mode for a choice of colour on a terminal or elsewhere. -/
def Mode.of (colored tty : Bool) : Mode :=
  if colored then .colored else if tty then .attributes else .plain

/-- The codes of a style that are shown. -/
def Mode.shows (mode : Mode) (ink : Ink) : Ink :=
  match mode with
  | colored => ink
  | attributes => ink.filter fun code ↦ decide (code < 30)
  | plain => []

/-- A text in one style. -/
structure Piece where
  ink : Ink
  text : List Char
deriving DecidableEq, Repr

/-- A piece as it is written: its codes, the text, and the end of the style. -/
def Piece.write (mode : Mode) (p : Piece) : List Char :=
  match mode.shows p.ink, p.text with
  | _, [] => []
  | [], text => text
  | codes, text =>
    '\x1b' :: '[' :: (";".intercalate (codes.map toString)).toList ++ 'm' :: text ++
      ['\x1b', '[', '0', 'm']

/-- A line of pieces as it is written. -/
def writeLine (mode : Mode) (pieces : List Piece) : String :=
  String.ofList (pieces.flatMap (Piece.write mode))

/-! ## Characters with their styles -/

/-- A character and its style. -/
abbrev Cell := Char × Ink

/-- The characters of a piece. -/
def Piece.cells (p : Piece) : List Cell :=
  p.text.map fun c ↦ (c, p.ink)

/-- The characters of pieces. -/
def cellsOf (pieces : List Piece) : List Cell :=
  pieces.flatMap Piece.cells

/-- One character more in front of pieces; it joins the first one if that has its style. -/
def consCell (c : Cell) : List Piece → List Piece
  | [] => [⟨c.2, [c.1]⟩]
  | p :: pieces => if p.ink = c.2 then ⟨p.ink, c.1 :: p.text⟩ :: pieces
    else ⟨c.2, [c.1]⟩ :: p :: pieces

/-- The pieces that characters make up, as few as possible. -/
def piecesOf (cells : List Cell) : List Piece :=
  cells.foldr consCell []

end ExprSampler.Terminal
