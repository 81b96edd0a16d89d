import ExprSampler.Terminal.Styled

/-!
# Wrapping

A coloured line that is too long is broken between words, and a word that is too long for any line
is broken where the line ends. Spaces belong to the word before them; those that reach past the end
of the line are dropped.
-/

namespace ExprSampler.Terminal

/-- Whether a character is a space. -/
def isSpace (c : Cell) : Bool := c.1 == ' '

/-- The line without the spaces at its end. -/
def trimEnd (line : List Cell) : List Cell :=
  (line.reverse.dropWhile isSpace).reverse

/-- The line without those spaces at its end that reach past the width. -/
def trimBeyond (width : Nat) (line : List Cell) : List Cell :=
  line.take (max width (trimEnd line).length)

/-- One more character in front of words. A space in front of a word begins the end of another
one. -/
def consWord (c : Cell) : List (List Cell) → List (List Cell)
  | [] => [[c]]
  | [] :: words => [c] :: words
  | (d :: word) :: words =>
    if isSpace c && !isSpace d then [c] :: (d :: word) :: words else (c :: d :: word) :: words

/-- The words of a line, each with the spaces after it. -/
def wordsOf (line : List Cell) : List (List Cell) :=
  line.foldr consWord []

/-- A word cut into pieces of the given width, in at most as many rounds as it has characters. -/
def chop (width : Nat) (word : List Cell) : List (List Cell) :=
  go word.length word
where
  /-- The pieces of what is left of the word. -/
  go : Nat → List Cell → List (List Cell)
    | 0, word => [word]
    | n + 1, word =>
      if word.length ≤ width then [word] else word.take width :: go n (word.drop width)

/-- The lines that words fill, after the words that stand on the current one. -/
def fill (width : Nat) (current : List Cell) : List (List Cell) → List (List Cell)
  | [] => [current]
  | word :: words =>
    let size := (trimEnd word).length
    if current.length + size ≤ width then fill width (current ++ word) words
    else if size ≤ width then current :: fill width word words
    else
      let pieces := chop width word
      (if current.isEmpty then [] else [current]) ++
        pieces.dropLast ++ fill width (pieces.getLast?.getD []) words

/-- The lines of a text of at least one column. -/
def wrap (width : Nat) (line : List Cell) : List (List Cell) :=
  (fill width [] (wordsOf line)).map (trimBeyond width)

end ExprSampler.Terminal
