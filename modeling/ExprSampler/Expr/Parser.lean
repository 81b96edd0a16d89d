import ExprSampler.Expr.CharClass

/-!
# Parsers over characters

A parser reads from a cursor and knows the name bound to the variable, if one is bound already; it
may bind one itself, and what is bound stays bound when the parser then fails. A failure reports
what was required at the furthest place where something was required in vain. Looking ahead and
taking what may be absent never fail and never count as requiring anything, so only the `require`
steps show up in a report.
-/

namespace ExprSampler

/-! ## Places in the text -/

/-- A place in a text: how many characters lie before it and which follow. -/
structure Cursor where
  index : Nat
  rest : List Char
deriving DecidableEq, Repr

namespace Cursor

/-- The place before the character with the given index; past the end nothing follows. -/
def seek (text : List Char) (index : Nat) : Cursor :=
  ⟨index, text.drop index⟩

/-- The character that follows, if any. -/
def next (c : Cursor) : Option Char :=
  c.rest.head?

/-- The place `n` characters on. -/
def advance (c : Cursor) (n : Nat) : Cursor :=
  ⟨c.index + n, c.rest.drop n⟩

theorem next_seek (text : List Char) (index : Nat) : (seek text index).next = text[index]? := by
  rw [next, seek, List.head?_drop]

theorem advance_seek (text : List Char) (index n : Nat) :
    (seek text index).advance n = seek text (index + n) := by
  rw [advance, seek, seek, List.drop_drop]

end Cursor

/-! ## Failures -/

/-- Something a text was required to go on with: a token of a grammar rule, or a bare
description. -/
inductive Requirement
  | token (expected rule : String)
  | plain (expected : String)
deriving DecidableEq, Repr

/-- A place where requirements were not met, and those requirements. -/
structure Blame where
  position : Nat
  required : List Requirement
deriving DecidableEq, Repr

namespace Blame

/-- Adds an earlier record to a failure: the one further on stands, at one place both count. -/
def after (earlier : Option Blame) (later : Blame) : Blame :=
  match earlier with
  | none => later
  | some earlier =>
    if later.position < earlier.position then earlier
    else if earlier.position < later.position then later
    else ⟨later.position, (earlier.required ++ later.required).eraseDups⟩

/-- Adds an earlier record to a later one, either of which may be absent. -/
def merge (earlier later : Option Blame) : Option Blame :=
  match later with
  | none => earlier
  | some later => some (after earlier later)

end Blame

/-! ## Parsers -/

/-- What a parser answers. -/
inductive Reply (α : Type)
  /-- A value, the place where reading goes on, and what was required in vain on the way. -/
  | done (value : α) (next : Cursor) (missed : Option Blame)
  /-- The text cannot go on like this. -/
  | failed (blame : Blame)
  /-- The rules nest more deeply than they may. -/
  | tooDeep

/-- A parser of values of a type, threading the name bound to the variable. -/
def Parser (α : Type) : Type :=
  Option String → Cursor → Reply α × Option String

namespace Parser

variable {α β : Type}

/-- A value that takes no text. -/
def ofValue (a : α) : Parser α := fun bound c ↦
  (.done a c none, bound)

/-- One parser after the other; their records of failure are merged. -/
def andThen (p : Parser α) (f : α → Parser β) : Parser β := fun bound c ↦
  match p bound c with
  | (.done a c₁ missed, bound₁) =>
    match f a bound₁ c₁ with
    | (.done b c₂ missed₂, bound₂) => (.done b c₂ (Blame.merge missed missed₂), bound₂)
    | (.failed blame, bound₂) => (.failed (blame.after missed), bound₂)
    | (.tooDeep, bound₂) => (.tooDeep, bound₂)
  | (.failed blame, bound₁) => (.failed blame, bound₁)
  | (.tooDeep, bound₁) => (.tooDeep, bound₁)

instance : Monad Parser where
  pure := ofValue
  bind := andThen

/-- Gives up because the rules nest too deeply. -/
def tooDeep : Parser α := fun bound _ ↦ (.tooDeep, bound)

/-- The name bound to the variable. -/
def getName : Parser (Option String) := fun bound c ↦ (.done bound c none, bound)

/-- Binds the variable to a name. -/
def bindName (name : String) : Parser Unit := fun _ c ↦ (.done () c none, some name)

/-! ### Looking ahead and taking what may be absent -/

/-- Whether the next character is in one of the classes. -/
def nextIs (classes : List CharClass) : Parser Bool := fun bound c ↦
  (.done (classes.any fun k ↦ k.matchesNext c.next) c none, bound)

/-- Takes the next character if it is in the class. -/
def take? (k : CharClass) : Parser (Option Char) := fun bound c ↦
  match c.next with
  | some ch => if k.contains ch then (.done (some ch) (c.advance 1) none, bound)
    else (.done none c none, bound)
  | none => (.done none c none, bound)

/-- Takes the next character if it is in the class and says whether it did. -/
def skip? (k : CharClass) : Parser Bool := do
  let ch ← take? k
  pure ch.isSome

/-- Takes the characters of the class up to the first that is not in it. -/
def takeAll (k : CharClass) : Parser (List Char) := fun bound c ↦
  let run := c.rest.takeWhile k.contains
  (.done run (c.advance run.length) none, bound)

/-! ### Requiring -/

/-- Requires, for a rule, that the next character is in the class. -/
def require (k : CharClass) (rule : String) : Parser Char := fun bound c ↦
  match c.next with
  | some ch => if k.contains ch then (.done ch (c.advance 1) none, bound)
    else (.failed ⟨c.index, [.token k.description rule]⟩, bound)
  | none => (.failed ⟨c.index, [.token k.description rule]⟩, bound)

/-- Requires a character of the class and forgets which one it was. -/
def requireSkip (k : CharClass) (rule : String) : Parser Unit := do
  let _ ← require k rule
  pure ()

/-- How messages name the end of the text. -/
def endOfInput : String := "end of input"

/-- Requires that the text has been read to its end. -/
def requireEnd (rule : String) : Parser Unit := fun bound c ↦
  match c.next with
  | none => (.done () c none, bound)
  | some _ => (.failed ⟨c.index, [.token endOfInput rule]⟩, bound)

/-! ### Repetition -/

/-- Repeats a step for as long as it gives a value, at most once for each of the given
characters. -/
def rounds (step : Parser (Option α)) : List Char → Parser (List α)
  | [] => pure []
  | _ :: budget => do
    match ← step with
    | none => pure []
    | some a =>
      let more ← rounds step budget
      pure (a :: more)

/-- Repeats a step for as long as it gives a value. A step that gives one takes a character, so
there are no more rounds than characters that follow. -/
def many (step : Parser (Option α)) : Parser (List α) := fun bound c ↦
  rounds step c.rest bound c

end Parser

end ExprSampler
