/-!
# Printouts

What a command does is to print lines and then to succeed or fail. Lines printed before a failure
stay printed.
-/

namespace ExprSampler

/-- Lines that were printed, and what came of it. -/
structure Printout (ε α : Type) where
  lines : List String
  result : Except ε α

namespace Printout

variable {ε ε' α β : Type}

/-- A result for which nothing is printed. -/
def ofExcept (result : Except ε α) : Printout ε α := ⟨[], result⟩

/-- Prints lines. -/
def say (lines : List String) : Printout ε Unit := ⟨lines, .ok ()⟩

/-- Fails without printing. -/
def fail (e : ε) : Printout ε α := ⟨[], .error e⟩

/-- Goes on printing unless something failed. -/
def andThen (p : Printout ε α) (f : α → Printout ε β) : Printout ε β :=
  match p.result with
  | .error e => ⟨p.lines, .error e⟩
  | .ok a => ⟨p.lines ++ (f a).lines, (f a).result⟩

instance : Monad (Printout ε) where
  pure a := ofExcept (.ok a)
  bind := andThen

/-- The same printout with failures seen as another kind. -/
def mapError (f : ε → ε') (p : Printout ε α) : Printout ε' α :=
  ⟨p.lines, p.result.mapError f⟩

/-- All lines as one text. -/
def text (p : Printout ε α) : String :=
  String.join (p.lines.map (· ++ "\n"))

end Printout

end ExprSampler
