/-!
# Nesting headroom

Work on a text nests in proportion to its length, and the limit on nesting is shared by all work in
progress. Whoever starts work on a text enters its length; the limit is raised where it is too low
and falls back to what it was once nobody is at work any more. In between it only rises, so no two
pieces of work can take headroom from each other, in whatever order they end.
-/

namespace ExprSampler

/-- The shared limit and who relies on it. -/
structure Headroom where
  /-- How many pieces of work are in progress. -/
  active : Nat
  /-- The limit when the first of them began. -/
  saved : Int
  /-- The limit now. -/
  limit : Int
deriving DecidableEq, Repr

namespace Headroom

/-- The nesting granted to each character of a text. -/
def perCharacter : Int := 16

/-- The largest limit that can be set. -/
def largestLimit : Int := 2147483647

/-- Nobody is at work. -/
def idle (limit : Int) : Headroom := ⟨0, limit, limit⟩

/-- The limit that work on a text of the given length needs; a negative length counts as none. -/
def needed (h : Headroom) (length : Int) : Int :=
  h.saved + max length 0 * perCharacter

/-- One more piece of work is counted; the first one notes the limit it found. -/
def count (h : Headroom) : Headroom :=
  ⟨h.active + 1, if h.active = 0 then h.limit else h.saved, h.limit⟩

/-- Starts work on a text of the given length, and whether the limit it needs could be set. Work
that could not is counted nevertheless. -/
def enter (length : Int) (h : Headroom) : Bool × Headroom :=
  let h := h.count
  if h.needed length ≤ h.limit then (true, h)
  else if largestLimit < h.needed length then (false, h)
  else (true, { h with limit := h.needed length })

/-- Ends one piece of work; the last one restores the limit that the first one found. -/
def leave (h : Headroom) : Headroom :=
  let active := h.active - 1
  ⟨active, h.saved, if active = 0 then h.saved else h.limit⟩

/-- The state after work on a text from start to end. -/
def throughout (length : Int) (h : Headroom) : Headroom :=
  (h.enter length).2.leave

end Headroom

/-- Pieces of work under one limit, numbered in the order in which they were started, and whether
each is in progress. -/
structure Workload where
  headroom : Headroom
  running : List Bool
deriving DecidableEq, Repr

namespace Workload

/-- No work was started yet. -/
def idle (limit : Int) : Workload := ⟨.idle limit, []⟩

/-- Starts one more piece of work, and whether the limit it needs could be set. Work that could not
have its limit never runs. -/
def start (length : Int) (w : Workload) : Bool × Workload :=
  let (granted, h) := w.headroom.enter length
  (granted, ⟨h, w.running ++ [granted]⟩)

/-- Ends the piece of work with the given number, in whatever order; work that does not run cannot
end again. -/
def finish (number : Nat) (w : Workload) : Workload :=
  if w.running[number]? = some true then ⟨w.headroom.leave, w.running.set number false⟩ else w

/-- The state after work on a text that is started and ended at once. -/
def throughout (length : Int) (w : Workload) : Workload :=
  { w with headroom := w.headroom.throughout length }

end Workload

end ExprSampler
