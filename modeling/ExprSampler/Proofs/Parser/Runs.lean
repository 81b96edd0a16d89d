import ExprSampler.Proofs.Parser.Steady

/-!
# The steps of a run

What a parser does, step by step: it looks ahead, takes what may be absent, and requires what must
be there. `Runs` tells the steps apart by following a parser along the way in which it is put
together, with the answers that it really gives.

Everything a run requires is met, or the run ends there. So a failure has one cause, the last step,
and the records of things missed that are handed on and merged behind every step never hold
anything else: there is no earlier record that could outdo the failure or be united with it.
-/

namespace ExprSampler

namespace Parser

variable {α β : Type}

/-! ## Steps -/

/-- One step of a run, with the index of the place where it stands. -/
inductive Step
  /-- Asks whether the next character is in one of the classes. -/
  | look (classes : List CharClass) (index : Nat)
  /-- Takes the next character if it is in the class. -/
  | take (k : CharClass) (index : Nat)
  /-- Takes the characters of the class up to the first that is not in it. -/
  | takeAll (k : CharClass) (index : Nat)
  /-- Requires something for a rule, which is met or not. -/
  | require (expected rule : String) (index : Nat) (met : Bool)
deriving DecidableEq, Repr

/-- The step did not require anything in vain. -/
def Step.passed : Step → Bool
  | .require _ _ _ met => met
  | _ => true

/-- The steps that a parser takes from a place in the text on, where a name may be bound. -/
inductive Runs : {α : Type} → Parser α → Option String → Cursor → List Step → Prop
  | pure {α : Type} (a : α) (bound : Option String) (c : Cursor) : Runs (pure a) bound c []
  | tooDeep {α : Type} (bound : Option String) (c : Cursor) :
      Runs (tooDeep : Parser α) bound c []
  | getName (bound : Option String) (c : Cursor) : Runs getName bound c []
  | bindName (name : String) (bound : Option String) (c : Cursor) : Runs (bindName name) bound c []
  | nextIs (classes : List CharClass) (bound : Option String) (c : Cursor) :
      Runs (nextIs classes) bound c [.look classes c.index]
  | take? (k : CharClass) (bound : Option String) (c : Cursor) :
      Runs (take? k) bound c [.take k c.index]
  | takeAll (k : CharClass) (bound : Option String) (c : Cursor) :
      Runs (takeAll k) bound c [.takeAll k c.index]
  | require (k : CharClass) (rule : String) (bound : Option String) (c : Cursor) :
      Runs (require k rule) bound c
        [.require k.description rule c.index (k.matchesNext c.next)]
  | requireEnd (rule : String) (bound : Option String) (c : Cursor) :
      Runs (requireEnd rule) bound c [.require endOfInput rule c.index c.next.isNone]
  /-- The steps of the first parser and, if it gives a value, those of the second. -/
  | bind_done {α β : Type} {p : Parser α} {f : α → Parser β} {bound bound₁ : Option String}
      {c c₁ : Cursor} {a : α} {missed : Option Blame} {steps steps' : List Step}
      (h : Runs p bound c steps) (hrun : p bound c = (.done a c₁ missed, bound₁))
      (h' : Runs (f a) bound₁ c₁ steps') : Runs (p >>= f) bound c (steps ++ steps')
  | bind_halted {α β : Type} {p : Parser α} {f : α → Parser β} {bound bound₁ : Option String}
      {c : Cursor} {o : Option Blame} {steps : List Step}
      (h : Runs p bound c steps) (hrun : p bound c = (.halted o, bound₁)) :
      Runs (p >>= f) bound c steps
  | many {α : Type} {step : Parser (Option α)} {bound : Option String} {c : Cursor}
      {steps : List Step} (h : Runs (rounds step c.rest) bound c steps) :
      Runs (many step) bound c steps

/-! ## What the steps say about the answer -/

/-- The steps of a run explain its answer: a value comes without a record of something missed, and a
failure records what the last step required in vain. -/
inductive Explains (steps : List Step) : Reply α → Prop
  | done (a : α) (c : Cursor) (h : ∀ step ∈ steps, step.passed = true) :
      Explains steps (.done a c none)
  | failed {before : List Step} {expected rule : String} {index : Nat}
      (h : ∀ step ∈ before, step.passed = true)
      (hsteps : steps = before ++ [.require expected rule index false]) :
      Explains steps (.failed ⟨index, [.token expected rule]⟩)
  | tooDeep (h : ∀ step ∈ steps, step.passed = true) : Explains steps .tooDeep

/-- What passed before does not change what the steps after it explain. -/
theorem Explains.append {steps steps' : List Step} {reply : Reply α}
    (hsteps : ∀ step ∈ steps, step.passed = true) (h : Explains steps' reply) :
    Explains (steps ++ steps') reply := by
  have happend : ∀ {steps' : List Step}, (∀ step ∈ steps', step.passed = true) →
      ∀ step ∈ steps ++ steps', step.passed = true := fun hsteps' ↦
    List.forall_mem_append.mpr ⟨hsteps, hsteps'⟩
  cases h with
  | done a c h => exact .done a c (happend h)
  | failed h heq => exact .failed (happend h) (by rw [heq, List.append_assoc])
  | tooDeep h => exact .tooDeep (happend h)

theorem Explains.halted {steps : List Step} {o : Option Blame}
    (h : Explains steps (.halted o : Reply α)) : Explains steps (.halted o : Reply β) := by
  cases o with
  | none =>
    cases h with
    | tooDeep h => exact .tooDeep h
  | some blame =>
    cases h with
    | failed h heq => exact .failed h heq

section

variable {p : Parser α} {f : α → Parser β} {bound bound₁ : Option String} {c : Cursor}
  {steps : List Step}

/-- **The steps of a run explain its answer.** -/
theorem Runs.explains (h : Runs p bound c steps) : Explains steps (p bound c).1 := by
  induction h with
  | pure a bound c => exact .done a c nofun
  | tooDeep bound c => exact .tooDeep nofun
  | getName bound c => exact .done bound c nofun
  | bindName name bound c => exact .done () c nofun
  | nextIs classes bound c => exact .done _ c (List.forall_mem_singleton.mpr rfl)
  | take? k bound c =>
    obtain ⟨i, cs⟩ := c
    obtain ⟨ch, r, rfl, hk⟩ | hk := matches_cases k cs
    · rw [take?_of_matches hk]
      exact .done _ _ (List.forall_mem_singleton.mpr rfl)
    · rw [take?_of_not_matches hk]
      exact .done _ _ (List.forall_mem_singleton.mpr rfl)
  | takeAll k bound c => exact .done _ _ (List.forall_mem_singleton.mpr rfl)
  | require k rule bound c =>
    obtain ⟨i, cs⟩ := c
    obtain ⟨ch, r, rfl, hk⟩ | hk := matches_cases k cs
    · rw [require_of_matches hk]
      exact .done _ _ (List.forall_mem_singleton.mpr hk)
    · rw [require_of_not_matches hk, Cursor.next, hk]
      exact .failed (List.forall_mem_nil _) (List.nil_append _).symm
  | requireEnd rule bound c =>
    obtain ⟨i, cs⟩ := c
    cases cs with
    | nil => exact .done _ _ (List.forall_mem_singleton.mpr rfl)
    | cons ch cs => exact .failed (List.forall_mem_nil _) (List.nil_append _).symm
  | bind_done h hrun h' ih ih' =>
    -- No record comes with the value, so none is merged into the second answer.
    rw [hrun] at ih
    cases ih with
    | done a c₁ hpassed =>
      rw [bind_of_done hrun]
      exact ih'.append hpassed
  | bind_halted h hrun ih =>
    rw [hrun] at ih
    rw [bind_of_halted hrun]
    exact ih.halted
  | many h ih => exact ih

/-- A run that fails ends with a requirement that is not met, the only one, and that is its failure. -/
theorem Runs.exists_unmet (h : Runs p bound c steps) {blame : Blame}
    (hrun : p bound c = (.failed blame, bound₁)) :
    ∃ before index expected rule, steps = before ++ [.require expected rule index false] ∧
      (∀ step ∈ before, step.passed = true) ∧ blame = ⟨index, [.token expected rule]⟩ := by
  have hexplains := h.explains
  rw [hrun] at hexplains
  cases hexplains with
  | failed hpassed hsteps => exact ⟨_, _, _, _, hsteps, hpassed, rfl⟩

end

/-! ## Parsers that run in steps -/

/-- Wherever the parser runs, its run is one of steps. -/
def Stepwise (p : Parser α) : Prop :=
  ∀ (bound : Option String) (c : Cursor), ∃ steps : List Step, Runs p bound c steps

namespace Stepwise

theorem pure (a : α) : Stepwise (pure a : Parser α) := fun bound c ↦ ⟨_, .pure a bound c⟩

theorem tooDeep : Stepwise (tooDeep : Parser α) := fun bound c ↦ ⟨_, .tooDeep bound c⟩

theorem getName : Stepwise getName := fun bound c ↦ ⟨_, .getName bound c⟩

theorem bindName (name : String) : Stepwise (bindName name) := fun bound c ↦
  ⟨_, .bindName name bound c⟩

theorem nextIs (classes : List CharClass) : Stepwise (nextIs classes) := fun bound c ↦
  ⟨_, .nextIs classes bound c⟩

theorem take? (k : CharClass) : Stepwise (take? k) := fun bound c ↦ ⟨_, .take? k bound c⟩

theorem takeAll (k : CharClass) : Stepwise (takeAll k) := fun bound c ↦ ⟨_, .takeAll k bound c⟩

theorem require (k : CharClass) (rule : String) : Stepwise (require k rule) := fun bound c ↦
  ⟨_, .require k rule bound c⟩

theorem requireEnd (rule : String) : Stepwise (requireEnd rule) := fun bound c ↦
  ⟨_, .requireEnd rule bound c⟩

theorem bind {p : Parser α} {f : α → Parser β} (hp : Stepwise p) (hf : ∀ a, Stepwise (f a)) :
    Stepwise (p >>= f) := by
  intro bound c
  obtain ⟨steps, h⟩ := hp bound c
  rcases hrun : p bound c with ⟨⟨a, c₁, missed⟩ | blame | _, bound₁⟩
  · obtain ⟨steps', h'⟩ := hf a bound₁ c₁
    exact ⟨_, .bind_done h hrun h'⟩
  · exact ⟨_, .bind_halted (o := some blame) h hrun⟩
  · exact ⟨_, .bind_halted (o := none) h hrun⟩

theorem ite {b : Bool} {p q : Parser α} (hp : Stepwise p) (hq : Stepwise q) :
    Stepwise (if b then p else q) := by
  cases b
  · exact hq
  · exact hp

theorem skip? (k : CharClass) : Stepwise (skip? k) :=
  (take? k).bind fun _ ↦ pure _

theorem requireSkip (k : CharClass) (rule : String) : Stepwise (requireSkip k rule) :=
  (require k rule).bind fun _ ↦ pure _

theorem rounds {step : Parser (Option α)} (h : Stepwise step) (budget : List Char) :
    Stepwise (rounds step budget) := by
  induction budget with
  | nil => exact pure []
  | cons _ budget ih =>
    refine h.bind fun a ↦ ?_
    cases a with
    | none => exact pure []
    | some a => exact ih.bind fun more ↦ pure (a :: more)

theorem many {step : Parser (Option α)} (h : Stepwise step) : Stepwise (many step) := by
  intro bound c
  obtain ⟨steps, hsteps⟩ := h.rounds c.rest bound c
  exact ⟨steps, .many hsteps⟩

end Stepwise

/-! ## Failures -/

/-- The run comes to its end with a step that requires something in vain, after steps that all
passed. -/
structure StopsAt (p : Parser α) (bound : Option String) (c : Cursor) (expected rule : String)
    (index : Nat) : Prop where
  exists_runs : ∃ steps : List Step, Runs p bound c steps
  last_of_runs : ∀ steps : List Step, Runs p bound c steps →
    ∃ before : List Step, steps = before ++ [.require expected rule index false] ∧
      ∀ step ∈ before, step.passed = true

/-- **A failure has one cause.** What is recorded is what the last step required, where that step
stood. -/
theorem Stepwise.stopsAt {p : Parser α} (hp : Stepwise p) {bound name : Option String} {c : Cursor}
    {blame : Blame} (hrun : p bound c = (.failed blame, name)) :
    ∃ expected rule index, blame = ⟨index, [.token expected rule]⟩ ∧
      StopsAt p bound c expected rule index := by
  obtain ⟨steps, hsteps⟩ := hp bound c
  obtain ⟨-, index, expected, rule, -, -, rfl⟩ := hsteps.exists_unmet hrun
  refine ⟨expected, rule, index, rfl, ⟨steps, hsteps⟩, fun steps' hsteps' ↦ ?_⟩
  obtain ⟨before, _, _, _, hlast, hpassed, heq⟩ := hsteps'.exists_unmet hrun
  cases heq
  exact ⟨before, hlast, hpassed⟩

end Parser

end ExprSampler
