import ExprSampler.Proofs.Command.Acceptance

/-!
# All values or none

Evaluating an expression at points prints the values one by one, as they are computed. If a value
could not be shown, the values before it would be printed already and the run would end in a failure
that blames nobody's arguments. To rule that out, the number of digits is checked before the
expression is read; but only whether it is negative. Numbers of digits can also be too large, and
then it depends on the values: those that are no finite numbers are shown without looking at digits,
and the first finite one ends the run.

So a run prints all values, or blames the arguments and prints nothing, exactly unless it is asked
for too many digits of a finite value (`EvalArguments.run_allOrNothing_iff`).
-/

namespace ExprSampler

open Printout

/-! ## Values that cannot be shown -/

/-- Only finite values are refused, and for the number of digits. -/
theorem formatValue_eq_error_iff {precision : Option Int} {v : Float} {cause : ShowError} :
    formatValue precision v = .error cause ↔ v.isFinite = true ∧
      ∃ p, precision = some p ∧ (p < 0 ∨ maxPrecision < p) ∧ cause = .digits p := by
  cases hfinite : v.isFinite with
  | false =>
    rw [formatValue.eq_def, hfinite]
    exact iff_of_false nofun nofun
  | true =>
    rw [formatValue.eq_def, hfinite, if_pos rfl]
    cases precision with
    | none => exact iff_of_false nofun nofun
    | some p =>
      dsimp only
      by_cases hrange : p < 0 ∨ maxPrecision < p
      · rw [if_pos hrange, Except.error.injEq]
        refine ⟨fun h ↦ ⟨rfl, p, rfl, hrange, h.symm⟩, ?_⟩
        rintro ⟨-, p', hp, -, rfl⟩
        rw [Option.some.inj hp]
      · rw [if_neg hrange]
        refine iff_of_false nofun ?_
        rintro ⟨-, p', hp, hrange', -⟩
        exact hrange (Option.some.inj hp ▸ hrange')

namespace EvalArguments

/-- The text is what shows the value of the expression at the point. -/
def Shows (e : Expression) (precision : Option Int) (x : Float) (text : String) : Prop :=
  formatValue precision (e.eval x) = .ok text

section

variable {e : Expression} {precision : Option Int} {x : Float} {points : List Float}

theorem printValues_cons_of_shows {text : String} (h : Shows e precision x text) :
    printValues e precision (x :: points) = ⟨text :: (printValues e precision points).lines,
      (printValues e precision points).result⟩ := by
  have hshown : ((formatValue precision (e.eval x)).mapError ActionError.unshowable) = .ok text := by
    rw [show formatValue precision (e.eval x) = .ok text from h]
    rfl
  rw [printValues, hshown, bind_of_ok rfl, bind_of_ok rfl]
  rfl

theorem printValues_cons_of_refused {cause : ShowError}
    (h : formatValue precision (e.eval x) = .error cause) :
    printValues e precision (x :: points) = ⟨[], .error (.unshowable cause)⟩ := by
  have hrefused : ((formatValue precision (e.eval x)).mapError ActionError.unshowable)
      = .error (.unshowable cause) := by
    rw [h]
    rfl
  rw [printValues, hrefused, bind_of_error rfl]
  rfl

/-- Values are printed in order up to the first that cannot be shown. -/
theorem printValues_cases (e : Expression) (precision : Option Int) (points : List Float) :
    (∃ texts : List String, List.Forall₂ (Shows e precision) points texts ∧
        printValues e precision points = ⟨texts, .ok ()⟩)
      ∨ ∃ (before after : List Float) (x : Float) (texts : List String) (cause : ShowError),
        points = before ++ x :: after ∧ List.Forall₂ (Shows e precision) before texts ∧
        formatValue precision (e.eval x) = .error cause ∧
        printValues e precision points = ⟨texts, .error (.unshowable cause)⟩ := by
  induction points with
  | nil => exact .inl ⟨[], .nil, rfl⟩
  | cons x points ih =>
    cases hx : formatValue precision (e.eval x) with
    | error cause =>
      exact .inr ⟨[], points, x, [], cause, rfl, .nil, hx, printValues_cons_of_refused hx⟩
    | ok text =>
      rw [printValues_cons_of_shows hx]
      obtain ⟨texts, htexts, hrun⟩ | ⟨before, after, x', texts, cause, rfl, htexts, hx', hrun⟩ := ih
      · exact .inl ⟨text :: texts, .cons hx htexts, by rw [hrun]⟩
      · exact .inr ⟨x :: before, after, x', text :: texts, cause, rfl, .cons hx htexts, hx',
          by rw [hrun]⟩

theorem not_refused_of_shows {texts : List String}
    (h : List.Forall₂ (Shows e precision) points texts) (hx : x ∈ points) (cause : ShowError) :
    formatValue precision (e.eval x) ≠ .error cause := by
  induction h with
  | nil => exact absurd hx List.not_mem_nil
  | cons hshows _ ih =>
    rcases List.mem_cons.mp hx with rfl | hx
    · rw [show formatValue precision (e.eval x) = _ from hshows]
      exact nofun
    · exact ih hx

end

/-! ## Runs -/

/-- What is logged before the values of an expression are printed. -/
def logLines (a : EvalArguments) (s : Surroundings) (e : Expression) : List String :=
  (parseLogged s.logger a.expression).lines ++ logEvaluating s.logger e a.points.length

variable {a : EvalArguments} {s : Surroundings} {e : Expression}

theorem run_of_negative {p : Int} (hp : a.precision = some p) (hneg : p < 0) :
    a.run s = ⟨[], .error .negativePrecision⟩ := by
  have hany : (a.precision.any fun p ↦ decide (p < 0)) = true := by
    rw [hp]
    exact decide_eq_true hneg
  unfold run
  dsimp only
  rw [if_pos hany, bind_of_error rfl]
  rfl

section

variable (hp : ∀ p ∈ a.precision, ¬p < 0)
include hp

theorem run_of_rejected {cause : ParseError} (h : Expression.parse a.expression = .error cause) :
    a.run s = ⟨[], .error (.ofParseError cause)⟩ := by
  have hany : ¬(a.precision.any fun p ↦ decide (p < 0)) = true := by
    simpa [Option.any_eq_true] using hp
  have hparse : (parseLogged s.logger a.expression).mapError ActionError.ofParseError
      = ⟨[], .error (.ofParseError cause)⟩ := by
    rw [parseLogged, h]
    rfl
  unfold run
  dsimp only
  rw [if_neg hany, hparse, bind_of_error rfl]

theorem run_of_parsed (h : Expression.parse a.expression = .ok e) :
    a.run s = ⟨a.logLines s e ++ (printValues e a.precision a.points).lines,
      (printValues e a.precision a.points).result⟩ := by
  have hany : ¬(a.precision.any fun p ↦ decide (p < 0)) = true := by
    simpa [Option.any_eq_true] using hp
  unfold run
  dsimp only
  rw [if_neg hany, bind_of_ok (parseLogged_mapError_result s h), bind_of_ok rfl, logLines,
    List.append_assoc, Printout.mapError, Printout.say]

end

/-- The run prints all values, one on a line and in the order of the points, behind nothing but log
lines; or it blames the arguments and prints nothing. -/
def AllOrNothing (a : EvalArguments) (s : Surroundings) : Prop :=
  (∃ (e : Expression) (texts : List String), Expression.parse a.expression = .ok e ∧
      List.Forall₂ (Shows e a.precision) a.points texts ∧
      a.run s = ⟨a.logLines s e ++ texts, .ok ()⟩)
    ∨ ∃ cause : ActionError, cause.IsMisuse ∧ a.run s = ⟨[], .error cause⟩

/-- More digits are asked for than any value can be shown with, and one of the values is finite. -/
structure Overprecise (a : EvalArguments) (e : Expression) (p : Int) : Prop where
  parsed : Expression.parse a.expression = .ok e
  precision : a.precision = some p
  large : maxPrecision < p
  finite : ∃ x ∈ a.points, (e.eval x).isFinite = true

/-- Asked for too many digits, a run prints the values before the first finite one and fails. -/
theorem Overprecise.run_eq {p : Int} (h : a.Overprecise e p) (s : Surroundings) :
    ∃ (before after : List Float) (x : Float) (texts : List String),
      a.points = before ++ x :: after ∧ (e.eval x).isFinite = true ∧
      (∀ x' ∈ before, (e.eval x').isFinite = false) ∧
      List.Forall₂ (Shows e a.precision) before texts ∧
      a.run s = ⟨a.logLines s e ++ texts, .error (.unshowable (.digits p))⟩ := by
  have hnonneg : ∀ p' ∈ a.precision, ¬p' < 0 := by
    rintro p' hp'
    obtain rfl := Option.some.inj (h.precision.symm.trans hp')
    exact Int.not_lt.mpr (Int.le_trans (by decide) (Int.le_of_lt h.large))
  have hrefused : ∀ x, (e.eval x).isFinite = true →
      formatValue a.precision (e.eval x) = .error (.digits p) := fun x hx ↦
    formatValue_eq_error_iff.mpr ⟨hx, p, h.precision, .inr h.large, rfl⟩
  obtain ⟨texts, htexts, -⟩ | ⟨before, after, x, texts, cause, hpoints, htexts, hx, hrun⟩ :=
    printValues_cases e a.precision a.points
  · obtain ⟨x, hmem, hx⟩ := h.finite
    exact absurd (hrefused x hx) (not_refused_of_shows htexts hmem _)
  · obtain ⟨hfinite, -⟩ := formatValue_eq_error_iff.mp hx
    obtain rfl := Except.error.inj (hx.symm.trans (hrefused x hfinite))
    refine ⟨before, after, x, texts, hpoints, hfinite, fun x' hx' ↦ ?_, htexts, ?_⟩
    · exact Bool.eq_false_iff.mpr fun hfinite' ↦
        not_refused_of_shows htexts hx' _ (hrefused x' hfinite')
    · rw [run_of_parsed hnonneg h.parsed, hrun]

/-- Nothing but too many digits of a finite value makes a run print some values and not all. -/
theorem allOrNothing_iff (a : EvalArguments) (s : Surroundings) :
    a.AllOrNothing s ↔ ¬∃ (e : Expression) (p : Int), a.Overprecise e p := by
  constructor
  · rintro hrun ⟨e, p, h⟩
    obtain ⟨before, after, x, texts, -, -, -, -, hfails⟩ := h.run_eq s
    obtain ⟨e', texts', -, -, hsucceeds⟩ | ⟨cause, hmisuse, hblames⟩ := hrun
    · exact nomatch (congrArg Printout.result (hfails.symm.trans hsucceeds))
    · obtain rfl := Except.error.inj (congrArg Printout.result (hfails.symm.trans hblames))
      exact hmisuse
  · intro h
    by_cases hneg : ∃ p, a.precision = some p ∧ p < 0
    · obtain ⟨p, hp, hneg⟩ := hneg
      exact .inr ⟨.negativePrecision, trivial, run_of_negative hp hneg⟩
    have hnonneg : ∀ p ∈ a.precision, ¬p < 0 := fun p hp hlt ↦ hneg ⟨p, hp, hlt⟩
    cases hparse : Expression.parse a.expression with
    | error cause => exact .inr ⟨.ofParseError cause, trivial, run_of_rejected hnonneg hparse⟩
    | ok e =>
      have hrun := run_of_parsed (s := s) hnonneg hparse
      obtain ⟨texts, htexts, hvalues⟩ | ⟨before, after, x, texts, cause, hpoints, -, hx, -⟩ :=
        printValues_cases e a.precision a.points
      · rw [hvalues] at hrun
        exact .inl ⟨e, texts, hparse, htexts, hrun⟩
      · obtain ⟨hfinite, p, hp, hrange, -⟩ := formatValue_eq_error_iff.mp hx
        exact absurd ⟨e, p, hparse, hp, hrange.resolve_left (hnonneg p hp), x,
          hpoints ▸ List.mem_append_right _ List.mem_cons_self, hfinite⟩ h

/-- **Evaluating prints all values, or blames the arguments and prints nothing**, unless it is asked
for too many digits of a finite value. Then the values before the first finite one are printed, and
the failure is that of showing a value. -/
theorem run_allOrNothing_iff (a : EvalArguments) (s : Surroundings) :
    (a.AllOrNothing s ↔ ¬∃ (e : Expression) (p : Int), a.Overprecise e p) ∧
      ∀ (e : Expression) (p : Int), a.Overprecise e p →
        ∃ (before after : List Float) (x : Float) (texts : List String),
          a.points = before ++ x :: after ∧ (e.eval x).isFinite = true ∧
          (∀ x' ∈ before, (e.eval x').isFinite = false) ∧
          List.Forall₂ (Shows e a.precision) before texts ∧
          a.run s = ⟨a.logLines s e ++ texts, .error (.unshowable (.digits p))⟩ :=
  ⟨a.allOrNothing_iff s, fun _ _ h ↦ h.run_eq s⟩

/-- The variable at infinity and at one, with more digits than there can be. -/
def infinityThenOne : EvalArguments :=
  ⟨"x", [Binary64.positiveInfinity, 1.0], some 2147483648⟩

theorem overprecise_infinityThenOne :
    infinityThenOne.Overprecise ⟨.sum (.product (.signed false (.power .var none)) []) [],
      some "x", "x"⟩ 2147483648 :=
  ⟨rfl, rfl, by decide, 1.0, by simp [infinityThenOne], by decide⟩

/-- One line is printed, for infinity, before the run fails. -/
theorem run_allOrNothing_iff_of_infinityThenOne :
    ∃ line : String, infinityThenOne.run ⟨.quiet, false⟩
      = ⟨[line], .error (.unshowable (.digits 2147483648))⟩ := by
  obtain ⟨before, after, x, texts, hpoints, hfinite, -, htexts, hrun⟩ :=
    (run_allOrNothing_iff infinityThenOne ⟨.quiet, false⟩).2 _ _ overprecise_infinityThenOne
  -- The first finite value is that at one, so what is printed is the one before it.
  obtain ⟨rfl, hfirst⟩ | ⟨between, rfl, hrest⟩ := List.cons_eq_append_iff.mp hpoints
  · obtain rfl := (List.cons.inj hfirst).1
    exact absurd hfinite (by decide)
  obtain ⟨rfl, -⟩ | ⟨_, rfl, hnil⟩ := List.cons_eq_append_iff.mp hrest
  · obtain ⟨line, others, -, hothers, rfl⟩ := List.forall₂_cons_left_iff.mp htexts
    obtain rfl := List.forall₂_nil_left_iff.mp hothers
    exact ⟨line, hrun⟩
  · exact absurd hnil.symm (List.append_ne_nil_of_right_ne_nil _ (List.cons_ne_nil _ _))

/-- It is not true that some values are never printed without the others. -/
theorem not_forall_run_allOrNothing :
    ¬∀ (a : EvalArguments) (s : Surroundings), a.AllOrNothing s := fun h ↦
  (allOrNothing_iff _ _).mp (h infinityThenOne ⟨.quiet, false⟩)
    ⟨_, _, overprecise_infinityThenOne⟩

end EvalArguments

end ExprSampler
