import ExprSampler.Proofs.Command.LeadingLines
import ExprSampler.Proofs.Config.Defaults

/-!
# Defaults that the commands take

A configuration is checked when it is loaded, arguments are checked again by the command that runs
on them, and the two checks are written in different places and different terms. A default that gets
past the first and not the second would make every later run fail. There is none
(`loaded_defaults_taken`): what sampling refuses of a loaded configuration is no single default, but
several points over an empty interval, which shows only when both bounds and the count are known.
Evaluating refuses nothing.

For both commands it is said exactly when they are misused, in terms of their arguments alone. A
value that cannot be shown is not the fault of the arguments and does not count as misuse.
-/

namespace ExprSampler

/-! ## Misuse -/

/-- Failures that blame the arguments: a value is bad, or the command is used wrongly. -/
def ActionError.IsMisuse : ActionError → Prop
  | badArgument _ | usage _ => True
  | unshowable _ => False

namespace Printout

variable {α β : Type} {p : Printout ActionError α}

/-- The printout ends by blaming the arguments. -/
def Misused (p : Printout ActionError α) : Prop :=
  ∃ e, p.result = .error e ∧ e.IsMisuse

theorem misused_iff_of_error {e : ActionError} (h : p.result = .error e) :
    p.Misused ↔ e.IsMisuse := by
  refine ⟨fun ⟨e', he', hmisuse⟩ ↦ ?_, fun hmisuse ↦ ⟨e, h, hmisuse⟩⟩
  rw [h] at he'
  cases he'
  exact hmisuse

theorem not_misused_of_ok {a : α} (h : p.result = .ok a) : ¬p.Misused := by
  rintro ⟨e, he, -⟩
  rw [h] at he
  cases he

theorem misused_bind_of_error {e : ActionError} (h : p.result = .error e)
    (f : α → Printout ActionError β) : (p >>= f).Misused ↔ e.IsMisuse := by
  rw [bind_of_error h]
  exact misused_iff_of_error rfl

theorem misused_bind_of_ok {a : α} (h : p.result = .ok a) (f : α → Printout ActionError β) :
    (p >>= f).Misused ↔ (f a).Misused := by
  rw [bind_of_ok h]
  rfl

theorem not_misused_of_shown {r : Except ShowError α} {f : α → Printout ActionError β}
    (h : ∀ a, ¬(f a).Misused) : ¬(ofExcept (r.mapError .unshowable) >>= f).Misused := by
  cases r with
  | error cause =>
    rw [misused_bind_of_error rfl]
    exact id
  | ok a =>
    rw [misused_bind_of_ok rfl]
    exact h a

end Printout

open Printout

/-! ## When the commands are misused -/

theorem parseLogged_result (logger : Logger) (text : String) :
    (parseLogged logger text).result = Expression.parse text := by
  unfold parseLogged
  cases Expression.parse text <;> rfl

theorem sampleLogged_result (logger : Logger) (e : Expression) (start stop : Float) (count : Int) :
    (sampleLogged logger e start stop count).result =
      (samplePoints start stop count).map fun xs ↦ ⟨xs, e.evalList xs⟩ := by
  unfold sampleLogged Expression.sample
  cases samplePoints start stop count <;> rfl

theorem samplePoints_eq_ok_iff {start stop : Float} {count : Int} :
    (∃ xs, samplePoints start stop count = .ok xs) ↔ 1 ≤ count ∧ start.isFinite = true ∧
      stop.isFinite = true ∧ ¬(1 < count ∧ (start == stop) = true) := by
  unfold samplePoints
  by_cases hcount : count < 1
  · rw [if_pos hcount]
    exact iff_of_false nofun fun h ↦ absurd h.1 (by omega)
  rw [if_neg hcount]
  by_cases hbounds : (!start.isFinite || !stop.isFinite) = true
  · rw [if_pos hbounds]
    refine iff_of_false nofun fun ⟨_, hstart, hstop, _⟩ ↦ ?_
    rw [hstart, hstop] at hbounds
    cases hbounds
  rw [if_neg hbounds]
  have hfinite : start.isFinite = true ∧ stop.isFinite = true := by
    simpa using hbounds
  by_cases hempty : (1 < count && start == stop) = true
  · rw [if_pos hempty]
    refine iff_of_false nofun fun h ↦ h.2.2.2 ?_
    simpa using hempty
  · rw [if_neg hempty]
    refine iff_of_true ⟨_, rfl⟩ ⟨by omega, hfinite.1, hfinite.2, fun h ↦ hempty ?_⟩
    simpa using h

section

variable {e : Expression} (s : Surroundings)

theorem parseLogged_mapError_result {text : String} (hparse : Expression.parse text = .ok e) :
    ((parseLogged s.logger text).mapError ActionError.ofParseError).result = .ok e := by
  rw [Printout.mapError, parseLogged_result, hparse]
  rfl

theorem not_misused_printValues (precision : Option Int) (points : List Float) :
    ¬(EvalArguments.printValues e precision points).Misused := by
  induction points with
  | nil => exact not_misused_of_ok rfl
  | cons x points ih =>
    refine not_misused_of_shown fun text ↦ ?_
    rw [misused_bind_of_ok rfl]
    exact ih

/-- Evaluating an expression is misused by a negative number of digits only. -/
theorem EvalArguments.run_misused_iff (a : EvalArguments)
    (hparse : Expression.parse a.expression = .ok e) :
    (a.run s).Misused ↔ ∃ p, a.precision = some p ∧ p < 0 := by
  have hany : (a.precision.any fun p ↦ decide (p < 0)) = true ↔
      ∃ p, a.precision = some p ∧ p < 0 := by
    rw [Option.any_eq_true]
    exact exists_congr fun p ↦ and_congr Iff.rfl decide_eq_true_iff
  unfold EvalArguments.run
  dsimp only
  by_cases hprecision : (a.precision.any fun p ↦ decide (p < 0)) = true
  · rw [if_pos hprecision, misused_bind_of_error rfl]
    exact iff_of_true trivial (hany.mp hprecision)
  · rw [if_neg hprecision, misused_bind_of_ok (parseLogged_mapError_result s hparse),
      misused_bind_of_ok rfl]
    exact iff_of_false (not_misused_printValues _ _) (mt hany.mpr hprecision)

/-- Sampling an expression is misused by a negative number of digits, by a format of no known name
and by points that cannot be taken. -/
theorem SampleArguments.run_misused_iff (a : SampleArguments)
    (hparse : Expression.parse a.expression = .ok e) :
    (a.run s).Misused ↔ a.precision < 0 ∨ OutputFormat.parse? a.out = none ∨
      ¬∃ xs, samplePoints a.start a.stop a.count = .ok xs := by
  unfold SampleArguments.run
  dsimp only
  by_cases hprecision : a.precision < 0
  · rw [if_pos hprecision, misused_bind_of_error rfl]
    exact iff_of_true trivial (.inl hprecision)
  rw [if_neg hprecision]
  cases hformat : OutputFormat.parse? a.out with
  | none => exact iff_of_true ⟨_, rfl, trivial⟩ (.inr (.inl rfl))
  | some format =>
    dsimp only
    rw [misused_bind_of_ok (parseLogged_mapError_result s hparse)]
    have hsampled := sampleLogged_result s.logger e a.start a.stop a.count
    cases hpoints : samplePoints a.start a.stop a.count with
    | error cause =>
      rw [hpoints] at hsampled
      rw [misused_bind_of_error (e := .ofSamplingError cause)
        (congrArg (Except.mapError ActionError.ofSamplingError) hsampled)]
      exact iff_of_true trivial (.inr (.inr nofun))
    | ok xs =>
      rw [hpoints] at hsampled
      rw [misused_bind_of_ok (congrArg (Except.mapError ActionError.ofSamplingError) hsampled)]
      refine iff_of_false (not_misused_of_shown fun lines ↦ not_misused_of_ok rfl) ?_
      rintro (h | h | h)
      · exact hprecision h
      · cases h
      · exact h ⟨xs, rfl⟩

end

/-! ## Defaults laid over the built-in ones -/

/-- The arguments for sampling a text with no option given: the defaults of a configuration, and
where it has none those that are built in. -/
def SampleArguments.ofSettings (settings : Settings) (text : String) : SampleArguments where
  expression := text
  start := settings.start.getD (-10.0)
  stop := settings.stop.getD 10.0
  count := settings.count.getD 21
  out := (settings.out.getD .table).name
  precision := settings.precision.getD 6
  color := settings.color

theorem Command.sampleArguments_operand (settings : Settings) (text : String) :
    sampleArguments settings ["--", text] = .ok (.ofSettings settings text) :=
  rfl

/-- Without options, the number of digits for evaluating is that of the configuration. -/
theorem Command.evalArguments_operands {settings : Settings} {text : String} {words : List String}
    {a : EvalArguments} (h : evalArguments settings ("--" :: text :: words) = .ok a) :
    a.expression = text ∧ a.precision = settings.precision := by
  have hwords : readWords [⟨"--precision", .precision⟩] ("--" :: text :: words) =
      .ok ⟨[], text :: words⟩ := rfl
  unfold evalArguments at h
  rw [hwords] at h
  obtain ⟨w, hw, h⟩ := bind_eq_ok_iff.mp h
  obtain ⟨precision, hprecision, h⟩ := bind_eq_ok_iff.mp h
  cases hw
  obtain rfl : none = precision := Except.ok.inj hprecision
  split at h
  · cases h
  · cases h
  · next expression points hoperands =>
    cases hoperands
    split at h
    · cases h
    · cases h
      exact ⟨rfl, rfl⟩

namespace Config

variable {nesting : Nat} {found : Found} {c : Loaded}

/-- With the defaults of a configuration laid over the built-in ones, nothing is left to refuse but
several points over an empty interval. -/
theorem ofSettings_misused_iff (h : load nesting found = .ok c) {text : String} {e : Expression}
    (hparse : Expression.parse text = .ok e) (s : Surroundings) :
    ((SampleArguments.ofSettings c.settings text).run s).Misused ↔
      1 < (SampleArguments.ofSettings c.settings text).count ∧
        ((SampleArguments.ofSettings c.settings text).start ==
          (SampleArguments.ofSettings c.settings text).stop) = true := by
  have hprecision : 0 ≤ c.settings.precision.getD 6 :=
    Setting.admits_precision_iff.mp (admits_getD_of_load h rfl (.precision (by decide)))
  have hcount : 1 ≤ c.settings.count.getD 21 :=
    Setting.admits_count_iff.mp (admits_getD_of_load h rfl (.count (by decide)))
  have hstart : (c.settings.start.getD (-10.0)).isFinite = true :=
    Setting.admits_start_iff.mp (admits_getD_of_load h rfl (.start (by decide)))
  have hstop : (c.settings.stop.getD 10.0).isFinite = true :=
    Setting.admits_stop_iff.mp (admits_getD_of_load h rfl (.stop (by decide)))
  have hout : OutputFormat.parse? (SampleArguments.ofSettings c.settings text).out =
      some (c.settings.out.getD .table) := OutputFormat.parse?_name (c.settings.out.getD .table)
  rw [SampleArguments.run_misused_iff s (.ofSettings c.settings text) hparse,
    samplePoints_eq_ok_iff, hout]
  constructor
  · rintro (hnegative | hformat | hpoints)
    · exact absurd hnegative (Int.not_lt.mpr hprecision)
    · cases hformat
    · by_contra hempty
      exact hpoints ⟨hcount, hstart, hstop, hempty⟩
  · exact fun hempty ↦ .inr (.inr fun hpoints ↦ hpoints.2.2.2 hempty)

/-- On the same defaults, evaluating an expression at points is refused for nothing at all. -/
theorem eval_not_misused (h : load nesting found = .ok c) {text : String} {words : List String}
    {a : EvalArguments} (ha : Command.evalArguments c.settings ("--" :: text :: words) = .ok a)
    {e : Expression} (hparse : Expression.parse text = .ok e) (s : Surroundings) :
    ¬(a.run s).Misused := by
  obtain ⟨rfl, hprecision⟩ := Command.evalArguments_operands ha
  rw [EvalArguments.run_misused_iff s a hparse, hprecision]
  rintro ⟨p, hp, hnegative⟩
  have hadmits : Setting.precision.Admits (.int p) :=
    admits_of_load h (congrArg (Option.map JsonValue.int) hp)
  exact absurd hnegative (Int.not_lt.mpr (Setting.admits_precision_iff.mp hadmits))

/-- **What the check of a configuration lets through, the commands take.** The verbosity is not
negative and stands in no default; every default is one that its setting admits; the format is the
one that the text in the section names; and sampling any expression on these defaults and the
built-in ones can be refused for nothing but several points over an empty interval. -/
theorem loaded_defaults_taken (h : load nesting found = .ok c) :
    (0 ≤ c.verbose ∧ c.settings.verbose = none) ∧
      (∀ k default, c.settings.get? k = some default → k.Admits default) ∧
      (∃ entries, SectionIn nesting found entries ∧ ∀ f, c.settings.out = some f ↔
        ∃ text, valueAt? "--out" entries = some (.str text) ∧
          OutputFormat.parse? text = some f) ∧
      ∀ text e, Expression.parse text = .ok e →
        ∃ a, Command.sampleArguments c.settings ["--", text] = .ok a ∧
          a = .ofSettings c.settings text ∧
          ∀ s, (a.run s).Misused ↔ 1 < a.count ∧ (a.start == a.stop) = true := by
  refine ⟨⟨verbose_nonneg_of_load h, ?_⟩, fun k default ↦ admits_of_load h,
    out_eq_some_iff_of_load h, fun text e hparse ↦ ?_⟩
  · obtain ⟨entries, settings, -, -, rfl⟩ := load_eq_ok_iff.mp h
    rfl
  · exact ⟨_, Command.sampleArguments_operand c.settings text, rfl, ofSettings_misused_iff h hparse⟩

/-- A configuration of a count and a format, both out of the ordinary. -/
def countAndFormat : String :=
  "\x7b\"defaults\":\x7b\"--count\":7,\"--out\":\" CSV \"\x7d\x7d"

theorem load_countAndFormat :
    load usualNesting (.bytes countAndFormat.toUTF8) =
      .ok ⟨{ Settings.none with count := some 7, out := some .csv }, 0⟩ := by
  have htext : String.fromUTF8? countAndFormat.toUTF8 = some countAndFormat :=
    dif_pos countAndFormat.isValidUTF8
  have hlist : countAndFormat.toList = ['{', '"', 'd', 'e', 'f', 'a', 'u', 'l', 't', 's', '"', ':',
      '{', '"', '-', '-', 'c', 'o', 'u', 'n', 't', '"', ':', '7', ',', '"', '-', '-', 'o', 'u', 't',
      '"', ':', '"', ' ', 'C', 'S', 'V', ' ', '"', '}', '}'] := rfl
  have hdecode : JsonValue.decode usualNesting countAndFormat =
      .ok (.object [("defaults", .object [("--count", .int 7), ("--out", .str " CSV ")])]) := by
    rw [JsonValue.decode, hlist]
    rfl
  exact load_eq_ok_iff.mpr ⟨_, _, ⟨_, entriesOf_eq_ok_iff.mpr ⟨_, htext, hdecode⟩, rfl⟩, rfl, rfl⟩

/-- A name in capitals with blanks around it is taken as the format that it names, and sampling is
refused nothing. -/
theorem countAndFormat_taken :
    ∃ c, load usualNesting (.bytes countAndFormat.toUTF8) = .ok c ∧ c.settings.out = some .csv ∧
      ∃ a, Command.sampleArguments c.settings ["--", "x"] = .ok a ∧ a.count = 7 ∧
        ¬(a.run ⟨.quiet, false⟩).Misused := by
  obtain ⟨-, -, -, hrun⟩ := loaded_defaults_taken load_countAndFormat
  obtain ⟨a, ha, rfl, hmisused⟩ := hrun "x" _ rfl
  refine ⟨_, load_countAndFormat, rfl, _, ha, rfl, fun h ↦ ?_⟩
  have hempty : ((-10.0 : Float) == 10.0) = true := ((hmisused _).mp h).2
  exact absurd hempty (by decide)

end Config

end ExprSampler
