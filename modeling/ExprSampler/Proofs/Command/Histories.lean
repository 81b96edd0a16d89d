import Mathlib.Data.List.Induction
import ExprSampler.Proofs.Command.LeadingLines
import ExprSampler.Proofs.Log.Configurations

/-!
# Runs in one process

A process that runs the program several times keeps three things between the runs: the logger, and
the settings and the verbosity that were loaded last. Settings and verbosity are loaded anew before
anything reads them. The logger is set up anew only by a run that asks for verbosity; a run that
asks for none leaves it as it is, and so it goes on printing what an earlier run asked for.

Hence runs are not independent of each other, but nearly so (`run_after_history`): they always end
as they would alone, and they print what they would alone unless all three of these hold: an earlier
run was verbose, this one is not, and it gets as far as running its command.
-/

namespace ExprSampler

namespace Printout

variable {ε α : Type}

theorem text_say_eq_empty_iff {lines : List String} :
    (say lines : Printout ε Unit).text = "" ↔ lines = [] := by
  cases lines with
  | nil => exact iff_of_true rfl rfl
  | cons line lines =>
    refine iff_of_false (fun h ↦ ?_) (List.cons_ne_nil line lines)
    rw [text, say, List.map_cons, String.join_cons, String.append_eq_empty_iff,
      String.append_eq_empty_iff] at h
    exact absurd h.1.2 (by decide)

theorem text_append_eq_iff {lines : List String} {p : Printout ε α} :
    text ⟨lines ++ p.lines, p.result⟩ = p.text ↔ lines = [] := by
  rw [text_append, String.append_eq_right_iff, text_say_eq_empty_iff]

end Printout

namespace Command

open Printout

/-! ## Runs and processes -/

/-- What a run is given: where a configuration is looked for, what nesting is left for reading it,
whether lines are printed on a terminal, and words. -/
structure Invocation where
  openFile : String → Found
  nesting : Nat
  tty : Bool
  words : List String

/-- What a process keeps from run to run. -/
structure Process where
  logger : Logger
  /-- The settings loaded last. -/
  settings : Settings
  /-- The verbosity loaded last. -/
  verbose : Int

namespace Process

/-- A process that has not run yet. -/
def fresh : Process := ⟨.quiet, .none, 0⟩

/-- A run in a process, and the process after it. -/
def run (p : Process) (i : Invocation) : Printout Failure Unit × Process :=
  match Config.load i.nesting (i.openFile (Config.nameAmong i.words)) with
  | .error e => (fail (.config e), p)
  | .ok config =>
    let p := { p with settings := config.settings, verbose := config.verbose }
    match readGlobal i.words with
    | .error r => (fail (.refused r), p)
    | .ok w =>
      match findVerb w.operands with
      | .error r => (fail (.refused r), p)
      | .ok (verb, rest) =>
        let p := { p with logger := setLogger (max (w.countOf .verbose) p.verbose) p.logger }
        (runVerb p.settings ⟨p.logger, i.tty⟩ verb rest, p)

/-- The process after a history of runs. -/
def after (p : Process) (history : List Invocation) : Process :=
  history.foldl (fun p i ↦ (p.run i).2) p

theorem after_concat (p : Process) (history : List Invocation) (i : Invocation) :
    p.after (history ++ [i]) = ((p.after history).run i).2 := by
  rw [after, after, List.foldl_append, List.foldl_cons, List.foldl_nil]

end Process

/-! ## What a run comes down to -/

/-- A run that gets as far as its command: the settings and the verbosity it runs on, the command,
and the words behind its name. -/
structure Plan where
  settings : Settings
  verbosity : Int
  verb : Verb
  words : List String

namespace Invocation

/-- What a run comes down to before any logger is looked at. -/
def plan (i : Invocation) : Except Failure Plan :=
  match Config.load i.nesting (i.openFile (Config.nameAmong i.words)) with
  | .error e => .error (.config e)
  | .ok config =>
    match readGlobal i.words with
    | .error r => .error (.refused r)
    | .ok w =>
      match findVerb w.operands with
      | .error r => .error (.refused r)
      | .ok (verb, rest) =>
        .ok ⟨config.settings, max (w.countOf .verbose) config.verbose, verb, rest⟩

/-- The run gets as far as its command and is asked for verbosity. -/
def IsVerbose (i : Invocation) : Prop :=
  ∃ plan, i.plan = .ok plan ∧ plan.verbosity ≠ 0

/-- The run is not asked for verbosity and runs its command on arguments that it can read. -/
def ActsQuietly (i : Invocation) : Prop :=
  ∃ plan request, i.plan = .ok plan ∧ plan.verbosity = 0 ∧
    Request.read plan.settings plan.words plan.verb = .ok request

/-- A run follows its plan, with the logger set up for the verbosity of the plan. -/
theorem run_eq (i : Invocation) (l : Logger) :
    Command.run i.openFile i.nesting i.tty i.words l = match i.plan with
      | .error f => (fail f, l)
      | .ok plan =>
        (runVerb plan.settings ⟨setLogger plan.verbosity l, i.tty⟩ plan.verb plan.words,
          setLogger plan.verbosity l) := by
  fun_cases plan i with
  | case1 e hconfig => simp only [Command.run, hconfig]
  | case2 config hconfig r hglobal => simp only [Command.run, hconfig, hglobal]
  | case3 config hconfig w hglobal r hverb => simp only [Command.run, hconfig, hglobal, hverb]
  | case4 config hconfig w hglobal verb rest hverb =>
    simp only [Command.run, hconfig, hglobal, hverb]

theorem verbosity_nonneg {i : Invocation} {plan : Plan} (h : i.plan = .ok plan) :
    0 ≤ plan.verbosity := by
  revert h
  fun_cases Invocation.plan i with
  | case1 | case2 | case3 => nofun
  | case4 config _ w _ _ _ _ =>
    rintro ⟨⟩
    exact Int.le_trans (Int.natCast_nonneg (w.countOf .verbose)) (Int.le_max_left _ _)

end Invocation

/-- A run that is asked for verbosity sets up the logger from scratch. -/
theorem setLogger_configure {verbosity verbosity' : Int} (h : verbosity' ≠ 0) :
    setLogger verbosity' (.configure verbosity .quiet) = Logger.quiet.configure verbosity' := by
  rw [setLogger, if_neg h, Logger.configure_quiet, Logger.configure_configured,
    Logger.configure_quiet]

namespace Process

/-- Of what a process keeps, only the logger matters to a run. -/
theorem run_eq (p : Process) (i : Invocation) :
    Command.run i.openFile i.nesting i.tty i.words p.logger
      = ((p.run i).1, (p.run i).2.logger) := by
  fun_cases Process.run p i with
  | case1 e hconfig => simp only [Command.run, hconfig]
  | case2 config hconfig _ r hglobal =>
    simp only [Command.run, hconfig, hglobal]
    rfl
  | case3 config hconfig _ w hglobal r hverb =>
    simp only [Command.run, hconfig, hglobal, hverb]
    rfl
  | case4 config hconfig _ w hglobal verb rest hverb _ =>
    simp only [Command.run, hconfig, hglobal, hverb]
    rfl

theorem logger_run (p : Process) (i : Invocation) :
    (p.run i).2.logger = match i.plan with
      | .error _ => p.logger
      | .ok plan => setLogger plan.verbosity p.logger := by
  have hrun : (Command.run i.openFile i.nesting i.tty i.words p.logger).2 = (p.run i).2.logger :=
    congrArg Prod.snd (p.run_eq i)
  rw [← hrun, Invocation.run_eq]
  cases i.plan with
  | error f => rfl
  | ok plan => rfl

/-- The logger after a history is that of some verbosity, and of none exactly if no run of the
history was verbose. -/
theorem exists_logger_after (history : List Invocation) :
    ∃ verbosity : Int, 0 ≤ verbosity ∧
      (fresh.after history).logger = Logger.quiet.configure verbosity ∧
      (verbosity ≠ 0 ↔ ∃ i ∈ history, i.IsVerbose) := by
  induction history using List.reverseRecOn with
  | nil => exact ⟨0, Int.le_refl 0, rfl, by simp⟩
  | append_singleton history i ih =>
    obtain ⟨verbosity, hnonneg, hlogger, hiff⟩ := ih
    have hstep := logger_run (fresh.after history) i
    have hmem : (∃ j ∈ history ++ [i], j.IsVerbose)
        ↔ (∃ j ∈ history, j.IsVerbose) ∨ i.IsVerbose := by
      simp only [List.mem_append, List.mem_singleton, or_and_right, exists_or, exists_eq_left]
    rw [after_concat, hstep, hlogger, hmem, ← hiff]
    cases hplan : i.plan with
    | error f =>
      have hquiet : ¬i.IsVerbose := fun ⟨plan, h, _⟩ ↦ nomatch hplan.symm.trans h
      exact ⟨verbosity, hnonneg, rfl, (or_iff_left hquiet).symm⟩
    | ok plan =>
      by_cases hzero : plan.verbosity = 0
      · have hquiet : ¬i.IsVerbose := fun ⟨plan', h, hne⟩ ↦ by
          obtain rfl : plan = plan' := Except.ok.inj (hplan.symm.trans h)
          exact hne hzero
        refine ⟨verbosity, hnonneg, ?_, (or_iff_left hquiet).symm⟩
        exact if_pos hzero
      · exact ⟨plan.verbosity, Invocation.verbosity_nonneg hplan, setLogger_configure hzero,
          iff_of_true hzero (.inr ⟨plan, hplan, hzero⟩)⟩

end Process

/-! ## Runs after a history -/

/-- The exit code of a run. -/
def exitCode (p : Printout Failure Unit) : Nat :=
  match p.result with
  | .ok _ => 0
  | .error f => f.exitCode

/-- A command on the logger of some verbosity prints what it prints on the quiet one, behind lines
that are there unless the verbosity is none or the arguments cannot be read. -/
theorem exists_lines_of_runVerb (settings : Settings) (tty : Bool) (verb : Verb)
    (words : List String) {verbosity : Int} (h : 0 ≤ verbosity) :
    ∃ lines : List String,
      runVerb settings ⟨.configure verbosity .quiet, tty⟩ verb words
        = ⟨lines ++ (runVerb settings ⟨.quiet, tty⟩ verb words).lines,
            (runVerb settings ⟨.quiet, tty⟩ verb words).result⟩ ∧
      (lines = [] ↔ ¬(verbosity ≠ 0 ∧ ∃ r, Request.read settings words verb = .ok r)) := by
  simp only [Request.runVerb_eq]
  cases Request.read settings words verb with
  | error refusal =>
    refine ⟨[], rfl, iff_of_true rfl ?_⟩
    rintro ⟨-, r, hr⟩
    cases hr
  | ok r =>
    obtain ⟨messages, rest, ⟨text, htext⟩, hrun⟩ := r.exists_messages settings tty
    refine ⟨(Logger.quiet.configure verbosity).emitAll messages, ?_, ?_⟩
    · rw [bind_of_ok rfl, bind_of_ok rfl, hrun, hrun, Logger.emitAll_quiet]
      rfl
    · by_cases hzero : verbosity = 0
      · subst hzero
        exact iff_of_true (Logger.emitAll_quiet messages) fun h ↦ h.1 rfl
      · refine iff_of_false (fun hnil ↦ ?_) (not_not_intro ⟨hzero, r, rfl⟩)
        have hpos : 0 < verbosity := by omega
        have hline := List.flatMap_eq_nil_iff.mp hnil _ htext
        rw [Logger.configure_quiet, Logger.emit_info_configured hpos] at hline
        cases hline

/-- How a run on the logger of some verbosity differs from the run alone: if at all, by lines in
front. -/
theorem exists_lines_of_run (i : Invocation) {verbosity : Int} (h : 0 ≤ verbosity) :
    ∃ lines : List String,
      (Command.run i.openFile i.nesting i.tty i.words (.configure verbosity .quiet)).1
        = ⟨lines ++ (Command.run i.openFile i.nesting i.tty i.words .quiet).1.lines,
            (Command.run i.openFile i.nesting i.tty i.words .quiet).1.result⟩ ∧
      (lines = [] ↔ ¬(i.ActsQuietly ∧ verbosity ≠ 0)) := by
  simp only [Invocation.run_eq]
  cases hplan : i.plan with
  | error f =>
    refine ⟨[], rfl, iff_of_true rfl ?_⟩
    rintro ⟨⟨plan, -, h, -⟩, -⟩
    exact nomatch hplan.symm.trans h
  | ok plan =>
    dsimp only
    by_cases hzero : plan.verbosity = 0
    · obtain ⟨lines, hlines, hiff⟩ :=
        exists_lines_of_runVerb plan.settings i.tty plan.verb plan.words h
      refine ⟨lines, ?_, hiff.trans (not_congr ?_)⟩
      · rw [setLogger, setLogger, if_pos hzero, if_pos hzero]
        exact hlines
      · rw [and_comm]
        refine and_congr ⟨fun ⟨r, hr⟩ ↦ ⟨plan, r, hplan, hzero, hr⟩, ?_⟩ Iff.rfl
        rintro ⟨plan', r, h, -, hr⟩
        obtain rfl : plan = plan' := Except.ok.inj (hplan.symm.trans h)
        exact ⟨r, hr⟩
    · refine ⟨[], ?_, iff_of_true rfl ?_⟩
      · rw [setLogger_configure hzero, setLogger, if_neg hzero]
        rfl
      · rintro ⟨⟨plan', r, h, hzero', -⟩, -⟩
        obtain rfl : plan = plan' := Except.ok.inj (hplan.symm.trans h)
        exact hzero hzero'

/-- A run after a history in terms of the same run alone. -/
theorem exists_lines_of_history (history : List Invocation) (i : Invocation) :
    ∃ lines : List String,
      ((Process.fresh.after history).run i).1
        = ⟨lines ++ (Command.run i.openFile i.nesting i.tty i.words .quiet).1.lines,
            (Command.run i.openFile i.nesting i.tty i.words .quiet).1.result⟩ ∧
      (lines = [] ↔ ¬(i.ActsQuietly ∧ ∃ j ∈ history, j.IsVerbose)) := by
  obtain ⟨verbosity, hnonneg, hlogger, hverbose⟩ := Process.exists_logger_after history
  obtain ⟨lines, hrun, hlines⟩ := exists_lines_of_run i hnonneg
  refine ⟨lines, ?_, by rw [hlines, hverbose]⟩
  rw [← hrun, ← hlogger]
  exact (congrArg Prod.fst ((Process.fresh.after history).run_eq i)).symm

/-- A run prints the same as alone unless it acts without verbosity after a verbose run. -/
theorem text_after_history_eq_iff (history : List Invocation) (i : Invocation) :
    ((Process.fresh.after history).run i).1.text
        = (Command.run i.openFile i.nesting i.tty i.words .quiet).1.text ↔
      ¬(i.ActsQuietly ∧ ∃ j ∈ history, j.IsVerbose) := by
  obtain ⟨lines, hrun, hlines⟩ := exists_lines_of_history history i
  rw [hrun, text_append_eq_iff, hlines]

/-- The logger that a history leaves behind is silent unless a run of the history was verbose. -/
theorem silent_after_history_iff (history : List Invocation) :
    (∀ (level : LogLevel) (text : String), level ≠ .warning →
        (Process.fresh.after history).logger.emit level text = []) ↔
      ¬∃ j ∈ history, j.IsVerbose := by
  obtain ⟨verbosity, hnonneg, hlogger, hverbose⟩ := Process.exists_logger_after history
  rw [hlogger, ← hverbose]
  constructor
  · intro hsilent hne
    have hpos : 0 < verbosity := by omega
    have hline := hsilent .info "" nofun
    rw [Logger.configure_quiet, Logger.emit_info_configured hpos] at hline
    cases hline
  · intro hzero level text _
    rw [not_not.mp hzero]
    exact Logger.emit_quiet level text

/-- **Runs in one process influence each other only through a verbose logger that is left behind.**
A run ends as it does alone, with the same exit code; and it prints the same, unless it acts without
verbosity after a verbose run. The logger that a history leaves prints nothing but warnings only if
no run of the history was verbose, whatever the last one was. -/
theorem run_after_history (history : List Invocation) (i : Invocation) :
    let later := ((Process.fresh.after history).run i).1
    let alone := (Command.run i.openFile i.nesting i.tty i.words .quiet).1
    later.result = alone.result ∧ exitCode later = exitCode alone ∧
      (later.text = alone.text ↔ ¬(i.ActsQuietly ∧ ∃ j ∈ history, j.IsVerbose)) ∧
      ((∀ (level : LogLevel) (text : String), level ≠ .warning →
          (Process.fresh.after history).logger.emit level text = []) ↔
        ¬∃ j ∈ history, j.IsVerbose) := by
  obtain ⟨lines, hrun, -⟩ := exists_lines_of_history history i
  have hresult := congrArg Printout.result hrun
  refine ⟨hresult, ?_, text_after_history_eq_iff history i, silent_after_history_iff history⟩
  rw [exitCode, exitCode, hresult]

/-- After a verbose run, one that is not verbose tells its arguments all the same. -/
theorem not_forall_run_eq_alone :
    ¬∀ (history : List Invocation) (i : Invocation),
      ((Process.fresh.after history).run i).1.text
        = (Command.run i.openFile i.nesting i.tty i.words .quiet).1.text := by
  intro h
  have hsame := h [⟨fun _ ↦ .missing, Config.usualNesting, false, ["-v", "eval", "x", "1"]⟩]
    ⟨fun _ ↦ .missing, Config.usualNesting, false, ["eval", "x", "1"]⟩
  rw [text_after_history_eq_iff] at hsame
  exact hsame ⟨⟨_, _, rfl, rfl, rfl⟩, _, List.mem_singleton_self _, _, rfl, by decide⟩

end Command

end ExprSampler
