import ExprSampler.Command.Program

/-!
# What verbosity adds

Log lines and results go to the same place, so a verbose run could in principle have log lines
between its results, or end differently. It does neither: the logger shows only in a block of log
lines before everything else (`verbosity_adds_leading_lines`). Which messages are logged does not
depend on the logger, only which of them it lets through, so one block of messages serves loggers of
all levels.

The proof follows the `do` blocks. A printout that only logs may be followed by one that logs before
it prints; nothing else may be put together, and nothing else is.
-/

namespace ExprSampler

namespace Logger

/-- What logging messages one after the other prints. -/
def emitAll (l : Logger) (messages : List (LogLevel × String)) : List String :=
  messages.flatMap fun m ↦ l.emit m.1 m.2

@[simp] theorem emitAll_nil (l : Logger) : l.emitAll [] = [] := rfl

theorem emitAll_append (l : Logger) (messages messages' : List (LogLevel × String)) :
    l.emitAll (messages ++ messages') = l.emitAll messages ++ l.emitAll messages' :=
  List.flatMap_append

theorem emitAll_cons (l : Logger) (level : LogLevel) (text : String)
    (messages : List (LogLevel × String)) :
    l.emitAll ((level, text) :: messages) = l.emit level text ++ l.emitAll messages :=
  List.flatMap_cons

theorem emit_quiet (level : LogLevel) (text : String) : quiet.emit level text = [] := by
  rw [emit]
  split <;> rfl

theorem emitAll_quiet (messages : List (LogLevel × String)) : quiet.emitAll messages = [] :=
  List.flatMap_eq_nil_iff.mpr fun m _ ↦ emit_quiet m.1 m.2

theorem configure_zero (l : Logger) : l.configure 0 = quiet := rfl

end Logger

namespace Printout

variable {ε ε' α β : Type}

theorem bind_of_ok {p : Printout ε α} {a : α} (h : p.result = .ok a) (f : α → Printout ε β) :
    p >>= f = ⟨p.lines ++ (f a).lines, (f a).result⟩ := by
  change p.andThen f = _
  rw [andThen, h]

theorem bind_of_error {p : Printout ε α} {e : ε} (h : p.result = .error e)
    (f : α → Printout ε β) : p >>= f = ⟨p.lines, .error e⟩ := by
  change p.andThen f = _
  rw [andThen, h]

theorem text_append (lines : List String) (p : Printout ε α) :
    text ⟨lines ++ p.lines, p.result⟩ = (say lines : Printout ε Unit).text ++ p.text := by
  simp only [text, say, List.map_append, String.join_append]

/-! ## Printouts that log -/

/-- The logger shows in nothing but log lines, and nothing else is printed. -/
def OnlyLogs (p : Logger → Printout ε α) : Prop :=
  ∃ (messages : List (LogLevel × String)) (result : Except ε α),
    ∀ l : Logger, p l = ⟨l.emitAll messages, result⟩

/-- The logger shows in nothing but log lines, and these come first. -/
def LogsFirst (p : Logger → Printout ε α) : Prop :=
  ∃ (messages : List (LogLevel × String)) (rest : Printout ε α),
    ∀ l : Logger, p l = ⟨l.emitAll messages ++ rest.lines, rest.result⟩

theorem onlyLogs_ofExcept (result : Except ε α) : OnlyLogs fun _ ↦ ofExcept result :=
  ⟨[], result, fun _ ↦ rfl⟩

theorem onlyLogs_emit (level : LogLevel) (text : String) :
    OnlyLogs fun l ↦ (say (l.emit level text) : Printout ε Unit) := by
  refine ⟨[(level, text)], .ok (), fun l ↦ ?_⟩
  rw [Logger.emitAll_cons, Logger.emitAll_nil, List.append_nil]
  rfl

section

variable {p : Logger → Printout ε α} {f : α → Logger → Printout ε β}

theorem logsFirst_of_eq (h : ∀ l, p l = p .quiet) : LogsFirst p :=
  ⟨[], p .quiet, h⟩

theorem OnlyLogs.mapError (h : OnlyLogs p) (g : ε → ε') : OnlyLogs fun l ↦ (p l).mapError g := by
  obtain ⟨messages, result, h⟩ := h
  exact ⟨messages, result.mapError g, fun l ↦ congrArg (Printout.mapError g) (h l)⟩

theorem LogsFirst.mapError (h : LogsFirst p) (g : ε → ε') :
    LogsFirst fun l ↦ (p l).mapError g := by
  obtain ⟨messages, rest, h⟩ := h
  exact ⟨messages, rest.mapError g, fun l ↦ congrArg (Printout.mapError g) (h l)⟩

theorem OnlyLogs.bind (hp : OnlyLogs p) (hf : ∀ a, OnlyLogs (f a)) :
    OnlyLogs fun l ↦ p l >>= fun a ↦ f a l := by
  obtain ⟨messages, result, hmessages⟩ := hp
  cases result with
  | error e =>
    refine ⟨messages, .error e, fun l ↦ ?_⟩
    dsimp only
    rw [hmessages, bind_of_error rfl]
  | ok a =>
    obtain ⟨more, result, hmore⟩ := hf a
    refine ⟨messages ++ more, result, fun l ↦ ?_⟩
    dsimp only
    rw [hmessages, bind_of_ok rfl, hmore, Logger.emitAll_append]

/-- Behind log lines may come what logs first. -/
theorem OnlyLogs.bind_logsFirst (hp : OnlyLogs p) (hf : ∀ a, LogsFirst (f a)) :
    LogsFirst fun l ↦ p l >>= fun a ↦ f a l := by
  obtain ⟨messages, result, hmessages⟩ := hp
  cases result with
  | error e =>
    refine ⟨messages, ⟨[], .error e⟩, fun l ↦ ?_⟩
    dsimp only
    rw [hmessages, bind_of_error rfl, List.append_nil]
  | ok a =>
    obtain ⟨more, rest, hmore⟩ := hf a
    refine ⟨messages ++ more, rest, fun l ↦ ?_⟩
    dsimp only
    rw [hmessages, bind_of_ok rfl, hmore, Logger.emitAll_append, List.append_assoc]

theorem LogsFirst.guarded {c : Prop} [Decidable c] {e : ε} (h : LogsFirst p) :
    LogsFirst fun l ↦ if c then (fail e : Printout ε Unit) >>= fun _ ↦ p l else p l := by
  by_cases hc : c
  · simp only [if_pos hc]
    exact (onlyLogs_ofExcept (.error e)).bind_logsFirst fun _ ↦ h
  · simpa only [if_neg hc] using h

end

end Printout

open Printout

/-! ## Logged work -/

theorem onlyLogs_parseLogged (text : String) : OnlyLogs fun l ↦ parseLogged l text :=
  (onlyLogs_ofExcept _).bind fun _ ↦ (onlyLogs_emit _ _).bind fun _ ↦ onlyLogs_ofExcept _

theorem onlyLogs_sampleLogged (e : Expression) (start stop : Float) (count : Int) :
    OnlyLogs fun l ↦ sampleLogged l e start stop count :=
  (onlyLogs_ofExcept _).bind fun _ ↦ (onlyLogs_emit _ _).bind fun _ ↦ onlyLogs_ofExcept _

theorem exists_logDefaults (settings : Settings) (command : String) :
    ∃ messages, ∀ l : Logger, logDefaults l settings command = l.emitAll messages := by
  cases hentries : settings.forCommand command with
  | nil =>
    refine ⟨[], fun l ↦ ?_⟩
    rw [logDefaults, hentries, Logger.emitAll_nil]
  | cons entry entries =>
    refine ⟨[(.info, "Config defaults applied (" ++ command ++ "): " ++
      shownList ((entry :: entries).map fun e ↦ (e.1.optionName, e.2)))], fun l ↦ ?_⟩
    rw [logDefaults, hentries, Logger.emitAll_cons, Logger.emitAll_nil, List.append_nil]

theorem logsFirst_evaluate (a : EvalArguments) (tty : Bool) :
    LogsFirst fun l ↦ a.run ⟨l, tty⟩ := by
  refine LogsFirst.guarded ?_
  refine ((onlyLogs_parseLogged _).mapError _).bind_logsFirst fun e ↦ ?_
  exact (onlyLogs_emit _ _).bind_logsFirst fun _ ↦ logsFirst_of_eq fun _ ↦ rfl

theorem logsFirst_sample (a : SampleArguments) (tty : Bool) :
    LogsFirst fun l ↦ a.run ⟨l, tty⟩ := by
  refine LogsFirst.guarded ?_
  cases OutputFormat.parse? a.out with
  | none => exact logsFirst_of_eq fun _ ↦ rfl
  | some format =>
    refine ((onlyLogs_parseLogged _).mapError _).bind_logsFirst fun e ↦ ?_
    refine ((onlyLogs_sampleLogged e _ _ _).mapError _).bind_logsFirst fun samples ↦ ?_
    exact logsFirst_of_eq fun _ ↦ rfl

theorem logsFirst_parse (a : ParseArguments) (tty : Bool) :
    LogsFirst fun l ↦ a.run ⟨l, tty⟩ := by
  refine ((onlyLogs_parseLogged _).mapError _).bind_logsFirst fun e ↦ ?_
  exact logsFirst_of_eq fun _ ↦ rfl

namespace Command

/-! ## Commands -/

/-- A command with its arguments. -/
inductive Request
  | evaluate (a : EvalArguments)
  | sample (a : SampleArguments)
  | parse (a : ParseArguments)

namespace Request

/-- The command of a request. -/
def verb : Request → Verb
  | evaluate _ => .eval
  | sample _ => .sample
  | parse _ => .parse

/-- The arguments of a request by name. -/
def named : Request → List (String × JsonValue)
  | evaluate a => a.named
  | sample a => a.named
  | parse a => a.named

/-- What the request asks for. -/
def action : Request → Surroundings → Printout ActionError Unit
  | evaluate a => a.run
  | sample a => a.run
  | parse a => a.run

/-- Runs the body of a command: logs defaults and arguments, then acts. -/
def run (settings : Settings) (s : Surroundings) (r : Request) : Printout Failure Unit :=
  act settings s r.verb r.named r.action

/-- The request that the words behind the name of a command make. -/
def read (settings : Settings) (words : List String) : Verb → Except Refusal Request
  | .eval => (evalArguments settings words).map evaluate
  | .sample => (sampleArguments settings words).map sample
  | .parse => (parseArguments settings words).map parse

/-- The program runs a command by reading a request from the words and running it. -/
theorem runVerb_eq (settings : Settings) (s : Surroundings) (verb : Verb) (words : List String) :
    runVerb settings s verb words
      = ofExcept ((read settings words verb).mapError Failure.refused) >>= run settings s := by
  cases verb with
  | eval => cases hread : evalArguments settings words <;> simp only [runVerb, read, hread] <;> rfl
  | sample =>
    cases hread : sampleArguments settings words <;> simp only [runVerb, read, hread] <;> rfl
  | parse =>
    cases hread : parseArguments settings words <;> simp only [runVerb, read, hread] <;> rfl

theorem logsFirst_action (r : Request) (tty : Bool) : LogsFirst fun l ↦ r.action ⟨l, tty⟩ := by
  cases r with
  | evaluate a => exact logsFirst_evaluate a tty
  | sample a => exact logsFirst_sample a tty
  | parse a => exact logsFirst_parse a tty

/-- The messages of a request, which always tell its arguments, and what it prints itself. -/
theorem exists_messages (settings : Settings) (tty : Bool) (r : Request) :
    ∃ (messages : List (LogLevel × String)) (rest : Printout Failure Unit),
      (∃ text : String, (LogLevel.info, text) ∈ messages) ∧
      ∀ l : Logger, r.run settings ⟨l, tty⟩ = ⟨l.emitAll messages ++ rest.lines, rest.result⟩ := by
  obtain ⟨defaults, hdefaults⟩ := exists_logDefaults settings r.verb.name
  obtain ⟨messages, rest, haction⟩ := (r.logsFirst_action tty).mapError Failure.action
  dsimp only at haction
  obtain ⟨text, harguments⟩ :
      ∃ text, ∀ l, logArguments l r.verb.name r.named = l.emit .info text := ⟨_, fun _ ↦ rfl⟩
  refine ⟨defaults ++ (.info, text) :: messages, rest,
    ⟨text, List.mem_append_right _ List.mem_cons_self⟩, fun l ↦ ?_⟩
  rw [run, act, bind_of_ok rfl, bind_of_ok rfl, haction, Logger.emitAll_append,
    Logger.emitAll_cons, List.append_assoc, List.append_assoc, ← hdefaults, ← harguments]
  rfl

/-- **Verbosity only adds leading log lines.** A request ends in the same way for all loggers, and
what it prints is what it prints for the quiet logger, behind those of its messages that the logger
lets through. -/
theorem verbosity_adds_leading_lines (settings : Settings) (tty : Bool) (r : Request) :
    ∃ messages : List (LogLevel × String), ∀ (verbosity : Int) (l l' : Logger),
      let verbose := r.run settings ⟨l.configure verbosity, tty⟩
      let silent := r.run settings ⟨l'.configure 0, tty⟩
      let block := (l.configure verbosity).emitAll messages
      verbose.result = silent.result ∧ verbose.lines = block ++ silent.lines ∧
        verbose.text = (say block : Printout Failure Unit).text ++ silent.text := by
  obtain ⟨messages, rest, -, hrun⟩ := r.exists_messages settings tty
  refine ⟨messages, fun verbosity l l' ↦ ?_⟩
  have hsilent : r.run settings ⟨l'.configure 0, tty⟩ = rest := by
    rw [hrun, Logger.configure_zero, Logger.emitAll_quiet, List.nil_append]
  dsimp only
  rw [hsilent, hrun]
  exact ⟨rfl, rfl, text_append _ rest⟩

end Request

end Command

end ExprSampler
