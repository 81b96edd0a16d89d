import ExprSampler.Command.Arguments
import ExprSampler.Config.Load

/-!
# The program

One run of the program: it loads the configuration that its words name, reads the global options,
sets up the logger, and runs the command on the remaining words. The logger is handed on from run to
run; configuration and verbosity are those of the run alone.
-/

namespace ExprSampler.Command

/-- Why a run fails. -/
inductive Failure
  /-- The configuration cannot be used; nothing else has been looked at. -/
  | config (e : ConfigError)
  /-- The words make no command. -/
  | refused (r : Refusal)
  /-- The command was run and failed. -/
  | action (e : ActionError)
deriving Repr

/-- The exit code: 2 for a command line that cannot be followed, 1 for everything else that
fails. -/
def Failure.exitCode : Failure → Nat
  | config _ => 1
  | refused _ => 2
  | action (.unshowable _) => 1
  | action _ => 2

/-- The wording of a failure. -/
def Failure.message : Failure → String
  | config e => e.message
  | refused r => r.message
  | action e => e.message

/-- The commands. -/
inductive Verb
  | eval
  | sample
  | parse
deriving DecidableEq, Repr

/-- The name of a command. -/
def Verb.name : Verb → String
  | eval => "eval"
  | sample => "sample"
  | parse => "parse"

/-- The command of a name. -/
def Verb.ofName? (name : String) : Option Verb :=
  [Verb.eval, Verb.sample, Verb.parse].find? fun v ↦ v.name == name

/-- The global options, which stand before the command. -/
def globalNames : List OptionName :=
  [⟨"-v", .verbose⟩, ⟨"--verbose", .verbose⟩, ⟨"--config", .config⟩]

/-- The global options of a command line, and the words from the command on. -/
def readGlobal (words : List String) : Except Refusal Words :=
  (Words.read globalNames false words).mapError .ofWordError

/-- The command among words that start with its name. Words that start with no command are looked at
once more as if they were options. -/
def findVerb : List String → Except Refusal (Verb × List String)
  | [] => .error .usage
  | name :: rest =>
    match Verb.ofName? name with
    | some verb => .ok (verb, rest)
    | none =>
      match readGlobal (name :: rest) with
      | .error e => .error e
      | .ok _ => .error .noSuchCommand

/-- Runs a command whose arguments have been read: logs defaults and arguments, then acts. -/
def act (settings : Settings) (s : Surroundings) (verb : Verb) (named : List (String × JsonValue))
    (action : Surroundings → Printout ActionError Unit) : Printout Failure Unit := do
  .say (logDefaults s.logger settings verb.name)
  .say (logArguments s.logger verb.name named)
  (action s).mapError .action

/-- Runs a command on its words. -/
def runVerb (settings : Settings) (s : Surroundings) (verb : Verb) (words : List String) :
    Printout Failure Unit :=
  match verb with
  | .eval => do
    let a ← .ofExcept ((evalArguments settings words).mapError .refused)
    act settings s verb a.named a.run
  | .sample => do
    let a ← .ofExcept ((sampleArguments settings words).mapError .refused)
    act settings s verb a.named a.run
  | .parse => do
    let a ← .ofExcept ((parseArguments settings words).mapError .refused)
    act settings s verb a.named a.run

/-- The logger for a verbosity; at none, the logger stays as it is. -/
def setLogger (verbosity : Int) (logger : Logger) : Logger :=
  if verbosity = 0 then logger else logger.configure verbosity

/-- One run on the words behind the name of the program, and the logger after it. `openFile` gives
what a name of a configuration leads to, and `nesting` is what is left for reading it. -/
def run (openFile : String → Found) (nesting : Nat) (tty : Bool) (words : List String)
    (logger : Logger) : Printout Failure Unit × Logger :=
  match Config.load nesting (openFile (Config.nameAmong words)) with
  | .error e => (.fail (.config e), logger)
  | .ok config =>
    match readGlobal words with
    | .error r => (.fail (.refused r), logger)
    | .ok w =>
      match findVerb w.operands with
      | .error r => (.fail (.refused r), logger)
      | .ok (verb, rest) =>
        let logger := setLogger (max (w.countOf .verbose) config.verbose) logger
        (runVerb config.settings ⟨logger, tty⟩ verb rest, logger)

end ExprSampler.Command
