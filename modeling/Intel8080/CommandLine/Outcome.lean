import Intel8080.CommandLine.Options
import Intel8080.Cpm.Run

/-! From the words on the command line to the exit code and the two output texts. -/

namespace Intel8080.CommandLine

/-- Why a file could not be read. -/
inductive FileError
  /-- There is no file of that name. -/
  | notFound
  /-- The name is that of a directory. -/
  | isDirectory
  /-- The name goes through something that is no directory. -/
  | notDirectory
  /-- The file may not be read. -/
  | permissionDenied
  /-- The name is longer than the file system takes. -/
  | nameTooLong
  /-- The name cannot be that of a file, since it holds a NUL character. -/
  | invalidName
  /-- Anything else, in the words of the operating system. -/
  | other (description : String)
  deriving DecidableEq, Inhabited, Repr

/-- The wording of a failed read. -/
def FileError.message : FileError → String
  | .notFound => "No such file or directory (os error 2)"
  | .isDirectory => "Is a directory (os error 21)"
  | .notDirectory => "Not a directory (os error 20)"
  | .permissionDenied => "Permission denied (os error 13)"
  | .nameTooLong => "File name too long (os error 36)"
  | .invalidName => "file name contained an unexpected NUL byte"
  | .other description => description

/--
The logger of the process, which is the one of `env_logger`.

It writes to standard error, or not, whenever there is a message.
-/
structure Logger where
  /-- The text about a message; its place in the log stands for its time, which may be shown. -/
  line : (place : Nat) → Message → String

/-- Logging is off. -/
def Logger.silent : Logger where
  line _ _ := ""

/-- The text about all messages of a log. -/
def Logger.lines (logger : Logger) (log : List Message) : String :=
  String.join (log.mapIdx logger.line)

/-- What the process leaves behind. -/
structure Outcome where
  exitCode : UInt32
  stdout : String := ""
  stderr : String := ""
  deriving DecidableEq, Inhabited, Repr

/-- A message with the one that explains it, if there is one. -/
structure Failure where
  message : String
  cause : Option String := none
  deriving DecidableEq, Inhabited, Repr

namespace Failure

/-- A failure on one line. -/
def line (failure : Failure) : String :=
  match failure.cause with
  | none => failure.message
  | some cause => failure.message ++ ": " ++ cause

/--
A failure as it ends the process.

It is written in the debug format of `anyhow`, with the cause in a paragraph of its own.
-/
def outcome (failure : Failure) : Outcome where
  exitCode := 1
  stderr :=
    match failure.cause with
    | none => "Error: " ++ failure.message ++ "\n"
    | some cause => "Error: " ++ failure.message ++ "\n\nCaused by:\n    " ++ cause ++ "\n"

/-- What is reported of words that make no sense. -/
def ofUsage : UsageError → Failure
  | .missingLimit => { message := "--max-cycles needs a value" }
  | .invalidLimit word cause =>
    { message := s!"invalid --max-cycles value '{word}'", cause := some cause.message }
  | .unknownOption word => { message := s!"unknown option '{word}'\n{usage}" }

/-- What is reported of a program file that could not be read. -/
def ofFile (path : String) (error : FileError) : Failure :=
  { message := s!"failed to read ROM '{path}'", cause := some error.message }

/-- What is reported of a program that could not be run to an end. -/
def ofRun (error : Cpm.RunError) : Failure :=
  { message := error.message }

end Failure

namespace Outcome

/-- The summary was asked for. -/
def help : Outcome where
  exitCode := 0
  stdout := usage ++ "\n"

/-- No program was named. -/
def noProgram : Outcome where
  exitCode := 1
  stderr :=
    "No program provided.\n" ++ usage ++
      "\nFor example: i8080_cpm assets/roms/8080_tests/TST8080.COM\n"

/--
A run has ended, and the exit code tells how.

The terminal has shown the console output by then, and a line with the counts follows.
-/
def ofRun (run : Cpm.Run) : Outcome where
  exitCode :=
    match run.report.stop with
    | .finished => 0
    | .halted => 2
    | .cycleLimit => 3
  stdout :=
    run.echoed ++ "\n" ++ s!"{run.report.instructions} instructions, " ++
      s!"{run.report.cycles.toNat} cycles ({run.report.stop.name})\n"
  stderr :=
    match run.report.stop with
    | .finished => ""
    | .halted => "CPU halted before the program finished\n"
    | .cycleLimit => "cycle budget exhausted before the program finished\n"

/-- The logger has written about some messages before the process ends like this. -/
def after (logger : Logger) (log : List Message) (outcome : Outcome) : Outcome :=
  { outcome with stderr := logger.lines log ++ outcome.stderr }

end Outcome

/-- The run that the options ask for. -/
def Options.config (options : Options) (program : List UInt8) : Cpm.Config where
  program := program
  tracing := options.debug
  policy := if options.strict then .fault else .emulate
  limit := options.limit
  echo := true

/-- Runs a program that has been read from a path. -/
def Options.execute (options : Options) (logger : Logger) (path : String)
    (program : List UInt8) : Outcome :=
  match Cpm.run (options.config program) with
  | .error error => (Failure.ofRun error).outcome.after logger [.chosen path]
  | .ok run => (Outcome.ofRun run).after logger (.chosen path :: run.log)

/-- Does what the words ask for; a file is read only when they all make sense. -/
def invoke {μ : Type → Type} [Monad μ]
    (readProgram : String → μ (Except FileError (List UInt8))) (words : List String)
    (logger : Logger := .silent) : μ Outcome :=
  match parse {} words with
  | .error error => pure (Failure.ofUsage error).outcome
  | .ok .help => pure .help
  | .ok (.run options) =>
    match options.path with
    | none => pure .noProgram
    | some path => do
      match ← readProgram path with
      | .error error => return (Failure.ofFile path error).outcome.after logger [.chosen path]
      | .ok program => return options.execute logger path program

end Intel8080.CommandLine
