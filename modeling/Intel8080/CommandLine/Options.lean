import Intel8080.Decimal

/-! What the words on the command line ask for. -/

namespace Intel8080.CommandLine

/-- The one-line summary of the command line. -/
def usage : String :=
  "Usage: i8080_cpm <program.com> [--debug] [--strict] [--max-cycles N]"

/-- The options collected so far; of repeated paths and limits the last one counts. -/
structure Options where
  path : Option String := none
  /-- Whether every instruction is listed in the log. -/
  debug : Bool := false
  /-- Whether undocumented codes halt the machine. -/
  strict : Bool := false
  limit : Option UInt64 := none
  deriving DecidableEq, Inhabited, Repr

/-- Why the words make no sense. -/
inductive UsageError
  /-- Nothing follows the option that sets the limit. -/
  | missingLimit
  /-- What follows it is not a count. -/
  | invalidLimit (word : String) (cause : Decimal.ReadError)
  /-- No option has this name. -/
  | unknownOption (word : String)
  deriving DecidableEq, Inhabited, Repr

/-- What the words ask for, if they make sense. -/
inductive Request
  /-- Show the summary. -/
  | help
  /-- Run a program. -/
  | run (options : Options)
  deriving DecidableEq, Inhabited, Repr

/-- Whether a word is written like a long option. -/
def isOption (word : String) : Bool :=
  ['-', '-'].isPrefixOf word.toList

/-- Reads the words from left to right; the first request for help or error decides. -/
def parse (options : Options) : List String → Except UsageError Request
  | [] => .ok (.run options)
  | "--debug" :: rest => parse { options with debug := true } rest
  | "--strict" :: rest => parse { options with strict := true } rest
  | ["--max-cycles"] => .error .missingLimit
  | "--max-cycles" :: word :: rest =>
    match Decimal.read word.toList with
    | .error cause => .error (.invalidLimit word cause)
    | .ok limit => parse { options with limit := some limit } rest
  | "-h" :: _ => .ok .help
  | "--help" :: _ => .ok .help
  | word :: rest =>
    if isOption word then .error (.unknownOption word)
    else parse { options with path := some word } rest

end Intel8080.CommandLine
