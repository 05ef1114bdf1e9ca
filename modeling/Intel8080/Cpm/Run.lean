import Intel8080.Cpm.Image
import Intel8080.Cpm.Trap
import Intel8080.Session

/-! Running a CP/M program to its end and reporting on it. -/

namespace Intel8080.Cpm

/-- A program and how to run it. -/
structure Config where
  program : List UInt8
  /-- Whether every instruction is listed in the log. -/
  tracing : Bool := false
  policy : Policy := .emulate
  /-- The run stops once this many cycles have passed. -/
  limit : Option UInt64 := none
  /-- Whether the terminal shows what is printed on the console while the program runs. -/
  echo : Bool := false
  deriving DecidableEq, Inhabited, Repr

/-- The outcome of a run. -/
structure Report where
  stop : StopReason
  cycles : UInt64
  instructions : Nat
  /-- Everything printed on the console. -/
  output : String
  deriving DecidableEq, Inhabited, Repr

/-- Whether the program ended by itself. -/
def Report.finished (report : Report) : Bool :=
  report.stop == .finished

/-- A finished run: its report, everything it logged and everything it showed on the terminal. -/
structure Run where
  report : Report
  log : List Message
  echoed : String
  deriving DecidableEq, Inhabited, Repr

/-- Why there is no report. -/
inductive RunError
  /-- The program could not be loaded. -/
  | load (cause : LoadError)
  /-- The program was still running when the cycle counter had no more room. -/
  | endless
  deriving DecidableEq, Inhabited, Repr

/-- The wording of a run without a report. -/
def RunError.message : RunError → String
  | .load cause => cause.message
  | .endless => "cycle counter exhausted"

/--
More instructions than any run with a sound cycle counter executes.

Each one that does not halt takes at least four cycles, and the counter has 64 bits.
-/
def instructionBound : Nat := UInt64.size / 4

/-- Binds both trap devices to the ports that the traps write to. -/
def withTraps (echo : Bool) (bus : Bus Trap) : Bus Trap :=
  { bus with
    ports := (bus.ports.set finishPort (some .finish)).set consolePort (some (.console echo)) }

/-- The session of a program that has not executed anything yet. -/
def start (config : Config) : Except LoadError (Session Trap) := do
  let bus ← load config.program
  let machine := { Machine.start (withTraps config.echo bus) programStart with
    policy := config.policy
    tracing := config.tracing }
  let begun := Message.started config.program.length programStart config.policy
  return { machine := machine, events := #[.message begun] }

/-- The run that a session amounts to when it stops for a reason. -/
def conclude (session : Session Trap) (reason : StopReason) : Run :=
  let machine := session.machine
  let ended := Message.stopped reason machine.registers.pc session.instructions machine.cycles
  { report :=
      { stop := reason
        cycles := machine.cycles
        instructions := session.instructions
        output := session.output }
    log := session.log ++ [ended]
    echoed := session.echoed }

/-- Loads a program and executes it until it ends, halts or has used up its cycles. -/
def run (config : Config) : Except RunError Run :=
  match start config with
  | .error cause => .error (.load cause)
  | .ok session =>
    let last := session.advance config.limit instructionBound
    match last.stop? config.limit with
    | none => .error .endless
    | some reason => .ok (conclude last reason)

end Intel8080.Cpm
