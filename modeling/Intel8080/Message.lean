import Intel8080.Instruction
import Intel8080.Registers

/-! What the machine and its host write to the log. -/

namespace Intel8080

/-- How a machine takes the twelve undocumented codes. -/
inductive Policy
  /-- Each one does what the documented code it repeats does. -/
  | emulate
  /-- Each one halts the machine. -/
  | fault
  deriving DecidableEq, Inhabited, Repr

/-- The name of a policy. -/
def Policy.name : Policy → String
  | .emulate => "Emulate"
  | .fault => "Fault"

/-- Why a run ended. -/
inductive StopReason
  /-- The program asked to end. -/
  | finished
  /-- The machine executed HLT or refused an undocumented code. -/
  | halted
  /-- The cycle limit was reached. -/
  | cycleLimit
  deriving DecidableEq, Inhabited, Repr

/-- The name of a reason. -/
def StopReason.name : StopReason → String
  | .finished => "Finished"
  | .halted => "Halted"
  | .cycleLimit => "CycleLimit"

/-- The weight of a message. -/
inductive Level
  | error | warn | info | debug | trace
  deriving DecidableEq, Inhabited, Repr

/-- The name of a level. -/
def Level.name : Level → String
  | .error => "ERROR"
  | .warn => "WARN"
  | .info => "INFO"
  | .debug => "DEBUG"
  | .trace => "TRACE"

/-- Something that happened, with all that its text tells about it. -/
inductive Message
  /-- An instruction is about to be executed under tracing. -/
  | listing (address : UInt16) (instruction : Instruction)
  /-- HLT was executed. -/
  | halt (address : UInt16)
  /-- An undocumented code was refused. -/
  | undecodable (code : UInt8) (registers : Registers)
  /-- An interrupt request did not carry a restart. -/
  | notRestart (code : UInt8)
  /-- An interrupt request came while interrupts were disabled. -/
  | restartDropped (line : Fin 8)
  /-- The console was asked for a function it does not have. -/
  | unknownFunction (function : UInt8)
  /-- The program returned to the operating system. -/
  | warmBoot (sp : UInt16)
  /-- A program has been chosen by the path of its file. -/
  | chosen (path : String)
  /-- A program is about to run. -/
  | started (size : Nat) (entry : UInt16) (policy : Policy)
  /-- A run has ended. -/
  | stopped (reason : StopReason) (address : UInt16) (instructions : Nat) (cycles : UInt64)
  deriving DecidableEq, Inhabited, Repr

namespace Message

/-- How much each message weighs. -/
def level : Message → Level
  | listing .. | halt .. | warmBoot .. => .debug
  | undecodable .. => .error
  | notRestart .. => .warn
  | restartDropped .. | unknownFunction .. => .trace
  | chosen .. | started .. | stopped .. => .info

/-- The wording of each message. -/
def text : Message → String
  | listing address instruction => String.ofList (instruction.listing address)
  | halt address => "HLT at 0x" ++ Hex.ofWord address
  | undecodable code registers =>
    "CPU locked: cannot decode 0x" ++ Hex.ofByte code ++ " (" ++ codeName code ++ ")" ++
      " at PC=0x" ++ Hex.ofWord registers.pc ++ " A=" ++ Hex.ofByte registers.a ++
      " F=" ++ Hex.ofByte registers.flags.statusByte ++ " BC=" ++ Hex.ofWord registers.bc ++
      " DE=" ++ Hex.ofWord registers.de ++ " HL=" ++ Hex.ofWord registers.hl ++
      " SP=" ++ Hex.ofWord registers.sp
  | notRestart code =>
    "ignoring interrupt request with non-RST instruction 0x" ++ Hex.ofByte code
  | restartDropped line =>
    "interrupts disabled, dropping " ++ (Operation.rst line).mnemonic
  | unknownFunction function => s!"ignoring BDOS function {function.toNat}"
  | warmBoot sp => "warm boot reached, SP=0x" ++ Hex.ofWord sp
  | chosen path => s!"Running program: '{path}'"
  | started size entry policy =>
    s!"running {size} byte image from 0x" ++ Hex.ofWord entry ++
      s!" ({policy.name} undocumented opcodes)"
  | stopped reason address instructions cycles =>
    s!"stopped ({reason.name}) at PC=0x" ++ Hex.ofWord address ++
      s!" after {instructions} instructions, {cycles.toNat} cycles"

end Message

end Intel8080
