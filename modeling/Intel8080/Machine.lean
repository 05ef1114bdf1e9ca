import Intel8080.Bus
import Intel8080.Store.Transform

/-! The machine: the processor on its bus, and what one tick of it does. -/

namespace Intel8080

/-- The state the processor owns apart from the bus. -/
structure Processor where
  registers : Registers := {}
  /-- The cycles of everything executed so far. -/
  cycles : UInt64 := 0
  halted : Bool := false
  interruptsEnabled : Bool := true
  /-- The line of an accepted request that waits for the end of the next instruction. -/
  pending : Option (Fin 8) := none
  deriving DecidableEq, Inhabited, Repr

/-- A processor, its bus, and how the host wants it run. -/
structure Machine (δ : Type) extends Processor, Bus δ where
  policy : Policy := .emulate
  /-- Whether every instruction is listed before it is executed. -/
  tracing : Bool := false

namespace Machine

variable {δ : Type}

/-- A machine in its initial state, about to execute at an address. -/
def start (bus : Bus δ) (entry : UInt16) : Machine δ :=
  { toProcessor := { registers := { pc := entry } }, toBus := bus }

/-- The registers and the memory. -/
@[inline] def store (machine : Machine δ) : Store :=
  ⟨machine.registers, machine.memory⟩

/-- Replaces the registers and the memory. -/
@[inline] def withStore (machine : Machine δ) (store : Store) : Machine δ :=
  { machine with registers := store.registers, memory := store.memory }

/-- The instruction at the program counter. -/
def instruction (machine : Machine δ) : Instruction :=
  machine.memory.fetch machine.registers.pc

/-- Why an instruction would halt the machine instead of being executed. -/
def haltCause? (machine : Machine δ) (instruction : Instruction) : Option Message :=
  if machine.policy = .fault ∧ ¬ isDocumented instruction.code then
    some (.undecodable instruction.code machine.registers)
  else if instruction.operation = .hlt then some (.halt machine.registers.pc)
  else none

/--
Executes an instruction that does not halt: its cycles are charged, the program counter moves past
it, and it does its work.

A device sees the registers as they were before the program counter moved.
-/
def execute [Device δ] (machine : Machine δ) (instruction : Instruction) :
    Machine δ × List Event :=
  let before := machine.registers
  let charged := { machine with
    registers := { before with pc := before.pc + instruction.size }
    cycles := machine.cycles + instruction.operation.cost before.flags }
  match instruction.operation with
  | .output =>
    let (bus, events) := charged.toBus.output instruction.byte before.a before
    ({ charged with toBus := bus }, events)
  | .input =>
    let (value, bus, events) := charged.toBus.input instruction.byte before.a before
    ({ charged with toBus := bus, registers := { charged.registers with a := value } }, events)
  | .ei => ({ charged with interruptsEnabled := true }, [])
  | .di => ({ charged with interruptsEnabled := false }, [])
  | operation => (charged.withStore (operation.transform instruction.operand charged.store), [])

/-- Performs the restart of a pending request, which then no longer waits. -/
def service (machine : Machine δ) : Machine δ :=
  match machine.pending with
  | none => machine
  | some line =>
    let restart := Operation.rst line
    { machine.withStore (restart.transform 0 machine.store) with
      cycles := machine.cycles + restart.cycles
      pending := none }

/--
Executes one instruction and then services a pending request.

An instruction that halts changes nothing else: the program counter stays on it, no cycles are
charged and a pending request goes on waiting.
-/
def tick [Device δ] (machine : Machine δ) : Machine δ × List Event :=
  let instruction := machine.instruction
  let trace : List Event :=
    if machine.tracing then [.message (.listing machine.registers.pc instruction)] else []
  match machine.haltCause? instruction with
  | some cause => ({ machine with halted := true }, trace ++ [.message cause])
  | none =>
    let (executed, events) := machine.execute instruction
    (executed.service, trace ++ events)

/--
Asks for an instruction to be injected after the next one executed.

Only a restart can be asked for, and only while interrupts are enabled; accepting it disables them.
-/
def interrupt (machine : Machine δ) (code : UInt8) : Machine δ × List Event :=
  match restart? code with
  | none => (machine, [.message (.notRestart code)])
  | some line =>
    if machine.interruptsEnabled then
      ({ machine with interruptsEnabled := false, pending := some line }, [])
    else (machine, [.message (.restartDropped line)])

/-- Asks for the restart of one of the eight lines. -/
def interruptLine (machine : Machine δ) (line : Fin 8) : Machine δ × List Event :=
  machine.interrupt (restartCode line)

end Machine

end Intel8080
