import Intel8080.Arithmetic
import Intel8080.Operation.Code
import Intel8080.Operation.Timing
import Intel8080.Store

/-! What each operation does to the registers and the memory. -/

namespace Intel8080

namespace Store

/-- Combines the accumulator with an operand. -/
def accumulate (store : Store) (function : Arithmetic) (operand : UInt8) : Store :=
  let (result, flags) := function.apply store.registers.flags store.registers.a operand
  { store with registers := { store.registers with a := result, flags := flags } }

/-- Replaces the byte at a location by its image under a step that also gives the flags. -/
def modify (store : Store) (location : Location) (step : Flags → UInt8 → UInt8 × Flags) :
    Store :=
  let (result, flags) := step store.registers.flags (store.get location)
  (store.setFlags flags).set location result

/-- Pushes the address of the following instruction and continues at the target. -/
def call (store : Store) (target : UInt16) : Store :=
  (store.push store.registers.pc).jump target

/-- Continues at the word on the stack, which is taken off. -/
def ret (store : Store) : Store :=
  store.drop.jump store.top

end Store

/--
The store after an operation.

The program counter has already moved past the instruction, so a call pushes it as it stands.
Port access, halting and the interrupt switch lie outside the store and leave it alone.
-/
def Operation.transform (operand : UInt16) (store : Store) : Operation → Store
  | .nop | .hlt | .output | .input | .ei | .di => store
  | .lxi pair => store.setPair pair operand
  | .stax pointer =>
    { store with memory := store.memory.write (store.getPointer pointer) store.registers.a }
  | .ldax pointer => store.set .a (store.memory.read (store.getPointer pointer))
  | .shld => { store with memory := store.memory.writeWord operand store.registers.hl }
  | .lhld => store.setPair .hl (store.memory.readWord operand)
  | .sta => { store with memory := store.memory.write operand store.registers.a }
  | .lda => store.set .a (store.memory.read operand)
  | .inx pair => store.setPair pair (store.getPair pair + 1)
  | .dcx pair => store.setPair pair (store.getPair pair - 1)
  | .dad pair =>
    let (sum, carry) := addWords store.registers.hl (store.getPair pair)
    (store.setPair .hl sum).setCarry carry
  | .inr location => store.modify location increment
  | .dcr location => store.modify location decrement
  | .mvi location => store.set location (lowByte operand)
  | .rotate rotation =>
    let (result, carry) := rotation.apply store.registers.flags.carry store.registers.a
    (store.set .a result).setCarry carry
  | .daa => store.modify .a decimalAdjust
  | .cma => store.set .a (~~~store.registers.a)
  | .stc => store.setCarry true
  | .cmc => store.setCarry (!store.registers.flags.carry)
  | .mov target source => store.set target (store.get source)
  | .arithmetic function source => store.accumulate function (store.get source)
  | .immediate function => store.accumulate function (lowByte operand)
  | .jump => store.jump operand
  | .jumpIf condition => if condition.holds store.registers.flags then store.jump operand else store
  | .call => store.call operand
  | .callIf condition => if condition.holds store.registers.flags then store.call operand else store
  | .ret => store.ret
  | .retIf condition => if condition.holds store.registers.flags then store.ret else store
  | .rst line => store.call (restartVector line)
  | .push pair => store.push (store.getStackPair pair)
  | .pop pair => store.drop.setStackPair pair store.top
  | .xthl =>
    { registers := store.registers.setHl store.top
      memory := store.memory.writeWord store.registers.sp store.registers.hl }
  | .xchg =>
    { store with registers := (store.registers.setHl store.registers.de).setDe store.registers.hl }
  | .sphl => { store with registers := { store.registers with sp := store.registers.hl } }
  | .pchl => store.jump store.registers.hl

end Intel8080
