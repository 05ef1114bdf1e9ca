import Intel8080.Memory
import Intel8080.Operation
import Intel8080.Registers

/-! The registers and the memory together, seen through the operands that instructions name. -/

namespace Intel8080

/-- Everything that an instruction without port access reads and writes. -/
structure Store where
  registers : Registers
  memory : Memory

namespace Store

/-- The byte at a location. -/
def get (store : Store) : Location → UInt8
  | .b => store.registers.b
  | .c => store.registers.c
  | .d => store.registers.d
  | .e => store.registers.e
  | .h => store.registers.h
  | .l => store.registers.l
  | .m => store.memory.read store.registers.hl
  | .a => store.registers.a

/-- Replaces the byte at a location. -/
def set (store : Store) (location : Location) (value : UInt8) : Store :=
  match location with
  | .b => { store with registers := { store.registers with b := value } }
  | .c => { store with registers := { store.registers with c := value } }
  | .d => { store with registers := { store.registers with d := value } }
  | .e => { store with registers := { store.registers with e := value } }
  | .h => { store with registers := { store.registers with h := value } }
  | .l => { store with registers := { store.registers with l := value } }
  | .m => { store with memory := store.memory.write store.registers.hl value }
  | .a => { store with registers := { store.registers with a := value } }

/-- The word in a pair. -/
def getPair (store : Store) : Pair → UInt16
  | .bc => store.registers.bc
  | .de => store.registers.de
  | .hl => store.registers.hl
  | .sp => store.registers.sp

/-- Replaces the word in a pair. -/
def setPair (store : Store) (pair : Pair) (value : UInt16) : Store :=
  match pair with
  | .bc => { store with registers := store.registers.setBc value }
  | .de => { store with registers := store.registers.setDe value }
  | .hl => { store with registers := store.registers.setHl value }
  | .sp => { store with registers := { store.registers with sp := value } }

/-- The word that a push of the pair stores. -/
def getStackPair (store : Store) : StackPair → UInt16
  | .bc => store.registers.bc
  | .de => store.registers.de
  | .hl => store.registers.hl
  | .psw => store.registers.psw

/-- Replaces the pair by a popped word. -/
def setStackPair (store : Store) (pair : StackPair) (value : UInt16) : Store :=
  match pair with
  | .bc => { store with registers := store.registers.setBc value }
  | .de => { store with registers := store.registers.setDe value }
  | .hl => { store with registers := store.registers.setHl value }
  | .psw => { store with registers := store.registers.setPsw value }

/-- The address in a pointer. -/
def getPointer (store : Store) : Pointer → UInt16
  | .bc => store.registers.bc
  | .de => store.registers.de

/-- Replaces the flags. -/
def setFlags (store : Store) (flags : Flags) : Store :=
  { store with registers := { store.registers with flags := flags } }

/-- Replaces the carry alone. -/
def setCarry (store : Store) (carry : Bool) : Store :=
  store.setFlags { store.registers.flags with carry := carry }

/-- Continues at another address. -/
def jump (store : Store) (target : UInt16) : Store :=
  { store with registers := { store.registers with pc := target } }

/-- Stores a word below the stack pointer, which moves down to it. -/
def push (store : Store) (value : UInt16) : Store :=
  let top := store.registers.sp - 2
  { registers := { store.registers with sp := top }
    memory := store.memory.writeWord top value }

/-- The word at the stack pointer. -/
def top (store : Store) : UInt16 :=
  store.memory.readWord store.registers.sp

/-- Moves the stack pointer up past its word; memory keeps the word. -/
def drop (store : Store) : Store :=
  { store with registers := { store.registers with sp := store.registers.sp + 2 } }

/-- A pushed word is on top. -/
@[simp] theorem top_push (store : Store) (value : UInt16) : (store.push value).top = value := by
  simp [push, top]

/-- Dropping a pushed word restores every register. -/
@[simp] theorem registers_drop_push (store : Store) (value : UInt16) :
    (store.push value).drop.registers = store.registers := by
  -- The stack pointer moves down and up by the same two bytes.
  simp [push, drop]

/-- A written location reads back. -/
@[simp] theorem get_set (store : Store) (location : Location) (value : UInt8) :
    (store.set location value).get location = value := by
  -- Only the memory operand is more than a register, and its address does not change.
  cases location <;> simp [get, set, Memory.read_write]

/-- A written pair reads back. -/
@[simp] theorem getPair_setPair (store : Store) (pair : Pair) (value : UInt16) :
    (store.setPair pair value).getPair pair = value := by
  cases pair <;> simp [getPair, setPair]

end Store

end Intel8080
