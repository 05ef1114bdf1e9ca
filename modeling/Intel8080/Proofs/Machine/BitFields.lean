import Intel8080.Proofs.Machine.Tick

/-!
The instruction set as the bit fields of its codes lay it out.

This is a reference step: it knows no table of codes, only three fields and what each of their
values selects.
-/

namespace Intel8080

/-- The fields of a code: its top two bits and the two groups of three bits below them. -/
structure BitFields where
  x : Fin 4
  y : Fin 8
  z : Fin 8
  deriving DecidableEq, Repr

namespace BitFields

/-- The last three bits of a byte count to eight. -/
theorem toNat_and_seven_lt (value : UInt8) : (value &&& 7).toNat < 8 :=
  Nat.lt_succ_of_le Nat.and_le_right

/-- Cuts a code into its fields. -/
def ofCode (code : UInt8) : BitFields where
  x := Fin.ofNat 4 (code >>> 6).toNat
  y := ⟨(code >>> 3 &&& 7).toNat, toNat_and_seven_lt _⟩
  z := ⟨(code &&& 7).toNat, toNat_and_seven_lt _⟩

/-- The top two bits of the middle field, which name a pair. -/
def p (fields : BitFields) : Fin 4 :=
  Fin.ofNat 4 (fields.y.val >>> 1)

/-- The last bit of the middle field. -/
def q (fields : BitFields) : Fin 2 :=
  Fin.ofNat 2 (fields.y.val &&& 1)

/-- The operand `r` that a three-bit field names. -/
def register (store : Store) : Fin 8 → UInt8
  | 0 => store.registers.b
  | 1 => store.registers.c
  | 2 => store.registers.d
  | 3 => store.registers.e
  | 4 => store.registers.h
  | 5 => store.registers.l
  | 6 => store.memory.read store.registers.hl
  | 7 => store.registers.a

/-- Replaces the operand `r` that a three-bit field names. -/
def setRegister (store : Store) (index : Fin 8) (value : UInt8) : Store :=
  match index with
  | 0 => { store with registers := { store.registers with b := value } }
  | 1 => { store with registers := { store.registers with c := value } }
  | 2 => { store with registers := { store.registers with d := value } }
  | 3 => { store with registers := { store.registers with e := value } }
  | 4 => { store with registers := { store.registers with h := value } }
  | 5 => { store with registers := { store.registers with l := value } }
  | 6 => { store with memory := store.memory.write store.registers.hl value }
  | 7 => { store with registers := { store.registers with a := value } }

/-- The pair `rp` that a two-bit field names. -/
def pair (store : Store) : Fin 4 → UInt16
  | 0 => store.registers.bc
  | 1 => store.registers.de
  | 2 => store.registers.hl
  | 3 => store.registers.sp

/-- Replaces the pair `rp` that a two-bit field names. -/
def setPair (store : Store) (index : Fin 4) (value : UInt16) : Store :=
  match index with
  | 0 => { store with registers := store.registers.setBc value }
  | 1 => { store with registers := store.registers.setDe value }
  | 2 => { store with registers := store.registers.setHl value }
  | 3 => { store with registers := { store.registers with sp := value } }

/-- The pair `rp2`, which has the status word in place of the stack pointer. -/
def stackPair (store : Store) : Fin 4 → UInt16
  | 0 => store.registers.bc
  | 1 => store.registers.de
  | 2 => store.registers.hl
  | 3 => store.registers.psw

/-- Replaces the pair `rp2` that a two-bit field names. -/
def setStackPair (store : Store) (index : Fin 4) (value : UInt16) : Store :=
  match index with
  | 0 => { store with registers := store.registers.setBc value }
  | 1 => { store with registers := store.registers.setDe value }
  | 2 => { store with registers := store.registers.setHl value }
  | 3 => { store with registers := store.registers.setPsw value }

/-- The test that a three-bit field names: each of Z, CY, P and S clear and then set. -/
def condition (flags : Flags) : Fin 8 → Bool
  | 0 => !flags.zero
  | 1 => flags.zero
  | 2 => !flags.carry
  | 3 => flags.carry
  | 4 => !flags.parity
  | 5 => flags.parity
  | 6 => !flags.sign
  | 7 => flags.sign

/-- The accumulator operation that a three-bit field names. -/
def function : Fin 8 → Arithmetic
  | 0 => .add
  | 1 => .adc
  | 2 => .sub
  | 3 => .sbb
  | 4 => .ana
  | 5 => .xra
  | 6 => .ora
  | 7 => .cmp

/-- Moves the program counter on by a number of bytes. -/
def skip (store : Store) (count : UInt16) : Store :=
  { store with registers := { store.registers with pc := store.registers.pc + count } }

/-- The byte after the code. -/
def nextByte (store : Store) : UInt8 :=
  store.memory.read (store.registers.pc + 1)

/-- The word after the code. -/
def nextWord (store : Store) : UInt16 :=
  store.memory.readWord (store.registers.pc + 1)

/-- Replaces the accumulator. -/
def setAccumulator (store : Store) (value : UInt8) : Store :=
  { store with registers := { store.registers with a := value } }

/-- Moves the accumulator and the carry through a rotation. -/
def rotate (store : Store) (rotation : Rotation) : Store :=
  let (result, carry) := rotation.apply store.registers.flags.carry store.registers.a
  (setAccumulator store result).setCarry carry

/-- Replaces an operand by its image under a step that also gives the flags. -/
def adjust (store : Store) (index : Fin 8) (step : Flags → UInt8 → UInt8 × Flags) : Store :=
  let (result, flags) := step store.registers.flags (register store index)
  setRegister (store.setFlags flags) index result

/-- The quarter with `x = 0`: transfers, counting and the accumulator alone. -/
def lowQuarter (fields : BitFields) (store : Store) : Store :=
  let past := skip store 1
  let registers := store.registers
  match fields.z with
  | 0 => past
  | 1 =>
    if fields.q.val = 0 then setPair (skip store 3) fields.p (nextWord store)
    else
      let (sum, carry) := addWords registers.hl (pair store fields.p)
      ({ past with registers := past.registers.setHl sum } : Store).setCarry carry
  | 2 =>
    match fields.y with
    | 0 => { past with memory := store.memory.write registers.bc registers.a }
    | 1 => setAccumulator past (store.memory.read registers.bc)
    | 2 => { past with memory := store.memory.write registers.de registers.a }
    | 3 => setAccumulator past (store.memory.read registers.de)
    | 4 => { skip store 3 with memory := store.memory.writeWord (nextWord store) registers.hl }
    | 5 => setPair (skip store 3) 2 (store.memory.readWord (nextWord store))
    | 6 => { skip store 3 with memory := store.memory.write (nextWord store) registers.a }
    | 7 => setAccumulator (skip store 3) (store.memory.read (nextWord store))
  | 3 =>
    if fields.q.val = 0 then setPair past fields.p (pair store fields.p + 1)
    else setPair past fields.p (pair store fields.p - 1)
  | 4 => adjust past fields.y increment
  | 5 => adjust past fields.y decrement
  | 6 => setRegister (skip store 2) fields.y (nextByte store)
  | 7 =>
    match fields.y with
    | 0 => rotate past .rlc
    | 1 => rotate past .rrc
    | 2 => rotate past .ral
    | 3 => rotate past .rar
    | 4 =>
      let (result, flags) := decimalAdjust registers.flags registers.a
      setAccumulator (past.setFlags flags) result
    | 5 => setAccumulator past (~~~registers.a)
    | 6 => past.setCarry true
    | 7 => past.setCarry (!registers.flags.carry)

/--
The quarter with `x = 3`: branches, the stack and immediate operands.

Port transfers and the interrupt switch only move the program counter here.
-/
def highQuarter (fields : BitFields) (store : Store) : Store :=
  let past := skip store 1
  let pastWord := skip store 3
  let target := nextWord store
  let holds := condition store.registers.flags fields.y
  match fields.z with
  | 0 => if holds then store.drop.jump store.top else past
  | 1 =>
    if fields.q.val = 0 then setStackPair past.drop fields.p store.top
    else
      match fields.p with
      | 0 | 1 => store.drop.jump store.top
      | 2 => store.jump store.registers.hl
      | 3 => { past with registers := { past.registers with sp := store.registers.hl } }
  | 2 => if holds then store.jump target else pastWord
  | 3 =>
    match fields.y with
    | 0 | 1 => store.jump target
    | 2 | 3 => skip store 2
    | 4 =>
      { registers := past.registers.setHl store.top
        memory := store.memory.writeWord store.registers.sp store.registers.hl }
    | 5 =>
      { past with registers := (past.registers.setHl store.registers.de).setDe store.registers.hl }
    | 6 | 7 => past
  | 4 => if holds then (store.push pastWord.registers.pc).jump target else pastWord
  | 5 =>
    if fields.q.val = 0 then past.push (stackPair store fields.p)
    else (store.push pastWord.registers.pc).jump target
  | 6 => (skip store 2).accumulate (function fields.y) (nextByte store)
  | 7 => (store.push past.registers.pc).jump (8 * UInt16.ofNat fields.y.val)

end BitFields

namespace Machine

variable {δ : Type} [Device δ]

open BitFields

/--
The reference step, decoded from the bit fields of the code at the program counter alone.

It counts no cycles. The events are those of the device that the instruction reaches, if any.
-/
def fieldStep (machine : Machine δ) : Machine δ × List Event :=
  let fields := BitFields.ofCode machine.opcode
  let store := machine.store
  let before := machine.registers
  match fields.x with
  | 0 => (machine.withStore (lowQuarter fields store), [])
  | 1 =>
    if fields.y.val = 6 ∧ fields.z.val = 6 then ({ machine with halted := true }, [])
    else (machine.withStore (setRegister (skip store 1) fields.y (register store fields.z)), [])
  | 2 =>
    (machine.withStore
      ((skip store 1).accumulate (function fields.y) (register store fields.z)), [])
  | 3 =>
    let moved := machine.withStore (highQuarter fields store)
    match fields.z, fields.y with
    | 3, 2 =>
      let (bus, events) := machine.toBus.output (nextByte store) before.a before
      ({ moved with toBus := bus }, events)
    | 3, 3 =>
      let (value, bus, events) := machine.toBus.input (nextByte store) before.a before
      ({ moved with toBus := bus, registers := { moved.registers with a := value } }, events)
    | 3, 6 => ({ moved with interruptsEnabled := false }, [])
    | 3, 7 => ({ moved with interruptsEnabled := true }, [])
    | _, _ => (moved, [])

/-- The reference step leaves the cycle counter alone. -/
@[simp] theorem cycles_fieldStep (machine : Machine δ) :
    machine.fieldStep.1.cycles = machine.cycles := by
  -- Every quarter replaces only registers, memory, devices and switches.
  unfold fieldStep
  dsimp only
  split
  · rfl
  · split <;> rfl
  · rfl
  · split <;> rfl

end Machine

end Intel8080
