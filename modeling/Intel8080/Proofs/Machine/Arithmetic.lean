import Intel8080.Device.Probe
import Intel8080.Proofs.Arithmetic.Exact
import Intel8080.Proofs.Machine.Dispatch

/-!
Arithmetic instructions as a machine executes them.

One tick leaves the results and flags of whole numbers, and instructions without arithmetic leave
the flags alone.
-/

namespace Intel8080

/-! ### Operations that leave the flags -/

/-- Whether an operation can change a flag. -/
def Operation.setsFlags : Operation → Bool
  | arithmetic _ _ | immediate _ | inr _ | dcr _ | dad _ | rotate _ | daa | stc | cmc => true
  | pop pair => pair = .psw
  | _ => false

namespace Store

variable (store : Store)

/-- Writing a location leaves the flags. -/
@[simp] theorem flags_set (location : Location) (value : UInt8) :
    (store.set location value).registers.flags = store.registers.flags := by
  -- The flags are a field of their own.
  cases location <;> rfl

/-- Writing a pair leaves the flags. -/
@[simp] theorem flags_setPair (pair : Pair) (value : UInt16) :
    (store.setPair pair value).registers.flags = store.registers.flags := by
  -- No pair contains them.
  cases pair <;> rfl

end Store

/-- Every other operation leaves all five flags. -/
theorem Operation.flags_transform (operand : UInt16) (store : Store) {operation : Operation}
    (keeps : operation.setsFlags = false) :
    (operation.transform operand store).registers.flags = store.registers.flags := by
  cases operation <;> simp only [transform]
  case arithmetic | immediate | inr | dcr | dad | rotate | daa | stc | cmc => cases keeps
  case pop pair =>
    -- Of the popped pairs only the status word carries flags.
    cases pair
    case psw => cases keeps
    all_goals rfl
  case lxi | lhld | inx | dcx => exact store.flags_setPair _ _
  case lda | ldax | mvi | cma | mov => exact store.flags_set _ _
  -- A branch moves the program counter and the stack pointer, whether or not it is taken.
  case jumpIf | callIf | retIf => split <;> rfl
  all_goals rfl

/-! ### The codes that set flags -/

namespace BitFields

/-- The fields of an operation that can change a flag. -/
def SetsFlags (fields : BitFields) : Prop :=
  -- Arithmetic on a location or on the byte after the code.
  fields.x.val = 2 ∨ fields.x.val = 3 ∧ fields.z.val = 6 ∨
  -- INR and DCR, then DAD.
  fields.x.val = 0 ∧ (fields.z.val = 4 ∨ fields.z.val = 5) ∨
  fields.x.val = 0 ∧ fields.z.val = 1 ∧ fields.q.val = 1 ∨
  -- Rotations, DAA, STC and CMC, which leave only CMA of their column.
  fields.x.val = 0 ∧ fields.z.val = 7 ∧ fields.y.val ≠ 5 ∨
  -- POP PSW.
  fields.x.val = 3 ∧ fields.z.val = 1 ∧ fields.q.val = 0 ∧ fields.p.val = 3

instance (fields : BitFields) : Decidable fields.SetsFlags :=
  inferInstanceAs (Decidable (_ ∨ _))

/-- The other fields name operations that leave the flags. -/
theorem setsFlags_operation {fields : BitFields} (keeps : ¬ fields.SetsFlags) :
    fields.operation.setsFlags = false := by
  -- The 256 combinations of fields are checked one by one.
  have all : ∀ (x : Fin 4) (y z : Fin 8), ¬ SetsFlags ⟨x, y, z⟩ →
      (operation ⟨x, y, z⟩).setsFlags = false := by
    decide +kernel
  exact all fields.x fields.y fields.z keeps

/-- HLT and the undocumented codes are not among those that set flags. -/
theorem not_setsFlags_ofCode {code : UInt8} (halting : code ∈ 0x76 :: undocumentedCodes) :
    ¬ (ofCode code).SetsFlags := by
  -- Thirteen codes are checked one by one.
  have all : ∀ code ∈ 0x76 :: undocumentedCodes, ¬ (ofCode code).SetsFlags := by decide +kernel
  exact all code halting

/--
The store after an instruction of so many bytes, given its result and flags in whole numbers.

Only the program counter, the flags and the operand with the index are new.
-/
def settled (store : Store) (count : UInt16) (index : Fin 8) (exact : Nat × Flags) : Store :=
  setRegister ((skip store count).setFlags exact.2) index (.ofNat exact.1)

/-- Combining the accumulator behind an instruction settles it as in whole numbers. -/
theorem accumulate_skip (store : Store) (count : UInt16) (function : Arithmetic)
    (operand : UInt8) : (skip store count).accumulate function operand =
      settled store count 7 (function.exact store.registers.a.toNat operand.toNat
        store.registers.flags.carry.toNat) := by
  -- The flags and the accumulator behind the instruction are those in front of it.
  have agrees := function.apply_agrees store.registers.flags store.registers.a operand
  have computed : function.apply (skip store count).registers.flags
      (skip store count).registers.a operand = _ := agrees.eq
  rw [Store.accumulate, computed]
  rfl

/-- So does adjusting an operand by a step that agrees with whole numbers. -/
theorem adjust_skip (store : Store) (index : Fin 8) {step : Flags → UInt8 → UInt8 × Flags}
    {exact : Nat × Flags}
    (agrees : Agrees (step store.registers.flags (register store index)) exact) :
    adjust (skip store 1) index step = settled store 1 index exact := by
  -- The operand is read behind the instruction, where it is the same.
  have computed : step (skip store 1).registers.flags (register (skip store 1) index) =
      (.ofNat exact.1, exact.2) := by
    rw [register_skip]
    exact agrees.eq
  rw [adjust, computed]
  rfl

/-- DAD settles HL and the carry as the sum of whole numbers says. -/
theorem lowQuarter_dad (store : Store) (y : Fin 8) (odd : (BitFields.mk 0 y 1).q = 1) :
    lowQuarter ⟨0, y, 1⟩ store =
      let sum := store.registers.hl.toNat + (pair store (BitFields.mk 0 y 1).p).toNat
      (setPair (skip store 1) 2 (.ofNat (sum % 65536))).setCarry (65535 < sum) := by
  -- The odd columns hold DAD, and the even ones LXI.
  have dad : ¬ (BitFields.mk 0 y 1).q.val = 0 := by rw [odd]; decide
  simp only [lowQuarter, if_neg dad, addWords_eq]
  rfl

end BitFields

namespace Machine

variable {δ : Type} [Device δ]

open BitFields

omit [Device δ] in
/-- An instruction that can set flags does not halt. -/
theorem runs_of_setsFlags {machine : Machine δ}
    (sets : (BitFields.ofCode machine.opcode).SetsFlags) : ¬ machine.Halts :=
  -- The codes that halt all leave the flags.
  runs_of_not_mem fun halting => not_setsFlags_ofCode halting sets

/-- Without a request, such an instruction leaves the store of the reference step. -/
theorem store_next_of_setsFlags {machine : Machine δ} (idle : machine.pending = none)
    (sets : (BitFields.ofCode machine.opcode).SetsFlags) :
    machine.next.store = machine.fieldStep.1.store := by
  -- The tick is the reference step, with its cycles charged.
  have runs := runs_of_setsFlags sets
  rw [next_of_idle machine runs idle, execute_eq_fieldStep machine fun hlt => runs (.inl hlt)]
  rfl

/-- Without a request, any other instruction leaves the flags. -/
theorem flags_next {machine : Machine δ} (idle : machine.pending = none)
    (keeps : ¬ (BitFields.ofCode machine.opcode).SetsFlags) :
    machine.next.registers.flags = machine.registers.flags := by
  by_cases halts : machine.Halts
  · -- A halting tick changes no register.
    rw [next_of_halts machine halts]
  · have same := setsFlags_operation keeps
    rw [← operation_instruction] at same
    rw [next_of_idle machine halts idle, execute]
    -- Ports and the interrupt switch have no access to the flags.
    split
    case h_5 => exact Operation.flags_transform _ _ same
    all_goals rfl

/--
What one tick computes, in whole numbers.

The bit fields of the code tell the operation and its operands.
-/
structure ComputesExactly (machine : Machine δ) : Prop where
  /-- The accumulator is combined with a register or with the byte at HL. -/
  location : ∀ y z, BitFields.ofCode machine.opcode = ⟨2, y, z⟩ →
    machine.next.store = settled machine.store 1 7
      ((function y).exact machine.registers.a.toNat (register machine.store z).toNat
        machine.registers.flags.carry.toNat)
  /-- It is combined with the byte after the code. -/
  immediate : ∀ y, BitFields.ofCode machine.opcode = ⟨3, y, 6⟩ →
    machine.next.store = settled machine.store 2 7
      ((function y).exact machine.registers.a.toNat (nextByte machine.store).toNat
        machine.registers.flags.carry.toNat)
  /-- INR counts a register or the byte at HL up. -/
  increment : ∀ y, BitFields.ofCode machine.opcode = ⟨0, y, 4⟩ →
    machine.next.store = settled machine.store 1 y
      (exactIncrement (register machine.store y).toNat machine.registers.flags.carry)
  /-- DCR counts it down. -/
  decrement : ∀ y, BitFields.ofCode machine.opcode = ⟨0, y, 5⟩ →
    machine.next.store = settled machine.store 1 y
      (exactDecrement (register machine.store y).toNat machine.registers.flags.carry)
  /-- DAD adds a pair to HL, and of the flags only the carry is new. -/
  pairs : ∀ y, BitFields.ofCode machine.opcode = ⟨0, y, 1⟩ → (BitFields.mk 0 y 1).q = 1 →
    machine.next.store =
      let sum := machine.registers.hl.toNat + (pair machine.store (BitFields.mk 0 y 1).p).toNat
      (BitFields.setPair (skip machine.store 1) 2 (.ofNat (sum % 65536))).setCarry (65535 < sum)
  /-- Codes outside those that set flags leave all five of them. -/
  others : ¬ (BitFields.ofCode machine.opcode).SetsFlags →
    machine.next.registers.flags = machine.registers.flags

/-- Without a request, one tick computes in whole numbers, whatever the machine. -/
theorem computes_exactly (machine : Machine δ) (idle : machine.pending = none) :
    machine.ComputesExactly where
  location y z fields := by
    -- The column of the code names the function and the operand.
    rw [store_next_of_setsFlags idle (by rw [fields]; exact .inl rfl)]
    simp only [fieldStep, fields]
    exact accumulate_skip machine.store 1 (function y) (register machine.store z)
  immediate y fields := by
    rw [store_next_of_setsFlags idle (by rw [fields]; exact .inr (.inl ⟨rfl, rfl⟩))]
    simp only [fieldStep, fields]
    exact accumulate_skip machine.store 2 (function y) (nextByte machine.store)
  increment y fields := by
    -- Counting up is an adjustment that agrees with adding one.
    rw [store_next_of_setsFlags idle (by rw [fields]; exact .inr (.inr (.inl ⟨rfl, .inl rfl⟩)))]
    simp only [fieldStep, fields]
    exact adjust_skip machine.store y (increment_agrees _ _)
  decrement y fields := by
    -- Counting down agrees with subtracting one.
    rw [store_next_of_setsFlags idle (by rw [fields]; exact .inr (.inr (.inl ⟨rfl, .inr rfl⟩)))]
    simp only [fieldStep, fields]
    exact adjust_skip machine.store y (decrement_agrees _ _)
  pairs y fields odd := by
    -- Only the odd columns of this row add pairs.
    have column : (BitFields.mk 0 y 1).q.val = 1 := congrArg Fin.val odd
    have sets : (BitFields.mk 0 y 1).SetsFlags := .inr (.inr (.inr (.inl ⟨rfl, rfl, column⟩)))
    rw [store_next_of_setsFlags idle (by rwa [fields])]
    simp only [fieldStep, fields]
    exact lowQuarter_dad machine.store y odd
  others keeps := flags_next idle keeps

/-- A machine about to take its own code, the byte at HL, and a borrow from its accumulator. -/
def borrowingMachine : Machine Probe :=
  { start { memory := Memory.zero.load 0x0100 [0x9E] } 0x0100 with
    registers := { a := 0x12, flags := { carry := true }, h := 0x01, pc := 0x0100 } }

/-- The difference falls below zero, so that both digits borrow. -/
theorem borrowingMachine_computes_exactly :
    borrowingMachine.pending = none ∧ borrowingMachine.ComputesExactly ∧
      borrowingMachine.next.registers =
        { a := 0x73, flags := { carry := true }, h := 0x01, pc := 0x0101 } := by
  have exactly := computes_exactly borrowingMachine rfl
  -- SBB M takes the byte at HL, which is its own code.
  have code : borrowingMachine.opcode = 0x9E := by
    simp [borrowingMachine, opcode, start, Memory.load, Memory.read_write]
  have fields : BitFields.ofCode borrowingMachine.opcode = ⟨2, 3, 6⟩ := by rw [code]; rfl
  have operand : register borrowingMachine.store 6 = 0x9E := code
  refine ⟨rfl, exactly, ?_⟩
  have settled := exactly.location 3 6 fields
  rw [operand] at settled
  exact congrArg Store.registers settled

end Machine

end Intel8080
