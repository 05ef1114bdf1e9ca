import Intel8080.Proofs.Machine.Arithmetic

/-!
A comparison and the conditional branch that follows it.

The compare leaves its result in the flags alone, and each condition asks them one question about
the two numbers.
-/

namespace Intel8080

/-- What a conditional branch does when its condition holds. -/
inductive BranchKind
  | jump | call | ret

/-- The last field of its eight codes. -/
def BranchKind.column (kind : BranchKind) : Fin 8 where
  val :=
    match kind with
    | jump => 2
    | call => 4
    | ret => 0
  isLt := by cases kind <;> decide

/-- How many bytes it occupies. -/
def BranchKind.size : BranchKind → UInt16
  | jump | call => 3
  | ret => 1

/-- The cycles of a branch that is taken or not. -/
def BranchKind.cycles : BranchKind → (taken : Bool) → UInt64
  | jump, _ => 10
  | call, taken => if taken then 17 else 11
  | ret, taken => if taken then 11 else 5

/-- What the condition in a field says about an accumulator and what it has been compared with. -/
def Compared (accumulator operand : UInt8) : Fin 8 → Prop
  | 0 => accumulator ≠ operand
  | 1 => accumulator = operand
  | 2 => operand ≤ accumulator
  | 3 => accumulator < operand
  | 4 => oneBits (accumulator - operand).toNat % 2 = 1
  | 5 => oneBits (accumulator - operand).toNat % 2 = 0
  | 6 => (accumulator - operand).toNat.testBit 7 = false
  | 7 => (accumulator - operand).toNat.testBit 7 = true

namespace Machine

variable {δ : Type}

open BitFields

/-- The next instruction compares A with an operand, and takes so many bytes and cycles. -/
inductive Compares (machine : Machine δ) :
    (operand : UInt8) → (size : UInt16) → (cycles : UInt64) → Prop
  | location {z : Fin 8} (fields : BitFields.ofCode machine.opcode = ⟨2, 7, z⟩) :
    Compares machine (register machine.store z) 1 (if z = 6 then 7 else 4)
  | immediate (fields : BitFields.ofCode machine.opcode = ⟨3, 7, 6⟩) :
    Compares machine (nextByte machine.store) 2 7

/-- The machine past a comparison: its flags are those of the difference. -/
def compared (machine : Machine δ) (operand : UInt8) (size : UInt16) (cycles : UInt64) :
    Machine δ :=
  { machine with
    registers := { machine.registers with
      flags := (exactDifference machine.registers.a.toNat operand.toNat 0).2
      pc := machine.registers.pc + size }
    cycles := machine.cycles + cycles }

/-- The registers and the memory after a branch that is taken. -/
def branchStore (machine : Machine δ) : BranchKind → Store
  | .jump =>
    { machine.store with registers := { machine.registers with pc := nextWord machine.store } }
  | .call =>
    { registers := { machine.registers with
        sp := machine.registers.sp - 2
        pc := nextWord machine.store }
      memory := machine.memory.writeWord (machine.registers.sp - 2) (machine.registers.pc + 3) }
  | .ret =>
    { machine.store with
      registers := { machine.registers with
        sp := machine.registers.sp + 2
        pc := machine.memory.readWord machine.registers.sp } }

/-- The machine after a branch that is taken. -/
def taken (machine : Machine δ) (kind : BranchKind) : Machine δ :=
  { machine.withStore (machine.branchStore kind) with
    cycles := machine.cycles + kind.cycles true }

/-- The machine after a branch that is not taken. -/
def untaken (machine : Machine δ) (kind : BranchKind) : Machine δ :=
  { machine with
    registers := { machine.registers with pc := machine.registers.pc + kind.size }
    cycles := machine.cycles + kind.cycles false }

end Machine

/-! ### Flags and comparisons -/

/-- The result of a comparison is the difference of bytes. -/
theorem exactDifference_result (accumulator operand : UInt8) :
    (exactDifference accumulator.toNat operand.toNat 0).1 = (accumulator - operand).toNat := by
  have accumulatorBound := accumulator.toNat_lt
  have operandBound := operand.toNat_lt
  -- Both are remainders by 256, one of an integer and one of a number that is never negative.
  rw [exactDifference, UInt8.toNat_sub]
  dsimp only
  omega

/-- A number below 256 is at least 128 exactly when it has bit 7. -/
theorem testBit_seven {value : Nat} (bound : value < 256) :
    value.testBit 7 = decide (128 ≤ value) := by
  -- The quotient by 128 is zero or one.
  rw [Nat.testBit_eq_decide_div_mod_eq, decide_eq_decide]
  omega

/-- The condition in each field asks the flags of a comparison its question about the numbers. -/
theorem BitFields.condition_exactDifference (accumulator operand : UInt8) (field : Fin 8) :
    condition (exactDifference accumulator.toNat operand.toNat 0).2 field = true ↔
      Compared accumulator operand field := by
  have bound := (accumulator - operand).toNat_lt
  -- A difference of bytes is zero only if they are the same.
  have equal : (accumulator - operand).toNat = 0 ↔ accumulator = operand := by
    rw [← UInt8.toNat_zero, UInt8.toNat_inj, UInt8.sub_eq_iff_eq_add, UInt8.zero_add]
  -- The flags are those of that difference, with no borrow coming in.
  have flags : (exactDifference accumulator.toNat operand.toNat 0).2 =
      .ofResult (accumulator - operand).toNat
        (operand.toNat % 16 + 0 ≤ accumulator.toNat % 16)
        (accumulator.toNat < operand.toNat + 0) := by
    rw [← exactDifference_result]
    rfl
  rw [flags]
  -- Each of the four flags is asked twice, whether it is clear and whether it is set.
  match field with
  | 0 | 1 => simp [condition, Compared, Flags.ofResult, equal]
  | 2 => simp [condition, Compared, Flags.ofResult, UInt8.le_iff_toNat_le]
  | 3 => simp [condition, Compared, Flags.ofResult, UInt8.lt_iff_toNat_lt]
  | 4 | 5 => simp [condition, Compared, Flags.ofResult]
  | 6 | 7 => simp [condition, Compared, Flags.ofResult, testBit_seven bound]

namespace Machine

variable {δ : Type} [Device δ]

open BitFields

/-- An instruction that names an operation within registers and memory performs it in one tick. -/
theorem next_eq_perform {machine : Machine δ} (idle : machine.pending = none)
    (runs : ¬ machine.Halts) {fields : BitFields} (code : BitFields.ofCode machine.opcode = fields)
    (internal : fields.operation.Internal) :
    machine.next = { machine.withStore (perform machine.store fields) with
      cycles := machine.cycles + fields.operation.cost machine.registers.flags } := by
  subst code
  -- The execution is what the fields name.
  rw [next_of_idle machine runs idle, execute_eq_perform machine internal, operation_instruction]

/-- A compare changes the flags and moves the program counter. -/
theorem next_of_compares {machine : Machine δ} (idle : machine.pending = none) {operand : UInt8}
    {size : UInt16} {cycles : UInt64} (compares : machine.Compares operand size cycles) :
    machine.next = machine.compared operand size cycles := by
  -- A compare is a subtraction whose result is dropped.
  have flags := (subtractWithBorrow_agrees machine.registers.a operand false).flags
  rw [compared, ← Bool.toNat_false, ← flags]
  cases compares with
  | @location z fields =>
    have runs : ¬ machine.Halts := runs_of_setsFlags (by rw [fields]; exact .inl rfl)
    rw [next_eq_perform idle runs fields (internal_operation _ (by simp)), perform_arithmetic]
    -- Only the byte at HL takes longer to read.
    match z with
    | 0 | 1 | 2 | 3 | 4 | 5 | 6 | 7 => rfl
  -- The byte after the code is fetched along with it.
  | immediate fields =>
    have runs : ¬ machine.Halts :=
      runs_of_setsFlags (by rw [fields]; exact .inr (.inl ⟨rfl, rfl⟩))
    rw [next_eq_perform idle runs fields (internal_operation _ (by simp)), perform_highQuarter]
    rfl

omit [Device δ] in
/-- Every policy executes the conditional branches. -/
theorem runs_of_branch {machine : Machine δ} {kind : BranchKind} {field : Fin 8}
    (code : BitFields.ofCode machine.opcode = ⟨3, field, kind.column⟩) : ¬ machine.Halts := by
  -- HLT and the undocumented codes lie in other columns.
  have others : ∀ code ∈ 0x76 :: undocumentedCodes,
      ¬ ((BitFields.ofCode code).x = 3 ∧ (BitFields.ofCode code).z ∈ [(0 : Fin 8), 2, 4]) := by
    decide +kernel
  have column : kind.column ∈ [(0 : Fin 8), 2, 4] := by cases kind <;> decide
  have branch : (BitFields.ofCode machine.opcode).x = 3 ∧
      (BitFields.ofCode machine.opcode).z ∈ [(0 : Fin 8), 2, 4] := by
    rw [code]
    exact ⟨rfl, column⟩
  exact runs_of_not_mem fun halting => others machine.opcode halting branch

/-- A conditional branch is taken when its condition holds. -/
theorem next_of_branch {machine : Machine δ} (idle : machine.pending = none) {kind : BranchKind}
    {field : Fin 8} (code : BitFields.ofCode machine.opcode = ⟨3, field, kind.column⟩) :
    machine.next = if condition machine.registers.flags field then machine.taken kind
      else machine.untaken kind := by
  -- None of the three columns has ports or the interrupt switch.
  have internal : (BitFields.mk 3 field kind.column).operation.Internal :=
    internal_operation _ (by cases kind <;> simp [BranchKind.column])
  -- The same condition decides about the target and about the cycles.
  have store : highQuarter ⟨3, field, kind.column⟩ machine.store =
      if condition machine.registers.flags field then machine.branchStore kind
      else skip machine.store kind.size := by
    cases kind <;> rfl
  -- A call or a return that is taken costs six cycles more.
  have cost : (BitFields.mk 3 field kind.column).operation.cost machine.registers.flags =
      kind.cycles (condition machine.registers.flags field) := by
    rw [← holds_conditionName]
    cases kind with
    | jump => rfl
    | call =>
      show 11 + (if (conditionName field).holds machine.registers.flags then 6 else 0) =
        if (conditionName field).holds machine.registers.flags then 17 else 11
      split <;> rfl
    | ret =>
      show 5 + (if (conditionName field).holds machine.registers.flags then 6 else 0) =
        if (conditionName field).holds machine.registers.flags then 11 else 5
      split <;> rfl
  rw [next_eq_perform idle (runs_of_branch code) code internal, perform_highQuarter, store, cost]
  cases condition machine.registers.flags field <;> rfl

/--
After a compare, a conditional branch is taken exactly when what its field says about the two
numbers is true.

Apart from that the compare changes only the flags, and the branch only what branches change.
-/
theorem branches_on_comparison {machine : Machine δ} (idle : machine.pending = none)
    {operand : UInt8} {size : UInt16} {cycles : UInt64}
    (compares : machine.Compares operand size cycles) {kind : BranchKind} {field : Fin 8}
    (follows : BitFields.ofCode (machine.memory.read (machine.registers.pc + size)) =
      ⟨3, field, kind.column⟩) :
    let compared := machine.compared operand size cycles
    machine.next = compared ∧
      (Compared machine.registers.a operand field → machine.next.next = compared.taken kind) ∧
      (¬ Compared machine.registers.a operand field →
        machine.next.next = compared.untaken kind) := by
  intro compared
  -- The first tick is the compare.
  have first : machine.next = compared := next_of_compares idle compares
  -- The branch finds the memory as it was, and the flags that the compare has left.
  have waitless : compared.pending = none := idle
  have second := next_of_branch waitless follows
  have asks := condition_exactDifference machine.registers.a operand field
  refine ⟨first, fun holds => ?_, fun fails => ?_⟩
  · -- The second tick asks the flags, which say that the branch is taken.
    rw [first, second]
    exact if_pos (asks.mpr holds)
  · -- Or they say that it is not.
    rw [first, second]
    exact if_neg fun holds => fails (asks.mp holds)

/-- A machine about to compare 10 with 20 and to call 1234 if there is a borrow. -/
def comparingMachine : Machine Probe :=
  { start { memory := Memory.zero.load 0x0100 [0xFE, 0x20, 0xDC, 0x34, 0x12] } 0x0100 with
    registers := { a := 0x10, sp := 1, pc := 0x0100 } }

/-- The call is taken, and its return address goes round the end of memory. -/
theorem comparingMachine_branches :
    comparingMachine.pending = none ∧ comparingMachine.Compares 0x20 2 7 ∧
      Compared 0x10 0x20 3 ∧
      comparingMachine.next.next = (comparingMachine.compared 0x20 2 7).taken .call ∧
      comparingMachine.next.next.registers =
        { a := 0x10, flags := { sign := true, auxCarry := true, parity := true, carry := true }
          sp := 0xFFFF, pc := 0x1234 } := by
  -- The compare is an immediate one.
  have code : comparingMachine.opcode = 0xFE := by
    simp [comparingMachine, opcode, start, Memory.load, Memory.read_write]
  have operand : nextByte comparingMachine.store = 0x20 := by
    simp [comparingMachine, nextByte, store, start, Memory.load, Memory.read_write]
  -- The branch behind it is a call on carry.
  have call : BitFields.ofCode
      (comparingMachine.memory.read (comparingMachine.registers.pc + 2)) =
        ⟨3, 3, BranchKind.call.column⟩ := by
    have byte : comparingMachine.memory.read (comparingMachine.registers.pc + 2) = 0xDC := by
      simp [comparingMachine, start, Memory.load, Memory.read_write]
    rw [byte]
    rfl
  -- Its operand is read from the memory that the compare has left alone.
  have target : nextWord (comparingMachine.compared 0x20 2 7).store = 0x1234 := by
    simp [comparingMachine, nextWord, store, compared, start, Memory.load, Memory.readWord,
      Memory.read_write]
    rfl
  have compares : comparingMachine.Compares 0x20 2 7 := by
    rw [← operand]
    exact .immediate (by rw [code]; rfl)
  have less : Compared 0x10 0x20 3 := by
    show (0x10 : UInt8) < 0x20
    decide
  obtain ⟨_, taken, _⟩ := branches_on_comparison rfl compares call
  have last := taken less
  refine ⟨rfl, compares, less, last, ?_⟩
  rw [last]
  simp only [Machine.taken, branchStore, target]
  rfl

end Machine

end Intel8080
