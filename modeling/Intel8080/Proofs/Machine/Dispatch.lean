import Intel8080.Device.Probe
import Intel8080.Proofs.Machine.BitFields

/-!
One tick does what the bit fields of the code say.

The opcode matrix, the operand widths and the effects of the operations are compared with the
reference step field by field.
-/

namespace Intel8080

namespace BitFields

/-! ### The operation that the fields name -/

/-- The location that a three-bit field names. -/
def location : Fin 8 → Location
  | 0 => .b | 1 => .c | 2 => .d | 3 => .e | 4 => .h | 5 => .l | 6 => .m | 7 => .a

/-- The pair that a two-bit field names. -/
def pairName : Fin 4 → Pair
  | 0 => .bc | 1 => .de | 2 => .hl | 3 => .sp

/-- The pushed pair that a two-bit field names. -/
def stackPairName : Fin 4 → StackPair
  | 0 => .bc | 1 => .de | 2 => .hl | 3 => .psw

/-- The condition that a three-bit field names. -/
def conditionName : Fin 8 → Condition
  | 0 => .nz | 1 => .z | 2 => .nc | 3 => .c | 4 => .po | 5 => .pe | 6 => .p | 7 => .m

/-- The operation that the fields name. -/
def operation (fields : BitFields) : Operation :=
  match fields.x, fields.z with
  | 0, 0 => .nop
  | 0, 1 => if fields.q.val = 0 then .lxi (pairName fields.p) else .dad (pairName fields.p)
  | 0, 2 =>
    match fields.y with
    | 0 => .stax .bc | 1 => .ldax .bc | 2 => .stax .de | 3 => .ldax .de
    | 4 => .shld | 5 => .lhld | 6 => .sta | 7 => .lda
  | 0, 3 => if fields.q.val = 0 then .inx (pairName fields.p) else .dcx (pairName fields.p)
  | 0, 4 => .inr (location fields.y)
  | 0, 5 => .dcr (location fields.y)
  | 0, 6 => .mvi (location fields.y)
  | 0, 7 =>
    match fields.y with
    | 0 => .rotate .rlc | 1 => .rotate .rrc | 2 => .rotate .ral | 3 => .rotate .rar
    | 4 => .daa | 5 => .cma | 6 => .stc | 7 => .cmc
  | 1, _ =>
    if fields.y.val = 6 ∧ fields.z.val = 6 then .hlt
    else .mov (location fields.y) (location fields.z)
  | 2, _ => .arithmetic (function fields.y) (location fields.z)
  | 3, 0 => .retIf (conditionName fields.y)
  | 3, 1 =>
    if fields.q.val = 0 then .pop (stackPairName fields.p)
    else
      match fields.p with
      | 0 | 1 => .ret | 2 => .pchl | 3 => .sphl
  | 3, 2 => .jumpIf (conditionName fields.y)
  | 3, 3 =>
    match fields.y with
    | 0 | 1 => .jump | 2 => .output | 3 => .input
    | 4 => .xthl | 5 => .xchg | 6 => .di | 7 => .ei
  | 3, 4 => .callIf (conditionName fields.y)
  | 3, 5 => if fields.q.val = 0 then .push (stackPairName fields.p) else .call
  | 3, 6 => .immediate (function fields.y)
  | 3, 7 => .rst fields.y

/-- The opcode matrix holds at every code the operation that its fields name. -/
theorem operation_ofCode (code : UInt8) : (ofCode code).operation = Operation.ofCode code := by
  -- A finite table is checked entry by entry.
  have all : ∀ value : Fin 256,
      (ofCode (.ofFin value)).operation = Operation.ofCode (.ofFin value) := by
    decide +kernel
  exact all code.toFin

/-- The place of a move from memory to memory is the code of HLT. -/
theorem hlt_ofCode_iff (code : UInt8) : ofCode code = ⟨1, 6, 6⟩ ↔ code = 0x76 := by
  -- A finite table is checked entry by entry.
  have all : ∀ value : Fin 256,
      ofCode (.ofFin value) = ⟨1, 6, 6⟩ ↔ UInt8.ofFin value = 0x76 := by
    decide +kernel
  exact all code.toFin

/-! ### Named operands and indexed operands -/

section Operands

variable (store : Store)

/-- Reading a named location is reading the operand its field indexes. -/
theorem get_location (index : Fin 8) : store.get (location index) = register store index := by
  -- The eight values of the field are the eight locations.
  match index with
  | 0 | 1 | 2 | 3 | 4 | 5 | 6 | 7 => rfl

/-- Writing a named location is writing the operand its field indexes. -/
theorem set_location (index : Fin 8) (value : UInt8) :
    store.set (location index) value = setRegister store index value := by
  -- Each of them is written where it is read.
  match index with
  | 0 | 1 | 2 | 3 | 4 | 5 | 6 | 7 => rfl

/-- Reading a named pair is reading the pair its field indexes. -/
theorem getPair_pairName (index : Fin 4) : store.getPair (pairName index) = pair store index := by
  -- The four values of the field are the four pairs.
  match index with
  | 0 | 1 | 2 | 3 => rfl

/-- Writing a named pair is writing the pair its field indexes. -/
theorem setPair_pairName (index : Fin 4) (value : UInt16) :
    store.setPair (pairName index) value = setPair store index value := by
  -- Each of them is written where it is read.
  match index with
  | 0 | 1 | 2 | 3 => rfl

/-- A named condition tests the flag its field indexes. -/
theorem holds_conditionName (flags : Flags) (index : Fin 8) :
    (conditionName index).holds flags = condition flags index := by
  -- The upper two bits of the field select the flag, and the last one its value.
  match index with
  | 0 | 1 | 2 | 3 | 4 | 5 | 6 | 7 => rfl

/-- No operand depends on the program counter. -/
theorem register_skip (index : Fin 8) (count : UInt16) :
    register (skip store count) index = register store index := by
  -- Moving the program counter changes no register and no byte of memory.
  match index with
  | 0 | 1 | 2 | 3 | 4 | 5 | 6 | 7 => rfl

/-- Modifying a named location is adjusting the operand its field indexes. -/
theorem modify_location (index : Fin 8) (step : Flags → UInt8 → UInt8 × Flags) :
    store.modify (location index) step = adjust store index step := by
  -- Both read the operand, and write the result and the flags.
  simp only [Store.modify, adjust, get_location, set_location]

end Operands

/-! ### The effect that the fields name -/

section Effects

variable (store : Store)

/-- The operand that follows the code. -/
def operandAt : Width → UInt16
  | .none => 0
  | .byte => (nextByte store).toUInt16
  | .word => nextWord store

/-- The store with the program counter past an instruction of a width. -/
def past (width : Width) : Store :=
  skip store (1 + UInt16.ofNat width.count)

/-- A byte operand is the byte after the code. -/
theorem lowByte_operandAt : lowByte (operandAt store .byte) = nextByte store := by
  -- Widening a byte to a word and taking the low half gives it back.
  simp [operandAt, lowByte]

/-- The operation that the fields name, done on the operand that follows the code. -/
def perform (fields : BitFields) : Store :=
  fields.operation.transform (operandAt store fields.operation.width)
    (past store fields.operation.width)

/-- The quarter with `x = 0` does what its fields say. -/
theorem perform_lowQuarter (y z : Fin 8) :
    perform store ⟨0, y, z⟩ = lowQuarter ⟨0, y, z⟩ store := by
  match z with
  | 0 => rfl
  | 1 =>
    -- The last bit of the middle field chooses between loading a pair and adding one.
    simp only [perform, operation, lowQuarter]
    split
    · exact setPair_pairName (skip store 3) _ (nextWord store)
    · simp only [Operation.width, Operation.transform, getPair_pairName]
      rfl
  | 2 =>
    match y with
    | 0 | 1 | 2 | 3 | 4 | 5 | 6 | 7 => rfl
  | 3 =>
    -- The last bit chooses between counting up and counting down.
    simp only [perform, operation, lowQuarter]
    split <;> exact (setPair_pairName _ _ _).trans (by rw [getPair_pairName]; rfl)
  -- Counting works on whatever operand the middle field indexes.
  | 4 => exact modify_location (skip store 1) y increment
  | 5 => exact modify_location (skip store 1) y decrement
  | 6 =>
    -- A byte is stored in the operand that the middle field indexes.
    simp only [perform, operation, lowQuarter, Operation.width, Operation.transform]
    rw [set_location, lowByte_operandAt]
    rfl
  | 7 =>
    match y with
    | 0 | 1 | 2 | 3 | 4 | 5 | 6 | 7 => rfl

/-- The quarter with `x = 1` moves one operand to another, wherever HLT does not stand. -/
theorem perform_moves (y z : Fin 8) (moves : ¬ (y.val = 6 ∧ z.val = 6)) :
    perform store ⟨1, y, z⟩ = setRegister (skip store 1) y (register store z) := by
  -- The operand is read behind the code, where it is the same.
  have moved : (skip store 1).set (location y) ((skip store 1).get (location z)) =
      setRegister (skip store 1) y (register store z) := by
    rw [set_location, get_location, register_skip]
  simp only [perform, operation, if_neg moves]
  exact moved

/-- The quarter with `x = 2` combines the accumulator with an operand. -/
theorem perform_arithmetic (y z : Fin 8) :
    perform store ⟨2, y, z⟩ = (skip store 1).accumulate (function y) (register store z) := by
  -- Only the operand has to be looked up by its index.
  have operand : (skip store 1).get (location z) = register store z := by
    rw [get_location, register_skip]
  exact congrArg ((skip store 1).accumulate (function y)) operand

/-- The quarter with `x = 3` does what its fields say, ports and the interrupt switch apart. -/
theorem perform_highQuarter (y z : Fin 8) :
    perform store ⟨3, y, z⟩ = highQuarter ⟨3, y, z⟩ store := by
  match z with
  | 0 =>
    -- A branch not taken leaves only the moved program counter.
    simp only [perform, operation, highQuarter, ← holds_conditionName]
    rfl
  | 1 =>
    match y with
    | 0 | 1 | 2 | 3 | 4 | 5 | 6 | 7 => rfl
  | 2 =>
    -- A jump goes to the word behind it, and a branch not taken goes on.
    simp only [perform, operation, highQuarter, ← holds_conditionName]
    rfl
  | 3 =>
    match y with
    | 0 | 1 | 2 | 3 | 4 | 5 | 6 | 7 => rfl
  | 4 =>
    -- A call does the same with a push in front.
    simp only [perform, operation, highQuarter, ← holds_conditionName]
    rfl
  -- The fields of a push give its pair, and those of a call give none.
  | 5 =>
    match y with
    | 0 | 1 | 2 | 3 | 4 | 5 | 6 | 7 => rfl
  -- An immediate operand is the byte after the code.
  | 6 => exact congrArg ((skip store 2).accumulate (function y)) (lowByte_operandAt store)
  | 7 => rfl

end Effects

end BitFields

/-! ### One tick -/

/-- A fetched operand is what follows the code, as far as the operation's width reaches. -/
theorem Memory.operand_fetch (memory : Memory) (address : UInt16) :
    (memory.fetch address).operand =
      match (Operation.ofCode (memory.read address)).width with
      | .none => 0
      | .byte => (memory.read (address + 1)).toUInt16
      | .word => memory.readWord (address + 1) := by
  -- Fetching makes the same case distinction.
  simp only [fetch]
  split <;> simp only [*]

/-- A code that takes a byte is fetched with the one behind it. -/
theorem Memory.fetch_of_byte {memory : Memory} {address : UInt16} {code byte : UInt8}
    (narrow : (Operation.ofCode code).width = .byte) (here : memory.read address = code)
    (behind : memory.read (address + 1) = byte) :
    memory.fetch address = ⟨code, byte.toUInt16⟩ := by
  -- The width of the operation says that one byte is read.
  rw [fetch, here]
  simp only [narrow, behind]

/-- Only the quarter with `x = 3` reaches ports or the interrupt switch, in four places. -/
theorem BitFields.internal_operation (fields : BitFields)
    (inside : ¬ (fields.x = 3 ∧ fields.z = 3 ∧ fields.y ∈ [2, 3, 6, 7])) :
    fields.operation.Internal := by
  -- The 256 combinations of fields are checked one by one.
  have all : ∀ (x : Fin 4) (y z : Fin 8), ¬ (x = 3 ∧ z = 3 ∧ y ∈ [2, 3, 6, 7]) →
      (operation ⟨x, y, z⟩).Internal := by
    decide +kernel
  exact all fields.x fields.y fields.z inside

namespace Machine

variable {δ : Type}

open BitFields

/-- The instruction at the program counter performs the operation that its fields name. -/
theorem operation_instruction (machine : Machine δ) :
    machine.instruction.operation = (BitFields.ofCode machine.opcode).operation := by
  -- The fields and the matrix name the same operation.
  rw [Instruction.operation, code_instruction, operation_ofCode]

/-- Its operand is the one that follows its code. -/
theorem operand_instruction (machine : Machine δ) :
    machine.instruction.operand =
      operandAt machine.store (BitFields.ofCode machine.opcode).operation.width := by
  -- Both sides read as many bytes as the width of the fetched operation says.
  rw [operation_ofCode]
  refine (Memory.operand_fetch machine.memory machine.registers.pc).trans ?_
  change (match (Operation.ofCode machine.opcode).width with | .none => _ | .byte => _ | .word => _)
    = _
  cases (Operation.ofCode machine.opcode).width <;> rfl

/-- An operation that takes a byte takes the one after its code. -/
theorem byte_of_width (machine : Machine δ) (narrow : machine.instruction.operation.width = .byte) :
    machine.instruction.byte = machine.memory.read (machine.registers.pc + 1) := by
  -- The operand is that byte, widened to a word.
  have operand := operand_instruction machine
  rw [← operation_instruction, narrow] at operand
  exact (congrArg lowByte operand).trans (lowByte_operandAt machine.store)

/-- An instruction within registers and memory performs its fields and reaches no device. -/
theorem execute_eq_perform [Device δ] (machine : Machine δ)
    (internal : (BitFields.ofCode machine.opcode).operation.Internal) :
    machine.execute machine.instruction =
      ({ machine.withStore (perform machine.store (BitFields.ofCode machine.opcode)) with
          cycles := machine.cycles + machine.instruction.operation.cost machine.registers.flags },
        []) := by
  -- The fetched instruction has the operation and the operand of the fields.
  rw [← operation_instruction] at internal
  rw [execute_internal machine machine.instruction internal]
  simp only [perform, ← operation_instruction, operand_instruction machine]
  rfl

/-- A port transfer is the reference step with its cycles charged, and so is an interrupt switch. -/
theorem execute_outside [Device δ] (machine : Machine δ) {y : Fin 8}
    (fields : BitFields.ofCode machine.opcode = ⟨3, y, 3⟩) (outside : y ∈ [(2 : Fin 8), 3, 6, 7]) :
    machine.execute machine.instruction =
      ({ machine.fieldStep.1 with
          cycles := machine.cycles + machine.instruction.operation.cost machine.registers.flags },
        machine.fieldStep.2) := by
  -- Its operation, its operand and its size are those of the fields.
  have named := operation_instruction machine
  have operand := operand_instruction machine
  have size : machine.instruction.size =
      1 + UInt16.ofNat (BitFields.operation ⟨3, y, 3⟩).width.count := by
    rw [Instruction.size, named, fields]
  rw [fields] at named operand
  simp only [List.mem_cons, List.not_mem_nil, or_false] at outside
  unfold execute fieldStep
  rcases outside with rfl | rfl | rfl | rfl
  · -- OUT hands the device the byte after the code as its port.
    have byte : machine.instruction.byte = nextByte machine.store :=
      (congrArg lowByte operand).trans (lowByte_operandAt machine.store)
    simp only [fields, byte, size, named]
    rfl
  · -- So does IN.
    have byte : machine.instruction.byte = nextByte machine.store :=
      (congrArg lowByte operand).trans (lowByte_operandAt machine.store)
    simp only [fields, byte, size, named]
    rfl
  · -- DI and EI only turn the switch.
    simp only [fields, size, named]
    rfl
  · -- The other one turns it the other way.
    simp only [fields, size, named]
    rfl

/-- Outside the place of HLT, execution is the reference step with its cycles charged. -/
theorem execute_eq_fieldStep [Device δ] (machine : Machine δ) (moves : machine.opcode ≠ 0x76) :
    machine.execute machine.instruction =
      ({ machine.fieldStep.1 with
          cycles := machine.cycles + machine.instruction.operation.cost machine.registers.flags },
        machine.fieldStep.2) := by
  -- The code enters only through its fields, which are told apart by quarter from here on.
  have performed := execute_eq_perform machine
  have outer := @execute_outside δ _ machine
  have place := mt (hlt_ofCode_iff machine.opcode).mp moves
  unfold fieldStep at outer ⊢
  generalize BitFields.ofCode machine.opcode = fields at *
  rcases fields with ⟨x, y, z⟩
  have quarters : ∀ x : Fin 4, x = 0 ∨ x = 1 ∨ x = 2 ∨ x = 3 := by decide
  rcases quarters x with rfl | rfl | rfl | rfl
  · -- The first quarter has no special places.
    rw [performed (internal_operation _ (by simp)), perform_lowQuarter]
  · -- In the second quarter only HLT has been left out.
    have moves : ¬ (y.val = 6 ∧ z.val = 6) := by
      rintro ⟨six, six'⟩
      obtain rfl : y = 6 := Fin.ext six
      obtain rfl : z = 6 := Fin.ext six'
      exact place rfl
    rw [performed (internal_operation _ (by simp)), perform_moves _ _ _ moves]
    simp only [if_neg moves]
  · -- The third quarter is arithmetic throughout.
    rw [performed (internal_operation _ (by simp)), perform_arithmetic]
  · -- The last quarter has the four special places.
    by_cases outside : z = 3 ∧ y ∈ [(2 : Fin 8), 3, 6, 7]
    · obtain ⟨rfl, among⟩ := outside
      exact outer rfl among
    · rw [performed (internal_operation _ (by simpa using outside)), perform_highQuarter]
      -- None of the four special places is met, so the reference only moves registers and memory.
      dsimp only
      split
      case h_5 => rfl
      all_goals simp at outside

/-- A tick makes known only messages of its own and what the device it reaches makes known. -/
def Announces (machine : Machine δ) [Device δ] (events : List Event) : Prop :=
  ∃ messages : List Message, machine.tick.2 = messages.map .message ++ events

/-- The listing is a message, if there is one. -/
theorem exists_listed (machine : Machine δ) :
    ∃ messages : List Message, machine.listed = messages.map .message := by
  -- A machine that is traced lists one instruction.
  unfold listed
  split
  · exact ⟨[.listing machine.registers.pc machine.instruction], rfl⟩
  · exact ⟨[], rfl⟩

/-- A halting tick announces nothing but messages. -/
theorem announces_of_halts [Device δ] (machine : Machine δ) (halts : machine.Halts) :
    machine.Announces [] := by
  -- A listing, if the machine is traced, and then the cause.
  obtain ⟨listing, listed⟩ := machine.exists_listed
  refine ⟨listing ++ [machine.haltMessage], ?_⟩
  rw [tick_of_halts machine halts, listed, List.map_append, List.append_nil]
  rfl

/-- Any other tick announces what its execution makes known. -/
theorem announces_of_runs [Device δ] (machine : Machine δ) (runs : ¬ machine.Halts) :
    machine.Announces (machine.execute machine.instruction).2 := by
  -- Its own messages are the listing, and none follows.
  obtain ⟨listing, listed⟩ := machine.exists_listed
  exact ⟨listing, by rw [tick_of_runs machine runs, listed]⟩

/--
Without a waiting request, a tick has exactly the effect of the reference step, cycles apart.

The one exception is an undocumented code under the refusing policy, which only halts.
-/
theorem tick_eq_fieldStep [Device δ] (machine : Machine δ) (idle : machine.pending = none) :
    if machine.policy = .fault ∧ machine.opcode ∈ undocumentedCodes then
      machine.next = { machine with halted := true } ∧ machine.Announces []
    else
      { machine.next with cycles := machine.cycles } = machine.fieldStep.1 ∧
        machine.Announces machine.fieldStep.2 := by
  split
  · -- The policy refuses the code.
    rename_i refused
    exact ⟨next_of_halts machine (.inr refused), announces_of_halts machine (.inr refused)⟩
  · -- Otherwise the code is executed, or it is HLT.
    rename_i accepted
    by_cases hlt : machine.opcode = 0x76
    · -- HLT has its own place among the fields, where the reference halts too.
      have stopped : machine.fieldStep = ({ machine with halted := true }, []) := by
        simp only [fieldStep, (hlt_ofCode_iff machine.opcode).mpr hlt]
        rfl
      rw [next_of_halts machine (.inl hlt), stopped]
      exact ⟨rfl, announces_of_halts machine (.inl hlt)⟩
    · -- Any other code is executed, and the counter is put back for the comparison.
      have runs : ¬ machine.Halts := fun halts => halts.elim hlt accepted
      have executed := execute_eq_fieldStep machine hlt
      rw [next_of_idle machine runs idle]
      refine ⟨?_, ?_⟩
      · rw [executed]
        simp only [← cycles_fieldStep machine]
      · simpa only [executed] using announces_of_runs machine runs

/-- A CALL under one of its undocumented codes, on a machine that emulates it. -/
def aliasedCall : Machine Probe :=
  start { memory := Memory.zero.load 0x0100 [0xDD, 0x34, 0x12] } 0x0100

/-- The undocumented CALL continues at its operand, as its fields say. -/
theorem aliasedCall_eq_fieldStep :
    aliasedCall.pending = none ∧
      ({ aliasedCall.next with cycles := aliasedCall.cycles } = aliasedCall.fieldStep.1 ∧
        aliasedCall.Announces aliasedCall.fieldStep.2) ∧
      aliasedCall.fieldStep.1.registers = { sp := 0xFFFE, pc := 0x1234 } := by
  -- The program counter is on the undocumented code.
  have code : aliasedCall.opcode = 0xDD := by
    simp [aliasedCall, opcode, start, Memory.load, Memory.read_write]
  -- Its fields are those of a call.
  have fields : BitFields.ofCode aliasedCall.opcode = ⟨3, 3, 5⟩ := by rw [code]; rfl
  have target : nextWord aliasedCall.store = 0x1234 := by
    simp [aliasedCall, nextWord, store, start, Memory.load, Memory.readWord, Memory.read_write]
    rfl
  have step := tick_eq_fieldStep aliasedCall rfl
  rw [if_neg (fun refused => absurd refused.1 (by decide))] at step
  refine ⟨rfl, step, ?_⟩
  simp only [fieldStep, fields, highQuarter, target]
  rfl

/-- The first undocumented code, on a machine that refuses it. -/
def refusedNop : Machine Probe :=
  { start { memory := Memory.zero.load 0x0100 [0x08] } 0x0100 with policy := .fault }

/-- The fields alone would make it a NOP, but the machine stays where it is. -/
theorem refusedNop_ne_fieldStep :
    refusedNop.pending = none ∧
      { refusedNop.next with cycles := refusedNop.cycles } ≠ refusedNop.fieldStep.1 := by
  -- The code is one of the twelve.
  have code : refusedNop.opcode = 0x08 := by
    simp [refusedNop, opcode, start, Memory.load, Memory.read_write]
  have fields : BitFields.ofCode refusedNop.opcode = ⟨0, 1, 0⟩ := by rw [code]; rfl
  have halts : refusedNop.Halts := .inr ⟨rfl, by rw [code]; decide⟩
  refine ⟨rfl, fun same => ?_⟩
  -- The tick sets the halt flag, and the fields do not.
  rw [next_of_halts refusedNop halts] at same
  have flag := congrArg (·.halted) same
  simp only [fieldStep, fields] at flag
  cases (flag : true = false)

end Machine

end Intel8080
