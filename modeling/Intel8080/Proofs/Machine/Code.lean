import Intel8080.Proofs.Machine.History
import Intel8080.Proofs.Memory

/-! Runs of operations in memory, and the ticks that execute them. -/

namespace Intel8080

/-- The address is one of so many consecutive ones from a start, which continue at zero. -/
def Within (address start : UInt16) (count : Nat) : Prop :=
  (address - start).toNat < count

instance (address start : UInt16) (count : Nat) : Decidable (Within address start count) :=
  inferInstanceAs (Decidable (_ < _))

/-- A range begins with its start. -/
theorem within_start (address : UInt16) (more : Nat) : Within address address (1 + more) := by
  -- The start is at distance zero from itself.
  rw [Within, UInt16.sub_self]
  exact Nat.lt_of_lt_of_le Nat.zero_lt_one (Nat.le_add_right 1 more)

/-- The second address of a range follows the start. -/
theorem within_second (address : UInt16) (more : Nat) :
    Within (address + 1) address (2 + more) := by
  -- The next address is at distance one.
  rw [Within, UInt16.add_comm, UInt16.add_sub_cancel]
  exact Nat.lt_of_lt_of_le Nat.one_lt_two (Nat.le_add_right 2 more)

/-- What lies in the later part of a range lies in the range. -/
theorem Within.of_later {address start : UInt16} {skipped count : Nat}
    (inside : Within address (start + .ofNat skipped) count) :
    Within address start (skipped + count) := by
  -- Distances from the start are remainders, which the bounds on both ends decide.
  have addressBound := address.toNat_lt
  have startBound := start.toNat_lt
  simp only [Within, UInt16.toNat_sub, UInt16.toNat_add, UInt16.toNat_ofNat'] at inside ⊢
  omega

/-- What lies in the earlier part of a range lies in the range. -/
theorem Within.of_earlier {address start : UInt16} {count more : Nat}
    (inside : Within address start count) : Within address start (count + more) :=
  -- The distance is the same, and the bound is larger.
  Nat.lt_of_lt_of_le inside (Nat.le_add_right count more)

/-- The earlier part of a range and the later one have nothing in common. -/
theorem Within.not_earlier {address start : UInt16} {skipped count : Nat}
    (inside : Within address (start + .ofNat skipped) count) (fits : skipped + count ≤ 65536) :
    ¬ Within address start skipped := by
  -- Both parts together do not come round to the start again.
  have addressBound := address.toNat_lt
  have startBound := start.toNat_lt
  simp only [Within, UInt16.toNat_sub, UInt16.toNat_add, UInt16.toNat_ofNat'] at inside ⊢
  omega

/-- The second byte of a pushed word lies just below the stack pointer. -/
theorem sub_two_add_one (sp : UInt16) : sp - 2 + 1 = sp - 1 := by
  -- One byte back from two bytes below is one byte below.
  symm
  rw [UInt16.sub_eq_iff_eq_add, UInt16.add_assoc]
  exact (UInt16.sub_add_cancel sp 2).symm

/-- The number of bytes an operation occupies together with its operand. -/
def Operation.size (operation : Operation) : Nat :=
  1 + operation.width.count

/-- The number of bytes a run of operations occupies. -/
def codeSize : List Operation → Nat
  | [] => 0
  | operation :: rest => operation.size + codeSize rest

/-- The cycles a run of operations takes, conditional calls and returns counted as not taken. -/
def codeCycles : List Operation → UInt64
  | [] => 0
  | operation :: rest => operation.cycles + codeCycles rest

/-- Sizes add up along a run. -/
theorem codeSize_append (front back : List Operation) :
    codeSize (front ++ back) = codeSize front + codeSize back := by
  -- The operations of the front are counted one by one.
  induction front with
  | nil => exact (Nat.zero_add _).symm
  | cons operation rest ih => rw [List.cons_append, codeSize, codeSize, ih, Nat.add_assoc]

/-- Cycles add up along a run. -/
theorem codeCycles_append (front back : List Operation) :
    codeCycles (front ++ back) = codeCycles front + codeCycles back := by
  -- So are their cycles.
  induction front with
  | nil => exact (UInt64.zero_add _).symm
  | cons operation rest ih => rw [List.cons_append, codeCycles, codeCycles, ih, UInt64.add_assoc]

/-- An instruction is as long as its operation says. -/
theorem Instruction.size_eq (instruction : Instruction) :
    instruction.size = .ofNat instruction.operation.size := by
  -- Both are the code and as many bytes as the width says.
  rw [size, Operation.size, UInt16.ofNat_add]
  rfl

/-- The policy executes the code instead of refusing it. -/
def Policy.Executes (policy : Policy) (code : UInt8) : Prop :=
  policy = .fault → isDocumented code = true

namespace Memory

/-- Memory holds a run of operations, under codes that the policy executes and any operands. -/
def Holds (memory : Memory) (policy : Policy) : UInt16 → List Operation → Prop
  | _, [] => True
  | address, operation :: rest =>
    (Operation.ofCode (memory.read address) = operation ∧
      policy.Executes (memory.read address)) ∧
      memory.Holds policy (address + .ofNat operation.size) rest

/-- Writing a word leaves every other byte alone. -/
theorem read_writeWord (memory : Memory) (value : UInt16) {address place : UInt16}
    (outside : ¬ Within place address 2) :
    (memory.writeWord address value).read place = memory.read place := by
  -- The place is neither of the two that are written.
  have low : place ≠ address := by
    rintro rfl
    exact outside (within_start place 1)
  have high : place ≠ address + 1 := by
    rintro rfl
    exact outside (within_second address 0)
  rw [writeWord, read_write, if_neg high, read_write, if_neg low]

/-- Memory that agrees on two bytes agrees on the word. -/
theorem readWord_congr {memory other : Memory} {address : UInt16}
    (agree : ∀ place, Within place address 2 → other.read place = memory.read place) :
    other.readWord address = memory.readWord address := by
  -- A word is its two bytes.
  rw [readWord, readWord, agree address (within_start address 1),
    agree (address + 1) (within_second address 0)]

/-- A run is held when its front is, and its back where the front ends. -/
theorem holds_append {memory : Memory} {policy : Policy} {address : UInt16}
    {front back : List Operation} :
    memory.Holds policy address (front ++ back) ↔
      memory.Holds policy address front ∧
        memory.Holds policy (address + .ofNat (codeSize front)) back := by
  -- Each operation of the front moves the address on by its size.
  induction front generalizing address with
  | nil => simp [Holds, codeSize]
  | cons operation rest ih =>
    have along : address + .ofNat operation.size + .ofNat (codeSize rest) =
        address + .ofNat (codeSize (operation :: rest)) := by
      rw [codeSize, UInt16.ofNat_add, UInt16.add_assoc]
    simp only [List.cons_append, Holds, ih, along, and_assoc]

/-- Loading bytes changes no address outside their range. -/
theorem read_load (memory : Memory) {address place : UInt16} {bytes : List UInt8}
    (outside : ¬ Within place address bytes.length) :
    (memory.load address bytes).read place = memory.read place := by
  -- A byte is either written by the last one that lands on it, or kept.
  cases memory.settled_load address bytes place with
  | last index greatest _ =>
    -- A byte that went there would put the place into the range.
    obtain ⟨⟨within, lands⟩, _⟩ := greatest
    refine absurd ?_ outside
    have startBound := address.toNat_lt
    simp only [Within, Lands, UInt16.toNat_sub] at lands ⊢
    omega
  | kept _ same => exact same.symm

/-- Loading bytes puts the first one at the start, unless there are so many that they come round. -/
theorem read_load_start (memory : Memory) {address : UInt16} {byte : UInt8} {rest : List UInt8}
    (fits : (byte :: rest).length ≤ 65536) :
    (memory.load address (byte :: rest)).read address = byte := by
  -- The start is at offset zero.
  have start : (memory.load address (byte :: rest)).read (address + .ofNat 0) = byte :=
    memory.read_load_offset fits 0 rfl
  rwa [show address + .ofNat 0 = address from UInt16.add_zero address] at start

/-- Memory loaded with the bytes of instructions holds their operations. -/
theorem holds_load (memory : Memory) {policy : Policy} {address : UInt16}
    {instructions : List Instruction}
    (executed : ∀ instruction ∈ instructions, policy.Executes instruction.code)
    (fits : (instructions.flatMap Instruction.encode).length ≤ 65536) :
    (memory.load address (instructions.flatMap Instruction.encode)).Holds policy address
      (instructions.map Instruction.operation) := by
  -- Each instruction is loaded in front of the others, at the address where they begin.
  induction instructions generalizing memory address with
  | nil => trivial
  | cons instruction rest ih =>
    rw [List.flatMap_cons, List.length_append] at fits
    have size : address + .ofNat instruction.encode.length =
        address + .ofNat instruction.operation.size := by
      rw [instruction.length_encode, UInt16.ofNat_toNat, Instruction.size_eq]
    -- The code is written first, and nothing after it reaches back to its address.
    have code : (memory.load address (instruction.encode ++ rest.flatMap Instruction.encode)).read
        address = instruction.code := by
      have own : Within address address instruction.encode.length := by
        rw [Instruction.encode, List.length_cons, Nat.add_comm]
        exact within_start address _
      have front : (instruction.code :: instruction.operandBytes).length ≤ 65536 :=
        Nat.le_trans (Nat.le_add_right _ _) fits
      rw [load_append, read_load _ fun inside => inside.not_earlier fits own, Instruction.encode,
        read_load_start _ front]
    rw [List.flatMap_cons]
    refine ⟨?_, ?_⟩
    · -- The first code is that of the first instruction.
      rw [code]
      exact ⟨rfl, executed instruction (by simp)⟩
    · -- The others are held where it ends.
      rw [load_append, size]
      exact ih _ (fun other member => executed other (List.mem_cons_of_mem _ member)) (by omega)

/-- Memory that agrees on the bytes of a run holds the same run. -/
theorem Holds.congr {memory other : Memory} {policy : Policy} {address : UInt16}
    {code : List Operation} (holds : memory.Holds policy address code)
    (agree : ∀ place, Within place address (codeSize code) →
      other.read place = memory.read place) :
    other.Holds policy address code := by
  -- The bytes of each operation come before those of the rest.
  induction code generalizing address with
  | nil => trivial
  | cons operation rest ih =>
    have size : codeSize (operation :: rest) = operation.size + codeSize rest := rfl
    obtain ⟨here, later⟩ := holds
    -- The code itself is the first byte of the run.
    have first : other.read address = memory.read address := by
      refine agree address ?_
      rw [size, Operation.size, Nat.add_assoc]
      exact within_start address _
    refine ⟨by rwa [first], ih later fun place inside => agree place ?_⟩
    rw [size]
    exact inside.of_later

end Memory

namespace Machine

variable {δ : Type}

/-- The machine is about to execute a run of operations. -/
def Holds (machine : Machine δ) (code : List Operation) : Prop :=
  machine.memory.Holds machine.policy machine.registers.pc code

/-- The machine with an operation paid for and the program counter past it. -/
def past (machine : Machine δ) (operation : Operation) : Machine δ :=
  { machine with
    registers := { machine.registers with
      pc := machine.registers.pc + .ofNat operation.size }
    cycles := machine.cycles + operation.cost machine.registers.flags }

/-- Paying for an instruction is paying for its operation. -/
theorem charge_eq_past (machine : Machine δ) (instruction : Instruction) :
    machine.charge instruction = machine.past instruction.operation := by
  -- Only the size is written in two ways.
  rw [charge, past, Instruction.size_eq]

/-- A machine about to execute anything but HLT does not halt. -/
theorem not_halts_of_holds {machine : Machine δ} {operation : Operation} {rest : List Operation}
    (holds : machine.Holds (operation :: rest)) (running : operation ≠ .hlt) :
    ¬ machine.Halts := by
  -- It would halt by HLT or by a code that the policy refuses.
  obtain ⟨⟨here, executed⟩, _⟩ := holds
  rintro (hlt | ⟨fault, blank⟩)
  · -- HLT is an operation of its own.
    exact running (here.symm.trans ((Operation.ofCode_eq_iff machine.opcode (by simp)).mpr hlt))
  · -- A code that is executed is documented, or the policy does not mind.
    have refused := (isDocumented_eq_false_iff machine.opcode).mpr blank
    exact absurd (executed fault) (by rw [← opcode, refused]; decide)

/-- The next instruction is the first one of the run. -/
theorem operation_of_holds {machine : Machine δ} {operation : Operation} {rest : List Operation}
    (holds : machine.Holds (operation :: rest)) : machine.instruction.operation = operation :=
  -- What is held there is what the code names.
  (operation_of_opcode rfl).trans holds.1.1

/-- A machine at the documented code of an operation is about to execute it under any policy. -/
theorem holds_of_opcode {machine : Machine δ} {operation : Operation}
    (opcode : machine.opcode = operation.code)
    (known : Operation.ofCode operation.code = operation) : machine.Holds [operation] := by
  -- The code at the program counter names the operation.
  have here : Operation.ofCode machine.opcode = operation := by rw [opcode, known]
  refine ⟨⟨here, fun _ => ?_⟩, trivial⟩
  -- A code is documented if it is the one that its operation has.
  change ((Operation.ofCode machine.opcode).code == machine.opcode) = true
  rw [here, opcode]
  exact beq_self_eq_true _

section Ticks

variable [Device δ]

/-- The machine after so many ticks and nothing else. -/
def ticks (machine : Machine δ) (count : Nat) : Machine δ :=
  machine.after (.replicate count .tick)

/-- Ticks add up. -/
theorem ticks_add (machine : Machine δ) (first second : Nat) :
    machine.ticks (first + second) = (machine.ticks first).ticks second := by
  -- A row of ticks is one row and then the other.
  rw [ticks, ← List.replicate_append_replicate, after, List.foldl_append]
  rfl

/-- The last of so many ticks follows the others. -/
theorem ticks_succ (machine : Machine δ) (count : Nat) :
    machine.ticks (count + 1) = (machine.ticks count).next :=
  -- One more tick is one tick after the others.
  ticks_add machine count 1

/-- What every tick keeps of a machine holds after any number of them. -/
theorem ticks_invariant {Holds : Machine δ → Prop}
    (kept : ∀ machine, Holds machine → Holds machine.next) {machine : Machine δ}
    (initial : Holds machine) (count : Nat) : Holds (machine.ticks count) := by
  -- Each tick starts from what the one before it has left.
  induction count with
  | zero => exact initial
  | succ count ih =>
    rw [ticks_succ]
    exact kept _ ih

/-- The machine has halted after a tick that halts. -/
theorem halted_ticks_succ {machine : Machine δ} {passed : Nat}
    (halts : (machine.ticks passed).Halts) : (machine.ticks (passed + 1)).halted = true := by
  -- The tick that halts sets the flag.
  rw [ticks_succ]
  exact (halted_next_iff _).mpr (.inr halts)

/-- Executing an internal operation pays for it and transforms the registers and the memory. -/
theorem execute_of_operation {machine : Machine δ} {operation : Operation}
    (here : machine.instruction.operation = operation) (internal : operation.Internal) :
    machine.execute machine.instruction = ((machine.past operation).withStore
      (operation.transform machine.instruction.operand (machine.past operation).store), []) := by
  -- The operand is the fetched one.
  rw [execute_internal _ _ (here ▸ internal), charge_eq_past, here]

/-- An internal operation at the program counter transforms the registers and the memory. -/
theorem next_of_internal {machine : Machine δ} {operation : Operation} {rest : List Operation}
    (idle : machine.pending = none) (holds : machine.Holds (operation :: rest))
    (running : operation ≠ .hlt) (internal : operation.Internal) :
    ∃ operand, machine.next = (machine.past operation).withStore
      (operation.transform operand (machine.past operation).store) := by
  -- The operand is the one that is fetched.
  refine ⟨machine.instruction.operand, ?_⟩
  rw [machine.next_of_idle (not_halts_of_holds holds running) idle,
    execute_of_operation (operation_of_holds holds) internal]

/-- EI at the program counter enables interrupts. -/
theorem next_of_ei {machine : Machine δ} {rest : List Operation}
    (idle : machine.pending = none) (holds : machine.Holds (.ei :: rest)) :
    machine.next = { machine.past .ei with interruptsEnabled := true } := by
  -- EI has a case of its own, which turns the switch.
  have here := operation_of_holds holds
  rw [machine.next_of_idle (not_halts_of_holds holds (by decide)) idle, execute]
  simp only [here]
  rw [← here, ← charge_eq_past]
  rfl

end Ticks

end Machine

end Intel8080
