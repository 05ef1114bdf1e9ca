import Intel8080.Machine

/-! What one tick can do: halt in place, or execute an instruction and then serve a request. -/

namespace Intel8080

/-- The codes that the manual leaves blank. -/
def undocumentedCodes : List UInt8 :=
  [0x08, 0x10, 0x18, 0x20, 0x28, 0x30, 0x38, 0xCB, 0xD9, 0xDD, 0xED, 0xFD]

/-- A code is undocumented exactly when it is one of the twelve. -/
theorem isDocumented_eq_false_iff (code : UInt8) :
    isDocumented code = false ↔ code ∈ undocumentedCodes := by
  -- A finite table is checked entry by entry.
  have all : ∀ value : Fin 256,
      isDocumented (.ofFin value) = false ↔ (.ofFin value) ∈ undocumentedCodes := by
    decide +kernel
  exact all code.toFin

/-- HLT, OUT, IN, EI and DI have one code each. -/
theorem Operation.ofCode_eq_iff (code : UInt8) {operation : Operation}
    (single : operation ∈ [hlt, output, input, ei, di]) :
    ofCode code = operation ↔ code = operation.code := by
  -- None of the five is repeated under another code.
  have all : ∀ operation ∈ [hlt, output, input, ei, di], ∀ value : Fin 256,
      ofCode (.ofFin value) = operation ↔ .ofFin value = operation.code := by
    decide +kernel
  exact all operation single code.toFin

/-- The operation works within the registers and the memory. -/
def Operation.Internal (operation : Operation) : Prop :=
  operation ∉ [Operation.output, .input, .ei, .di]

instance (operation : Operation) : Decidable operation.Internal :=
  inferInstanceAs (Decidable (_ ∉ _))

/-- Fetching starts with the byte at the address. -/
@[simp] theorem Memory.code_fetch (memory : Memory) (address : UInt16) :
    (memory.fetch address).code = memory.read address := by
  -- The width decides only where the operand comes from.
  simp only [fetch]
  split <;> rfl

namespace Machine

variable {δ : Type}

/-- The code at the program counter. -/
def opcode (machine : Machine δ) : UInt8 :=
  machine.memory.read machine.registers.pc

/-- The next instruction is HLT, or an undocumented code that the policy refuses. -/
def Halts (machine : Machine δ) : Prop :=
  machine.opcode = 0x76 ∨ machine.policy = .fault ∧ machine.opcode ∈ undocumentedCodes

instance (machine : Machine δ) : Decidable machine.Halts :=
  inferInstanceAs (Decidable (_ ∨ _))

/-- What a machine that halts says about it: that it refuses a code, or that it met HLT. -/
def haltMessage (machine : Machine δ) : Message :=
  if machine.policy = .fault ∧ machine.opcode ∈ undocumentedCodes then
    .undecodable machine.opcode machine.registers
  else .halt machine.registers.pc

/-- The listing of the next instruction, if the machine is traced. -/
def listed (machine : Machine δ) : List Event :=
  if machine.tracing then [.message (.listing machine.registers.pc machine.instruction)] else []

/-- A code that is neither HLT nor undocumented is executed, whatever the policy. -/
theorem runs_of_not_mem {machine : Machine δ}
    (other : machine.opcode ∉ 0x76 :: undocumentedCodes) : ¬ machine.Halts := by
  -- HLT is the first of the thirteen codes, and the undocumented ones follow.
  rintro (hlt | ⟨_, blank⟩)
  · exact other (hlt ▸ List.mem_cons_self)
  · exact other (List.mem_cons_of_mem _ blank)

/-- So a known code is executed unless it is one of these thirteen. -/
theorem runs_of_opcode {machine : Machine δ} {code : UInt8} (here : machine.opcode = code)
    (other : code ∉ 0x76 :: undocumentedCodes) : ¬ machine.Halts :=
  runs_of_not_mem (here ▸ other)

/-- The machine after one tick. -/
def next [Device δ] (machine : Machine δ) : Machine δ :=
  machine.tick.1

/-- The machine with an instruction paid for and the program counter past it. -/
def charge (machine : Machine δ) (instruction : Instruction) : Machine δ :=
  { machine with
    registers := { machine.registers with pc := machine.registers.pc + instruction.size }
    cycles := machine.cycles + instruction.operation.cost machine.registers.flags }

/-- The same machine with nothing waiting to be injected. -/
def withoutRequest (machine : Machine δ) : Machine δ :=
  { machine with pending := none }

/-- The restart of a line between two instructions: the next one's address goes on the stack. -/
def inject (machine : Machine δ) (line : Fin 8) : Machine δ :=
  { machine with
    registers := { machine.registers with
      sp := machine.registers.sp - 2
      pc := restartVector line }
    memory := machine.memory.writeWord (machine.registers.sp - 2) machine.registers.pc
    cycles := machine.cycles + 11 }

/-- The fetched instruction has the code at the program counter. -/
@[simp] theorem code_instruction (machine : Machine δ) :
    machine.instruction.code = machine.opcode := by
  simp [instruction, opcode]

/-- It performs the operation of that code. -/
theorem operation_of_opcode {machine : Machine δ} {code : UInt8} (here : machine.opcode = code) :
    machine.instruction.operation = .ofCode code := by
  -- The operation depends on the code alone, never on the operand.
  rw [Instruction.operation, code_instruction, here]

/-- There is a cause for halting exactly when the next instruction halts. -/
theorem haltCause?_eq_none_iff (machine : Machine δ) :
    machine.haltCause? machine.instruction = none ↔ ¬ machine.Halts := by
  -- The refused codes are those with no documented name, and HLT is one code.
  have blank := isDocumented_eq_false_iff machine.opcode
  have stop : Operation.ofCode machine.opcode = .hlt ↔ machine.opcode = 0x76 :=
    Operation.ofCode_eq_iff machine.opcode (by simp)
  simp only [haltCause?, Halts, Instruction.operation, code_instruction, Bool.not_eq_true]
  rw [← blank, ← stop]
  by_cases refused : machine.policy = .fault ∧ isDocumented machine.opcode = false
  · -- A refused code has a cause and halts, whether or not it is HLT.
    simp [refused]
  · rw [if_neg refused]
    by_cases hlt : Operation.ofCode machine.opcode = .hlt
    · -- HLT is accepted by every policy, and it is the only cause left.
      simp [hlt]
    · -- Without a refusal and without HLT neither side halts.
      simp [refused, hlt]

/-- An instruction that halts does so for a refused code, and otherwise because it is HLT. -/
theorem haltCause?_of_halts (machine : Machine δ) (halts : machine.Halts) :
    machine.haltCause? machine.instruction = some machine.haltMessage := by
  -- The twelve codes of the list are the ones without a documented name.
  have blank := isDocumented_eq_false_iff machine.opcode
  simp only [haltCause?, haltMessage, code_instruction, Bool.not_eq_true, blank]
  split
  · -- A refusal is looked for first on both sides.
    rfl
  · rename_i accepted
    -- What halts without being refused is HLT.
    have hlt : machine.instruction.operation = .hlt :=
      operation_of_opcode (halts.resolve_right accepted)
    rw [if_pos hlt]

/-- Serving a waiting request is the restart of its line, after which nothing waits. -/
theorem service_of_pending (machine : Machine δ) {line : Fin 8}
    (waiting : machine.pending = some line) :
    machine.service = machine.withoutRequest.inject line := by
  -- Pushing the program counter and jumping to the vector is what RST does with the store.
  simp only [service, waiting]
  rfl

/-- Where nothing waits there is nothing to serve. -/
theorem service_of_idle (machine : Machine δ) (idle : machine.pending = none) :
    machine.service = machine := by
  simp [service, idle]

section Service

variable (machine : Machine δ)

/-- Serving a request leaves the accumulator. -/
theorem accumulator_service : machine.service.registers.a = machine.registers.a := by
  -- A restart replaces the stack pointer, the program counter and two bytes of memory, nothing
  -- else.
  unfold service
  split <;> rfl

/-- Serving a request leaves the flags. -/
theorem flags_service : machine.service.registers.flags = machine.registers.flags := by
  unfold service
  split <;> rfl

/-- Serving a request leaves the interrupt switch. -/
@[simp] theorem interruptsEnabled_service :
    machine.service.interruptsEnabled = machine.interruptsEnabled := by
  unfold service
  split <;> rfl

/-- Serving a request neither halts the machine nor wakes it. -/
@[simp] theorem halted_service : machine.service.halted = machine.halted := by
  unfold service
  split <;> rfl

/-- Serving a request leaves the policy. -/
@[simp] theorem policy_service : machine.service.policy = machine.policy := by
  unfold service
  split <;> rfl

/-- Serving a request reaches no device. -/
@[simp] theorem ports_service : machine.service.ports = machine.ports := by
  unfold service
  split <;> rfl

end Service

section Execute

variable [Device δ] (machine : Machine δ) (instruction : Instruction)

/-- An internal instruction transforms the registers and the memory, and no device hears of it. -/
theorem execute_internal (internal : instruction.operation.Internal) :
    machine.execute instruction =
      ((machine.charge instruction).withStore
        (instruction.operation.transform instruction.operand (machine.charge instruction).store),
        []) := by
  -- The four excluded operations are the ones with cases of their own.
  unfold execute
  cases same : instruction.operation
  case output | input | ei | di => simp [same, Operation.Internal] at internal
  all_goals simp only [charge, same]

/-- No instruction makes, drops or changes a request. -/
@[simp] theorem pending_execute :
    (machine.execute instruction).1.pending = machine.pending := by
  -- Only the device operations and EI and DI have cases of their own, and none of them has
  -- requests.
  unfold execute
  cases instruction.operation <;> rfl

/-- EI switches interrupts on, DI switches them off, and everything else leaves the switch. -/
theorem interruptsEnabled_execute :
    (machine.execute instruction).1.interruptsEnabled =
      if instruction.operation = .ei then true
      else if instruction.operation = .di then false
      else machine.interruptsEnabled := by
  -- Two cases set the switch to a constant.
  unfold execute
  cases instruction.operation <;> rfl

/-- No executed instruction halts. -/
@[simp] theorem halted_execute : (machine.execute instruction).1.halted = machine.halted := by
  -- What halts never gets here, so no case sets the flag.
  unfold execute
  cases instruction.operation <;> rfl

/-- No instruction changes the policy. -/
@[simp] theorem policy_execute : (machine.execute instruction).1.policy = machine.policy := by
  unfold execute
  cases instruction.operation <;> rfl

/-- Every executed instruction is charged its cost. -/
@[simp] theorem cycles_execute : (machine.execute instruction).1.cycles =
    machine.cycles + instruction.operation.cost machine.registers.flags := by
  -- The charge is made before the cases part.
  unfold execute
  cases instruction.operation <;> rfl

/-- Execution does not look at a waiting request. -/
theorem execute_withoutRequest :
    (machine.withoutRequest.execute instruction).1 =
      (machine.execute instruction).1.withoutRequest := by
  -- In every case the request is carried along untouched.
  unfold execute
  cases instruction.operation <;> rfl

end Execute

section Tick

variable [Device δ] (machine : Machine δ)

/-- A tick that halts makes known the listing and then why. -/
theorem tick_of_halts (halts : machine.Halts) : machine.tick =
    ({ machine with halted := true }, machine.listed ++ [.message machine.haltMessage]) := by
  -- With a cause the tick ends before anything is executed or served.
  simp [tick, listed, haltCause?_of_halts machine halts]

/-- A tick that does not halt makes known the listing and then what its execution does. -/
theorem tick_of_runs (runs : ¬ machine.Halts) : machine.tick =
    ((machine.execute machine.instruction).1.service,
      machine.listed ++ (machine.execute machine.instruction).2) := by
  -- Without a cause both parts of the tick are made.
  simp [tick, listed, (haltCause?_eq_none_iff machine).mpr runs]

/-- A halting tick sets the halt flag and nothing else. -/
theorem next_of_halts (halts : machine.Halts) : machine.next = { machine with halted := true } := by
  rw [next, tick_of_halts machine halts]

/-- Any other tick executes the instruction and then serves a waiting request. -/
theorem next_of_runs (runs : ¬ machine.Halts) :
    machine.next = (machine.execute machine.instruction).1.service := by
  rw [next, tick_of_runs machine runs]

/-- After a tick that does not halt nothing waits. -/
theorem pending_next_of_runs (runs : ¬ machine.Halts) : machine.next.pending = none := by
  -- Either nothing waited when the request was looked for, or it has just been served.
  rw [next_of_runs machine runs, service]
  split
  · -- Nothing waited.
    assumption
  · -- The restart drops its request.
    rfl

/-- A tick that does not halt enables interrupts by EI, disables them by DI, or leaves them. -/
theorem interruptsEnabled_next_of_runs (runs : ¬ machine.Halts) :
    machine.next.interruptsEnabled =
      if machine.opcode = 0xFB then true
      else if machine.opcode = 0xF3 then false
      else machine.interruptsEnabled := by
  rw [next_of_runs machine runs, interruptsEnabled_service, interruptsEnabled_execute,
    Instruction.operation, code_instruction]
  -- The two operations are told by their codes.
  have ei : Operation.ofCode machine.opcode = .ei ↔ machine.opcode = 0xFB :=
    Operation.ofCode_eq_iff machine.opcode (by simp)
  have di : Operation.ofCode machine.opcode = .di ↔ machine.opcode = 0xF3 :=
    Operation.ofCode_eq_iff machine.opcode (by simp)
  simp only [ei, di]

/-- A tick sets the halt flag exactly when it halts, and never clears it. -/
theorem halted_next_iff :
    machine.next.halted = true ↔ machine.halted = true ∨ machine.Halts := by
  by_cases halts : machine.Halts
  · -- The halting tick sets it.
    simp [next_of_halts machine halts, halts]
  · -- Neither the execution nor the service touches it.
    simp [next_of_runs machine halts, halts]

/-- Where nothing waits, nothing waits after a tick. -/
theorem pending_next_of_idle (idle : machine.pending = none) : machine.next.pending = none := by
  by_cases halts : machine.Halts
  · -- A halting tick keeps the request, and there is none.
    rw [next_of_halts machine halts]
    exact idle
  · exact pending_next_of_runs machine halts

/-- Without a request, a tick that does not halt is the execution of its instruction. -/
theorem next_of_idle (runs : ¬ machine.Halts) (idle : machine.pending = none) :
    machine.next = (machine.execute machine.instruction).1 := by
  -- The service after the execution finds nothing to do.
  rw [next_of_runs machine runs]
  exact service_of_idle _ (by simp [idle])

/-- With a request, it is the tick without that request, followed by the restart. -/
theorem next_of_request {line : Fin 8} (runs : ¬ machine.Halts)
    (waiting : machine.pending = some line) :
    machine.next = machine.withoutRequest.next.inject line := by
  -- Hiding the request changes neither the instruction nor whether it halts.
  have hidden : machine.withoutRequest.next =
      (machine.execute machine.instruction).1.withoutRequest := by
    rw [next_of_idle machine.withoutRequest runs rfl]
    exact execute_withoutRequest machine machine.instruction
  -- What is served is the request that still waits after the execution.
  rw [hidden, next_of_runs machine runs]
  exact service_of_pending _ (by simp [waiting])

end Tick

end Machine

end Intel8080
