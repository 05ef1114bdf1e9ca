import Intel8080.Device.Probe
import Intel8080.Proofs.Machine.Code

/-!
An injected restart does what the same restart does when it is fetched.

The one runs behind an instruction whose program counter has already moved, and the other moves it
itself.
-/

namespace Intel8080

/-- The code of a line performs its restart. -/
theorem Operation.ofCode_restartCode (line : Fin 8) : ofCode (restartCode line) = .rst line := by
  -- There are eight lines.
  revert line
  decide

/-- Every policy executes a restart. -/
theorem Policy.executes_restartCode (policy : Policy) (line : Fin 8) :
    policy.Executes (restartCode line) := by
  -- The twelve codes that a policy can refuse are none of the eight.
  have documented : ∀ line : Fin 8, isDocumented (restartCode line) = true := by decide
  intro _
  exact documented line

/-- Where two memories agree, they still do after the same word is written to both. -/
theorem Memory.read_writeWord_congr {left right : Memory} {place : UInt16}
    (agree : left.read place = right.read place) (address value : UInt16) :
    (left.writeWord address value).read place = (right.writeWord address value).read place := by
  -- At any place either both are written, or neither is.
  simp only [writeWord, read_write, agree]

namespace Machine

section Planting

variable {δ : Type}

/-- The machine with the code of a restart written in front of the next instruction, and next. -/
def planted (machine : Machine δ) (line : Fin 8) : Machine δ :=
  { machine with
    registers := { machine.registers with pc := machine.registers.pc - 1 }
    memory := machine.memory.write (machine.registers.pc - 1) (restartCode line) }

/-- What a restart leaves of the machine that it finds between two instructions. -/
structure Restarted (line : Fin 8) (before after : Machine δ) : Prop where
  registers : after.registers = { before.registers with
    sp := before.registers.sp - 2
    pc := 8 * UInt16.ofNat line.val }
  /-- The word on the stack is the address of the instruction that comes next without it. -/
  returns : after.store.top = before.registers.pc
  cycles : after.cycles = before.cycles + 11
  pending : after.pending = none

/-- Between two instructions an injected restart does this. -/
theorem restarted_inject {machine : Machine δ} (idle : machine.pending = none) (line : Fin 8) :
    Restarted line machine (machine.inject line) where
  -- An injection pushes the program counter and jumps to the vector.
  registers := rfl
  returns := Memory.readWord_writeWord _ _ _
  cycles := rfl
  pending := idle

/-- The planted code is a restart that the machine is about to execute. -/
theorem holds_planted (machine : Machine δ) (line : Fin 8) :
    (machine.planted line).Holds [.rst line] := by
  -- The program counter stands on the byte that was written.
  have code : (machine.planted line).memory.read (machine.planted line).registers.pc =
      restartCode line := by
    simp only [planted, Memory.read_write, if_pos]
  refine ⟨⟨?_, ?_⟩, trivial⟩
  · -- It is the code of the restart.
    rw [code, Operation.ofCode_restartCode]
  · -- No policy refuses it.
    rw [code]
    exact Policy.executes_restartCode _ line

/-- Fetching the planted restart is injecting it, on a memory that has the planted byte. -/
theorem next_planted [Device δ] {machine : Machine δ} (idle : machine.pending = none)
    (line : Fin 8) :
    (machine.planted line).next = { machine.inject line with
      memory := (machine.planted line).memory.writeWord (machine.registers.sp - 2)
        machine.registers.pc } := by
  -- Nothing waits, so the tick is the restart alone.
  have waitless : (machine.planted line).pending = none := idle
  obtain ⟨operand, moved⟩ := next_of_internal waitless (holds_planted machine line) nofun
    (by simp [Operation.Internal])
  -- One step back and one byte forward lead to the address that an injection pushes.
  have along : (machine.planted line).registers.pc + .ofNat (Operation.rst line).size =
      machine.registers.pc := UInt16.sub_add_cancel _ _
  rw [moved, past, along]
  rfl

end Planting

section Injection

variable {δ : Type} [Device δ]

/--
A tick that serves a request ends like one more tick on the machine of the undisturbed one, with the
code of the restart planted before its next instruction.

Only the byte where the code was planted can differ.
-/
theorem next_eq_fetched (machine : Machine δ) {line : Fin 8}
    (waiting : machine.pending = some line) (runs : ¬ machine.Halts) :
    let between := machine.withoutRequest.next
    let fetched := (between.planted line).next
    machine.next = { fetched with memory := machine.next.memory } ∧
      (∀ address, address ≠ between.registers.pc - 1 →
        machine.next.memory.read address = fetched.memory.read address) ∧
      Restarted line between machine.next ∧ Restarted line between fetched := by
  intro between fetched
  -- Between the instruction and the restart nothing waits any more.
  have idle : between.pending = none := machine.withoutRequest.pending_next_of_runs runs
  have injected : machine.next = between.inject line := machine.next_of_request runs waiting
  -- Fetching it does the same on the memory with the planted byte.
  have executed : fetched = { between.inject line with
      memory := (between.planted line).memory.writeWord (between.registers.sp - 2)
        between.registers.pc } := next_planted idle line
  have restarted := restarted_inject idle line
  refine ⟨?_, ?_, ?_, ?_⟩
  · -- Apart from the memory the two end alike.
    rw [injected, executed]
  · -- The same word is pushed on two memories that differ in the planted byte.
    intro address other
    have agree : between.memory.read address = (between.planted line).memory.read address := by
      simp only [planted, Memory.read_write, if_neg other]
    rw [injected, executed]
    exact Memory.read_writeWord_congr agree _ _
  · rw [injected]
    exact restarted
  · -- The fetched one pushes the same address.
    rw [executed]
    exact
      { registers := restarted.registers
        returns := Memory.readWord_writeWord _ _ _
        cycles := restarted.cycles
        pending := restarted.pending }

/-- A machine about to execute a NOP at the top of memory, with a stack at the bottom. -/
def wrappingNop : Machine Probe :=
  { start {} 0xFFFF with
    registers := { sp := 1, pc := 0xFFFF }
    interruptsEnabled := false
    pending := restart? 0xCF }

/-- The restart is planted at the top of memory, where the word pushed on the stack covers it. -/
theorem wrappingNop_eq_fetched :
    wrappingNop.pending = some 1 ∧ ¬ wrappingNop.Halts ∧
      wrappingNop.withoutRequest.next.registers = { sp := 1, pc := 0 } ∧
      wrappingNop.next =
        { (wrappingNop.withoutRequest.next.planted 1).next with
          memory := wrappingNop.next.memory } ∧
      (∀ address, address ≠ wrappingNop.withoutRequest.next.registers.pc - 1 →
        wrappingNop.next.memory.read address =
          (wrappingNop.withoutRequest.next.planted 1).next.memory.read address) ∧
      wrappingNop.next.registers = { sp := 0xFFFF, pc := 0x0008 } := by
  -- An empty memory is full of NOPs.
  have opcode : wrappingNop.opcode = 0 := Memory.read_zero _
  have nop : wrappingNop.withoutRequest.Holds [.nop] := by
    have code : Operation.ofCode 0 = .nop := by decide
    exact ⟨⟨(congrArg Operation.ofCode opcode).trans code, fun fault => absurd fault (by decide)⟩,
      trivial⟩
  have runs : ¬ wrappingNop.Halts := not_halts_of_holds nop (by decide)
  obtain ⟨_, moved⟩ := next_of_internal rfl nop (by decide) (by simp [Operation.Internal])
  -- The NOP moves the program counter around to zero.
  have registers : wrappingNop.withoutRequest.next.registers = { sp := 1, pc := 0 } := by
    rw [moved]
    rfl
  have waiting : wrappingNop.pending = some 1 := rfl
  obtain ⟨same, agree, restarted, _⟩ := next_eq_fetched wrappingNop waiting runs
  refine ⟨waiting, runs, registers, same, agree, ?_⟩
  rw [restarted.registers, registers]
  rfl

end Injection

end Machine

end Intel8080
