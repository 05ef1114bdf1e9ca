import Intel8080.Proofs.Interrupt.Request
import Intel8080.Proofs.Machine.Arithmetic
import Intel8080.Proofs.Machine.Block

/-!
The byte that holds the flags, through whole runs.

Every change of a flag is an edit of single bits of that byte, and only a pop of the status word
loads it as a whole. None of the edits of a run lets it have a bit that is no flag.
-/

namespace Intel8080

/-- One of the condition flags. -/
inductive Flag
  | sign | zero | auxCarry | parity | carry
  deriving DecidableEq, Repr

/-- The bit of a flag in the stored byte. -/
def Flag.bit : Flag → UInt8
  | sign => 0x80
  | zero => 0x40
  | auxCarry => 0x10
  | parity => 0x04
  | carry => 0x01

/-- All bits that are flags. -/
def flagBits : UInt8 := 0x80 ||| 0x40 ||| 0x10 ||| 0x04 ||| 0x01

/-- One change of the stored byte. -/
inductive Edit
  /-- Sets or clears a flag. -/
  | put (flag : Flag) (on : Bool)
  /-- Turns a flag over. -/
  | flip (flag : Flag)
  /-- Takes the flags of another byte, whatever else that has. -/
  | load (byte : UInt8)
  deriving DecidableEq, Repr

/-- The byte after an edit. -/
def Edit.apply (stored : UInt8) : Edit → UInt8
  | put flag true => stored ||| flag.bit
  | put flag false => stored &&& ~~~flag.bit
  | flip flag => stored ^^^ flag.bit
  | load byte => byte &&& flagBits

/-! ### The edits of an instruction -/

/-- The sign, zero and parity of a result. -/
def resultEdits (result : UInt8) : List Edit :=
  [.put .zero (result == 0), .put .sign (result &&& 0x80 != 0), .put .parity (evenParity result)]

/-- An addition puts the two carries, and then what shows in the sum. -/
def sumEdits (left right : UInt8) (carryIn : Bool) : List Edit :=
  let (sum, flags) := addWithCarry left right carryIn
  .put .carry flags.carry :: .put .auxCarry flags.auxCarry :: resultEdits sum

/-- A logic operation clears the carry. -/
def logicEdits (result : UInt8) (auxCarry : Bool) : List Edit :=
  .put .carry false :: .put .auxCarry auxCarry :: resultEdits result

/-- The edits of an operation on the accumulator; a borrow is a carry turned over. -/
def Arithmetic.edits (flags : Flags) (accumulator operand : UInt8) : Arithmetic → List Edit
  | add => sumEdits accumulator operand false
  | adc => sumEdits accumulator operand flags.carry
  | sub | cmp => sumEdits accumulator (~~~operand) true ++ [.flip .carry]
  | sbb => sumEdits accumulator (~~~operand) (!flags.carry) ++ [.flip .carry]
  | ana => logicEdits (accumulator &&& operand) ((accumulator ||| operand) &&& 0x08 != 0)
  | xra => logicEdits (accumulator ^^^ operand) false
  | ora => logicEdits (accumulator ||| operand) false

/-- The edits of an operation in its order. -/
def Operation.edits (operand : UInt16) (store : Store) : Operation → List Edit
  | arithmetic function source =>
    function.edits store.registers.flags store.registers.a (store.get source)
  | immediate function => function.edits store.registers.flags store.registers.a (lowByte operand)
  | inr location =>
    let result := store.get location + 1
    .put .auxCarry (result &&& 0x0F == 0) :: resultEdits result
  | dcr location =>
    let result := store.get location - 1
    .put .auxCarry (result &&& 0x0F != 0x0F) :: resultEdits result
  | dad pair => [.put .carry (addWords store.registers.hl (store.getPair pair)).2]
  | rotate rotation =>
    [.put .carry (rotation.apply store.registers.flags.carry store.registers.a).2]
  | daa =>
    let (correction, carry) := decimalCorrection store.registers.flags store.registers.a
    -- The addition puts a carry too, which is then put once more.
    sumEdits store.registers.a correction false ++ [.put .carry carry]
  | stc => [.put .carry true]
  | cmc => [.flip .carry]
  | pop .psw => [.load (lowByte store.top)]
  | _ => []

/-! ### Edits of the byte and changes of the flags -/

section Edits

variable (flags : Flags)

/-- Replaces one flag. -/
def Flags.put (flags : Flags) (on : Bool) : Flag → Flags
  | .sign => { flags with sign := on }
  | .zero => { flags with zero := on }
  | .auxCarry => { flags with auxCarry := on }
  | .parity => { flags with parity := on }
  | .carry => { flags with carry := on }

/-- Putting a flag replaces it alone. -/
theorem Edit.apply_put (flag : Flag) (on : Bool) :
    apply flags.toByte (.put flag on) = (flags.put on flag).toByte := by
  -- No two flags share a bit, which the values of all five decide.
  rcases flags with ⟨_ | _, _ | _, _ | _, _ | _, _ | _⟩ <;> cases flag <;> cases on <;> rfl

/-- Turning the carry over leaves the others. -/
theorem Edit.apply_flip :
    apply flags.toByte (.flip .carry) = { flags with carry := !flags.carry }.toByte := by
  -- Again the values of all five decide.
  rcases flags with ⟨_ | _, _ | _, _ | _, _ | _, _ | _⟩ <;> rfl

/-- Loading a byte takes the flags that it stands for. -/
theorem Edit.apply_load (stored byte : UInt8) :
    apply stored (.load byte) = (Flags.ofByte byte).toByte := by
  -- What was stored before does not matter, so that there are 256 cases.
  have all : ∀ value : Fin 256,
      UInt8.ofFin value &&& flagBits = (Flags.ofByte (.ofFin value)).toByte := by
    decide +kernel
  exact all byte.toFin

/-- The edits of a result replace the three flags that show in it. -/
theorem foldl_resultEdits (result : UInt8) :
    (resultEdits result).foldl Edit.apply flags.toByte = (flags.withResult result).toByte := by
  -- Each of the three is put on its own, and their order makes no difference.
  simp only [resultEdits, List.foldl_cons, List.foldl_nil, Edit.apply_put]
  rfl

/-- Those of an addition replace all five. -/
theorem foldl_sumEdits (left right : UInt8) (carryIn : Bool) :
    (sumEdits left right carryIn).foldl Edit.apply flags.toByte =
      (addWithCarry left right carryIn).2.toByte := by
  -- With the two carries put before the result nothing is left of the old flags.
  simp only [sumEdits, List.foldl_cons, Edit.apply_put, foldl_resultEdits]
  rfl

/-- So do those of a logic operation. -/
theorem foldl_logicEdits (result : UInt8) (auxCarry : Bool) :
    (logicEdits result auxCarry).foldl Edit.apply flags.toByte =
      (logicFlags result auxCarry).toByte := by
  -- Its edits are those of an addition with other values for the two carries.
  simp only [logicEdits, List.foldl_cons, Edit.apply_put, foldl_resultEdits]
  rfl

/-- The edits of an operation on the accumulator leave its flags. -/
theorem Arithmetic.foldl_edits (accumulator operand : UInt8) (function : Arithmetic) :
    (function.edits flags accumulator operand).foldl Edit.apply flags.toByte =
      (function.apply flags accumulator operand).2.toByte := by
  -- A subtraction turns over the carry that its addition has put.
  cases function <;>
    simp only [edits, apply, List.foldl_append, List.foldl_cons, List.foldl_nil, foldl_sumEdits,
      foldl_logicEdits, Edit.apply_flip]
  all_goals rfl

end Edits

/-- The edits of an operation leave its flags. -/
theorem Operation.foldl_edits (operation : Operation) (operand : UInt16) (store : Store) :
    (operation.edits operand store).foldl Edit.apply store.registers.flags.toByte =
      (operation.transform operand store).registers.flags.toByte := by
  cases keeps : operation.setsFlags with
  | false =>
    -- An operation that sets no flags makes no edits.
    have unedited : operation.edits operand store = [] := by
      cases operation
      case pop pair => cases pair <;> first | rfl | cases keeps
      all_goals first | rfl | cases keeps
    rw [unedited, flags_transform operand store keeps]
    rfl
  | true =>
    cases operation
    case arithmetic function source => exact function.foldl_edits _ _ _
    case immediate function => exact function.foldl_edits _ _ _
    case inr location | dcr location =>
      -- The location is written last, and the carry is not touched.
      rw [transform, Store.modify, Store.flags_set]
      simp only [edits, List.foldl_cons, Edit.apply_put, foldl_resultEdits]
      rfl
    case dad pair | rotate rotation | stc =>
      simp only [edits, List.foldl_cons, List.foldl_nil, Edit.apply_put]
      rfl
    case cmc => exact Edit.apply_flip _
    case daa =>
      -- Of the two carries that are put the last one counts.
      simp only [edits, List.foldl_append, List.foldl_cons, List.foldl_nil, foldl_sumEdits,
        Edit.apply_put]
      rfl
    case pop pair =>
      cases pair
      case psw => exact Edit.apply_load store.registers.flags.toByte _
      all_goals cases keeps
    all_goals cases keeps

/-! ### The edits of a run -/

section Run

variable {δ : Type}

/-- The edits of the next tick; none if it halts. -/
def Machine.edits (machine : Machine δ) : List Edit :=
  if machine.Halts then []
  else machine.instruction.operation.edits machine.instruction.operand machine.store

/-- The edits of a step; nothing but a tick makes any. -/
def Step.edits (step : Step δ) : List Edit :=
  match step.action with
  | .tick => step.before.edits
  | _ => []

variable [Device δ]

/-- Executing an instruction edits the stored byte as its operation does. -/
theorem Machine.toByte_execute (machine : Machine δ) (instruction : Instruction) :
    (machine.execute instruction).1.registers.flags.toByte =
      (instruction.operation.edits instruction.operand machine.store).foldl Edit.apply
        machine.registers.flags.toByte := by
  by_cases internal : instruction.operation.Internal
  · rw [execute_internal machine instruction internal]
    -- The operation does not look at the program counter, which has moved on.
    have same : instruction.operation.edits instruction.operand machine.store =
        instruction.operation.edits instruction.operand (machine.charge instruction).store := by
      cases instruction.operation <;> rfl
    rw [same]
    exact (Operation.foldl_edits _ _ _).symm
  · -- Ports and the interrupt switch have no access to the flags.
    unfold execute
    cases same : instruction.operation
    case output | input | ei | di => rfl
    all_goals exact absurd (by simp [same, Operation.Internal]) internal

/-- The edits of a tick are what it does to the stored byte. -/
theorem Machine.toByte_next (machine : Machine δ) : machine.next.registers.flags.toByte =
    machine.edits.foldl Edit.apply machine.registers.flags.toByte := by
  by_cases halts : machine.Halts
  · rw [next_of_halts machine halts, edits, if_pos halts]
    rfl
  · -- An interrupt after the instruction leaves the flags.
    rw [next_of_runs machine halts, flags_service, toByte_execute, edits, if_neg halts]

/-- So are the edits of a step. -/
theorem Step.toByte_after (step : Step δ) : step.after.registers.flags.toByte =
    step.edits.foldl Edit.apply step.before.registers.flags.toByte := by
  by_cases ticks : step.action = .tick
  · obtain ⟨before, action⟩ := step
    subst ticks
    exact before.toByte_next
  · -- A request, a switch or another bus leaves the registers.
    have unedited : step.edits = [] := by
      unfold edits
      -- Only the branch of a tick has any.
      split
      · exact absurd ‹_› ticks
      · rfl
    rw [unedited, (registers_after_of_not_tick ticks).1]
    rfl

/-- The edits of all steps, one after the other, lead to the stored byte at the end. -/
theorem Machine.toByte_after (machine : Machine δ) (actions : List (Action δ)) :
    (machine.after actions).registers.flags.toByte =
      ((machine.history actions).flatMap Step.edits).foldl Edit.apply
        machine.registers.flags.toByte := by
  induction actions generalizing machine with
  | nil => rfl
  | cons action rest ih =>
    -- The later edits start from the byte that the first action leaves.
    have first := Step.toByte_after ⟨machine, action⟩
    rw [history, List.flatMap_cons, List.foldl_append, ← first]
    exact ih (machine.perform action)

end Run

/-! ### Bits that are no flags -/

/-- Masking goes through to both sides of a union of bits. -/
theorem or_and_mask (left right mask : UInt8) :
    (left ||| right) &&& mask = left &&& mask ||| right &&& mask := by
  -- Bytes distribute like the numbers that they are.
  rw [← UInt8.toNat_inj]
  simp only [UInt8.toNat_and, UInt8.toNat_or, Nat.and_or_distrib_right]

/-- It goes through to both sides of a difference of bits. -/
theorem xor_and_mask (left right mask : UInt8) :
    (left ^^^ right) &&& mask = (left &&& mask) ^^^ (right &&& mask) := by
  -- Here too the numbers are what distributes.
  rw [← UInt8.toNat_inj]
  simp only [UInt8.toNat_and, UInt8.toNat_xor, Nat.and_xor_distrib_right]

/-- No edit sets a bit that is no flag. -/
theorem Edit.apply_unset {stored : UInt8} (unset : stored &&& ~~~flagBits = 0) (edit : Edit) :
    edit.apply stored &&& ~~~flagBits = 0 := by
  -- The bit of each flag is among those of all flags.
  have own (flag : Flag) : flag.bit &&& ~~~flagBits = 0 := by
    cases flag <;> rfl
  -- Outside the flags a union, a difference or a removal of their bits shows nothing new.
  cases edit with
  | put flag on =>
    cases on with
    | true => rw [apply, or_and_mask, unset, own, UInt8.or_zero]
    | false =>
      rw [apply, UInt8.and_assoc, UInt8.and_comm (~~~flag.bit), ← UInt8.and_assoc, unset,
        UInt8.zero_and]
  | flip flag => rw [apply, xor_and_mask, unset, own, UInt8.xor_zero]
  -- The loaded byte is arbitrary, but only its flags get through.
  | load byte => rw [apply, UInt8.and_assoc, UInt8.and_not_self, UInt8.and_zero]

/-- So such bits stay clear through any edits. -/
theorem foldl_apply_unset {stored : UInt8} (unset : stored &&& ~~~flagBits = 0)
    (edits : List Edit) : edits.foldl Edit.apply stored &&& ~~~flagBits = 0 := by
  -- By induction on the edits, from whatever byte the earlier ones have left.
  induction edits generalizing stored with
  | nil => exact unset
  | cons edit rest ih => exact ih (edit.apply_unset unset)

/-! ### The status word on the stack -/

namespace Machine

variable {δ : Type}

/-- An interrupt between two instructions leaves the word on top of the stack. -/
theorem readWord_service (machine : Machine δ) :
    machine.service.memory.readWord machine.registers.sp =
      machine.memory.readWord machine.registers.sp := by
  unfold service
  cases machine.pending with
  | none => rfl
  | some line =>
    -- It pushes its own word below.
    exact Memory.readWord_congr fun place inside =>
      Memory.read_writeWord _ _ (not_below_of_top (by decide) inside)

variable [Device δ] {machine : Machine δ}

/-- PUSH PSW puts the status word on the stack. -/
theorem execute_push (here : machine.opcode = 0xF5) :
    (machine.execute machine.instruction).1 = machine.pushed .psw := by
  -- PUSH does not halt and is internal, so it is all that the tick executes.
  have operation : machine.instruction.operation = .push .psw := operation_of_opcode here
  rw [execute_of_operation operation (by decide)]
  rfl

/-- POP PSW takes A and the flags from the stack. -/
theorem execute_pop (here : machine.opcode = 0xF1) :
    (machine.execute machine.instruction).1 = machine.popped .psw := by
  -- So is POP.
  have operation : machine.instruction.operation = .pop .psw := operation_of_opcode here
  rw [execute_of_operation operation (by decide)]
  rfl

/-- The status word is on the stack after PUSH PSW, even if an interrupt comes right then. -/
theorem readWord_next_of_push (here : machine.opcode = 0xF5) :
    machine.next.memory.readWord (machine.registers.sp - 2) = machine.registers.psw := by
  have runs : ¬ machine.Halts := runs_of_opcode here (by decide)
  -- The stack pointer of the served machine is the one that the push has left.
  have served := (machine.execute machine.instruction).1.readWord_service
  rw [next_of_runs machine runs]
  rw [execute_push here] at served ⊢
  exact served.trans (Memory.readWord_writeWord _ _ _)

/-- After POP PSW both halves of the word that was on top are in their places. -/
theorem psw_next_of_pop (here : machine.opcode = 0xF1) :
    machine.next.registers.a = highByte machine.store.top ∧
      machine.next.registers.flags = .ofByte (lowByte machine.store.top) := by
  have runs : ¬ machine.Halts := runs_of_opcode here (by decide)
  -- A request pushes the program counter, which leaves A and the flags.
  rw [next_of_runs machine runs, accumulator_service, flags_service, execute_pop here]
  exact ⟨rfl, rfl⟩

/-- PUSH PSW and POP PSW in a row leave all registers but the program counter. -/
theorem registers_push_pop (idle : machine.pending = none) (push : machine.opcode = 0xF5)
    (pop : machine.next.opcode = 0xF1) : machine.next.next.registers =
      { machine.registers with pc := machine.registers.pc + 2 } := by
  -- Neither of the two halts, and no request comes in between.
  have runs : ¬ machine.Halts := runs_of_opcode push (by decide)
  have runs' : ¬ machine.next.Halts := runs_of_opcode pop (by decide)
  have sp : machine.next.registers.sp = machine.registers.sp - 2 := by
    rw [next_of_idle machine runs idle, execute_push push]
    rfl
  have top : machine.next.store.top = machine.registers.psw :=
    (congrArg machine.next.memory.readWord sp).trans (readWord_next_of_push push)
  rw [next_of_idle _ runs' (pending_next_of_runs machine runs), execute_pop pop, popped, top,
    next_of_idle machine runs idle, execute_push push]
  have back : machine.registers.sp - 2 + 2 = machine.registers.sp := UInt16.sub_add_cancel _ _
  have along : machine.registers.pc + 1 + 1 = machine.registers.pc + 2 := UInt16.add_assoc _ 1 1
  -- The stack pointer is back where it was, and the word is the one that A and the flags make up.
  calc
    _ = { machine.registers with
          sp := machine.registers.sp - 2 + 2
          pc := machine.registers.pc + 1 + 1 : Registers }.setPsw machine.registers.psw := rfl
    _ = _ := by
      rw [back, along]
      exact Registers.setPsw_psw { machine.registers with pc := machine.registers.pc + 2 }

/-- What becomes of the flags of a machine, whose run has made these edits of them. -/
structure KeepsStatus (machine : Machine δ) (edits : List Edit) : Prop where
  /-- The stored byte is what the edits have made of zero. -/
  stored : machine.registers.flags.toByte = edits.foldl Edit.apply 0
  /-- They have not set a bit beside those of S, Z, AC, P and CY. -/
  unset : edits.foldl Edit.apply 0 &&& ~~~flagBits = 0
  /-- PUSH PSW writes the byte below A, with bit 1 set and bits 3 and 5 clear. -/
  pushed : machine.opcode = 0xF5 →
    machine.next.memory.read (machine.registers.sp - 1) = machine.registers.a ∧
      machine.next.memory.read (machine.registers.sp - 2) =
        machine.registers.flags.toByte ||| 0x02 ∧
      machine.next.memory.read (machine.registers.sp - 2) &&& 0x2A = 0x02
  /-- POP PSW takes any two bytes, but of the lower one only the flags. -/
  popped : machine.opcode = 0xF1 →
    machine.next.registers.a = machine.memory.read (machine.registers.sp + 1) ∧
      machine.next.registers.flags.toByte =
        machine.memory.read machine.registers.sp &&& flagBits
  /-- Whenever POP PSW finds the word that PUSH PSW wrote, A and the flags are as they were. -/
  restored : machine.opcode = 0xF5 → ∀ later : Machine δ, later.opcode = 0xF1 →
    later.store.top = machine.next.memory.readWord (machine.registers.sp - 2) →
      later.next.registers.a = machine.registers.a ∧
        later.next.registers.flags = machine.registers.flags
  /-- Both in a row leave all registers but the program counter. -/
  undone : machine.pending = none → machine.opcode = 0xF5 → machine.next.opcode = 0xF1 →
    machine.next.next.registers = { machine.registers with pc := machine.registers.pc + 2 }

/--
Whatever a host does to a fresh machine, only bits of flags are ever stored.

So a pushed status word has its fixed bits, and it gives A and the flags back.
-/
theorem keepsStatus (bus : Bus δ) (entry : UInt16) (actions : List (Action δ)) :
    ((start bus entry).after actions).KeepsStatus
      (((start bus entry).history actions).flatMap Step.edits) := by
  -- A fresh machine has no flag set, so that its edits start from zero.
  have fresh : (start bus entry).registers.flags = {} := rfl
  have clear : Flags.toByte {} = 0 := rfl
  have stored := (start bus entry).toByte_after actions
  rw [fresh, clear] at stored
  generalize (start bus entry).after actions = machine at stored ⊢
  generalize ((start bus entry).history actions).flatMap Step.edits = edits at stored ⊢
  have unset : edits.foldl Edit.apply 0 &&& ~~~flagBits = 0 := foldl_apply_unset rfl edits
  refine ⟨stored, unset, fun push => ?pushed, fun pop => ?popped,
    fun push later pop found => ?restored, registers_push_pop⟩
  case pushed =>
    -- Bit 1 is set on the way, and bits 3 and 5 are clear in the stored byte.
    have fixed : (machine.registers.flags.toByte ||| 0x02) &&& 0x2A = 0x02 := by
      rw [or_and_mask, stored, show (0x2A : UInt8) = ~~~flagBits from rfl, unset]
      rfl
    have word := readWord_next_of_push push
    have low := congrArg lowByte word
    have high := congrArg highByte word
    rw [Memory.readWord, lowByte_word, Registers.psw, lowByte_word] at low
    rw [Memory.readWord, highByte_word, Registers.psw, highByte_word, sub_two_add_one] at high
    rw [low]
    exact ⟨high, rfl, fixed⟩
  case popped =>
    obtain ⟨a, flags⟩ := psw_next_of_pop pop
    rw [a, flags, ← Edit.apply_load 0]
    exact ⟨highByte_word _ _, congrArg (· &&& flagBits) (lowByte_word _ _)⟩
  case restored =>
    -- The word found is the pushed one, and bit 1 of it is no flag.
    obtain ⟨a, flags⟩ := psw_next_of_pop pop
    rw [a, flags, found, readWord_next_of_push push, Registers.psw, highByte_word, lowByte_word]
    exact ⟨rfl, Flags.ofByte_statusByte _⟩

/-- A program that sets the carry, pushes the status word and pops it again. -/
def carryingBus : Bus Probe :=
  { memory := Memory.zero.load 0x0100 [0x37, 0xF5, 0xF1] }

/-- The pushed byte has the carry and bit 1, and the carry is there after the pop. -/
theorem carryingBus_keepsStatus :
    let machine := (start carryingBus 0x0100).after [.tick]
    machine.KeepsStatus [.put .carry true] ∧ machine.opcode = 0xF5 ∧
      machine.next.memory.read 0xFFFE = 0x03 ∧ machine.next.opcode = 0xF1 ∧
      machine.next.next.registers = { flags := { carry := true }, pc := 0x0103 } := by
  intro machine
  -- The first instruction sets the carry and nothing else.
  have code : (start carryingBus 0x0100).opcode = 0x37 := by
    simp [carryingBus, opcode, start, Memory.load, Memory.read_write]
  have runs : ¬ (start carryingBus 0x0100).Halts := runs_of_opcode code (by decide)
  have operation : (start carryingBus 0x0100).instruction.operation = .stc :=
    operation_of_opcode code
  have edits : ((start carryingBus 0x0100).history [.tick]).flatMap Step.edits =
      [.put .carry true] := by
    have first : (start carryingBus 0x0100).edits = [.put .carry true] := by
      rw [edits, if_neg runs, operation]
      rfl
    exact (List.append_nil _).trans first
  have kept : machine.KeepsStatus [.put .carry true] :=
    edits ▸ keepsStatus carryingBus 0x0100 [.tick]
  have moved : machine = { start carryingBus 0x0100 with
      registers := { flags := { carry := true }, pc := 0x0101 }
      cycles := 4 } := by
    refine (next_of_idle (start carryingBus 0x0100) runs rfl).trans ?_
    rw [execute_of_operation operation (by decide)]
    rfl
  clear_value machine
  -- The second one pushes the status word.
  have push : machine.opcode = 0xF5 := by
    rw [moved]
    simp [carryingBus, opcode, start, Memory.load, Memory.read_write]
  have runs' : ¬ machine.Halts := runs_of_opcode push (by decide)
  have idle : machine.pending = none := by rw [moved]; rfl
  have pop : machine.next.opcode = 0xF1 := by
    -- The stack is at the other end of memory.
    have apart : ¬ Within 0x0102 0xFFFE 2 := by decide
    have read : carryingBus.memory.read 0x0102 = 0xF1 := by
      simp [carryingBus, Memory.load, Memory.read_write]
    rw [next_of_idle machine runs' idle, execute_push push, moved]
    exact (Memory.read_writeWord _ _ apart).trans read
  have low := (kept.pushed push).2.1
  have undone := kept.undone idle push pop
  have registers : machine.registers = { flags := { carry := true }, pc := 0x0101 } := by
    rw [moved]
  rw [registers] at low undone
  exact ⟨kept, push, low, pop, undone⟩

end Machine

end Intel8080
