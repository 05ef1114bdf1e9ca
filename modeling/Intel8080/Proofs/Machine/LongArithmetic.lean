import Intel8080.Device.Probe
import Intel8080.Proofs.Arithmetic.Binary
import Intel8080.Proofs.Machine.Arithmetic
import Intel8080.Proofs.Machine.Code

/-!
Sums and differences of any length in programs.

A program combines one pair of bytes after the other. Between those instructions it can execute
whatever leaves the carry, which is how it loads the bytes, stores the results and counts.
-/

namespace Intel8080

/-- Whether an operation can change the carry: INR and DCR set flags, but not this one. -/
def Operation.setsCarry : Operation → Bool
  | inr _ | dcr _ => false
  | operation => operation.setsFlags

/-- Every other operation leaves the carry. -/
theorem Operation.carry_transform (operand : UInt16) (store : Store) {operation : Operation}
    (keeps : operation.setsCarry = false) :
    (operation.transform operand store).registers.flags.carry = store.registers.flags.carry := by
  cases operation
  case inr location | dcr location =>
    -- Counting replaces the flags by some with the same carry, and then writes a location.
    exact congrArg (·.carry) (Store.flags_set _ location _)
  all_goals
    refine congrArg (·.carry) (flags_transform operand store ?_)
    exact keeps

namespace Machine

section Program

variable {δ : Type} [Device δ]

omit [Device δ] in
/-- The operation at the program counter does not change the carry. -/
def LeavesCarry (machine : Machine δ) : Prop :=
  machine.instruction.operation.setsCarry = false

/-- Nor does the tick change what is in A. -/
def LeavesBoth (machine : Machine δ) : Prop :=
  machine.LeavesCarry ∧ machine.next.registers.a = machine.registers.a

omit [Device δ] in
/-- What the operation at the program counter combines A with, and how, if it does. -/
def combination? (machine : Machine δ) : Option (Arithmetic × UInt8) :=
  match machine.instruction.operation with
  | .arithmetic function source => some (function, machine.store.get source)
  | .immediate function => some (function, machine.instruction.byte)
  | _ => none

/-- Ticks lead from one machine to another, and each of them starts where it is allowed. -/
inductive Along (Allowed : Machine δ → Prop) : Machine δ → Machine δ → Prop
  | here (machine : Machine δ) : Along Allowed machine machine
  | tick {machine last : Machine δ} (allowed : Allowed machine)
    (rest : Along Allowed machine.next last) : Along Allowed machine last

/--
One pair of bytes is combined.

A is loaded with the left one and keeps it until it is combined with the right one. Then it keeps
the result until that is taken from it.
-/
inductive CombinesByte (function : Arithmetic) (left right result : UInt8) :
    Machine δ → Machine δ → Prop
  | intro {first loaded used last : Machine δ} (before : Along LeavesCarry first loaded)
    (load : loaded.registers.a = left) (held : Along LeavesBoth loaded used)
    (use : used.combination? = some (function, right)) (kept : Along LeavesBoth used.next last)
    (take : last.registers.a = result) : CombinesByte function left right result first last

/-- The bytes of two numbers are combined in turn, and only that changes the carry. -/
inductive CombinesBytes (function : Arithmetic) :
    (left right results : List UInt8) → Machine δ → Machine δ → Prop
  | nil {first last : Machine δ} (rest : Along LeavesCarry first last) :
    CombinesBytes function [] [] [] first last
  | cons {left right result : UInt8} {lefts rights results : List UInt8}
    {first middle last : Machine δ} (byte : CombinesByte function left right result first middle)
    (rest : CombinesBytes function lefts rights results middle last) :
    CombinesBytes function (left :: lefts) (right :: rights) (result :: results) first last

/-- What every tick keeps is the same at the end as at the beginning. -/
theorem Along.keeps {Allowed : Machine δ → Prop} {α : Type} (view : Machine δ → α)
    (kept : ∀ machine, Allowed machine → view machine.next = view machine)
    {first last : Machine δ} (along : Along Allowed first last) : view last = view first := by
  -- By induction on the ticks, each of which keeps it.
  induction along with
  | here => rfl
  | tick allowed _ ih => exact ih.trans (kept _ allowed)

/-- A tick that is known to lead to a machine can be put in front of what starts there. -/
theorem Along.of_next {Allowed : Machine δ → Prop} {machine after last : Machine δ}
    (moved : machine.next = after) (allowed : Allowed machine) (rest : Along Allowed after last) :
    Along Allowed machine last :=
  .tick allowed (moved ▸ rest)

omit [Device δ] in
/-- The operation that memory holds at the program counter is the one that leaves the carry. -/
theorem leavesCarry_of_holds {machine : Machine δ} {operation : Operation}
    {rest : List Operation} (holds : machine.Holds (operation :: rest))
    (keeps : operation.setsCarry = false) : machine.LeavesCarry :=
  (congrArg Operation.setsCarry (operation_of_holds holds)).trans keeps

/-- A tick changes the carry only by an operation that can. -/
theorem carry_next {machine : Machine δ} (leaves : machine.LeavesCarry) :
    machine.next.registers.flags.carry = machine.registers.flags.carry := by
  -- Halting leaves all registers, and an interrupt after the instruction leaves the flags.
  by_cases halts : machine.Halts
  · rw [next_of_halts machine halts]
  · have same : machine.instruction.operation.setsCarry = false := leaves
    rw [next_of_runs machine halts, flags_service, execute]
    -- Ports and the interrupt switch have no access to the flags.
    split
    case h_5 => exact Operation.carry_transform _ _ same
    all_goals rfl

omit [Device δ] in
/-- The operations that combine A with something do not halt. -/
theorem runs_of_combination {machine : Machine δ} {function : Arithmetic} {operand : UInt8}
    (combines : machine.combination? = some (function, operand)) : ¬ machine.Halts := by
  -- They set flags, and so are neither HLT nor under an undocumented code.
  have sets : machine.instruction.operation.setsFlags = true := by
    unfold combination? at combines
    split at combines
    case h_1 named | h_2 named => rw [named]; rfl
    case h_3 => cases combines
  rw [operation_instruction] at sets
  refine runs_of_setsFlags (Decidable.byContradiction fun keeps => ?_)
  rw [BitFields.setsFlags_operation keeps] at sets
  cases sets

/-- They leave the result and the flags of the combination, whether or not a request is served. -/
theorem next_of_combination {machine : Machine δ} {function : Arithmetic} {operand : UInt8}
    (combines : machine.combination? = some (function, operand)) :
    let combined := function.apply machine.registers.flags machine.registers.a operand
    machine.next.registers.a = combined.1 ∧ machine.next.registers.flags = combined.2 := by
  -- It executes that operation, and a request after it leaves A and the flags.
  have runs := runs_of_combination combines
  rw [next_of_runs machine runs, accumulator_service, flags_service]
  unfold combination? at combines
  split at combines
  case h_1 source named =>
    obtain ⟨rfl, rfl⟩ := Prod.mk.inj (Option.some.inj combines)
    rw [execute_internal _ _ (by simp [named, Operation.Internal]), named]
    -- The operand does not depend on the program counter.
    cases source <;> exact ⟨rfl, rfl⟩
  case h_2 named =>
    obtain ⟨rfl, rfl⟩ := Prod.mk.inj (Option.some.inj combines)
    rw [execute_internal _ _ (by simp [named, Operation.Internal]), named]
    exact ⟨rfl, rfl⟩
  case h_3 => cases combines

/-- Ticks that leave the carry lead to a machine with the same one. -/
theorem Along.carry {first last : Machine δ} (along : Along LeavesCarry first last) :
    last.registers.flags.carry = first.registers.flags.carry :=
  along.keeps (·.registers.flags.carry) fun _ => carry_next

/-- Ticks that leave A as well lead to one with the same byte in it. -/
theorem Along.both {first last : Machine δ} (along : Along LeavesBoth first last) :
    last.registers.a = first.registers.a ∧
      last.registers.flags.carry = first.registers.flags.carry :=
  ⟨along.keeps (·.registers.a) fun _ leaves => leaves.2,
    along.keeps (·.registers.flags.carry) fun _ leaves => carry_next leaves.1⟩

/-- A combined pair leaves what the function makes of it and of the carry before. -/
theorem CombinesByte.apply {function : Arithmetic} {left right result : UInt8}
    {first last : Machine δ} (byte : CombinesByte function left right result first last) :
    let combined := function.apply { carry := first.registers.flags.carry } left right
    result = combined.1 ∧ last.registers.flags.carry = combined.2.carry := by
  -- The byte is followed through the four parts of its way.
  obtain ⟨before, load, held, use, kept, take⟩ := byte
  obtain ⟨byte, carry⟩ := held.both
  obtain ⟨byteAfter, carryAfter⟩ := kept.both
  -- When A is used, it holds the loaded byte and the carry is still the first one.
  have combined := next_of_combination use
  rw [Arithmetic.apply_carry, carry, before.carry, byte, load] at combined
  obtain ⟨value, flags⟩ := combined
  exact ⟨take.symm.trans (byteAfter.trans value),
    carryAfter.trans (congrArg Flags.carry flags)⟩

/-- A run of combined pairs leaves what the function makes of the numbers and of the first carry. -/
theorem CombinesBytes.applyBytes {function : Arithmetic} {left right results : List UInt8}
    {first last : Machine δ} (bytes : CombinesBytes function left right results first last) :
    left.length = right.length ∧
      function.applyBytes first.registers.flags.carry left right =
        (results, last.registers.flags.carry) := by
  -- By induction on the pairs, the carry of each being where the next one begins.
  induction bytes with
  | nil rest => exact ⟨rfl, congrArg (Prod.mk []) rest.carry.symm⟩
  | cons byte _ ih =>
    -- The other pairs begin with the carry of the first one.
    obtain ⟨result, carry⟩ := byte.apply
    obtain ⟨same, rest⟩ := ih
    rw [carry] at rest
    refine ⟨congrArg Nat.succ same, ?_⟩
    simp only [Arithmetic.applyBytes, rest, ← result]

/--
ADC and SBB add and subtract numbers of any length.

They do so when the bytes are combined one after the other, and also in every program that executes
other instructions in between, as long as those leave the carry, and leave A where it is in use.
-/
theorem combines_exactly :
    (∀ (store : Store) (left right : List UInt8), left.length = right.length →
      let sum := store.combineBytes .adc left right
      let difference := store.combineBytes .sbb left right
      IsSum left right sum.1 store.registers.flags.carry sum.2.registers.flags.carry ∧
        IsDifference left right difference.1 store.registers.flags.carry
          difference.2.registers.flags.carry) ∧
      ∀ (first last : Machine δ) (left right results : List UInt8),
        (CombinesBytes .adc left right results first last →
          IsSum left right results first.registers.flags.carry last.registers.flags.carry) ∧
        (CombinesBytes .sbb left right results first last →
          IsDifference left right results first.registers.flags.carry
            last.registers.flags.carry) := by
  refine ⟨fun store left right same => ?_, fun first last left right results => ⟨?_, ?_⟩⟩
  · -- The bytes that a store combines in a row are those of the two functions.
    obtain ⟨sums, carry⟩ := store.combineBytes_eq .adc left right
    obtain ⟨differences, borrow⟩ := store.combineBytes_eq .sbb left right
    dsimp only
    rw [sums, carry, differences, borrow]
    exact ⟨isSum_applyBytes _ same, isDifference_applyBytes _ same⟩
  · -- A program combines the same bytes, whatever else it does.
    intro bytes
    obtain ⟨same, combined⟩ := bytes.applyBytes
    have sum := isSum_applyBytes first.registers.flags.carry same
    rwa [combined] at sum
  · intro bytes
    obtain ⟨same, combined⟩ := bytes.applyBytes
    have difference := isDifference_applyBytes first.registers.flags.carry same
    rwa [combined] at difference

end Program

/-- Code that adds C to B and then E to D, and counts in L in between. -/
def addingCode : List Instruction :=
  [⟨0x78, 0⟩, ⟨0x89, 0⟩, ⟨0x2D, 0⟩, ⟨0x47, 0⟩, ⟨0x7A, 0⟩, ⟨0x8B, 0⟩]

/-- A machine with that code at 0100. -/
def addingMachine (registers : Registers) (cycles : UInt64) : Machine Probe :=
  { toProcessor := { registers := registers, cycles := cycles }
    toBus := { memory := Memory.zero.load 0x0100 (addingCode.flatMap Instruction.encode) } }

/-- That machine with the carry set, 12FF in D and B, and 3401 in E and C. -/
def addingStart : Machine Probe :=
  addingMachine
    { flags := { carry := true }, b := 0xFF, c := 0x01, d := 0x12, e := 0x34, l := 0x01
      pc := 0x0100 } 0

/-- The first low byte is in A. -/
def addingLow : Machine Probe :=
  addingMachine { addingStart.registers with a := 0xFF, pc := 0x0101 } 5

/-- The flags of the low sum. -/
def lowSumFlags : Flags :=
  { auxCarry := true, carry := true }

/-- The low sum is in A. -/
def addingLowSum : Machine Probe :=
  addingMachine { addingLow.registers with a := 0x01, flags := lowSumFlags, pc := 0x0102 } 9

/-- The flags of the count, which leaves the carry. -/
def countFlags : Flags :=
  { zero := true, auxCarry := true, parity := true, carry := true }

/-- The count has come to zero. -/
def addingCounted : Machine Probe :=
  addingMachine { addingLowSum.registers with l := 0x00, flags := countFlags, pc := 0x0103 } 14

/-- The low sum is in B. -/
def addingStored : Machine Probe :=
  addingMachine { addingCounted.registers with b := 0x01, pc := 0x0104 } 19

/-- The first high byte is in A. -/
def addingHigh : Machine Probe :=
  addingMachine { addingStored.registers with a := 0x12, pc := 0x0105 } 24

/-- The low bytes carry into the high ones past a count that sets every other flag anew. -/
theorem addingMachine_combines_exactly :
    ∃ last : Machine Probe,
      let first := addingMachine
        { flags := { carry := true }, b := 0xFF, c := 0x01, d := 0x12, e := 0x34, l := 0x01
          pc := 0x0100 } 0
      CombinesBytes .adc [0xFF, 0x12] [0x01, 0x34] [0x01, 0x47] first last ∧
        IsSum [0xFF, 0x12] [0x01, 0x34] [0x01, 0x47] true last.registers.flags.carry := by
  have holds : addingStart.Holds [.mov .a .b, .arithmetic .adc .c, .dcr .l, .mov .b .a,
      .mov .a .d, .arithmetic .adc .e] :=
    Memory.holds_load _ (fun _ _ fault => absurd fault (by decide)) (by decide)
  -- The code stays in memory, so each machine on the way holds the rest of it.
  have holdsLow : addingLow.Holds _ := holds.2
  have holdsLowSum : addingLowSum.Holds _ := holdsLow.2
  have holdsCounted : addingCounted.Holds _ := holdsLowSum.2
  have holdsStored : addingStored.Holds _ := holdsCounted.2
  have holdsHigh : addingHigh.Holds _ := holdsStored.2
  -- Each instruction leads to the next machine.
  have load : addingStart.next = addingLow :=
    (next_of_internal rfl holds (by decide) (by decide)).elim fun _ => id
  have sum : addingLow.next = addingLowSum := by
    obtain ⟨_, moved⟩ := next_of_internal rfl holdsLow (by decide) (by decide)
    have result : Arithmetic.adc.apply
        (addingLow.past (.arithmetic .adc .c)).store.registers.flags
        (addingLow.past (.arithmetic .adc .c)).store.registers.a
        ((addingLow.past (.arithmetic .adc .c)).store.get .c) = (0x01, lowSumFlags) := by
      decide
    rw [moved, Operation.transform, Store.accumulate, result]
    rfl
  have count : addingLowSum.next = addingCounted := by
    obtain ⟨_, moved⟩ := next_of_internal rfl holdsLowSum (by decide) (by decide)
    have result : decrement (addingLowSum.past (.dcr .l)).store.registers.flags
        ((addingLowSum.past (.dcr .l)).store.get .l) = (0x00, countFlags) := by
      decide
    rw [moved, Operation.transform, Store.modify, result]
    rfl
  have store : addingCounted.next = addingStored :=
    (next_of_internal rfl holdsCounted (by decide) (by decide)).elim fun _ => id
  have loadHigh : addingStored.next = addingHigh :=
    (next_of_internal rfl holdsStored (by decide) (by decide)).elim fun _ => id
  -- Both pairs are put together from these ticks.
  have low : CombinesByte .adc 0xFF 0x01 0x01 addingStart addingCounted := by
    have combines : addingLow.combination? = some (.adc, 0x01) := by
      rw [combination?, operation_of_holds holdsLow]
      rfl
    refine ⟨.of_next load (leavesCarry_of_holds holds rfl) (.here _), rfl, .here _, combines, ?_,
      rfl⟩
    -- The count lies between the first sum and its use.
    rw [sum]
    exact .of_next count ⟨leavesCarry_of_holds holdsLowSum rfl, congrArg (·.registers.a) count⟩
      (.here _)
  have high : CombinesByte .adc 0x12 0x34 0x47 addingCounted addingHigh.next := by
    have combines : addingHigh.combination? = some (.adc, 0x34) := by
      rw [combination?, operation_of_holds holdsHigh]
      rfl
    refine ⟨?_, rfl, .here _, combines, .here _, (next_of_combination combines).1⟩
    exact .of_next store (leavesCarry_of_holds holdsCounted rfl)
      (.of_next loadHigh (leavesCarry_of_holds holdsStored rfl) (.here _))
  have run : CombinesBytes .adc [0xFF, 0x12] [0x01, 0x34] [0x01, 0x47] addingStart
      addingHigh.next :=
    .cons low (.cons high (.nil (.here _)))
  exact ⟨_, run, (combines_exactly.2 addingStart addingHigh.next _ _ _).1 run⟩

end Machine

end Intel8080
