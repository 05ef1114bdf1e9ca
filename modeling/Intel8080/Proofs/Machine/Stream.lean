import Intel8080.Proofs.Machine.Code
import Mathlib.Algebra.Group.Nat.Defs

/-!
Streams of instructions in memory.

Instructions loaded one behind the other are fetched again in the same order, wherever they start.
-/

namespace Intel8080

/-- The operand of an instruction holds nothing beyond the bytes that its code takes. -/
def Instruction.Canonical (instruction : Instruction) : Prop :=
  instruction.operand.toNat < 256 ^ instruction.operation.width.count

instance (instruction : Instruction) : Decidable instruction.Canonical :=
  inferInstanceAs (Decidable (_ < _))

namespace Memory

/-- So many instructions in a row, each of them fetched where the one before it ends. -/
def walk (memory : Memory) (address : UInt16) : Nat → List Instruction
  | 0 => []
  | count + 1 =>
    let instruction := memory.fetch address
    instruction :: memory.walk (address + instruction.size) count

/-- What is loaded as one instruction, with other bytes behind it, is fetched as that one. -/
theorem fetch_load_encode (memory : Memory) {address : UInt16} {instruction : Instruction}
    {rest : List UInt8} (canonical : instruction.Canonical)
    (fits : (instruction.encode ++ rest).length ≤ 65536) :
    (memory.load address (instruction.encode ++ rest)).fetch address = instruction := by
  -- The code comes first, and the operand bytes follow it.
  have first : (memory.load address (instruction.encode ++ rest)).read address =
      instruction.code := memory.read_load_start fits
  have behind : ∀ offset byte, (instruction.encode ++ rest)[offset]? = some byte →
      (memory.load address (instruction.encode ++ rest)).read (address + .ofNat offset) = byte :=
    fun offset _ => memory.read_load_offset fits offset
  -- What is read behind the code depends on how many operand bytes it takes.
  obtain ⟨code, operand⟩ := instruction
  generalize memory.load address _ = image at *
  simp only [Instruction.Canonical, Instruction.encode, Instruction.operandBytes,
    Instruction.operation, Instruction.byte] at canonical behind
  simp only [fetch, first]
  cases width : (Operation.ofCode code).width with
  | none =>
    -- Without operand bytes the operand is zero.
    rw [width] at canonical
    have absent : operand = 0 := UInt16.toNat_inj.mp (Nat.lt_one_iff.mp canonical)
    rw [absent]
  | byte =>
    -- A single byte is the whole operand.
    rw [width] at canonical behind
    have low : image.read (address + 1) = lowByte operand := behind 1 _ (by simp)
    have whole : (lowByte operand).toUInt16 = operand := by
      apply UInt16.toNat_inj.mp
      rw [UInt8.toNat_toUInt16, toNat_lowByte]
      exact Nat.mod_eq_of_lt canonical
    rw [low, whole]
  | word =>
    -- Two bytes are the low and the high half of it.
    rw [width] at behind
    have low : image.read (address + 1) = lowByte operand := behind 1 _ (by simp)
    have high : image.read (address + 1 + 1) = highByte operand := by
      rw [UInt16.add_assoc]
      exact behind 2 _ (by simp)
    rw [readWord, low, high, word_highByte_lowByte]

/--
Instructions loaded at an address are what a walk from there meets, in the same order.

They may run past the top of memory and may fill all of it, but not more.
-/
theorem walk_load (memory : Memory) (address : UInt16) {instructions : List Instruction}
    (canonical : ∀ instruction ∈ instructions, instruction.Canonical)
    (fits : (instructions.flatMap Instruction.encode).length ≤ 65536) :
    (memory.load address (instructions.flatMap Instruction.encode)).walk address
      instructions.length = instructions := by
  -- Each instruction is fetched with all the others already behind it.
  induction instructions generalizing memory address with
  | nil => rfl
  | cons instruction rest ih =>
    rw [List.forall_mem_cons] at canonical
    rw [List.flatMap_cons] at fits ⊢
    rw [List.length_cons, walk, fetch_load_encode memory canonical.1 fits]
    congr 1
    -- The others are loaded behind the first one, where the walk goes on.
    rw [load_append, instruction.length_encode, UInt16.ofNat_toNat]
    rw [List.length_append] at fits
    exact ih _ _ canonical.2 (by omega)

/-- Three instructions of every length, the last one under an undocumented code. -/
def mixedInstructions : List Instruction :=
  [⟨0x21, 0x1234⟩, ⟨0x3E, 0x56⟩, ⟨0x08, 0⟩]

/-- The operand of the first one runs past the top of memory when it is loaded just below. -/
theorem walk_load_mixedInstructions :
    (∀ instruction ∈ mixedInstructions, instruction.Canonical) ∧
      (mixedInstructions.flatMap Instruction.encode).length ≤ 65536 ∧
      (zero.load 0xFFFE (mixedInstructions.flatMap Instruction.encode)).walk 0xFFFE 3 =
        mixedInstructions := by
  -- Three instructions are few enough to be checked.
  have canonical : ∀ instruction ∈ mixedInstructions, instruction.Canonical := by decide
  have fits : (mixedInstructions.flatMap Instruction.encode).length ≤ 65536 := by decide
  exact ⟨canonical, fits, walk_load zero 0xFFFE canonical fits⟩

end Memory

end Intel8080
