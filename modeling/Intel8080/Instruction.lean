import Intel8080.Memory
import Intel8080.Operation.Mnemonic
import Intel8080.Hex

/-! One instruction as it stands in memory: fetching, encoding and listing it. -/

namespace Intel8080

/-- A code with its operand; a byte operand is the low half of the stored word. -/
structure Instruction where
  code : UInt8
  operand : UInt16
  deriving DecidableEq, Inhabited, Repr

namespace Instruction

/-- What the code does. -/
def operation (instruction : Instruction) : Operation :=
  .ofCode instruction.code

/-- The operand of an operation that takes one byte. -/
def byte (instruction : Instruction) : UInt8 :=
  lowByte instruction.operand

/-- The number of bytes the instruction occupies. -/
def size (instruction : Instruction) : UInt16 :=
  1 + UInt16.ofNat instruction.operation.width.count

/-- The operand bytes that belong to the instruction, low byte first. -/
def operandBytes (instruction : Instruction) : List UInt8 :=
  match instruction.operation.width with
  | .none => []
  | .byte => [instruction.byte]
  | .word => [lowByte instruction.operand, highByte instruction.operand]

/-- The instruction as it stands in memory. -/
def encode (instruction : Instruction) : List UInt8 :=
  instruction.code :: instruction.operandBytes

/-- The name of the code; a star marks an undocumented one. -/
def mnemonic (instruction : Instruction) : String :=
  codeName instruction.code

/-- The bytes of the instruction as digits, each one but the first after a blank. -/
def byteColumns (instruction : Instruction) : List Char :=
  Hex.byteDigits instruction.code ++
    instruction.operandBytes.flatMap fun byte => ' ' :: Hex.byteDigits byte

/-- The operand as it follows the mnemonic: digits with an `h` behind them. -/
def operandDigits (instruction : Instruction) : List Char :=
  match instruction.operation.width with
  | .none => []
  | .byte => Hex.byteDigits instruction.byte ++ ['h']
  | .word => Hex.wordDigits instruction.operand ++ ['h']

/-- A mnemonic that already names an operand takes a comma before the next one. -/
def operandSeparator (instruction : Instruction) : List Char :=
  match instruction.operation.width with
  | .none => []
  | _ => if ' ' ∈ instruction.mnemonic.toList then [','] else [' ']

/--
The listing line of the instruction at an address.

The address starts at column 0, the bytes at column 6 and the mnemonic at column 16.
-/
def listing (instruction : Instruction) (address : UInt16) : List Char :=
  Hex.wordDigits address ++ [' ', ' '] ++
    instruction.byteColumns.rightpad 10 ' ' ++
    instruction.mnemonic.toList ++ instruction.operandSeparator ++ instruction.operandDigits

/-- The encoding is as long as the instruction's size says. -/
theorem length_encode (instruction : Instruction) :
    instruction.encode.length = instruction.size.toNat := by
  -- The width of the operand fixes both.
  unfold encode operandBytes size
  cases instruction.operation.width <;> rfl

end Instruction

/-- Reads the code at an address and as many operand bytes as it takes; others count as zero. -/
def Memory.fetch (memory : Memory) (address : UInt16) : Instruction :=
  let code := memory.read address
  match (Operation.ofCode code).width with
  | .none => ⟨code, 0⟩
  | .byte => ⟨code, (memory.read (address + 1)).toUInt16⟩
  | .word => ⟨code, memory.readWord (address + 1)⟩

end Intel8080
