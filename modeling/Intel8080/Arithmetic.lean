import Intel8080.Flags
import Intel8080.Operation

/-! Results and flags of the arithmetic, logic and rotation operations. -/

namespace Intel8080

/-- Adds two bytes and a carry; every flag follows from the sum. -/
def addWithCarry (left right : UInt8) (carryIn : Bool) : UInt8 × Flags :=
  let sum := left.toUInt16 + right.toUInt16 + carryIn.toUInt16
  let result := sum.toUInt8
  -- Bit four is the exclusive or of both operands and of what the low digits carried into it.
  let auxCarry := (left ^^^ right ^^^ result) &&& 0x10 != 0
  let flags : Flags := { auxCarry := auxCarry, carry := sum > 0xFF }
  (result, flags.withResult result)

/--
Subtracts a byte and a borrow by adding the complement, with the carry turned into a borrow.

The auxiliary carry is that of the addition, so it is set when the low digit needs no borrow.
-/
def subtractWithBorrow (left right : UInt8) (borrow : Bool) : UInt8 × Flags :=
  let (difference, flags) := addWithCarry left (~~~right) (!borrow)
  (difference, { flags with carry := !flags.carry })

/-- The flags of a logic operation, which always clears the carry. -/
def logicFlags (result : UInt8) (auxCarry : Bool) : Flags :=
  { auxCarry := auxCarry : Flags }.withResult result

/-- The accumulator and the flags after an operation on the accumulator and one operand. -/
def Arithmetic.apply (flags : Flags) (accumulator operand : UInt8) : Arithmetic → UInt8 × Flags
  | .add => addWithCarry accumulator operand false
  | .adc => addWithCarry accumulator operand flags.carry
  | .sub => subtractWithBorrow accumulator operand false
  | .sbb => subtractWithBorrow accumulator operand flags.carry
  | .ana =>
    let result := accumulator &&& operand
    -- The auxiliary carry of an AND is bit three of either operand.
    (result, logicFlags result ((accumulator ||| operand) &&& 0x08 != 0))
  | .xra => (accumulator ^^^ operand, logicFlags (accumulator ^^^ operand) false)
  | .ora => (accumulator ||| operand, logicFlags (accumulator ||| operand) false)
  | .cmp => (accumulator, (subtractWithBorrow accumulator operand false).2)

/-- Adds one and keeps the carry; the auxiliary carry says that the low digit wrapped to zero. -/
def increment (flags : Flags) (value : UInt8) : UInt8 × Flags :=
  let result := value + 1
  (result, { flags with auxCarry := result &&& 0x0F == 0 }.withResult result)

/-- Takes away one and keeps the carry; the auxiliary carry is clear when the low digit wrapped. -/
def decrement (flags : Flags) (value : UInt8) : UInt8 × Flags :=
  let result := value - 1
  (result, { flags with auxCarry := result &&& 0x0F != 0x0F }.withResult result)

/--
What has to be added to the sum of two packed decimal bytes, and whether it leaves a carry.

A digit above nine, or one that carried, is corrected by six; the carry is only ever raised.
-/
def decimalCorrection (flags : Flags) (accumulator : UInt8) : UInt8 × Bool :=
  let low := accumulator &&& 0x0F
  let high := accumulator >>> 4
  let adjustLow := flags.auxCarry || low > 9
  -- A high nine is pushed over by the carry out of the low digit.
  let adjustHigh := flags.carry || high > 9 || (high ≥ 9 && low > 9)
  ((if adjustLow then 0x06 else 0) + (if adjustHigh then 0x60 else 0), adjustHigh)

/--
Turns the sum of two packed decimal bytes back into packed decimal.

The addition of the correction sets every flag, and the carry is then replaced.
-/
def decimalAdjust (flags : Flags) (accumulator : UInt8) : UInt8 × Flags :=
  let (correction, carry) := decimalCorrection flags accumulator
  let (result, sumFlags) := addWithCarry accumulator correction false
  (result, { sumFlags with carry := carry })

/-- Adds two words and tells whether the sum wrapped. -/
def addWords (left right : UInt16) : UInt16 × Bool :=
  (left + right, left + right < left)

/-- The rotated byte and the bit that left it, which becomes the carry. -/
def Rotation.apply (carry : Bool) (value : UInt8) : Rotation → UInt8 × Bool
  | .rlc => ((value <<< 1) ||| (value >>> 7), value &&& 0x80 != 0)
  | .rrc => ((value >>> 1) ||| (value <<< 7), value &&& 0x01 != 0)
  | .ral => ((value <<< 1) ||| carry.toUInt8, value &&& 0x80 != 0)
  | .rar => ((value >>> 1) ||| (carry.toUInt8 <<< 7), value &&& 0x01 != 0)

end Intel8080
