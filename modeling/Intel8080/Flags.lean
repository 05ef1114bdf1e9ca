/-! The five condition flags and their places in the status byte. -/

namespace Intel8080

/-- The condition flags an instruction can set and a branch can test. -/
structure Flags where
  sign : Bool := false
  zero : Bool := false
  auxCarry : Bool := false
  parity : Bool := false
  carry : Bool := false
  deriving DecidableEq, Inhabited, Repr

/-- Whether a byte has an even number of one bits. -/
def evenParity (value : UInt8) : Bool :=
  -- Folding the byte onto itself leaves the exclusive or of all eight bits in bit zero.
  let nibble := value ^^^ (value >>> 4)
  let pair := nibble ^^^ (nibble >>> 2)
  (pair ^^^ (pair >>> 1)) &&& 1 == 0

namespace Flags

/-- The stored flags as a byte: S in bit 7, Z in 6, AC in 4, P in 2 and CY in 0. -/
def toByte (flags : Flags) : UInt8 :=
  (if flags.sign then 0x80 else 0) ||| (if flags.zero then 0x40 else 0) |||
    (if flags.auxCarry then 0x10 else 0) ||| (if flags.parity then 0x04 else 0) |||
    (if flags.carry then 0x01 else 0)

/-- The status byte a push writes: the stored flags with bit 1 always set. -/
def statusByte (flags : Flags) : UInt8 :=
  flags.toByte ||| 0x02

/-- The flags read from a status byte, whose bits 1, 3 and 5 carry no information. -/
def ofByte (value : UInt8) : Flags where
  sign := value &&& 0x80 != 0
  zero := value &&& 0x40 != 0
  auxCarry := value &&& 0x10 != 0
  parity := value &&& 0x04 != 0
  carry := value &&& 0x01 != 0

/-- Sets the sign, zero and parity flags from an eight-bit result. -/
def withResult (flags : Flags) (result : UInt8) : Flags :=
  { flags with
    sign := result &&& 0x80 != 0
    zero := result == 0
    parity := evenParity result }

/-- Reading a written status byte restores every flag. -/
@[simp] theorem ofByte_statusByte (flags : Flags) : ofByte flags.statusByte = flags := by
  rcases flags with ⟨_ | _, _ | _, _ | _, _ | _, _ | _⟩ <;> rfl

/-- Reading the stored bits restores every flag. -/
@[simp] theorem ofByte_toByte (flags : Flags) : ofByte flags.toByte = flags := by
  rcases flags with ⟨_ | _, _ | _, _ | _, _ | _, _ | _⟩ <;> rfl

end Flags

end Intel8080
