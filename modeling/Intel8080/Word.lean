/-! Sixteen-bit words as a high byte followed by a low byte. -/

namespace Intel8080

/-- The word whose more significant half is `high`. -/
def word (high low : UInt8) : UInt16 :=
  high.toUInt16 * 256 + low.toUInt16

/-- The more significant half of a word. -/
def highByte (value : UInt16) : UInt8 :=
  (value / 256).toUInt8

/-- The less significant half of a word. -/
def lowByte (value : UInt16) : UInt8 :=
  value.toUInt8

/-- A word reads as a two-digit number in base 256. -/
theorem toNat_word (high low : UInt8) : (word high low).toNat = 256 * high.toNat + low.toNat := by
  -- Two bytes never reach 2^16, so neither the product nor the sum wraps.
  have highBound := high.toNat_lt
  have lowBound := low.toNat_lt
  simp only [word, UInt16.toNat_add, UInt16.toNat_mul, UInt8.toNat_toUInt16, UInt16.reduceToNat]
  omega

/-- The high half is the quotient by 256. -/
theorem toNat_highByte (value : UInt16) : (highByte value).toNat = value.toNat / 256 := by
  -- The quotient of a sixteen-bit value already fits in a byte.
  have bound := value.toNat_lt
  simp only [highByte, UInt16.toNat_toUInt8, UInt16.toNat_div, UInt16.reduceToNat]
  omega

/-- The low half is the remainder by 256. -/
theorem toNat_lowByte (value : UInt16) : (lowByte value).toNat = value.toNat % 256 := by
  simp [lowByte]

/-- Joining two bytes keeps the high one. -/
@[simp] theorem highByte_word (high low : UInt8) : highByte (word high low) = high := by
  -- The low byte is below 256 and cannot disturb the quotient.
  have bound := low.toNat_lt
  apply UInt8.toNat_inj.mp
  rw [toNat_highByte, toNat_word]
  omega

/-- Joining two bytes keeps the low one. -/
@[simp] theorem lowByte_word (high low : UInt8) : lowByte (word high low) = low := by
  -- The high byte contributes a multiple of 256, which the remainder drops.
  have bound := low.toNat_lt
  apply UInt8.toNat_inj.mp
  rw [toNat_lowByte, toNat_word]
  omega

/-- Splitting a word and joining its halves gives it back. -/
@[simp] theorem word_highByte_lowByte (value : UInt16) :
    word (highByte value) (lowByte value) = value := by
  -- Quotient and remainder by 256 determine the value.
  apply UInt16.toNat_inj.mp
  rw [toNat_word, toNat_highByte, toNat_lowByte]
  omega

end Intel8080
