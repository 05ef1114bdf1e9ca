import Intel8080.Word

/-! Upper-case hexadecimal text of fixed width. -/

namespace Intel8080.Hex

/-- The digit for a value below sixteen. -/
def digit (value : Nat) : Char :=
  if value < 10 then Char.ofNat ('0'.toNat + value) else Char.ofNat ('A'.toNat + (value - 10))

/-- The value of an upper-case digit. -/
def value? (char : Char) : Option Nat :=
  if '0' ≤ char ∧ char ≤ '9' then some (char.toNat - '0'.toNat)
  else if 'A' ≤ char ∧ char ≤ 'F' then some (char.toNat - 'A'.toNat + 10)
  else none

/-- A byte as two digits. -/
def byteDigits (value : UInt8) : List Char :=
  [digit (value.toNat / 16), digit (value.toNat % 16)]

/-- A word as four digits. -/
def wordDigits (value : UInt16) : List Char :=
  byteDigits (highByte value) ++ byteDigits (lowByte value)

/-- A byte as text of two digits. -/
def ofByte (value : UInt8) : String :=
  String.ofList (byteDigits value)

/-- A word as text of four digits. -/
def ofWord (value : UInt16) : String :=
  String.ofList (wordDigits value)

/-- A digit has the value it was written for. -/
theorem value?_digit (value : Nat) (bound : value < 16) : value? (digit value) = some value := by
  -- Sixteen cases are checked one by one.
  have all : ∀ small : Fin 16, value? (digit small.val) = some small.val := by decide
  exact all ⟨value, bound⟩

/-- A byte is always two digits wide. -/
@[simp] theorem length_byteDigits (value : UInt8) : (byteDigits value).length = 2 := rfl

end Intel8080.Hex
