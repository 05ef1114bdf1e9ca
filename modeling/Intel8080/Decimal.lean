/-! Reading a decimal count of at most 64 bits. -/

namespace Intel8080.Decimal

/-- Why a text is not a count. -/
inductive ReadError
  /-- There is nothing to read. -/
  | empty
  /-- A character is not a decimal digit, or there is a sign alone. -/
  | invalidDigit
  /-- The value needs more than 64 bits. -/
  | tooLarge
  deriving DecidableEq, Inhabited, Repr

/-- The wording of a refused text. -/
def ReadError.message : ReadError → String
  | .empty => "cannot parse integer from empty string"
  | .invalidDigit => "invalid digit found in string"
  | .tooLarge => "number too large to fit in target type"

/-- The value of a decimal digit. -/
def digit? (char : Char) : Option Nat :=
  if '0' ≤ char ∧ char ≤ '9' then some (char.toNat - '0'.toNat) else none

/--
Reads digits after the value of those before them.

The first character that is no digit, or that takes the value past 64 bits, decides the error.
-/
def readDigits (value : Nat) : List Char → Except ReadError UInt64
  | [] => .ok (UInt64.ofNat value)
  | char :: rest =>
    match digit? char with
    | none => .error .invalidDigit
    | some digit =>
      let next := value * 10 + digit
      if next < UInt64.size then readDigits next rest else .error .tooLarge

/-- Reads a whole text: decimal digits, with one plus sign allowed in front of them. -/
def read : List Char → Except ReadError UInt64
  | [] => .error .empty
  | ['+'] => .error .invalidDigit
  | '+' :: digits => readDigits 0 digits
  | digits => readDigits 0 digits

end Intel8080.Decimal
