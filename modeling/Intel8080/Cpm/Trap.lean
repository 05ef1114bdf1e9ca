import Intel8080.Device

/-! The two devices behind the traps of a CP/M program. -/

namespace Intel8080.Cpm

/-- A trap device. -/
inductive Trap
  /-- Performs the console function that register C selects, and may show its text at once. -/
  | console (echo : Bool := false)
  /-- Ends the program. -/
  | finish
  deriving DecidableEq, Inhabited, Repr

/-- The text of bytes taken as characters U+0000 to U+00FF. -/
def textOfBytes (bytes : List UInt8) : String :=
  String.ofList (bytes.map Char.ofUInt8)

/-- Prints a text, which the terminal shows before that if it is to be echoed. -/
def emit (echo : Bool) (text : String) : List Event :=
  (if echo then [.echo text] else []) ++ [.text text]

/--
What a console call makes known.

Function 2 prints the character in E, and function 9 the bytes from DE up to a dollar sign; any
other function prints nothing.
-/
def consoleCall (echo : Bool) (registers : Registers) (memory : Memory) : List Event :=
  match registers.c with
  | 2 => emit echo (textOfBytes [registers.e])
  | 9 => emit echo (textOfBytes (memory.sliceUntil '$'.toUInt8 registers.de))
  | function => [.message (.unknownFunction function)]

instance : Device Trap where
  write
    | .console echo, access =>
      (.console echo, consoleCall echo access.registers access.memory)
    | .finish, access => (.finish, [.message (.warmBoot access.registers.sp), .finished])

end Intel8080.Cpm
