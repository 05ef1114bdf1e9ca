import Intel8080.Bus

/-! The bus a CP/M program starts from: the program in memory and the traps below it. -/

namespace Intel8080.Cpm

/-- Where programs are placed and entered. -/
def programStart : UInt16 := 0x0100

/-- The address that programs call for system functions. -/
def systemEntry : UInt16 := 0x0005

/-- The port that the trap at address zero writes to. -/
def finishPort : Fin 8 := ⟨0, by decide⟩

/-- The port that the trap at the system entry writes to. -/
def consolePort : Fin 8 := ⟨1, by decide⟩

/-- The number of bytes from the program start to the top of memory. -/
def programCapacity : Nat := Memory.size - programStart.toNat

/-- Returning to address zero writes to the finish port. -/
def warmBootTrap : List UInt8 :=
  [Operation.output.code, UInt8.ofNat finishPort.val]

/-- A call of the system entry writes to the console port and returns. -/
def systemTrap : List UInt8 :=
  [Operation.output.code, UInt8.ofNat consolePort.val, Operation.ret.code]

/-- Why a program could not be loaded. -/
inductive LoadError
  /-- The program has more bytes than fit. -/
  | tooLarge (size : Nat)
  deriving DecidableEq, Inhabited, Repr

/-- The wording of a refused program. -/
def LoadError.message : LoadError → String
  | .tooLarge size =>
    s!"image is {size} bytes but only {programCapacity} fit above 0x" ++ Hex.ofWord programStart

/-- Fresh memory with a program and the two traps in it. -/
def image (program : List UInt8) : Memory :=
  ((Memory.zero.load programStart program).load 0 warmBootTrap).load systemEntry systemTrap

/-- A bus without devices that holds a program, provided the program fits. -/
def load {δ : Type} (program : List UInt8) : Except LoadError (Bus δ) :=
  if programCapacity < program.length then .error (.tooLarge program.length)
  else .ok { memory := image program }

end Intel8080.Cpm
