import Intel8080.Operation.Matrix

/-! The documented code of each operation, and the codes that only repeat another one. -/

namespace Intel8080

/-- The three-bit field that names a location. -/
def Location.field : Location → UInt8
  | .b => 0 | .c => 1 | .d => 2 | .e => 3 | .h => 4 | .l => 5 | .m => 6 | .a => 7

/-- The two-bit field that names a pair. -/
def Pair.field : Pair → UInt8
  | .bc => 0 | .de => 1 | .hl => 2 | .sp => 3

/-- The two-bit field that names a pushed pair. -/
def StackPair.field : StackPair → UInt8
  | .bc => 0 | .de => 1 | .hl => 2 | .psw => 3

/-- The field that names a pointer. -/
def Pointer.field : Pointer → UInt8
  | .bc => 0 | .de => 1

/-- The three-bit field that names a condition. -/
def Condition.field : Condition → UInt8
  | .nz => 0 | .z => 1 | .nc => 2 | .c => 3 | .po => 4 | .pe => 5 | .p => 6 | .m => 7

/-- The three-bit field that names an accumulator operation. -/
def Arithmetic.field : Arithmetic → UInt8
  | .add => 0 | .adc => 1 | .sub => 2 | .sbb => 3 | .ana => 4 | .xra => 5 | .ora => 6 | .cmp => 7

/-- The field that names a rotation. -/
def Rotation.field : Rotation → UInt8
  | .rlc => 0 | .rrc => 1 | .ral => 2 | .rar => 3

/-- The code of the restart that a request on one of the eight lines injects. -/
def restartCode (line : Fin 8) : UInt8 :=
  0xC7 + 8 * UInt8.ofNat line.val

/-- The line in bits 3 to 5 of a code. -/
def lineField (code : UInt8) : Fin 8 :=
  ⟨code.toNat / 8 % 8, Nat.mod_lt _ (by decide)⟩

/-- Where the handler of a line starts. -/
def restartVector (line : Fin 8) : UInt16 :=
  8 * UInt16.ofNat line.val

namespace Operation

/-- The documented code of an operation; moving `m` to itself has none, and its place is HLT. -/
def code : Operation → UInt8
  | nop => 0x00
  | lxi pair => 0x01 + 16 * pair.field
  | stax pointer => 0x02 + 16 * pointer.field
  | ldax pointer => 0x0A + 16 * pointer.field
  | shld => 0x22
  | lhld => 0x2A
  | sta => 0x32
  | lda => 0x3A
  | inx pair => 0x03 + 16 * pair.field
  | dcx pair => 0x0B + 16 * pair.field
  | dad pair => 0x09 + 16 * pair.field
  | inr location => 0x04 + 8 * location.field
  | dcr location => 0x05 + 8 * location.field
  | mvi location => 0x06 + 8 * location.field
  | rotate rotation => 0x07 + 8 * rotation.field
  | daa => 0x27
  | cma => 0x2F
  | stc => 0x37
  | cmc => 0x3F
  | mov target source => 0x40 + 8 * target.field + source.field
  | hlt => 0x76
  | arithmetic function source => 0x80 + 8 * function.field + source.field
  | immediate function => 0xC6 + 8 * function.field
  | jump => 0xC3
  | jumpIf condition => 0xC2 + 8 * condition.field
  | call => 0xCD
  | callIf condition => 0xC4 + 8 * condition.field
  | ret => 0xC9
  | retIf condition => 0xC0 + 8 * condition.field
  | rst line => restartCode line
  | push pair => 0xC5 + 16 * pair.field
  | pop pair => 0xC1 + 16 * pair.field
  | xthl => 0xE3
  | xchg => 0xEB
  | sphl => 0xF9
  | pchl => 0xE9
  | output => 0xD3
  | input => 0xDB
  | ei => 0xFB
  | di => 0xF3

end Operation

/-- Whether a code is the documented one of its operation. -/
def isDocumented (code : UInt8) : Bool :=
  (Operation.ofCode code).code == code

/-- The documented code an undocumented one repeats. -/
def alias? (code : UInt8) : Option UInt8 :=
  if isDocumented code then none else some (Operation.ofCode code).code

/-- The line of a restart code. -/
def restart? (code : UInt8) : Option (Fin 8) :=
  match Operation.ofCode code with
  | .rst line => some line
  | _ => none

/-- A restart code names its own line. -/
@[simp] theorem restart?_restartCode (line : Fin 8) : restart? (restartCode line) = some line := by
  revert line
  decide

end Intel8080
