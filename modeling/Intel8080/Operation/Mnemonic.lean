import Intel8080.Operation.Code

/-! The assembler names of operations and of their operands. -/

namespace Intel8080

/-- The letter of a location. -/
def Location.name : Location → String
  | .b => "B" | .c => "C" | .d => "D" | .e => "E" | .h => "H" | .l => "L" | .m => "M" | .a => "A"

/-- A pair is named by its first register. -/
def Pair.name : Pair → String
  | .bc => "B" | .de => "D" | .hl => "H" | .sp => "SP"

/-- A pushed pair is named by its first register, or as the status word. -/
def StackPair.name : StackPair → String
  | .bc => "B" | .de => "D" | .hl => "H" | .psw => "PSW"

/-- A pointer is named by its first register. -/
def Pointer.name : Pointer → String
  | .bc => "B" | .de => "D"

/-- The letters of a condition, which follow the J, C or R of a branch. -/
def Condition.name : Condition → String
  | .nz => "NZ" | .z => "Z" | .nc => "NC" | .c => "C"
  | .po => "PO" | .pe => "PE" | .p => "P" | .m => "M"

/-- The name of an accumulator operation on a register or on memory. -/
def Arithmetic.name : Arithmetic → String
  | .add => "ADD" | .adc => "ADC" | .sub => "SUB" | .sbb => "SBB"
  | .ana => "ANA" | .xra => "XRA" | .ora => "ORA" | .cmp => "CMP"

/-- The name of an accumulator operation on the byte after the code. -/
def Arithmetic.immediateName : Arithmetic → String
  | .add => "ADI" | .adc => "ACI" | .sub => "SUI" | .sbb => "SBI"
  | .ana => "ANI" | .xra => "XRI" | .ora => "ORI" | .cmp => "CPI"

/-- The name of a rotation. -/
def Rotation.name : Rotation → String
  | .rlc => "RLC" | .rrc => "RRC" | .ral => "RAL" | .rar => "RAR"

namespace Operation

/-- The name of an operation with the operands that its code fixes. -/
def mnemonic : Operation → String
  | nop => "NOP"
  | lxi pair => "LXI " ++ pair.name
  | stax pointer => "STAX " ++ pointer.name
  | ldax pointer => "LDAX " ++ pointer.name
  | shld => "SHLD"
  | lhld => "LHLD"
  | sta => "STA"
  | lda => "LDA"
  | inx pair => "INX " ++ pair.name
  | dcx pair => "DCX " ++ pair.name
  | dad pair => "DAD " ++ pair.name
  | inr location => "INR " ++ location.name
  | dcr location => "DCR " ++ location.name
  | mvi location => "MVI " ++ location.name
  | rotate rotation => rotation.name
  | daa => "DAA"
  | cma => "CMA"
  | stc => "STC"
  | cmc => "CMC"
  | mov target source => "MOV " ++ target.name ++ "," ++ source.name
  | hlt => "HLT"
  | arithmetic function source => function.name ++ " " ++ source.name
  | immediate function => function.immediateName
  | jump => "JMP"
  | jumpIf condition => "J" ++ condition.name
  | call => "CALL"
  | callIf condition => "C" ++ condition.name
  | ret => "RET"
  | retIf condition => "R" ++ condition.name
  | rst line => "RST " ++ String.singleton (Nat.digitChar line.val)
  | push pair => "PUSH " ++ pair.name
  | pop pair => "POP " ++ pair.name
  | xthl => "XTHL"
  | xchg => "XCHG"
  | sphl => "SPHL"
  | pchl => "PCHL"
  | output => "OUT"
  | input => "IN"
  | ei => "EI"
  | di => "DI"

end Operation

/-- The name a listing gives to a code: a star marks the undocumented ones. -/
def codeName (code : UInt8) : String :=
  let mnemonic := (Operation.ofCode code).mnemonic
  if isDocumented code then mnemonic else "*" ++ mnemonic

end Intel8080
