import Intel8080.Flags
import Intel8080.Operation

/-! How many clock cycles each operation takes. -/

namespace Intel8080

/-- Whether a condition holds for the given flags. -/
def Condition.holds (flags : Flags) : Condition → Bool
  | .nz => !flags.zero
  | .z => flags.zero
  | .nc => !flags.carry
  | .c => flags.carry
  | .po => !flags.parity
  | .pe => flags.parity
  | .p => !flags.sign
  | .m => flags.sign

/-- The cycles a conditional call or return takes beyond its base when its condition holds. -/
def takenPenalty : UInt64 := 6

namespace Operation

/-- The cycles of an operation, a conditional call or return counted as not taken. -/
def cycles : Operation → UInt64
  | nop | rotate _ | daa | cma | stc | cmc | xchg | ei | di => 4
  | lxi _ | dad _ | jump | jumpIf _ | ret | pop _ | input | output => 10
  | stax _ | ldax _ | immediate _ | hlt => 7
  | shld | lhld => 16
  | sta | lda => 13
  | inx _ | dcx _ | sphl | pchl => 5
  | inr .m | dcr .m | mvi .m => 10
  | inr _ | dcr _ => 5
  | mvi _ => 7
  | mov .m _ | mov _ .m => 7
  | mov _ _ => 5
  | arithmetic _ .m => 7
  | arithmetic _ _ => 4
  | call => 17
  | callIf _ | rst _ | push _ => 11
  | retIf _ => 5
  | xthl => 18

/-- The cycles beyond the base, which only a conditional call or return can need. -/
def penalty (flags : Flags) : Operation → UInt64
  | callIf condition | retIf condition => if condition.holds flags then takenPenalty else 0
  | _ => 0

/-- The cycles an operation takes when it starts with the given flags. -/
def cost (flags : Flags) (operation : Operation) : UInt64 :=
  operation.cycles + operation.penalty flags

end Operation

end Intel8080
