/-! The operations of the instruction set, apart from the operand bytes that follow a code. -/

namespace Intel8080

/-- An eight-bit operand: one of seven registers, or `m`, the memory byte that HL points to. -/
inductive Location
  | b | c | d | e | h | l | m | a
  deriving DecidableEq, Inhabited, Repr

/-- A sixteen-bit operand of the arithmetic and load operations. -/
inductive Pair
  | bc | de | hl | sp
  deriving DecidableEq, Inhabited, Repr

/-- A sixteen-bit operand of push and pop, which know the status word in place of SP. -/
inductive StackPair
  | bc | de | hl | psw
  deriving DecidableEq, Inhabited, Repr

/-- A pair that STAX and LDAX use as an address. -/
inductive Pointer
  | bc | de
  deriving DecidableEq, Inhabited, Repr

/-- A test of one flag: not zero, zero, no carry, carry, odd, even, plus, minus. -/
inductive Condition
  | nz | z | nc | c | po | pe | p | m
  deriving DecidableEq, Inhabited, Repr

/-- An operation that combines the accumulator with an eight-bit operand. -/
inductive Arithmetic
  | add | adc | sub | sbb | ana | xra | ora | cmp
  deriving DecidableEq, Inhabited, Repr

/-- A one-place rotation of the accumulator, either alone or through the carry. -/
inductive Rotation
  | rlc | rrc | ral | rar
  deriving DecidableEq, Inhabited, Repr

/-- What an instruction does; its operand byte or word is kept with the instruction. -/
inductive Operation
  | nop
  | lxi (pair : Pair)
  | stax (pointer : Pointer)
  | ldax (pointer : Pointer)
  | shld
  | lhld
  | sta
  | lda
  | inx (pair : Pair)
  | dcx (pair : Pair)
  | dad (pair : Pair)
  | inr (location : Location)
  | dcr (location : Location)
  | mvi (location : Location)
  | rotate (rotation : Rotation)
  | daa
  | cma
  | stc
  | cmc
  | mov (target source : Location)
  | hlt
  | arithmetic (function : Arithmetic) (source : Location)
  | immediate (function : Arithmetic)
  | jump
  | jumpIf (condition : Condition)
  | call
  | callIf (condition : Condition)
  | ret
  | retIf (condition : Condition)
  | rst (line : Fin 8)
  | push (pair : StackPair)
  | pop (pair : StackPair)
  | xthl
  | xchg
  | sphl
  | pchl
  | output
  | input
  | ei
  | di
  deriving DecidableEq, Inhabited, Repr

/-- How many bytes of operand follow a code. -/
inductive Width
  | none | byte | word
  deriving DecidableEq, Inhabited, Repr

/-- The number of operand bytes. -/
def Width.count : Width → Nat
  | .none => 0
  | .byte => 1
  | .word => 2

namespace Operation

/-- The operand an operation takes from the bytes after its code. -/
def width : Operation → Width
  | mvi _ | immediate _ | output | input => .byte
  | lxi _ | shld | lhld | sta | lda | jump | jumpIf _ | call | callIf _ => .word
  | _ => .none

end Operation

end Intel8080
