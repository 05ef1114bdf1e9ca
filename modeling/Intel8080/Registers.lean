import Intel8080.Flags
import Intel8080.Word

/-! The register file: seven bytes, the flags, the stack pointer and the program counter. -/

namespace Intel8080

/-- The programmer-visible registers; pairs are views of their halves and are never stored twice. -/
structure Registers where
  a : UInt8 := 0
  flags : Flags := {}
  b : UInt8 := 0
  c : UInt8 := 0
  d : UInt8 := 0
  e : UInt8 := 0
  h : UInt8 := 0
  l : UInt8 := 0
  sp : UInt16 := 0
  pc : UInt16 := 0
  deriving DecidableEq, Inhabited, Repr

namespace Registers

/-- The pair of B and C, with B the high half. -/
def bc (registers : Registers) : UInt16 := word registers.b registers.c

/-- The pair of D and E, with D the high half. -/
def de (registers : Registers) : UInt16 := word registers.d registers.e

/-- The pair of H and L, with H the high half. -/
def hl (registers : Registers) : UInt16 := word registers.h registers.l

/-- The processor status word: the accumulator above the status byte. -/
def psw (registers : Registers) : UInt16 := word registers.a registers.flags.statusByte

/-- Splits a word over B and C. -/
def setBc (registers : Registers) (value : UInt16) : Registers :=
  { registers with b := highByte value, c := lowByte value }

/-- Splits a word over D and E. -/
def setDe (registers : Registers) (value : UInt16) : Registers :=
  { registers with d := highByte value, e := lowByte value }

/-- Splits a word over H and L. -/
def setHl (registers : Registers) (value : UInt16) : Registers :=
  { registers with h := highByte value, l := lowByte value }

/-- Restores the accumulator and the flags from a status word. -/
def setPsw (registers : Registers) (value : UInt16) : Registers :=
  { registers with a := highByte value, flags := .ofByte (lowByte value) }

/-- A word written to B and C reads back. -/
@[simp] theorem bc_setBc (registers : Registers) (value : UInt16) :
    (registers.setBc value).bc = value := by
  simp [bc, setBc]

/-- A word written to D and E reads back. -/
@[simp] theorem de_setDe (registers : Registers) (value : UInt16) :
    (registers.setDe value).de = value := by
  simp [de, setDe]

/-- A word written to H and L reads back. -/
@[simp] theorem hl_setHl (registers : Registers) (value : UInt16) :
    (registers.setHl value).hl = value := by
  simp [hl, setHl]

/-- Writing back the current status word changes nothing. -/
@[simp] theorem setPsw_psw (registers : Registers) :
    registers.setPsw registers.psw = registers := by
  simp [setPsw, psw]

end Registers

end Intel8080
