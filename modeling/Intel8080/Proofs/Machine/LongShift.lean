import Intel8080.Machine
import Intel8080.Proofs.Arithmetic.Binary

/-!
Shifts of binary numbers of any length.

RAL takes the bytes from the least significant one up and RAR from the most significant one down.
The carry is the bit that goes from byte to byte, so each pass undoes the other.
-/

namespace Intel8080

namespace Machine

variable {δ : Type}

section Passes

variable [Device δ]

/-- Loads a byte into A and executes the instruction under a code that needs no operand. -/
def applyCode (machine : Machine δ) (code byte : UInt8) : Machine δ :=
  ((machine.withStore (machine.store.set .a byte)).execute ⟨code, 0⟩).1

/-- Applies RAL to the bytes of a number from the least significant one up. -/
def shiftLeft (machine : Machine δ) : List UInt8 → List UInt8 × Machine δ
  | [] => ([], machine)
  | byte :: rest =>
    let rotated := machine.applyCode 0x17 byte
    let (results, last) := rotated.shiftLeft rest
    (rotated.registers.a :: results, last)

/-- Applies RAR to the bytes of a number from the most significant one down. -/
def shiftRight (machine : Machine δ) : List UInt8 → List UInt8 × Machine δ
  | [] => ([], machine)
  | byte :: rest =>
    let (results, above) := machine.shiftRight rest
    let rotated := above.applyCode 0x1F byte
    (rotated.registers.a :: results, rotated)

end Passes

variable (machine : Machine δ) (bytes : List UInt8)

/-- The results, with the carry above them, are twice a number and the carry from before. -/
structure IsDouble (shifted : List UInt8 × Machine δ) : Prop where
  length : shifted.1.length = bytes.length
  value : binaryValue shifted.1 + shifted.2.registers.flags.carry.toNat * 256 ^ bytes.length =
    2 * binaryValue bytes + machine.registers.flags.carry.toNat
  flags : shifted.2.registers.flags =
    { machine.registers.flags with carry := shifted.2.registers.flags.carry }

/-- The results, with the carry below them, are half of a number that had the carry above it. -/
structure IsHalf (shifted : List UInt8 × Machine δ) : Prop where
  length : shifted.1.length = bytes.length
  value : 2 * binaryValue shifted.1 + shifted.2.registers.flags.carry.toNat =
    binaryValue bytes + machine.registers.flags.carry.toNat * 256 ^ bytes.length
  flags : shifted.2.registers.flags =
    { machine.registers.flags with carry := shifted.2.registers.flags.carry }

/-- A pass has brought back the bytes of a number, and all five flags. -/
structure IsRestored (restored : List UInt8 × Machine δ) : Prop where
  bytes : restored.1 = bytes
  flags : restored.2.registers.flags = machine.registers.flags

end Machine

/-! ### One byte -/

/-- RAL doubles a byte and the carry that comes in, up to the carry that goes out. -/
theorem rotateLeft_value (carry : Bool) (byte : UInt8) :
    (Rotation.ral.apply carry byte).1.toNat + 256 * (Rotation.ral.apply carry byte).2.toNat =
      2 * byte.toNat + carry.toNat := by
  -- A byte and a bit are checked value by value.
  have all : ∀ (carry : Bool) (value : Fin 256),
      (Rotation.ral.apply carry (.ofFin value)).1.toNat +
          256 * (Rotation.ral.apply carry (.ofFin value)).2.toNat =
        2 * value.val + carry.toNat := by
    decide +kernel
  exact all carry byte.toFin

/-- RAR halves a byte with the carry above it, and the remainder goes out. -/
theorem rotateRight_value (carry : Bool) (byte : UInt8) :
    2 * (Rotation.rar.apply carry byte).1.toNat + (Rotation.rar.apply carry byte).2.toNat =
      byte.toNat + 256 * carry.toNat := by
  -- RAR is checked in the same way.
  have all : ∀ (carry : Bool) (value : Fin 256),
      2 * (Rotation.rar.apply carry (.ofFin value)).1.toNat +
          (Rotation.rar.apply carry (.ofFin value)).2.toNat =
        value.val + 256 * carry.toNat := by
    decide +kernel
  exact all carry byte.toFin

/-- A bit is known by its number. -/
theorem toNat_injective : Function.Injective Bool.toNat :=
  Function.LeftInverse.injective Bool.ofNat_toNat

/-- RAR undoes RAL. -/
theorem rotateRight_rotateLeft (carry : Bool) (byte : UInt8) :
    Rotation.rar.apply (Rotation.ral.apply carry byte).2 (Rotation.ral.apply carry byte).1 =
      (byte, carry) := by
  -- Each of the two rotations has its equation, and together they leave one byte and one bit.
  have left := rotateLeft_value carry byte
  have right := rotateRight_value (Rotation.ral.apply carry byte).2
    (Rotation.ral.apply carry byte).1
  generalize Rotation.rar.apply (Rotation.ral.apply carry byte).2
    (Rotation.ral.apply carry byte).1 = back at right
  -- Twice the byte and the carry is divided by two again.
  have outBound := back.2.toNat_le
  have inBound := carry.toNat_le
  have value : back.1.toNat = byte.toNat := by omega
  have bit : back.2.toNat = carry.toNat := by omega
  exact Prod.ext (UInt8.toNat_inj.mp value) (toNat_injective bit)

/-- RAL undoes RAR. -/
theorem rotateLeft_rotateRight (carry : Bool) (byte : UInt8) :
    Rotation.ral.apply (Rotation.rar.apply carry byte).2 (Rotation.rar.apply carry byte).1 =
      (byte, carry) := by
  -- The two equations are the same, used in the other order.
  have right := rotateRight_value carry byte
  have left := rotateLeft_value (Rotation.rar.apply carry byte).2
    (Rotation.rar.apply carry byte).1
  generalize Rotation.ral.apply (Rotation.rar.apply carry byte).2
    (Rotation.rar.apply carry byte).1 = back at left
  -- The byte below the carry is divided by 256 again.
  have outBound := back.1.toNat_lt
  have inBound := byte.toNat_lt
  have value : back.1.toNat = byte.toNat := by omega
  have bit : back.2.toNat = carry.toNat := by omega
  exact Prod.ext (UInt8.toNat_inj.mp value) (toNat_injective bit)

namespace Machine

variable {δ : Type} [Device δ]

/-- Code 17 is that of RAL, which leaves all flags but the carry. -/
theorem applyCode_ral (machine : Machine δ) (byte : UInt8) :
    let rotated := Rotation.ral.apply machine.registers.flags.carry byte
    (machine.applyCode 0x17 byte).registers.a = rotated.1 ∧
      (machine.applyCode 0x17 byte).registers.flags =
        { machine.registers.flags with carry := rotated.2 } :=
  ⟨rfl, rfl⟩

/-- Code 1F is that of RAR, which leaves them too. -/
theorem applyCode_rar (machine : Machine δ) (byte : UInt8) :
    let rotated := Rotation.rar.apply machine.registers.flags.carry byte
    (machine.applyCode 0x1F byte).registers.a = rotated.1 ∧
      (machine.applyCode 0x1F byte).registers.flags =
        { machine.registers.flags with carry := rotated.2 } :=
  ⟨rfl, rfl⟩

/-! ### Any number of bytes -/

/-- RAL from the least significant byte up doubles a number. -/
theorem isDouble_shiftLeft (machine : Machine δ) (bytes : List UInt8) :
    IsDouble machine bytes (machine.shiftLeft bytes) := by
  -- By induction from the least significant byte, with any carry coming in.
  induction bytes generalizing machine with
  | nil => exact ⟨rfl, by simp [shiftLeft, binaryValue], rfl⟩
  | cons byte rest ih =>
    -- The bit that leaves the first byte comes into the others.
    have step := rotateLeft_value machine.registers.flags.carry byte
    obtain ⟨result, carried⟩ := machine.applyCode_ral byte
    obtain ⟨length, value, flags⟩ := ih (machine.applyCode 0x17 byte)
    rw [carried] at value flags
    refine ⟨congrArg Nat.succ length, ?_, flags⟩
    rw [shiftLeft, binaryValue_cons, binaryValue_cons, List.length_cons]
    dsimp only
    rw [result]
    generalize (machine.applyCode 0x17 byte).shiftLeft rest = others at *
    generalize Rotation.ral.apply machine.registers.flags.carry byte = rotated at *
    calc
      _ = rotated.1.toNat + 256 * (binaryValue others.1 +
            others.2.registers.flags.carry.toNat * 256 ^ rest.length) := by ring
      _ = rotated.1.toNat + 256 * (2 * binaryValue rest + rotated.2.toNat) := by rw [value]
      _ = _ := by omega

/-- RAR from the most significant byte down halves a number. -/
theorem isHalf_shiftRight (machine : Machine δ) (bytes : List UInt8) :
    IsHalf machine bytes (machine.shiftRight bytes) := by
  -- By induction too, but the machine is the one that the bytes above have left.
  induction bytes with
  | nil => exact ⟨rfl, by simp [shiftRight, binaryValue], rfl⟩
  | cons byte rest ih =>
    -- The bit that leaves the other bytes comes into the first one.
    obtain ⟨length, value, flags⟩ := ih
    have step := rotateRight_value (machine.shiftRight rest).2.registers.flags.carry byte
    obtain ⟨result, carried⟩ := (machine.shiftRight rest).2.applyCode_rar byte
    have last : ((machine.shiftRight rest).2.applyCode 0x1F byte).registers.flags =
        { machine.registers.flags with
          carry := ((machine.shiftRight rest).2.applyCode 0x1F byte).registers.flags.carry } := by
      rw [carried, flags]
    refine ⟨congrArg Nat.succ length, ?_, last⟩
    rw [shiftRight, binaryValue_cons, binaryValue_cons, List.length_cons]
    dsimp only
    rw [result, carried]
    generalize machine.shiftRight rest = others at *
    generalize Rotation.rar.apply others.2.registers.flags.carry byte = rotated at *
    calc
      _ = 512 * binaryValue others.1 + (2 * rotated.1.toNat + rotated.2.toNat) := by ring
      _ = byte.toNat + 256 * (2 * binaryValue others.1 +
            others.2.registers.flags.carry.toNat) := by omega
      _ = byte.toNat + 256 * (binaryValue rest +
            machine.registers.flags.carry.toNat * 256 ^ rest.length) := by rw [value]
      _ = _ := by ring

/-- RAR over the results of RAL, from the carry that RAL left, restores a number and its carry. -/
theorem shiftRight_shiftLeft (machine : Machine δ) (bytes : List UInt8) (after : Machine δ)
    (same : after.registers.flags.carry = (machine.shiftLeft bytes).2.registers.flags.carry) :
    let restored := after.shiftRight (machine.shiftLeft bytes).1
    restored.1 = bytes ∧ restored.2.registers.flags.carry = machine.registers.flags.carry := by
  -- By induction on the bytes, since RAR begins where RAL has ended.
  induction bytes generalizing machine with
  | nil => exact ⟨rfl, same⟩
  | cons byte rest ih =>
    -- The other bytes are restored first, and leave the bit that RAL had taken from the first one.
    obtain ⟨others, bit⟩ := ih (machine.applyCode 0x17 byte) same
    obtain ⟨result, carried⟩ := machine.applyCode_ral byte
    have first : Rotation.rar.apply
        (after.shiftRight ((machine.applyCode 0x17 byte).shiftLeft rest).1).2.registers.flags.carry
        (machine.applyCode 0x17 byte).registers.a = (byte, machine.registers.flags.carry) := by
      rw [bit, result, carried]
      exact rotateRight_rotateLeft machine.registers.flags.carry byte
    obtain ⟨back, carriedBack⟩ := Machine.applyCode_rar
      (after.shiftRight ((machine.applyCode 0x17 byte).shiftLeft rest).1).2
      (machine.applyCode 0x17 byte).registers.a
    rw [first] at back carriedBack
    -- The carry from before the first byte is the one from before the pass.
    have bitBack := congrArg Flags.carry carriedBack
    exact ⟨congrArg₂ List.cons back others, bitBack⟩

/-- RAL over the results of RAR, from the carry that RAR left, restores a number and its carry. -/
theorem shiftLeft_shiftRight (machine : Machine δ) (bytes : List UInt8) (after : Machine δ)
    (same : after.registers.flags.carry = (machine.shiftRight bytes).2.registers.flags.carry) :
    let restored := after.shiftLeft (machine.shiftRight bytes).1
    restored.1 = bytes ∧ restored.2.registers.flags.carry = machine.registers.flags.carry := by
  -- By induction on the bytes, and for any machine that begins with the right carry.
  induction bytes generalizing after with
  | nil => exact ⟨rfl, same⟩
  | cons byte rest ih =>
    -- The first byte is restored first, and leaves the bit that RAR had taken from the others.
    obtain ⟨result, carried⟩ := (machine.shiftRight rest).2.applyCode_rar byte
    have last : after.registers.flags.carry =
        ((machine.shiftRight rest).2.applyCode 0x1F byte).registers.flags.carry := same
    have first : Rotation.ral.apply after.registers.flags.carry
        ((machine.shiftRight rest).2.applyCode 0x1F byte).registers.a =
          (byte, (machine.shiftRight rest).2.registers.flags.carry) := by
      rw [last, result, carried]
      exact rotateLeft_rotateRight (machine.shiftRight rest).2.registers.flags.carry byte
    obtain ⟨back, carriedBack⟩ := after.applyCode_ral
      ((machine.shiftRight rest).2.applyCode 0x1F byte).registers.a
    rw [first] at back carriedBack
    have bitBack := congrArg Flags.carry carriedBack
    obtain ⟨others, bit⟩ := ih _ bitBack
    exact ⟨congrArg₂ List.cons back others, bit⟩

/--
RAL and RAR shift numbers of any length by one bit, through the carry.

Each pass leaves the other four flags, and undoes the other pass if it comes right after it.
-/
theorem shifts_exactly (machine : Machine δ) (bytes : List UInt8) :
    let left := machine.shiftLeft bytes
    let right := machine.shiftRight bytes
    IsDouble machine bytes left ∧ IsHalf machine bytes right ∧
      IsRestored machine bytes (left.2.shiftRight left.1) ∧
      IsRestored machine bytes (right.2.shiftLeft right.1) := by
  have double := machine.isDouble_shiftLeft bytes
  have half := machine.isHalf_shiftRight bytes
  refine ⟨double, half, ?_, ?_⟩
  · -- The second pass restores the carry, and neither pass changes the four other flags.
    obtain ⟨restored, carry⟩ := machine.shiftRight_shiftLeft bytes _ rfl
    have flags := ((machine.shiftLeft bytes).2.isHalf_shiftRight (machine.shiftLeft bytes).1).flags
    rw [double.flags, carry] at flags
    exact ⟨restored, flags⟩
  · -- It is the same with the two passes exchanged.
    obtain ⟨restored, carry⟩ := machine.shiftLeft_shiftRight bytes _ rfl
    have flags :=
      ((machine.shiftRight bytes).2.isDouble_shiftLeft (machine.shiftRight bytes).1).flags
    rw [half.flags, carry] at flags
    exact ⟨restored, flags⟩

end Machine

end Intel8080
