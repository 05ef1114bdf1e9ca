import Intel8080.Proofs.Arithmetic.Exact
import Intel8080.Store.Transform
import Mathlib.Data.Nat.Digits.Defs
import Mathlib.Tactic.Ring

/-!
Addition of packed decimal numbers of any length.

Each byte holds two decimal digits, and DAA brings the sum of two of them back into that form.
-/

namespace Intel8080

/-- Both digits of a byte are decimal ones. -/
def Packed (value : UInt8) : Prop :=
  value.toNat / 16 < 10 ∧ value.toNat % 16 < 10

instance (value : UInt8) : Decidable (Packed value) :=
  inferInstanceAs (Decidable (_ ∧ _))

/-- A byte read as two decimal digits. -/
def packedValue (value : UInt8) : Nat :=
  10 * (value.toNat / 16) + value.toNat % 16

/-- A number whose bytes are its digits in base 100, the least significant one first. -/
def decimalValue (bytes : List UInt8) : Nat :=
  Nat.ofDigits 100 (bytes.map packedValue)

namespace Store

/-- Adds a byte and the carry to a byte in decimal: A is loaded, and ADC and DAA follow. -/
def addDecimal (store : Store) (left right : UInt8) : Store :=
  Operation.daa.transform 0 ((store.set .a left).accumulate .adc right)

/-- Adds the bytes of two numbers in turn, and collects what is left in A. -/
def addDecimals (store : Store) : (left right : List UInt8) → List UInt8 × Store
  | left :: lefts, right :: rights =>
    let added := store.addDecimal left right
    let (sums, last) := added.addDecimals lefts rights
    (added.registers.a :: sums, last)
  | _, _ => ([], store)

end Store

/-! ### One byte -/

/-- The high digit of a byte is its quotient by sixteen. -/
theorem toNat_shiftRight_four (value : UInt8) : (value >>> 4).toNat = value.toNat / 16 := by
  -- Four places to the right divide by sixteen.
  rw [UInt8.toNat_shiftRight]
  exact Nat.shiftRight_eq_div_pow value.toNat 4

/-- DAA corrects the low digit. -/
def CorrectsLow (flags : Flags) (value : Nat) : Prop :=
  flags.auxCarry = true ∨ 9 < value % 16

/-- DAA corrects the high digit. -/
def CorrectsHigh (flags : Flags) (value : Nat) : Prop :=
  flags.carry = true ∨ 9 < value / 16 ∨ 9 ≤ value / 16 ∧ 9 < value % 16

instance (flags : Flags) (value : Nat) : Decidable (CorrectsLow flags value) :=
  inferInstanceAs (Decidable (_ ∨ _))

instance (flags : Flags) (value : Nat) : Decidable (CorrectsHigh flags value) :=
  inferInstanceAs (Decidable (_ ∨ _))

/-- DAA adds six for each digit to correct, and leaves a carry if the high one is. -/
theorem decimalCorrection_spec (flags : Flags) (value : UInt8) :
    (decimalCorrection flags value).1.toNat =
        (if CorrectsLow flags value.toNat then 6 else 0) +
          (if CorrectsHigh flags value.toNat then 96 else 0) ∧
      (decimalCorrection flags value).2 = decide (CorrectsHigh flags value.toNat) := by
  -- The digits are compared as bytes, which is comparing their values.
  have low : (flags.auxCarry || decide (value &&& 0x0F > 9)) =
      decide (CorrectsLow flags value.toNat) := by
    rw [Bool.eq_iff_iff, decide_eq_true_eq]
    simp only [CorrectsLow, Bool.or_eq_true, decide_eq_true_eq, GT.gt, UInt8.lt_iff_toNat_lt,
      toNat_and_low]
    rfl
  have high : (flags.carry || decide (value >>> 4 > 9) ||
      (decide (value >>> 4 ≥ 9) && decide (value &&& 0x0F > 9))) =
      decide (CorrectsHigh flags value.toNat) := by
    rw [Bool.eq_iff_iff, decide_eq_true_eq]
    simp only [CorrectsHigh, Bool.or_eq_true, Bool.and_eq_true, decide_eq_true_eq, GT.gt, GE.ge,
      UInt8.lt_iff_toNat_lt, UInt8.le_iff_toNat_le, toNat_and_low, toNat_shiftRight_four,
      or_assoc]
    rfl
  refine ⟨?_, high⟩
  -- The two corrections together still fit in a byte.
  simp only [decimalCorrection, low, high, decide_eq_true_eq]
  split <;> split <;> rfl

/-- The byte that DAA leaves is the sum with the correction, and the carry is that of the latter. -/
theorem decimalAdjust_spec (flags : Flags) (value : UInt8) :
    (decimalAdjust flags value).1.toNat = (value.toNat +
        (if CorrectsLow flags value.toNat then 6 else 0) +
        (if CorrectsHigh flags value.toNat then 96 else 0)) % 256 ∧
      (decimalAdjust flags value).2.carry = decide (CorrectsHigh flags value.toNat) := by
  obtain ⟨correction, carry⟩ := decimalCorrection_spec flags value
  refine ⟨?_, carry⟩
  -- Of what the inner addition sets, the byte is kept and the carry is not.
  rw [decimalAdjust, (addWithCarry_agrees _ _ _).value, correction]
  simp only [exactSum, Bool.toNat_false, Nat.add_zero, Nat.add_assoc]

section Sum

variable {left right carry : Nat}

/-- After a binary sum, DAA corrects the low digit where the low digits add up to more than nine. -/
theorem correctsLow_exactSum (leftLow : left % 16 < 10) (rightLow : right % 16 < 10)
    (bit : carry ≤ 1) :
    CorrectsLow (exactSum left right carry).2 (exactSum left right carry).1 ↔
      9 < left % 16 + right % 16 + carry := by
  -- The sum of two digits either shows as a digit above nine or has left a half carry.
  simp only [CorrectsLow, exactSum, Flags.ofResult, decide_eq_true_eq]
  omega

/-- It corrects the high digit where the decimal sum does not fit in two digits. -/
theorem correctsHigh_exactSum (leftLow : left % 16 < 10) (rightLow : right % 16 < 10)
    (bit : carry ≤ 1) :
    CorrectsHigh (exactSum left right carry).2 (exactSum left right carry).1 ↔
      99 < 10 * (left / 16) + left % 16 + (10 * (right / 16) + right % 16) + carry := by
  -- The low digit carries into the high one where it is corrected and nowhere else.
  simp only [CorrectsHigh, exactSum, Flags.ofResult, decide_eq_true_eq]
  omega

end Sum

/-- What DAA makes of the binary sum of two packed bytes is their decimal sum. -/
theorem decimalAdjust_sum {left right : UInt8} (leftPacked : Packed left)
    (rightPacked : Packed right) (carry : Bool) {sum adjusted : UInt8 × Flags}
    (added : addWithCarry left right carry = sum)
    (corrected : decimalAdjust sum.2 sum.1 = adjusted) :
    Packed adjusted.1 ∧ packedValue adjusted.1 + 100 * adjusted.2.carry.toNat =
      packedValue left + packedValue right + carry.toNat := by
  obtain ⟨leftHigh, leftLow⟩ := leftPacked
  obtain ⟨rightHigh, rightLow⟩ := rightPacked
  have bit := carry.toNat_le
  -- The binary sum comes with its carries, and DAA works on that.
  obtain ⟨value, flags⟩ := addWithCarry_agrees left right carry
  obtain ⟨result, carried⟩ := decimalAdjust_spec sum.2 sum.1
  rw [added] at value flags
  rw [corrected, value, flags] at result carried
  simp only [correctsLow_exactSum leftLow rightLow bit,
    correctsHigh_exactSum leftLow rightLow bit] at result carried
  simp only [exactSum] at result
  simp only [Packed, packedValue, carried]
  -- Whether the high digit is corrected decides the carry.
  by_cases high : 99 < 10 * (left.toNat / 16) + left.toNat % 16 +
      (10 * (right.toNat / 16) + right.toNat % 16) + carry.toNat
  · rw [if_pos high] at result
    rw [decide_eq_true high, Bool.toNat_true]
    split at result <;> omega
  · rw [if_neg high] at result
    rw [decide_eq_false high, Bool.toNat_false]
    split at result <;> omega

/-- One step leaves a packed byte in A, and with the carry it is the sum of both bytes. -/
theorem addDecimal_spec (store : Store) {left right : UInt8} (leftPacked : Packed left)
    (rightPacked : Packed right) :
    Packed (store.addDecimal left right).registers.a ∧
      packedValue (store.addDecimal left right).registers.a +
          100 * (store.addDecimal left right).registers.flags.carry.toNat =
        packedValue left + packedValue right + store.registers.flags.carry.toNat :=
  -- A holds the sum when DAA executes, with the flags that ADC has left.
  decimalAdjust_sum leftPacked rightPacked store.registers.flags.carry rfl rfl

/-! ### Any number of bytes -/

/-- A further byte in front is the least significant one. -/
theorem decimalValue_cons (byte : UInt8) (rest : List UInt8) :
    decimalValue (byte :: rest) = packedValue byte + 100 * decimalValue rest := by
  -- The bytes are digits of base 100.
  rw [decimalValue, List.map_cons, Nat.ofDigits_cons]
  rfl

/--
Adding two numbers byte by byte leaves the bytes of their sum, all of them packed.

The carry is threaded through and in the end counts for the next place, and no other flag matters.
-/
theorem decimalValue_addDecimals (store : Store) {left right : List UInt8}
    (same : left.length = right.length) (leftPacked : ∀ byte ∈ left, Packed byte)
    (rightPacked : ∀ byte ∈ right, Packed byte) :
    (store.addDecimals left right).1.length = left.length ∧
      (∀ byte ∈ (store.addDecimals left right).1, Packed byte) ∧
      decimalValue (store.addDecimals left right).1 +
          (store.addDecimals left right).2.registers.flags.carry.toNat * 100 ^ left.length =
        decimalValue left + decimalValue right + store.registers.flags.carry.toNat := by
  induction left generalizing store right with
  | nil =>
    -- Without bytes nothing is added, and the carry stays.
    obtain rfl := List.length_eq_zero_iff.mp same.symm
    simp [Store.addDecimals, decimalValue]
  | cons first lefts ih =>
    cases right with
    | nil => cases same
    | cons second rights =>
      -- The first bytes of both numbers are packed, and so are the others.
      rw [List.forall_mem_cons] at leftPacked rightPacked
      obtain ⟨firstPacked, firstSum⟩ := addDecimal_spec store leftPacked.1 rightPacked.1
      obtain ⟨count, restPacked, restSum⟩ :=
        ih (store.addDecimal first second) (Nat.succ.inj same) leftPacked.2 rightPacked.2
      refine ⟨congrArg Nat.succ count, ?_, ?_⟩
      · exact List.forall_mem_cons.mpr ⟨firstPacked, restPacked⟩
      · -- What the first step carries is part of the sum of the other bytes.
        rw [Store.addDecimals, decimalValue_cons, decimalValue_cons, decimalValue_cons,
          List.length_cons]
        generalize store.addDecimal first second = added at *
        calc
          _ = packedValue added.registers.a +
                100 * (decimalValue (added.addDecimals lefts rights).1 +
                  (added.addDecimals lefts rights).2.registers.flags.carry.toNat *
                    100 ^ lefts.length) := by ring
          _ = packedValue added.registers.a + 100 * (decimalValue lefts + decimalValue rights +
                added.registers.flags.carry.toNat) := by rw [restSum]
          _ = _ := by omega

/-- Both digits of both bytes carry when 5001 is added to 4999. -/
theorem decimalValue_addDecimals_tenThousand :
    ([0x99, 0x49] : List UInt8).length = ([0x01, 0x50] : List UInt8).length ∧
      (∀ byte ∈ ([0x99, 0x49] : List UInt8), Packed byte) ∧
      (∀ byte ∈ ([0x01, 0x50] : List UInt8), Packed byte) ∧
      let sum := Store.addDecimals ⟨{}, .zero⟩ [0x99, 0x49] [0x01, 0x50]
      decimalValue sum.1 + sum.2.registers.flags.carry.toNat * 100 ^ 2 = 4999 + 5001 ∧
        sum.1 = [0x00, 0x00] := by
  have same : ([0x99, 0x49] : List UInt8).length = ([0x01, 0x50] : List UInt8).length := rfl
  have left : ∀ byte ∈ ([0x99, 0x49] : List UInt8), Packed byte := by decide +kernel
  have right : ∀ byte ∈ ([0x01, 0x50] : List UInt8), Packed byte := by decide +kernel
  -- The digits and the carry are computed.
  exact ⟨same, left, right, (decimalValue_addDecimals ⟨{}, .zero⟩ same left right).2.2, rfl⟩

end Intel8080
