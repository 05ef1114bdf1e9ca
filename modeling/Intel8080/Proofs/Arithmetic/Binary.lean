import Intel8080.Proofs.Arithmetic.Exact
import Intel8080.Store.Transform
import Mathlib.Data.Nat.Digits.Defs
import Mathlib.Tactic.Ring

/-!
Sums and differences of binary numbers of any length.

ADC and SBB take them byte by byte and pass the carry on, so that the resulting bytes and the last
carry make up the sum or the difference of whole numbers.
-/

namespace Intel8080

/-- A number whose bytes are its digits in base 256, the least significant one first. -/
def binaryValue (bytes : List UInt8) : Nat :=
  Nat.ofDigits 256 (bytes.map UInt8.toNat)

/-- The results, with the last carry above them, are the sum of two numbers and the first carry. -/
structure IsSum (left right results : List UInt8) (first last : Bool) : Prop where
  length : results.length = left.length
  value : binaryValue results + last.toNat * 256 ^ left.length =
    binaryValue left + binaryValue right + first.toNat

/--
The results, less the last carry above them, are the difference of two numbers and the first carry.

The last carry says that the difference is below zero.
-/
structure IsDifference (left right results : List UInt8) (first last : Bool) : Prop where
  length : results.length = left.length
  value : (binaryValue results : Int) - last.toNat * 256 ^ left.length =
    binaryValue left - binaryValue right - first.toNat
  borrow : last = true ↔ binaryValue left < binaryValue right + first.toNat

/-- Combines the bytes of two numbers in turn, and passes the carry on. -/
def Arithmetic.applyBytes (function : Arithmetic) (carry : Bool) :
    (left right : List UInt8) → List UInt8 × Bool
  | left :: lefts, right :: rights =>
    let (result, flags) := function.apply { carry := carry } left right
    let (results, last) := function.applyBytes flags.carry lefts rights
    (result :: results, last)
  | _, _ => ([], carry)

namespace Store

/-- Loads a byte into A and combines another one with it. -/
def combineByte (store : Store) (function : Arithmetic) (left right : UInt8) : Store :=
  (store.set .a left).accumulate function right

/-- Combines the bytes of two numbers in turn, and collects what is left in A. -/
def combineBytes (store : Store) (function : Arithmetic) :
    (left right : List UInt8) → List UInt8 × Store
  | left :: lefts, right :: rights =>
    let combined := store.combineByte function left right
    let (results, last) := combined.combineBytes function lefts rights
    (combined.registers.a :: results, last)
  | _, _ => ([], store)

end Store

/-! ### One byte -/

/-- Of the flags, an operation on the accumulator looks at the carry alone. -/
theorem Arithmetic.apply_carry (function : Arithmetic) (flags : Flags)
    (accumulator operand : UInt8) :
    function.apply flags accumulator operand =
      function.apply { carry := flags.carry } accumulator operand := by
  -- The other four flags are written and never read.
  cases function <;> rfl

/-- What does not fit in the byte of a sum is its carry. -/
theorem addWithCarry_value (left right : UInt8) (carry : Bool) :
    (addWithCarry left right carry).1.toNat + 256 * (addWithCarry left right carry).2.carry.toNat =
      left.toNat + right.toNat + carry.toNat := by
  have leftBound := left.toNat_lt
  have rightBound := right.toNat_lt
  have carryBound := carry.toNat_le
  obtain ⟨value, flags⟩ := addWithCarry_agrees left right carry
  simp only [value, flags, exactSum, Flags.ofResult]
  -- The sum of two bytes and a carry is below 512.
  by_cases carries : 255 < left.toNat + right.toNat + carry.toNat
  · simp only [carries, decide_true, Bool.toNat_true]
    omega
  · simp only [carries, decide_false, Bool.toNat_false]
    omega

/-- What the byte of a difference has borrowed is its carry. -/
theorem subtractWithBorrow_value (left right : UInt8) (borrow : Bool) :
    ((subtractWithBorrow left right borrow).1.toNat : Int) -
        256 * (subtractWithBorrow left right borrow).2.carry.toNat =
      left.toNat - right.toNat - borrow.toNat := by
  have leftBound := left.toNat_lt
  have rightBound := right.toNat_lt
  have borrowBound := borrow.toNat_le
  obtain ⟨value, flags⟩ := subtractWithBorrow_agrees left right borrow
  simp only [value, flags, exactDifference, Flags.ofResult]
  -- The difference is not below -256.
  by_cases borrows : left.toNat < right.toNat + borrow.toNat
  · simp only [borrows, decide_true, Bool.toNat_true]
    omega
  · simp only [borrows, decide_false, Bool.toNat_false]
    omega

/-! ### Any number of bytes -/

/-- A further byte in front is the least significant one. -/
theorem binaryValue_cons (byte : UInt8) (rest : List UInt8) :
    binaryValue (byte :: rest) = byte.toNat + 256 * binaryValue rest := by
  -- The bytes are digits, and a digit in front multiplies all others by the base.
  rw [binaryValue, List.map_cons, Nat.ofDigits_cons]
  rfl

/-- So many bytes hold a number below that power of 256. -/
theorem binaryValue_lt (bytes : List UInt8) : binaryValue bytes < 256 ^ bytes.length := by
  -- Every digit is below the base.
  rw [← List.length_map UInt8.toNat]
  refine Nat.ofDigits_lt_base_pow_length (by decide) fun digit member => ?_
  obtain ⟨byte, _, rfl⟩ := List.mem_map.mp member
  exact byte.toNat_lt

/-- Combining numbers leaves as many bytes as they have. -/
theorem Arithmetic.length_applyBytes (function : Arithmetic) (carry : Bool)
    {left right : List UInt8} (same : left.length = right.length) :
    (function.applyBytes carry left right).1.length = left.length := by
  induction left generalizing carry right with
  | nil => rfl
  | cons first lefts ih =>
    cases right with
    | nil => cases same
    | cons second rights => exact congrArg Nat.succ (ih _ (Nat.succ.inj same))

/-- Adding numbers byte by byte leaves the bytes of their sum. -/
theorem isSum_applyBytes (carry : Bool) {left right : List UInt8}
    (same : left.length = right.length) :
    IsSum left right (Arithmetic.adc.applyBytes carry left right).1 carry
      (Arithmetic.adc.applyBytes carry left right).2 := by
  -- The equation is proved by induction from the least significant byte.
  refine ⟨Arithmetic.length_applyBytes _ _ same, ?_⟩
  induction left generalizing carry right with
  | nil =>
    obtain rfl := List.length_eq_zero_iff.mp same.symm
    simp [Arithmetic.applyBytes, binaryValue]
  | cons first lefts ih =>
    cases right with
    | nil => cases same
    | cons second rights =>
      -- What the first byte carries is part of the sum of the other ones.
      have step := addWithCarry_value first second carry
      have rest := ih (addWithCarry first second carry).2.carry (Nat.succ.inj same)
      rw [Arithmetic.applyBytes, Arithmetic.apply, binaryValue_cons, binaryValue_cons,
        binaryValue_cons, List.length_cons]
      dsimp only
      generalize addWithCarry first second carry = added at *
      generalize Arithmetic.adc.applyBytes added.2.carry lefts rights = others at *
      calc
        _ = added.1.toNat +
              256 * (binaryValue others.1 + others.2.toNat * 256 ^ lefts.length) := by ring
        _ = added.1.toNat +
              256 * (binaryValue lefts + binaryValue rights + added.2.carry.toNat) := by rw [rest]
        _ = _ := by omega

/-- Subtracting them leaves the bytes of their difference, and a borrow if there is none. -/
theorem isDifference_applyBytes (carry : Bool) {left right : List UInt8}
    (same : left.length = right.length) :
    IsDifference left right (Arithmetic.sbb.applyBytes carry left right).1 carry
      (Arithmetic.sbb.applyBytes carry left right).2 := by
  -- The equation comes first, and what the last carry says follows from it.
  have value : (binaryValue (Arithmetic.sbb.applyBytes carry left right).1 : Int) -
      (Arithmetic.sbb.applyBytes carry left right).2.toNat * 256 ^ left.length =
        binaryValue left - binaryValue right - carry.toNat := by
    induction left generalizing carry right with
    | nil =>
      obtain rfl := List.length_eq_zero_iff.mp same.symm
      simp [Arithmetic.applyBytes, binaryValue]
    | cons first lefts ih =>
      cases right with
      | nil => cases same
      | cons second rights =>
        -- What the first byte borrows is taken from the other ones.
        have step := subtractWithBorrow_value first second carry
        have rest := ih (subtractWithBorrow first second carry).2.carry (Nat.succ.inj same)
        rw [Arithmetic.applyBytes, Arithmetic.apply, binaryValue_cons, binaryValue_cons,
          binaryValue_cons, List.length_cons]
        dsimp only
        generalize subtractWithBorrow first second carry = taken at *
        generalize Arithmetic.sbb.applyBytes taken.2.carry lefts rights = others at *
        push_cast
        calc
          _ = (taken.1.toNat : Int) +
                256 * (binaryValue others.1 - others.2.toNat * 256 ^ lefts.length) := by ring
          _ = (taken.1.toNat : Int) +
                256 * (binaryValue lefts - binaryValue rights - taken.2.carry.toNat) := by rw [rest]
          _ = _ := by omega
  have length := Arithmetic.sbb.length_applyBytes carry same
  refine ⟨length, value, ?_⟩
  -- The bytes of the result hold less than what the last carry stands for.
  have bound := binaryValue_lt (Arithmetic.sbb.applyBytes carry left right).1
  rw [length] at bound
  have weight : ((256 ^ left.length : Nat) : Int) = 256 ^ left.length := by push_cast; rfl
  rw [← weight] at value
  -- The result is neither negative nor too large, so the carry decides the sign of the difference.
  cases last : (Arithmetic.sbb.applyBytes carry left right).2 with
  | false =>
    rw [last] at value
    simp only [Bool.toNat_false] at value
    simp only [Bool.false_eq_true, false_iff]
    omega
  | true =>
    rw [last] at value
    simp only [Bool.toNat_true] at value
    simp only [true_iff]
    omega

/-- The accumulator goes through the bytes with the carry alone to remember. -/
theorem Store.combineBytes_eq (store : Store) (function : Arithmetic) (left right : List UInt8) :
    (store.combineBytes function left right).1 =
        (function.applyBytes store.registers.flags.carry left right).1 ∧
      (store.combineBytes function left right).2.registers.flags.carry =
        (function.applyBytes store.registers.flags.carry left right).2 := by
  induction left generalizing store right with
  | nil => exact ⟨rfl, rfl⟩
  | cons first lefts ih =>
    cases right with
    | nil => exact ⟨rfl, rfl⟩
    | cons second rights =>
      obtain ⟨results, last⟩ := ih (store.combineByte function first second) rights
      -- One byte is combined under flags of which only the carry counts.
      have step : function.apply store.registers.flags first second = _ :=
        function.apply_carry store.registers.flags first second
      have result : (store.combineByte function first second).registers.a =
          (function.apply { carry := store.registers.flags.carry } first second).1 :=
        congrArg Prod.fst step
      have carry : (store.combineByte function first second).registers.flags.carry =
          (function.apply { carry := store.registers.flags.carry } first second).2.carry :=
        congrArg (·.2.carry) step
      rw [carry] at results last
      exact ⟨congrArg₂ List.cons result results, last⟩

end Intel8080
