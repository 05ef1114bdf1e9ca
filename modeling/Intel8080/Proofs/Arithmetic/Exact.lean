import Intel8080.Arithmetic

/-!
The arithmetic of bytes and flags in terms of whole numbers.

Results are remainders, carries and borrows are comparisons, and the half carries are those of the
low digits.
-/

namespace Intel8080

/-- How many of the eight bits of a byte are ones. -/
def oneBits (value : Nat) : Nat :=
  (List.range 8).countP value.testBit

/-- The flags of a result below 256, with the two carries given. -/
def Flags.ofResult (result : Nat) (auxCarry carry : Bool) : Flags where
  sign := 128 ≤ result
  zero := result = 0
  auxCarry := auxCarry
  parity := oneBits result % 2 = 0
  carry := carry

/-- The sum of two bytes and a carry. -/
def exactSum (left right carry : Nat) : Nat × Flags :=
  let result := (left + right + carry) % 256
  (result, .ofResult result (15 < left % 16 + right % 16 + carry) (255 < left + right + carry))

/--
The difference of two bytes and a borrow.

The carry says that something had to be borrowed, and the auxiliary carry that the low digits did
without.
-/
def exactDifference (left right borrow : Nat) : Nat × Flags :=
  let result := ((left - right - borrow : Int) % 256).toNat
  (result, .ofResult result (right % 16 + borrow ≤ left % 16) (left < right + borrow))

/-- The accumulator and the flags after an operation, in whole numbers. -/
def Arithmetic.exact (accumulator operand carry : Nat) : Arithmetic → Nat × Flags
  | .add => exactSum accumulator operand 0
  | .adc => exactSum accumulator operand carry
  | .sub => exactDifference accumulator operand 0
  | .sbb => exactDifference accumulator operand carry
  | .ana =>
    let result := accumulator &&& operand
    (result, .ofResult result ((accumulator ||| operand).testBit 3) false)
  | .xra => (accumulator ^^^ operand, .ofResult (accumulator ^^^ operand) false false)
  | .ora => (accumulator ||| operand, .ofResult (accumulator ||| operand) false false)
  | .cmp => (accumulator, (exactDifference accumulator operand 0).2)

/-- One more than a byte, where the carry stays as it was. -/
def exactIncrement (value : Nat) (carry : Bool) : Nat × Flags :=
  let result := (value + 1) % 256
  (result, .ofResult result (result % 16 = 0) carry)

/-- One less than a byte, where the carry stays as it was. -/
def exactDecrement (value : Nat) (carry : Bool) : Nat × Flags :=
  let result := ((value - 1 : Int) % 256).toNat
  (result, .ofResult result (result % 16 ≠ 15) carry)

/-- A byte and flags that were computed are those of whole numbers. -/
structure Agrees (computed : UInt8 × Flags) (exact : Nat × Flags) : Prop where
  value : computed.1.toNat = exact.1
  flags : computed.2 = exact.2

/-- What agrees with whole numbers is determined by them. -/
theorem Agrees.eq {computed : UInt8 × Flags} {exact : Nat × Flags}
    (agrees : Agrees computed exact) : computed = (.ofNat exact.1, exact.2) := by
  obtain ⟨value, flags⟩ := computed
  -- A byte is known by its value.
  obtain ⟨rfl, rfl⟩ : value = .ofNat exact.1 ∧ flags = exact.2 :=
    ⟨by rw [← agrees.value, UInt8.ofNat_toNat], agrees.flags⟩
  rfl

/-! ### Bits and remainders -/

/-- The low digit of a byte is its remainder by sixteen. -/
theorem toNat_and_low (value : UInt8) : (value &&& 0x0F).toNat = value.toNat % 16 := by
  -- The mask is one less than a power of two.
  rw [UInt8.toNat_and]
  exact Nat.and_two_pow_sub_one_eq_mod value.toNat 4

/-- A mask of one bit leaves something of a byte exactly where the byte has that bit. -/
theorem and_bit_bne (place : Fin 8) (value : UInt8) :
    (value &&& (1 <<< UInt8.ofNat place.val) != 0) = value.toNat.testBit place.val := by
  -- Eight masks of 256 bytes are few enough to be compared one by one.
  have all : ∀ place : Fin 8, ∀ value : Fin 256,
      (UInt8.ofFin value &&& (1 <<< UInt8.ofNat place.val) != 0) =
        value.val.testBit place.val := by
    decide +kernel
  exact all place value.toFin

/-- Sign, zero and parity of a result are those of its value. -/
theorem Flags.withResult_eq (flags : Flags) (result : UInt8) :
    flags.withResult result = .ofResult result.toNat flags.auxCarry flags.carry := by
  -- Each of the three is a test of one byte, which is checked byte by byte.
  have all : ∀ value : Fin 256, ((UInt8.ofFin value &&& 0x80 != 0) = decide (128 ≤ value.val)) ∧
      ((UInt8.ofFin value == 0) = decide (value.val = 0)) ∧
      evenParity (.ofFin value) = decide (oneBits value.val % 2 = 0) := by
    decide +kernel
  obtain ⟨sign, zero, parity⟩ := all result.toFin
  simp only [UInt8.ofFin_toFin] at sign zero parity
  rw [withResult, sign, zero, parity]
  rfl

/-! ### Sums and differences -/

/-- Bit four of a sum is turned over from that of the operands by what the low digits carry. -/
theorem testBit_four_of_sum {left right sum : UInt8} {carry : Bool}
    (total : sum.toNat = (left.toNat + right.toNat + carry.toNat) % 256) :
    sum.toNat.testBit 4 = (left.toNat.testBit 4 ^^ right.toNat.testBit 4 ^^
      decide (15 < left.toNat % 16 + right.toNat % 16 + carry.toNat)) := by
  -- The byte is the sum of the two bit vectors with the carry as a third one.
  have added : sum.toBitVec =
      left.toBitVec + right.toBitVec + (BitVec.ofBool carry).setWidth 8 := by
    have wide : ((BitVec.ofBool carry).setWidth 8).toNat = carry.toNat := by cases carry <;> rfl
    apply BitVec.eq_of_toNat_eq
    rw [BitVec.toNat_add, BitVec.toNat_add, wide, Nat.mod_add_mod]
    exact total
  -- What reaches a place of such a sum is the carry out of the remainders below it.
  have bit := BitVec.getLsbD_add_add_bool (show 4 < 8 by decide) left.toBitVec right.toBitVec carry
  rw [← added] at bit
  exact bit.trans (Bool.xor_assoc _ _ _).symm

/-- Against both operands a sum shows in bit four whether the low digits have carried. -/
theorem xor_sum_bne {left right sum : UInt8} {carry : Bool}
    (total : sum.toNat = (left.toNat + right.toNat + carry.toNat) % 256) :
    ((left ^^^ right ^^^ sum) &&& 0x10 != 0) =
      decide (15 < left.toNat % 16 + right.toNat % 16 + carry.toNat) := by
  have place : (4 : Fin 8).val = 4 := rfl
  have masked := and_bit_bne 4 (left ^^^ right ^^^ sum)
  -- The bits of the operands occur twice and cancel, so that only the carry is left.
  refine masked.trans ?_
  rw [place, UInt8.toNat_xor, UInt8.toNat_xor, Nat.testBit_xor, Nat.testBit_xor,
    testBit_four_of_sum total, ← Bool.xor_assoc, Bool.xor_self, Bool.false_xor]

/-- Adding bytes gives the sum of their values. -/
theorem addWithCarry_agrees (left right : UInt8) (carry : Bool) :
    Agrees (addWithCarry left right carry)
      (exactSum left.toNat right.toNat carry.toNat) := by
  have leftBound := left.toNat_lt
  have rightBound := right.toNat_lt
  have carryBound := carry.toNat_le
  have wide : carry.toUInt16.toNat = carry.toNat := by cases carry <;> rfl
  -- The sum is formed in sixteen bits, so that it does not wrap before it is cut down to a byte.
  have total : (left.toUInt16 + right.toUInt16 + carry.toUInt16).toNat =
      left.toNat + right.toNat + carry.toNat := by
    simp only [UInt16.toNat_add, UInt8.toNat_toUInt16, wide]
    omega
  have value : (left.toUInt16 + right.toUInt16 + carry.toUInt16).toUInt8.toNat =
      (left.toNat + right.toNat + carry.toNat) % 256 := by
    rw [UInt16.toNat_toUInt8, total]
  refine ⟨value, ?_⟩
  -- The half carry is read off bit four, and the carry off the sum as it was before the cut.
  simp only [addWithCarry, exactSum, Flags.withResult_eq, xor_sum_bne value, value]
  simp only [GT.gt, UInt16.lt_iff_toNat_lt, total]
  rfl

/-- Subtracting bytes gives the difference of their values. -/
theorem subtractWithBorrow_agrees (left right : UInt8) (borrow : Bool) :
    Agrees (subtractWithBorrow left right borrow)
      (exactDifference left.toNat right.toNat borrow.toNat) := by
  have leftBound := left.toNat_lt
  have rightBound := right.toNat_lt
  -- What is added is 255 less the byte, and one more unless there is a borrow.
  have complement : (~~~right).toNat = 255 - right.toNat := UInt8.toNat_not right
  have negated : (!borrow).toNat + borrow.toNat = 1 := by cases borrow <;> rfl
  obtain ⟨value, flags⟩ := addWithCarry_agrees left (~~~right) (!borrow)
  simp only [exactSum, complement] at value flags
  have result : (left.toNat + (255 - right.toNat) + (!borrow).toNat) % 256 =
      ((left.toNat - right.toNat - borrow.toNat : Int) % 256).toNat := by omega
  -- The low digits leave a carry where they need no borrow, and so do the whole bytes.
  have half : 15 < left.toNat % 16 + (255 - right.toNat) % 16 + (!borrow).toNat ↔
      right.toNat % 16 + borrow.toNat ≤ left.toNat % 16 := by omega
  have whole : ¬ 255 < left.toNat + (255 - right.toNat) + (!borrow).toNat ↔
      left.toNat < right.toNat + borrow.toNat := by omega
  refine ⟨value.trans result, ?_⟩
  simp only [subtractWithBorrow, flags, exactDifference, result, half, ← whole, Flags.ofResult,
    decide_not]

/-- The flags of a logic operation are those of its result without a carry. -/
theorem logicFlags_eq (result : UInt8) (auxCarry : Bool) :
    logicFlags result auxCarry = .ofResult result.toNat auxCarry false :=
  -- The carry is cleared before the result is looked at.
  Flags.withResult_eq _ result

/-- Every operation on the accumulator agrees with whole numbers. -/
theorem Arithmetic.apply_agrees (flags : Flags) (accumulator operand : UInt8)
    (function : Arithmetic) :
    Agrees (function.apply flags accumulator operand)
      (function.exact accumulator.toNat operand.toNat flags.carry.toNat) := by
  -- The five sums and differences are the ones above, with a carry that may be fixed.
  cases function with
  | add => exact addWithCarry_agrees accumulator operand false
  | adc => exact addWithCarry_agrees accumulator operand flags.carry
  | sub => exact subtractWithBorrow_agrees accumulator operand false
  | sbb => exact subtractWithBorrow_agrees accumulator operand flags.carry
  | cmp => exact ⟨rfl, (subtractWithBorrow_agrees accumulator operand false).flags⟩
  -- The logic operations work bit by bit on bytes and on numbers alike.
  | ana =>
    have auxCarry : ((accumulator ||| operand) &&& 0x08 != 0) =
        (accumulator ||| operand).toNat.testBit 3 := and_bit_bne 3 _
    refine ⟨UInt8.toNat_and accumulator operand, ?_⟩
    simp only [apply, exact, logicFlags_eq, auxCarry, UInt8.toNat_and, UInt8.toNat_or]
  | xra =>
    refine ⟨UInt8.toNat_xor accumulator operand, ?_⟩
    simp only [apply, exact, logicFlags_eq, UInt8.toNat_xor]
  | ora =>
    refine ⟨UInt8.toNat_or accumulator operand, ?_⟩
    simp only [apply, exact, logicFlags_eq, UInt8.toNat_or]

/-! ### Counting and words -/

/-- Comparing the low digit of a byte is comparing a remainder. -/
theorem and_low_beq (value digit : UInt8) :
    (value &&& 0x0F == digit) = decide (value.toNat % 16 = digit.toNat) := by
  -- Two tests are equal if they succeed for the same bytes.
  rw [Bool.eq_iff_iff, beq_iff_eq, decide_eq_true_eq, ← UInt8.toNat_inj, toNat_and_low]

/-- Incrementing a byte adds one to its value. -/
theorem increment_agrees (flags : Flags) (value : UInt8) :
    Agrees (increment flags value) (exactIncrement value.toNat flags.carry) := by
  -- Whether the low digit has carried shows in the result.
  have result : (value + 1).toNat = (value.toNat + 1) % 256 := UInt8.toNat_add value 1
  refine ⟨result, ?_⟩
  simp only [increment, exactIncrement, Flags.withResult_eq, and_low_beq, result]
  rfl

/-- Decrementing a byte takes one from its value. -/
theorem decrement_agrees (flags : Flags) (value : UInt8) :
    Agrees (decrement flags value) (exactDecrement value.toNat flags.carry) := by
  have bound := value.toNat_lt
  -- Below zero the byte wraps, and the integer is brought back into range.
  have result : (value - 1).toNat = ((value.toNat - 1 : Int) % 256).toNat := by
    rw [UInt8.toNat_sub, UInt8.toNat_one]
    omega
  refine ⟨result, ?_⟩
  simp only [decrement, exactDecrement, Flags.withResult_eq, bne, and_low_beq, result, decide_not]
  rfl

/-- Adding words gives their sum, and the carry where that needs a seventeenth bit. -/
theorem addWords_eq (left right : UInt16) :
    addWords left right =
      (.ofNat ((left.toNat + right.toNat) % 65536), decide (65535 < left.toNat + right.toNat)) := by
  have leftBound := left.toNat_lt
  have rightBound := right.toNat_lt
  -- The word is the sum without its seventeenth bit.
  have sum : left + right = .ofNat ((left.toNat + right.toNat) % 65536) := by
    apply UInt16.toNat_inj.mp
    rw [UInt16.toNat_add, UInt16.toNat_ofNat', Nat.mod_mod]
  -- A sum that wrapped is less than what was added to.
  have wrapped : left + right < left ↔ 65535 < left.toNat + right.toNat := by
    rw [UInt16.lt_iff_toNat_lt, UInt16.toNat_add]
    omega
  rw [addWords, ← sum]
  simp only [wrapped]

end Intel8080
