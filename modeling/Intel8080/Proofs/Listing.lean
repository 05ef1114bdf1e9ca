import Intel8080.Message
import Intel8080.Proofs.Machine.Stream

/-!
What a listing line tells.

Its columns are fixed, so that the address, the code and the operand can be read back from it, and
two lines are the same only if these are.
-/

namespace Intel8080

namespace Hex

/-- The upper-case digits in the order of their values. -/
def numerals : Vector Char 16 :=
  #v['0', '1', '2', '3', '4', '5', '6', '7', '8', '9', 'A', 'B', 'C', 'D', 'E', 'F']

/-- The last digits of a number, so many of them, the most significant one first. -/
def digits : Nat → Nat → List Char
  | 0, _ => []
  | count + 1, value => digits count (value / 16) ++ [numerals.get (.ofNat 16 value)]

/-- There are as many digits as were asked for. -/
theorem length_digits (count value : Nat) : (digits count value).length = count := by
  -- Each step puts one digit behind those of the quotient.
  induction count generalizing value with
  | zero => rfl
  | succ count ih => rw [digits, List.length_append, ih, List.length_singleton]

/-- The number that digits stand for, the most significant one first. -/
def number? (text : List Char) : Option Nat :=
  text.foldlM (fun value char => (value? char).map (16 * value + ·)) 0

/-- A digit is found at the place of its value. -/
theorem digit_mod (value : Nat) : digit (value % 16) = numerals.get (.ofNat 16 value) := by
  -- There are sixteen digits to look up.
  have all : ∀ small : Fin 16, digit small.val = numerals.get small := by decide
  exact all (.ofNat 16 value)

/-- A byte is written with its last two digits. -/
theorem byteDigits_eq (value : UInt8) : byteDigits value = digits 2 value.toNat := by
  have bound := value.toNat_lt
  -- The high digit of a byte needs no remainder.
  have high : value.toNat / 16 = value.toNat / 16 % 16 := by omega
  simp only [digits, ← digit_mod]
  rw [← high]
  rfl

/-- The last two digits of a number are those of its low byte. -/
theorem digits_two_mod (value : Nat) : digits 2 (value % 256) = digits 2 value := by
  -- The remainder by 256 keeps both of the digits.
  have high : value % 256 / 16 % 16 = value / 16 % 16 := by omega
  have low : value % 256 % 16 = value % 16 := by omega
  simp only [digits, ← digit_mod, high, low]

/-- A word is written with its last four digits. -/
theorem wordDigits_eq (value : UInt16) : wordDigits value = digits 4 value.toNat := by
  -- Its two bytes are written one after the other, the high one first.
  rw [wordDigits, byteDigits_eq, byteDigits_eq, toNat_highByte, toNat_lowByte, digits_two_mod]
  simp only [digits, Nat.div_div_eq_div_mul]
  rfl

/-- Digits are read back as the number, as far as they hold it. -/
theorem number?_digits (count value : Nat) :
    number? (digits count value) = some (value % 16 ^ count) := by
  induction count generalizing value with
  | zero => rw [Nat.pow_zero, Nat.mod_one]; rfl
  | succ count ih =>
    -- The digits in front are those of the quotient, and the last one is the remainder.
    have last : value? (numerals.get (.ofNat 16 value)) = some (value % 16) := by
      rw [← digit_mod]
      exact value?_digit _ (Nat.mod_lt _ (by decide))
    have front := ih (value / 16)
    rw [number?] at front
    rw [digits, number?, List.foldlM_append, front, Nat.pow_succ', Nat.mod_mul, Nat.add_comm]
    simp only [Option.bind_eq_bind, Option.bind_some, List.foldlM_cons, List.foldlM_nil, last,
      Option.map_some]
    rfl

end Hex

namespace Instruction

/-- The number of operand bytes that the code takes. -/
def operandCount (instruction : Instruction) : Nat :=
  instruction.operation.width.count

/-- The operand as far as the code takes it. -/
def declared (instruction : Instruction) : Nat :=
  instruction.operand.toNat % 256 ^ instruction.operandCount

/-- What separates the operand from the mnemonic: a comma if that names an operand already. -/
def separator (instruction : Instruction) : Char :=
  if ' ' ∈ instruction.mnemonic.toList then ',' else ' '

/-- The columns of the listing line of an instruction at an address. -/
structure Columns (instruction : Instruction) (address : UInt16) (line : List Char) : Prop where
  address : line.extract 0 4 = Hex.digits 4 address.toNat
  code : line.extract 6 8 = Hex.digits 2 instruction.code.toNat
  /-- The operand bytes stand in the order they have in memory, the low one first. -/
  bytes : ∀ index < instruction.operandCount, line.extract (9 + 3 * index) (11 + 3 * index) =
    Hex.digits 2 (instruction.operand.toNat / 256 ^ index % 256)
  /-- There is nothing else in front of the mnemonic. -/
  blank : ∀ column, 4 ≤ column → column < 16 → column ≠ 6 → column ≠ 7 →
    (∀ index < instruction.operandCount, column ≠ 9 + 3 * index ∧ column ≠ 10 + 3 * index) →
      line.extract column (column + 1) = [' ']
  /-- The operand follows the mnemonic, with its digits in the usual order. -/
  mnemonic : line.drop 16 = instruction.mnemonic.toList ++
    if instruction.operandCount = 0 then []
    else instruction.separator ::
      Hex.digits (2 * instruction.operandCount) instruction.declared ++ ['h']

/-- The number that so many byte columns hold from a column on, the low byte first. -/
def littleEndian? (line : List Char) (column : Nat) : Nat → Option Nat
  | 0 => some 0
  | count + 1 => do
    let low ← Hex.number? (line.extract column (column + 2))
    let high ← littleEndian? line (column + 3) count
    return low + 256 * high

/-- Reads a line by its columns: the address, the code, and the operand that the code takes. -/
def ofListing? (line : List Char) : Option (UInt16 × UInt8 × Nat) := do
  let address ← Hex.number? (line.extract 0 4)
  let code ← Hex.number? (line.extract 6 8)
  let operand ← littleEndian? line 9 (Operation.ofCode (.ofNat code)).width.count
  return (.ofNat address, .ofNat code, operand)

/-! ### The columns of each width -/

section Width

variable {instruction : Instruction} (address : UInt16)

/-- The line of an instruction without an operand. -/
theorem listing_of_none (width : instruction.operation.width = .none) :
    instruction.listing address = Hex.wordDigits address ++ ' ' :: ' ' ::
      Hex.byteDigits instruction.code ++ .replicate 8 ' ' ++ instruction.mnemonic.toList := by
  -- The byte columns are padded to their full width.
  simp only [listing, byteColumns, operandBytes, operandSeparator, operandDigits, width,
    List.append_nil]
  rfl

/-- The line of an instruction with a byte as its operand. -/
theorem listing_of_byte (width : instruction.operation.width = .byte) :
    instruction.listing address = Hex.wordDigits address ++ ' ' :: ' ' ::
      Hex.byteDigits instruction.code ++ ' ' :: Hex.byteDigits instruction.byte ++
        .replicate 5 ' ' ++ (instruction.mnemonic.toList ++
          (instruction.separator :: Hex.byteDigits instruction.byte ++ ['h'])) := by
  -- Whether the mnemonic names an operand decides the separator in both texts.
  simp only [listing, byteColumns, operandBytes, operandSeparator, operandDigits, width, separator]
  split <;> simp [List.rightpad]

/-- The line of an instruction with a word as its operand. -/
theorem listing_of_word (width : instruction.operation.width = .word) :
    instruction.listing address = Hex.wordDigits address ++ ' ' :: ' ' ::
      Hex.byteDigits instruction.code ++ ' ' :: Hex.byteDigits (lowByte instruction.operand) ++
        ' ' :: Hex.byteDigits (highByte instruction.operand) ++ .replicate 2 ' ' ++
          (instruction.mnemonic.toList ++
            (instruction.separator :: Hex.wordDigits instruction.operand ++ ['h'])) := by
  -- The order of the bytes differs between the columns and the text behind the mnemonic.
  simp only [listing, byteColumns, operandBytes, operandSeparator, operandDigits, width, separator]
  split <;> simp [List.rightpad]

/-- Without an operand the columns from 8 on are blank. -/
theorem columns_of_none (width : instruction.operation.width = .none) :
    instruction.Columns address (instruction.listing address) := by
  -- No byte column is taken, so only the blanks have to be looked at.
  have count : instruction.operandCount = 0 := congrArg Width.count width
  rw [listing_of_none address width]
  refine
    { address := Hex.wordDigits_eq address
      code := Hex.byteDigits_eq instruction.code
      bytes := fun index within => absurd (count ▸ within) (Nat.not_lt_zero index)
      blank := fun column after before six seven _ => ?blank
      mnemonic := ?mnemonic }
  case blank =>
    -- The margin is finite, and none of its other columns depends on the digits.
    obtain rfl | rfl | rfl | rfl | rfl | rfl | rfl | rfl | rfl | rfl :
        column = 4 ∨ column = 5 ∨ column = 8 ∨ column = 9 ∨ column = 10 ∨ column = 11 ∨
          column = 12 ∨ column = 13 ∨ column = 14 ∨ column = 15 := by omega
    all_goals rfl
  case mnemonic =>
    rw [if_pos count, List.append_nil]
    rfl

/-- A byte takes columns 9 and 10, and it is written once more behind the mnemonic. -/
theorem columns_of_byte (width : instruction.operation.width = .byte) :
    instruction.Columns address (instruction.listing address) := by
  have count : instruction.operandCount = 1 := congrArg Width.count width
  have low : Hex.byteDigits instruction.byte = Hex.digits 2 (instruction.operand.toNat % 256) := by
    rw [Hex.byteDigits_eq, byte, toNat_lowByte]
  rw [listing_of_byte address width]
  refine
    { address := Hex.wordDigits_eq address
      code := Hex.byteDigits_eq instruction.code
      bytes := fun index within => ?bytes
      blank := fun column after before six seven free => ?blank
      mnemonic := ?mnemonic }
  case bytes =>
    obtain rfl : index = 0 := by omega
    rw [Nat.pow_zero, Nat.div_one]
    exact low
  case blank =>
    -- Columns 9 and 10 are taken.
    have outside := free 0 (by omega)
    obtain rfl | rfl | rfl | rfl | rfl | rfl | rfl | rfl :
        column = 4 ∨ column = 5 ∨ column = 8 ∨ column = 11 ∨ column = 12 ∨ column = 13 ∨
          column = 14 ∨ column = 15 := by omega
    all_goals rfl
  case mnemonic =>
    rw [if_neg (by omega), declared, count, Nat.pow_one, Nat.mul_one, ← low]
    rfl

/-- A word takes columns 9, 10, 12 and 13, and behind the mnemonic its high byte comes first. -/
theorem columns_of_word (width : instruction.operation.width = .word) :
    instruction.Columns address (instruction.listing address) := by
  have count : instruction.operandCount = 2 := congrArg Width.count width
  have bound := instruction.operand.toNat_lt
  rw [listing_of_word address width]
  refine
    { address := Hex.wordDigits_eq address
      code := Hex.byteDigits_eq instruction.code
      bytes := fun index within => ?bytes
      blank := fun column after before six seven free => ?blank
      mnemonic := ?mnemonic }
  case bytes =>
    -- The low byte is first, as it is in memory.
    obtain rfl | rfl : index = 0 ∨ index = 1 := by omega
    · refine (Hex.byteDigits_eq (lowByte instruction.operand)).trans ?_
      rw [toNat_lowByte, Nat.pow_zero, Nat.div_one]
    · refine (Hex.byteDigits_eq (highByte instruction.operand)).trans ?_
      rw [toNat_highByte, Nat.pow_one, Hex.digits_two_mod]
  case blank =>
    -- Columns 9, 10, 12 and 13 are taken.
    have low := free 0 (by omega)
    have high := free 1 (by omega)
    obtain rfl | rfl | rfl | rfl | rfl | rfl :
        column = 4 ∨ column = 5 ∨ column = 8 ∨ column = 11 ∨ column = 14 ∨ column = 15 := by omega
    all_goals rfl
  case mnemonic =>
    -- The four digits of the word start with those of its high byte.
    have whole : instruction.operand.toNat % 256 ^ 2 = instruction.operand.toNat :=
      Nat.mod_eq_of_lt bound
    rw [if_neg (by omega), declared, count, whole, ← Hex.wordDigits_eq]
    rfl

end Width

/-! ### Reading a line back -/

section Reading

variable {instruction : Instruction} {address : UInt16} {line : List Char}

/-- Every listing line has its columns. -/
theorem columns_listing (instruction : Instruction) (address : UInt16) :
    instruction.Columns address (instruction.listing address) := by
  -- The three widths are the three layouts of a line.
  cases width : instruction.operation.width with
  | none => exact columns_of_none address width
  | byte => exact columns_of_byte address width
  | word => exact columns_of_word address width

/-- The last byte columns hold what is left of the operand behind the others. -/
theorem Columns.littleEndian?_of_skipped (columns : instruction.Columns address line)
    {skipped count : Nat} (all : skipped + count = instruction.operandCount) :
    littleEndian? line (9 + 3 * skipped) count =
      some (instruction.operand.toNat / 256 ^ skipped % 256 ^ count) := by
  induction count generalizing skipped with
  | zero => rw [Nat.pow_zero, Nat.mod_one]; rfl
  | succ count ih =>
    -- The next column holds the low byte of what is left, and the others hold the rest of it.
    have behind : skipped + 1 + count = instruction.operandCount := by omega
    have low := columns.bytes skipped (by omega)
    rw [show 11 + 3 * skipped = 9 + 3 * skipped + 2 by omega] at low
    have rest : littleEndian? line (9 + 3 * skipped + 3) count =
        some (instruction.operand.toNat / 256 ^ (skipped + 1) % 256 ^ count) := ih behind
    rw [Nat.pow_succ, ← Nat.div_div_eq_div_mul] at rest
    simp only [littleEndian?, low, rest, Hex.number?_digits, Option.bind_eq_bind, Option.bind_some,
      Option.pure_def]
    rw [show 256 ^ (count + 1) = 256 * 256 ^ count from Nat.pow_succ', Nat.mod_mul,
      show 16 ^ 2 = 256 from rfl, Nat.mod_mod]

/-- All byte columns together hold the operand that the code takes. -/
theorem Columns.operand (columns : instruction.Columns address line) :
    littleEndian? line 9 instruction.operandCount = some instruction.declared := by
  -- No byte column is skipped here.
  have whole := columns.littleEndian?_of_skipped (Nat.zero_add _)
  rwa [Nat.pow_zero, Nat.div_one] at whole

/-- The address, the code and the operand are read back from a line. -/
theorem Columns.ofListing? (columns : instruction.Columns address line) :
    Instruction.ofListing? line = some (address, instruction.code, instruction.declared) := by
  -- The columns hold digits, and all digits can be read.
  have operand := columns.operand
  -- Four digits hold every address, and two every code.
  have place : address.toNat % 16 ^ 4 = address.toNat := Nat.mod_eq_of_lt address.toNat_lt
  have code : instruction.code.toNat % 16 ^ 2 = instruction.code.toNat :=
    Nat.mod_eq_of_lt instruction.code.toNat_lt
  rw [operandCount, operation] at operand
  simp only [Instruction.ofListing?, columns.address, columns.code, Hex.number?_digits,
    Option.bind_eq_bind, Option.bind_some, place, code, UInt16.ofNat_toNat, UInt8.ofNat_toNat,
    operand, Option.pure_def]

/-- The value behind the mnemonic is the operand as well. -/
theorem Columns.value (columns : instruction.Columns address line)
    (takes : 0 < instruction.operandCount) :
    Hex.number? (line.extract (17 + instruction.mnemonic.toList.length)
      (17 + instruction.mnemonic.toList.length + 2 * instruction.operandCount)) =
        some instruction.declared := by
  have behind := columns.mnemonic
  rw [if_neg (Nat.ne_of_gt takes)] at behind
  have digits : line.extract (17 + instruction.mnemonic.toList.length)
      (17 + instruction.mnemonic.toList.length + 2 * instruction.operandCount) =
        Hex.digits (2 * instruction.operandCount) instruction.declared := by
    -- They stand behind the margin, the mnemonic and the separator.
    have start : 17 + instruction.mnemonic.toList.length =
        16 + (instruction.mnemonic.toList.length + 1) := by omega
    rw [List.extract, Nat.add_sub_cancel_left, start, ← List.drop_drop, behind,
      List.drop_length_add_append]
    exact List.take_left' (Hex.length_digits _ _)
  -- The digits have room for all the bytes that the code takes.
  have room : instruction.declared < 16 ^ (2 * instruction.operandCount) := by
    rw [Nat.pow_mul]
    exact Nat.mod_lt _ (Nat.pow_pos (by decide))
  rw [digits, Hex.number?_digits, Nat.mod_eq_of_lt room]

/-- The line of a code does not depend on operand bytes that the code does not take. -/
theorem listing_congr {code : UInt8} {left right : UInt16} (address : UInt16)
    (same : declared ⟨code, left⟩ = declared ⟨code, right⟩) :
    listing ⟨code, left⟩ address = listing ⟨code, right⟩ address := by
  -- The width of the code decides how much of the operands is compared and how much is written.
  simp only [declared, operandCount, operation] at same
  cases width : (Operation.ofCode code).width with
  | none =>
    simp only [listing, byteColumns, operandBytes, operandSeparator, operandDigits, operation,
      width]
    rfl
  | byte =>
    have low : lowByte left = lowByte right := by
      rw [width] at same
      rw [← UInt8.toNat_inj, toNat_lowByte, toNat_lowByte]
      exact same
    simp only [listing, byteColumns, operandBytes, operandSeparator, operandDigits, operation,
      width, byte, low]
    rfl
  | word =>
    have whole : left = right := by
      rw [width] at same
      rw [← UInt16.toNat_inj, ← Nat.mod_eq_of_lt left.toNat_lt, ← Nat.mod_eq_of_lt right.toNat_lt]
      exact same
    rw [whole]

/-- Two lines are the same exactly if the addresses, the codes and the operands they take are. -/
theorem listing_eq_iff (left right : Instruction) (address place : UInt16) :
    left.listing address = right.listing place ↔
      address = place ∧ left.code = right.code ∧ left.declared = right.declared := by
  constructor
  · intro same
    -- Reading the one line gives both triples.
    have read := (columns_listing left address).ofListing?
    rw [same, (columns_listing right place).ofListing?] at read
    simpa [eq_comm] using read
  · obtain ⟨code, operand⟩ := left
    rintro ⟨rfl, rfl, same⟩
    exact listing_congr address same

/-- A fetched instruction has no operand bytes beyond those that its code takes. -/
theorem canonical_fetch (memory : Memory) (address : UInt16) :
    (memory.fetch address).Canonical := by
  simp only [Canonical, operation, Memory.code_fetch]
  cases width : (Operation.ofCode (memory.read address)).width with
  | none => simp [Memory.fetch, width, Width.count]
  | byte =>
    simp only [Memory.fetch, width, UInt8.toNat_toUInt16]
    exact (memory.read (address + 1)).toNat_lt
  | word => exact (memory.fetch address).operand.toNat_lt

/-- So a line is that of only one fetched instruction. -/
theorem listing_fetch_eq_iff (left right : Memory) (first second address place : UInt16) :
    (left.fetch first).listing address = (right.fetch second).listing place ↔
      address = place ∧ left.fetch first = right.fetch second := by
  have whole (memory : Memory) (start : UInt16) :
      (memory.fetch start).declared = (memory.fetch start).operand.toNat :=
    -- Its operand is all that its code takes.
    Nat.mod_eq_of_lt (canonical_fetch memory start)
  rw [listing_eq_iff, whole, whole, UInt16.toNat_inj]
  cases left.fetch first
  cases right.fetch second
  simp

/-- What a listing line tells of its instruction. -/
structure Listed (instruction : Instruction) (address : UInt16) : Prop where
  /-- The line is the text of a message. -/
  text : (Message.listing address instruction).text.toList = instruction.listing address
  columns : instruction.Columns address (instruction.listing address)
  /-- Reading the columns gives back the address, the code and the operand that it takes. -/
  read : Instruction.ofListing? (instruction.listing address) =
    some (address, instruction.code, instruction.declared)
  /-- The value behind the mnemonic is the one in the byte columns, whose low byte comes first. -/
  value : 0 < instruction.operandCount → ∃ value,
    littleEndian? (instruction.listing address) 9 instruction.operandCount = some value ∧
      Hex.number? ((instruction.listing address).extract (17 + instruction.mnemonic.toList.length)
        (17 + instruction.mnemonic.toList.length + 2 * instruction.operandCount)) = some value

/--
A line shows an instruction in fixed columns, from which it can be read back.

So the line determines the address and the instruction, up to operand bytes that its code does not
take; a fetched instruction has none of these.
-/
theorem listing_determines :
    (∀ instruction address, Listed instruction address) ∧
      (∀ (left right : Instruction) (address place : UInt16),
        left.listing address = right.listing place ↔
          address = place ∧ left.code = right.code ∧ left.declared = right.declared) ∧
      ∀ (left right : Memory) (first second address place : UInt16),
        (left.fetch first).listing address = (right.fetch second).listing place ↔
          address = place ∧ left.fetch first = right.fetch second := by
  refine ⟨fun instruction address => ?_, listing_eq_iff, listing_fetch_eq_iff⟩
  -- All that a line tells follows from its columns.
  have columns := columns_listing instruction address
  exact
    { text := String.toList_ofList
      columns := columns
      read := columns.ofListing?
      value := fun takes => ⟨_, columns.operand, columns.value takes⟩ }

/-- The operand of a jump starts with its low byte in the columns and with its high one behind. -/
example : listing ⟨0xC3, 0x1234⟩ 0x0100 = "0100  C3 34 12  JMP 1234h".toList := by
  decide

end Reading

end Instruction

end Intel8080
