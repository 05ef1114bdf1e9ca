import Intel8080.Decimal

/-!
The texts that are counts.

Reading a text succeeds exactly when it writes a number below 2^64 in decimal digits.
-/

namespace Intel8080.Decimal

/-- A character is a decimal digit. -/
def IsDigit (char : Char) : Prop :=
  '0' ≤ char ∧ char ≤ '9'

instance (char : Char) : Decidable (IsDigit char) :=
  inferInstanceAs (Decidable (_ ∧ _))

/-- The number that digits write, continued from the number that others before them write. -/
def continued (before : Nat) (digits : List Char) : Nat :=
  digits.foldl (fun value digit => value * 10 + (digit.toNat - '0'.toNat)) before

/-- A text writes a count: one digit or more, with one plus sign allowed in front of them. -/
def Writes (text : List Char) (count : UInt64) : Prop :=
  ∃ digits, (text = digits ∨ text = '+' :: digits) ∧ digits ≠ [] ∧
    (∀ digit ∈ digits, IsDigit digit) ∧ continued 0 digits = count.toNat

/-- Further digits never make a number smaller. -/
theorem le_continued (before : Nat) (digits : List Char) : before ≤ continued before digits := by
  -- A digit multiplies by ten and adds something.
  induction digits generalizing before with
  | nil => exact Nat.le_refl before
  | cons digit rest ih =>
    have step : before ≤ before * 10 + (digit.toNat - '0'.toNat) := by omega
    exact Nat.le_trans step (ih _)

/-- The digits are the characters that have a value. -/
theorem digit?_eq (char : Char) :
    digit? char = if IsDigit char then some (char.toNat - '0'.toNat) else none := rfl

/-- Reading on succeeds exactly for digits whose number stays below 2^64, and gives that number. -/
theorem readDigits_eq_ok_iff {before : Nat} (bound : before < UInt64.size) (text : List Char)
    (count : UInt64) : readDigits before text = .ok count ↔
      (∀ digit ∈ text, IsDigit digit) ∧ continued before text = count.toNat := by
  -- The number read so far is left open, since each digit changes it.
  induction text generalizing before with
  | nil =>
    -- A number with room in 64 bits is kept as it is.
    have kept : UInt64.ofNat before = count ↔ before = count.toNat := by
      rw [← UInt64.toNat_inj, UInt64.toNat_ofNat_of_lt' bound]
    simp [readDigits, continued, kept]
  | cons char rest ih =>
    have onward : continued before (char :: rest) =
        continued (before * 10 + (char.toNat - '0'.toNat)) rest := rfl
    rw [readDigits, digit?_eq]
    by_cases digit : IsDigit char
    · -- A digit is added to the number, which has to fit.
      have member : (∀ other ∈ char :: rest, IsDigit other) ↔ ∀ other ∈ rest, IsDigit other := by
        simp [digit]
      rw [if_pos digit, onward, member]
      dsimp only
      split
      · rename_i fits
        exact ih fits
      · -- The number is already too large, and only grows from here.
        rename_i large
        have grown := le_continued (before * 10 + (char.toNat - '0'.toNat)) rest
        have small := count.toNat_lt_size
        constructor
        · intro read
          cases read
        · rintro ⟨_, same⟩
          omega
    · -- Any other character is refused, and no number is written with it.
      rw [if_neg digit]
      constructor
      · intro read
        cases read
      · intro ⟨digits, _⟩
        exact absurd (digits char (by simp)) digit

/-- Behind a plus sign there have to be digits, since the sign is none itself. -/
theorem writes_plus_iff (digits : List Char) (count : UInt64) :
    Writes ('+' :: digits) count ↔ digits ≠ [] ∧ (∀ digit ∈ digits, IsDigit digit) ∧
      continued 0 digits = count.toNat := by
  constructor
  · -- The sign belongs to the text, not to the digits.
    rintro ⟨written, rfl | same, some, all, value⟩
    · exact absurd (all '+' (by simp)) (by decide)
    · obtain rfl : digits = written := (List.cons.inj same).2
      exact ⟨some, all, value⟩
  · rintro ⟨some, all, value⟩
    -- Such digits are written with the sign in front.
    exact ⟨digits, .inr rfl, some, all, value⟩

/-- A text without a plus sign in front has to consist of digits. -/
theorem writes_iff {text : List Char} (unsigned : ∀ digits, text ≠ '+' :: digits)
    (count : UInt64) : Writes text count ↔ text ≠ [] ∧ (∀ digit ∈ text, IsDigit digit) ∧
      continued 0 text = count.toNat := by
  constructor
  · -- Without the sign the text is the digits.
    rintro ⟨written, rfl | same, some, all, value⟩
    · exact ⟨some, all, value⟩
    · exact absurd same (unsigned written)
  · rintro ⟨some, all, value⟩
    -- Digits by themselves are written without a sign.
    exact ⟨text, .inl rfl, some, all, value⟩

/-- Reading gives a count exactly where the text writes it. -/
theorem read_eq_ok_iff (text : List Char) (count : UInt64) :
    read text = .ok count ↔ Writes text count := by
  -- From zero the digits alone decide, and zero has room in 64 bits.
  have digits : ∀ digits, readDigits 0 digits = .ok count ↔
      (∀ digit ∈ digits, IsDigit digit) ∧ continued 0 digits = count.toNat :=
    fun digits => readDigits_eq_ok_iff (by decide) digits count
  -- The reader looks for the sign first, and both without and with it for something to read.
  unfold read
  split
  · -- An empty text writes nothing.
    rw [writes_iff (by simp)]
    simp
  · -- Neither does a sign by itself.
    rw [writes_plus_iff]
    simp
  · -- Behind a sign the digits are read.
    rename_i more missing
    rw [digits, writes_plus_iff]
    simp [show more ≠ [] from missing]
  · -- Without one the whole text is read.
    rename_i empty unsigned signed
    rw [digits, writes_iff signed]
    simp [show text ≠ [] from empty]

/-- A text writes one count at most. -/
theorem Writes.unique {text : List Char} {count count' : UInt64} (writes : Writes text count)
    (writes' : Writes text count') : count = count' := by
  -- Reading gives one answer.
  rw [← read_eq_ok_iff] at writes writes'
  exact Except.ok.inj (writes.symm.trans writes')

end Intel8080.Decimal
