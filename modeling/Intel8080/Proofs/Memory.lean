import Intel8080.Bus
import Mathlib.Order.Bounds.Defs

/-!
What a load leaves in memory.

Its bytes go to one address after the other, and where it comes round to an address again the last
byte counts.
-/

namespace Intel8080

namespace Memory

/-- The byte with an index, in a load from an address on, goes to a place. -/
def Lands (address place : UInt16) (index : Nat) : Prop :=
  (address.toNat + index) % 65536 = place.toNat

/-- The first byte goes to the address itself. -/
theorem lands_zero_iff {address place : UInt16} : Lands address place 0 ↔ place = address := by
  -- Addresses are below the size of memory and so are their own remainders.
  have bound := address.toNat_lt
  rw [Lands, ← UInt16.toNat_inj]
  omega

/-- Behind the first byte the others go where a load from the next address puts them. -/
theorem lands_succ_iff {address place : UInt16} {index : Nat} :
    Lands address place (index + 1) ↔ Lands (address + 1) place index := by
  -- One more in the index is one more in the address, up to a multiple of the size.
  simp only [Lands, UInt16.toNat_add, UInt16.reduceToNat]
  omega

/-- A place holds this byte after a load over a memory. -/
inductive Settled (before : Memory) (address : UInt16) (bytes : List UInt8) (place : UInt16)
    (byte : UInt8) : Prop
  /-- It is the last of the bytes that go there. -/
  | last (index : Nat)
      (greatest : IsGreatest {index | index < bytes.length ∧ Lands address place index} index)
      (same : bytes[index]? = some byte)
  /-- None of the bytes goes there, and it is the one that was there before. -/
  | kept (untouched : ∀ index < bytes.length, ¬ Lands address place index)
      (same : before.read place = byte)

/-- Every place holds the byte that settled there. -/
theorem settled_load (memory : Memory) (address : UInt16) (bytes : List UInt8) (place : UInt16) :
    Settled memory address bytes place ((memory.load address bytes).read place) := by
  induction bytes generalizing memory address with
  | nil => exact .kept nofun rfl
  | cons byte rest ih =>
    -- The first byte is written before the others, which any of them may write over.
    rw [load]
    cases ih (memory.write address byte) (address + 1) with
    | last index greatest same =>
      obtain ⟨⟨within, lands⟩, others⟩ := greatest
      refine .last (index + 1) ⟨⟨Nat.succ_lt_succ within, lands_succ_iff.mpr lands⟩, ?_⟩ same
      -- An index in the whole load is either that of the first byte or one more than in the rest.
      rintro other ⟨within', lands'⟩
      cases other with
      | zero => exact Nat.zero_le _
      | succ other =>
        exact Nat.succ_le_succ (others ⟨Nat.lt_of_succ_lt_succ within', lands_succ_iff.mp lands'⟩)
    | kept untouched same =>
      rw [← same, read_write]
      -- Only the first byte can have gone to the place.
      have later : ∀ index, index + 1 < (byte :: rest).length →
          ¬ Lands address place (index + 1) := fun index within lands =>
        untouched index (Nat.lt_of_succ_lt_succ within) (lands_succ_iff.mp lands)
      by_cases here : place = address
      · rw [if_pos here]
        refine .last 0 ⟨⟨Nat.succ_pos _, lands_zero_iff.mpr here⟩, ?_⟩ rfl
        rintro other ⟨within, lands⟩
        cases other with
        | zero => exact Nat.le_refl 0
        | succ other => exact absurd lands (later other within)
      · rw [if_neg here]
        refine .kept (fun index within lands => ?_) rfl
        cases index with
        | zero => exact here (lands_zero_iff.mp lands)
        | succ index => exact later index within lands

/-- A loaded byte is read back, unless there are so many that later ones come round to it. -/
theorem read_load_offset (memory : Memory) {address : UInt16} {bytes : List UInt8}
    (fits : bytes.length ≤ 65536) (offset : Nat) {byte : UInt8}
    (there : bytes[offset]? = some byte) :
    (memory.load address bytes).read (address + .ofNat offset) = byte := by
  have within : offset < bytes.length := (List.getElem?_eq_some_iff.mp there).1
  -- The byte goes to that place by its index.
  have lands : Lands address (address + .ofNat offset) offset := by
    simp only [Lands, UInt16.toNat_add, UInt16.toNat_ofNat']
    omega
  cases memory.settled_load address bytes (address + .ofNat offset) with
  | last index greatest same =>
    -- Two bytes that go to one place are a whole memory apart.
    obtain ⟨⟨within', lands'⟩, _⟩ := greatest
    have one : index = offset := by
      simp only [Lands] at lands lands'
      omega
    exact Option.some.inj (same.symm.trans (one ▸ there))
  | kept untouched _ => exact absurd lands (untouched offset within)

end Memory

namespace Bus

variable {δ : Type}

/--
After a load every address holds the last byte that went there, or the one that was there before.

Bytes loaded in one go are loaded as well in two, and no slot is touched.
-/
theorem load_last_wins (bus : Bus δ) (address : UInt16) (bytes : List UInt8) :
    (∀ place, bus.memory.Settled address bytes place ((bus.load address bytes).memory.read place)) ∧
      (∀ more, bus.load address (bytes ++ more) =
        (bus.load address bytes).load (.ofNat (address.toNat + bytes.length)) more) ∧
      (bus.load address bytes).ports = bus.ports := by
  refine ⟨bus.memory.settled_load address bytes, fun more => ?_, rfl⟩
  rw [load, Memory.load_append, UInt16.ofNat_add, UInt16.ofNat_toNat]
  rfl

end Bus

end Intel8080
