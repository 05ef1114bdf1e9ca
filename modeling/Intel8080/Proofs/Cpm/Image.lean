import Intel8080.Proofs.Cpm.Budget
import Intel8080.Proofs.Machine.Routing
import Intel8080.Proofs.Machine.Stream

/-!
What memory a program starts from.

The two traps, the bytes of the program and zeros share it out between them, so that zeros behind a
program make no difference to it.
-/

namespace Intel8080

/-- A range that does not run past the top of memory holds the addresses between its ends. -/
theorem within_iff {address start : UInt16} {count : Nat} (fits : start.toNat + count ≤ 65536) :
    Within address start count ↔
      start.toNat ≤ address.toNat ∧ address.toNat < start.toNat + count := by
  -- The distance from the start does not wrap, since the range ends below the top.
  have addressBound := address.toNat_lt
  have startBound := start.toNat_lt
  simp only [Within, UInt16.toNat_sub]
  omega

namespace Cpm

/-- The addresses of the traps. -/
def trapAddresses : List UInt16 :=
  [0x0000, 0x0001, 0x0005, 0x0006, 0x0007]

/-- The memory holds the traps and a program, and nothing else. -/
structure Laid (program : List UInt8) (memory : Memory) : Prop where
  /-- OUT to the finish port is where the system would be restarted. -/
  finish : memory.read 0x0000 = 0xD3 ∧ memory.read 0x0001 = 0x00
  /-- OUT to the console port and RET are where the system would be called. -/
  system : memory.read 0x0005 = 0xD3 ∧ memory.read 0x0006 = 0x01 ∧ memory.read 0x0007 = 0xC9
  /-- The program stands above them, and ends at the top of memory at the latest. -/
  above : ∀ (index : Nat) (within : index < program.length),
    0x0100 + index ≤ 0xFFFF ∧ memory.read (.ofNat (0x0100 + index)) = program[index]
  /-- Everything else is zero. -/
  blank : ∀ address ∉ trapAddresses,
    ¬ (0x0100 ≤ address.toNat ∧ address.toNat < 0x0100 + program.length) →
      memory.read address = 0

/-- Any other address lies in neither of the traps. -/
theorem not_within_traps {address : UInt16} (other : address ∉ trapAddresses) :
    ¬ Within address 0 warmBootTrap.length ∧ ¬ Within address systemEntry systemTrap.length := by
  -- Two bytes from zero and three bytes from five are the five addresses.
  have starts : (0 : UInt16).toNat = 0 ∧ systemEntry.toNat = 5 := ⟨rfl, rfl⟩
  have sizes : warmBootTrap.length = 2 ∧ systemTrap.length = 3 := ⟨rfl, rfl⟩
  simp only [trapAddresses, List.mem_cons, List.not_mem_nil, or_false, ← UInt16.toNat_inj,
    UInt16.reduceToNat] at other
  rw [within_iff (by decide), within_iff (by decide), starts.1, starts.2, sizes.1, sizes.2]
  omega

section Image

variable {program : List UInt8}

/-- What is in neither of the traps is what was there when only the program was loaded. -/
theorem read_image_of_other {address : UInt16} (other : address ∉ trapAddresses) :
    (image program).read address = (Memory.zero.load programStart program).read address := by
  -- Both traps are loaded elsewhere.
  obtain ⟨finish, system⟩ := not_within_traps other
  rw [image, Memory.read_load _ system, Memory.read_load _ finish]

/-- The image of a program that fits is laid out like that. -/
theorem laid_image (fits : program.length ≤ 65280) : Laid program (image program) := by
  have start : programStart.toNat = 0x0100 := rfl
  -- The second trap is loaded last, and it does not reach down to the first one.
  have first (offset : Nat) (byte : UInt8) (there : warmBootTrap[offset]? = some byte)
      (apart : ¬ Within (0 + .ofNat offset) systemEntry systemTrap.length) :
      (image program).read (0 + .ofNat offset) = byte := by
    rw [image, Memory.read_load _ apart]
    exact Memory.read_load_offset _ (by decide) offset there
  have second (offset : Nat) (byte : UInt8) (there : systemTrap[offset]? = some byte) :
      (image program).read (systemEntry + .ofNat offset) = byte :=
    Memory.read_load_offset _ (by decide) offset there
  refine
    { finish := ⟨first 0 _ rfl (by decide), first 1 _ rfl (by decide)⟩
      system := ⟨second 0 _ rfl, second 1 _ rfl, second 2 _ rfl⟩
      above := fun index within => ⟨by omega, ?above⟩
      blank := fun address other free => ?blank }
  case above =>
    -- A byte of the program stands at an address above the traps.
    have address : UInt16.ofNat (0x0100 + index) = programStart + .ofNat index :=
      UInt16.ofNat_add _ _
    have place : (UInt16.ofNat (0x0100 + index)).toNat = 0x0100 + index :=
      UInt16.toNat_ofNat_of_lt' (by change 0x0100 + index < 65536; omega)
    have other : UInt16.ofNat (0x0100 + index) ∉ trapAddresses := by
      simp only [trapAddresses, List.mem_cons, List.not_mem_nil, or_false, ← UInt16.toNat_inj,
        UInt16.reduceToNat, place]
      omega
    rw [read_image_of_other other, address]
    exact Memory.read_load_offset _ (Nat.le_trans fits (by decide)) index
      (List.getElem?_eq_getElem within)
  case blank =>
    -- Outside of the program too, nothing has been written.
    have outside : ¬ Within address programStart program.length := by
      rw [within_iff (by omega), start]
      exact free
    rw [read_image_of_other other, Memory.read_load _ outside, Memory.read_zero]

/-- There is only one memory laid out for a program. -/
theorem Laid.unique {memory other : Memory} (laid : Laid program memory)
    (laid' : Laid program other) : memory = other := by
  -- Two memories are the same if every address holds the same byte.
  ext address
  -- The addresses of the traps have bytes of their own.
  by_cases trap : address ∈ trapAddresses
  · simp only [trapAddresses, List.mem_cons, List.not_mem_nil, or_false] at trap
    rcases trap with rfl | rfl | rfl | rfl | rfl
    · rw [laid.finish.1, laid'.finish.1]
    · rw [laid.finish.2, laid'.finish.2]
    · rw [laid.system.1, laid'.system.1]
    · rw [laid.system.2.1, laid'.system.2.1]
    · rw [laid.system.2.2, laid'.system.2.2]
  · by_cases own : 0x0100 ≤ address.toNat ∧ address.toNat < 0x0100 + program.length
    · -- The address is that of a byte of the program.
      have within : address.toNat - 0x0100 < program.length := by omega
      have place : UInt16.ofNat (0x0100 + (address.toNat - 0x0100)) = address := by
        rw [Nat.add_sub_cancel' own.1, UInt16.ofNat_toNat]
      have read := (laid.above _ within).2
      have read' := (laid'.above _ within).2
      rw [place] at read read'
      rw [read, read']
    · -- What is left is zero in both.
      rw [laid.blank address trap own, laid'.blank address trap own]

/-- Zeros behind a program are laid out as if they were not there. -/
theorem Laid.of_append_zeros {memory : Memory} {count : Nat}
    (laid : Laid (program ++ .replicate count 0) memory) : Laid program memory where
  finish := laid.finish
  system := laid.system
  above index within := by
    -- A byte of the program keeps its index when zeros follow.
    have within' : index < (program ++ List.replicate count 0).length := by
      rw [List.length_append]
      omega
    rw [← List.getElem_append_left within]
    exact laid.above index within'
  blank address other free := by
    by_cases own : 0x0100 ≤ address.toNat ∧
        address.toNat < 0x0100 + (program ++ List.replicate count 0).length
    · -- It is one of the zeros.
      have within : address.toNat - 0x0100 < (program ++ List.replicate count 0).length := by omega
      have place : UInt16.ofNat (0x0100 + (address.toNat - 0x0100)) = address := by
        rw [Nat.add_sub_cancel' own.1, UInt16.ofNat_toNat]
      have read := (laid.above _ within).2
      rw [place, List.getElem_append_right (by omega), List.getElem_replicate] at read
      exact read
    · -- It lies outside of the padded program as well.
      exact laid.blank address other own

/-- Zeros behind a program do not change its image, as long as they fit. -/
theorem image_append_zeros {count : Nat} (fits : program.length + count ≤ 65280) :
    image (program ++ .replicate count 0) = image program := by
  -- The padded image is laid out for the padded program, and hence for the program itself.
  have padded : Laid (program ++ .replicate count 0) (image (program ++ .replicate count 0)) := by
    refine laid_image ?_
    rw [List.length_append, List.length_replicate]
    exact fits
  exact padded.of_append_zeros.unique (laid_image (Nat.le_of_add_right_le fits))

end Image

section Run

/--
A program is refused exactly if it is too long, and otherwise memory holds it and the two traps.

Zeros behind it then make no difference: its run ends in the same way and has the same report,
whatever the policy and the limit.
-/
theorem load_exact {δ : Type} (config : Config) :
    (load (δ := δ) config.program = .error (.tooLarge config.program.length) ↔
      65280 < config.program.length) ∧
    (config.program.length ≤ 65280 → ∃ bus : Bus δ, load config.program = .ok bus ∧
      (∀ port, bus.isBound port = false) ∧ Laid config.program bus.memory) ∧
    ∀ count, config.program.length + count ≤ 65280 →
      (run { config with program := config.program ++ .replicate count 0 }).map Run.report =
        (run config).map Run.report := by
  have capacity : programCapacity = 65280 := by decide
  rw [← capacity]
  refine ⟨?_, fun fits => ?_, fun count fits => ?_⟩
  · -- The length is the only reason to refuse a program.
    by_cases long : programCapacity < config.program.length
    · rw [load, if_pos long]
      exact iff_of_true rfl long
    · rw [load, if_neg long]
      exact iff_of_false nofun long
  · -- A bus that has only been loaded has no devices yet.
    refine ⟨{ memory := image config.program }, if_neg (Nat.not_lt.mpr fits), fun port => ?_,
      laid_image (capacity ▸ fits)⟩
    exact Bus.isBound_of_free _ port fun slot _ => Vector.getElem_replicate slot.isLt
  · -- The machines start from the same memory, so they run side by side.
    have same : image (config.program ++ .replicate count 0) = image config.program :=
      image_append_zeros (capacity ▸ fits)
    have loadedSame : loaded { config with program := config.program ++ .replicate count 0 } =
        loaded config := by
      rw [loaded, loaded, same]
    have together : ∀ passed, Together
        (loaded { config with program := config.program ++ .replicate count 0 }) (loaded config)
        passed := by
      rw [loadedSame]
      exact fun _ _ _ => ⟨rfl, rfl⟩
    refine report_of_together ?_ (Nat.le_of_add_right_le fits) together rfl
    rw [List.length_append, List.length_replicate]
    exact fits

/-- A program that consists of HLT can be filled up with zeros to the top of memory. -/
theorem haltingProgram_filled :
    haltingProgram.program.length ≤ 65280 ∧ haltingProgram.program.length + 65279 ≤ 65280 ∧
      (∃ bus : Bus Trap, load haltingProgram.program = .ok bus ∧
        (∀ port, bus.isBound port = false) ∧ Laid haltingProgram.program bus.memory) ∧
      ∃ result, run { haltingProgram with
        program := haltingProgram.program ++ .replicate 65279 0
        limit := some 100 } = .ok result ∧
          result.report.stop = .halted ∧ result.report.instructions = 1 := by
  have fits : haltingProgram.program.length ≤ 65280 := by decide
  have room : haltingProgram.program.length + 65279 ≤ 65280 := by decide
  obtain ⟨_, loads, alike⟩ := load_exact (δ := Trap) { haltingProgram with limit := some 100 }
  refine ⟨fits, room, loads fits, ?_⟩
  -- The program itself halts with its first instruction.
  have small : (100 : UInt64).toNat + 18 ≤ UInt64.size := by decide
  obtain ⟨short, ended, _⟩ := exists_run fits small
  have reported := report_of_run ended (stopsAt_haltingProgram (by decide))
  have same := alike 65279 room
  rw [ended] at same
  -- So the filled program has that report too.
  cases filled : run { haltingProgram with
    program := haltingProgram.program ++ .replicate 65279 0
    limit := some 100 } with
  -- A run without a report would not have the same one.
  | error cause =>
    rw [filled] at same
    cases same
  | ok result =>
    rw [filled] at same
    have report : result.report = short.report := Except.ok.inj same
    exact ⟨result, rfl, by rw [report, reported]; rfl, by rw [report, reported]; rfl⟩

end Run

end Cpm

end Intel8080
