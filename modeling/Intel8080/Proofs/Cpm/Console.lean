import Intel8080.Cpm.Trap
import Intel8080.Proofs.Session
import Mathlib.Data.List.Rotate
import Mathlib.Order.Bounds.Defs

/-!
What a console call prints.

A string ends before its first dollar sign, and without one it is all of memory once around.
-/

namespace Intel8080

namespace Memory

/-- So many bytes precede the first `stop` from `start` on, or they are all there are. -/
structure StopsAfter (memory : Memory) (stop : UInt8) (start : UInt16) (count : Nat) : Prop where
  bounded : count ≤ size
  before : ∀ offset < count, memory.read (start + .ofNat offset) ≠ stop
  stops : count < size → memory.read (start + .ofNat count) = stop

/-- Memory cut at an address, with its parts in the other order, is read from there once around. -/
theorem above_append_below (memory : Memory) (start : UInt16) :
    memory.bytes.data.toList.drop start.toNat ++ memory.bytes.data.toList.take start.toNat =
      memory.slice start size := by
  -- Memory has one byte for each address.
  have length : memory.bytes.data.toList.length = size := memory.size_bytes
  have within : start.toNat ≤ memory.bytes.data.toList.length :=
    length ▸ Nat.le_of_lt start.toNat_lt
  -- Exchanging the two parts rotates the list of all bytes.
  rw [← List.rotate_eq_drop_append_take within]
  refine List.ext_getElem (by rw [List.length_rotate, length, length_slice]) fun place _ _ => ?_
  -- The places of a rotated list wrap at its length, just as addresses do.
  have address : (start + UInt16.ofNat place).toNat = (place + start.toNat) % size := by
    rw [UInt16.toNat_add, UInt16.toNat_ofNat', Nat.add_mod_mod, Nat.add_comm]
    rfl
  simp only [List.getElem_rotate, slice, List.getElem_map, List.getElem_range, read, length,
    ByteArray.getElem_eq_getElem_data, address, Array.getElem_toList]

/-- The first bytes of a slice are a shorter slice. -/
theorem take_slice (memory : Memory) (start : UInt16) {count total : Nat} (within : count ≤ total) :
    (memory.slice start total).take count = memory.slice start count := by
  -- A slice reads one byte after the other from its start.
  rw [slice, slice, ← List.map_take, List.take_range, Nat.min_eq_left within]

/-- The bytes taken up to a `stop` are those that precede the first one. -/
theorem exists_stopsAfter (memory : Memory) (stop : UInt8) (start : UInt16) :
    ∃ count, memory.StopsAfter stop start count ∧
      memory.sliceUntil stop start = memory.slice start count := by
  -- Taking goes as far as the index of the first byte that is not passed over.
  obtain ⟨count, located⟩ : ∃ count, (memory.slice start size).findIdx (!· != stop) = count :=
    ⟨_, rfl⟩
  have length := memory.length_slice start size
  have within : count ≤ size := located ▸ Nat.le_trans List.findIdx_le_length (Nat.le_of_eq length)
  refine ⟨count, ⟨within, fun offset less => ?before, fun less => ?stops⟩, ?taken⟩
  case before =>
    -- Whatever stands in front of that index is passed over.
    have passed := List.not_of_lt_findIdx (located ▸ less)
    simpa [slice] using passed
  case stops =>
    -- If there is such an index, it is the one of the stop.
    have inside : (memory.slice start size).findIdx (!· != stop) <
        (memory.slice start size).length := by
      rw [located, length]
      exact less
    have found := List.findIdx_getElem (w := inside)
    rw [← located]
    simpa [slice] using found
  case taken =>
    -- Splitting at the start and chaining the parts is reading once around.
    rw [sliceUntil, List.splitAt_eq]
    dsimp only
    rw [above_append_below, List.takeWhile_eq_take_findIdx_not, located, take_slice _ _ within]

/-- Every address lies less than all of memory behind any other one. -/
theorem exists_offset (start address : UInt16) :
    ∃ offset < size, start + .ofNat offset = address := by
  -- The difference of the two addresses, which wraps as they do, is the offset.
  refine ⟨(address - start).toNat, (address - start).toNat_lt, ?_⟩
  rw [UInt16.ofNat_toNat, UInt16.add_comm, UInt16.sub_add_cancel]

/-- The bytes in front of a `stop` reach to the first one, or there is none in all of memory. -/
theorem StopsAfter.isLeast_or_absent {memory : Memory} {stop : UInt8} {start : UInt16}
    {count : Nat} (ends : memory.StopsAfter stop start count) :
    IsLeast {index | memory.read (start + .ofNat index) = stop} count ∨
      count = size ∧ ∀ address, memory.read address ≠ stop := by
  rcases Nat.lt_or_eq_of_le ends.bounded with below | whole
  · -- An index with a `stop` is not among those in front.
    refine .inl ⟨ends.stops below, fun index found => Nat.le_of_not_lt fun less => ?_⟩
    exact ends.before index less found
  · -- All addresses are in front.
    refine .inr ⟨whole, fun address => ?_⟩
    obtain ⟨offset, within, rfl⟩ := exists_offset start address
    exact ends.before offset (whole ▸ within)

end Memory

namespace Cpm

/-- The text is what the console function that C selects prints. -/
structure Prints (registers : Registers) (memory : Memory) (text : String) : Prop where
  /-- Function 2 prints the character in E. -/
  character : registers.c = 2 → text.toList = [.ofUInt8 registers.e]
  /-- Function 9 prints the bytes from DE up to the first dollar sign. -/
  string : registers.c = 9 → ∃ count, memory.StopsAfter '$'.toUInt8 registers.de count ∧
    text.toList = (List.range count).map fun offset =>
      .ofUInt8 (memory.read (registers.de + .ofNat offset))
  /-- No other function prints anything. -/
  nothing : registers.c ≠ 2 → registers.c ≠ 9 → text = ""

/-- The text that a console call prints. -/
def callText (registers : Registers) (memory : Memory) : String :=
  String.join ((consoleCall false registers memory).map Event.console)

/-- Whatever is emitted is printed once. -/
theorem console_emit (echo : Bool) (text : String) :
    String.join ((emit echo text).map Event.console) = text := by
  -- The event for the terminal, if there is one, prints nothing.
  cases echo <;> simp [emit, Event.console]

/-- It is shown on the terminal if it is to be echoed. -/
theorem echoed_emit (echo : Bool) (text : String) :
    String.join ((emit echo text).map Event.echoed) = if echo then text else "" := by
  -- Printing alone shows nothing.
  cases echo <;> simp [emit, Event.echoed]

/-- A console call prints the same whether or not it is echoed. -/
theorem console_consoleCall (echo : Bool) (registers : Registers) (memory : Memory) :
    String.join ((consoleCall echo registers memory).map Event.console) =
      callText registers memory := by
  -- Both calls part by the same function.
  unfold callText consoleCall
  split
  · -- A character is printed once, whether it is shown or not.
    rw [console_emit, console_emit]
  · -- So is a string.
    rw [console_emit, console_emit]
  · -- The message about an unknown function is the same.
    rfl

/-- If it is echoed, the terminal shows just what it prints. -/
theorem echoed_consoleCall (echo : Bool) (registers : Registers) (memory : Memory) :
    String.join ((consoleCall echo registers memory).map Event.echoed) =
      if echo then callText registers memory else "" := by
  -- The function says which text there is, and the echo whether it is shown.
  unfold callText consoleCall
  split
  · rw [echoed_emit, console_emit]
  · rw [echoed_emit, console_emit]
  · -- An unknown function neither shows nor prints anything.
    cases echo <;> rfl

/-- A console call prints what its function says, whatever the registers and the memory. -/
theorem prints_callText (registers : Registers) (memory : Memory) :
    Prints registers memory (callText registers memory) where
  -- Characters are emitted one at a time.
  character selected := by
    simp only [callText, consoleCall, selected, console_emit, textOfBytes]
    exact String.toList_ofList
  string selected := by
    -- The string is taken from memory up to the first dollar sign.
    obtain ⟨count, ends, taken⟩ := memory.exists_stopsAfter '$'.toUInt8 registers.de
    refine ⟨count, ends, ?_⟩
    simp only [callText, consoleCall, selected, console_emit, textOfBytes, taken, Memory.slice]
    rw [String.toList_ofList, List.map_map]
    rfl
  nothing character string := by
    -- What is left is a message.
    unfold callText consoleCall
    split
    · contradiction
    · contradiction
    · rfl

/-- A byte is the code of its character. -/
theorem toNat_ofUInt8 (byte : UInt8) : (Char.ofUInt8 byte).toNat = byte.toNat :=
  -- Every byte is a valid code point, so none is replaced.
  UInt8.toNat_toUInt32 byte

/-- The text is what a console write adds to the output, given by the codes of its characters. -/
structure Adds (registers : Registers) (memory : Memory) (text : String) : Prop where
  /-- Function 2 adds one character, a dollar sign as well as any other. -/
  character : registers.c = 2 → text.toList.map Char.toNat = [registers.e.toNat]
  /-- Function 9 adds the bytes from DE up to the first dollar sign, or all there are. -/
  string : registers.c = 9 → ∃ count,
    (IsLeast {index | memory.read (registers.de + .ofNat index) = '$'.toUInt8} count ∨
      count = 65536 ∧ ∀ address, memory.read address ≠ '$'.toUInt8) ∧
    text.toList.map Char.toNat =
      (List.range count).map fun index => (memory.read (registers.de + .ofNat index)).toNat
  /-- So there is no dollar sign among them. -/
  undollared : registers.c = 9 → '$' ∉ text.toList
  /-- No other function adds anything. -/
  nothing : registers.c ≠ 2 → registers.c ≠ 9 → text = ""

/-- What a console call prints is what it adds. -/
theorem Prints.adds {registers : Registers} {memory : Memory} {text : String}
    (prints : Prints registers memory text) : Adds registers memory text where
  character selected := by
    -- There is one character, whose code is the byte in E.
    rw [prints.character selected]
    exact congrArg (fun code => [code]) (toNat_ofUInt8 registers.e)
  string selected := by
    obtain ⟨count, ends, characters⟩ := prints.string selected
    refine ⟨count, ends.isLeast_or_absent, ?_⟩
    -- The codes of the characters are the bytes they were made from.
    rw [characters, List.map_map]
    exact List.map_congr_left fun index _ => toNat_ofUInt8 _
  undollared selected member := by
    -- Every character of the string comes from a byte in front of the end.
    obtain ⟨count, ends, characters⟩ := prints.string selected
    rw [characters, List.mem_map] at member
    obtain ⟨index, within, dollar⟩ := member
    -- The byte would have the code of a dollar sign, in front of which the text ends.
    refine ends.before index (List.mem_range.mp within) (UInt8.toNat_inj.mp ?_)
    rw [← toNat_ofUInt8, dollar]
    rfl
  nothing := prints.nothing

/--
A write to the console adds such a text behind the earlier output, whatever it is asked for.

A console that echoes adds it to what the terminal has shown as well.
-/
theorem console_write_adds {δ : Type} (session : Session δ) (echo : Bool) (access : PortAccess) :
    (Device.write (Trap.console echo) access).1 = .console echo ∧
      ∃ text, Adds access.registers access.memory text ∧
        (session.note (Device.write (Trap.console echo) access).2).output =
          session.output ++ text ∧
        (session.note (Device.write (Trap.console echo) access).2).echoed =
          session.echoed ++ if echo then text else "" := by
  -- What a write makes known is the call that the registers ask for.
  have written : (Device.write (Trap.console echo) access).2 =
      consoleCall echo access.registers access.memory := rfl
  refine ⟨rfl, _, (prints_callText access.registers access.memory).adds, ?_, ?_⟩
  · -- The output grows by what the call prints.
    rw [written, Session.output_note, console_consoleCall]
  · -- The terminal grows by the same text, or by none.
    rw [written, Session.echoed_note, echoed_consoleCall]

end Cpm

end Intel8080
