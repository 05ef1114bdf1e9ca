import Intel8080.Word

/-! The 64 KiB memory: every sixteen-bit address holds one byte, and addresses wrap at the top. -/

namespace Intel8080

/-- One byte for each of the 65536 addresses. -/
structure Memory where
  bytes : ByteArray
  size_bytes : bytes.size = 65536

namespace Memory

/-- The number of addresses. -/
def size : Nat := 65536

/-- Memory with every byte zero. -/
def zero : Memory where
  bytes := ⟨Array.replicate 65536 0⟩
  size_bytes := by simp [ByteArray.size]

instance : Inhabited Memory := ⟨zero⟩

/-- Every address lies inside the stored bytes. -/
theorem address_lt (memory : Memory) (address : UInt16) : address.toNat < memory.bytes.size := by
  -- A sixteen-bit address is below 65536, which is the stored size.
  rw [memory.size_bytes]
  exact address.toNat_lt

/-- The byte at an address. -/
def read (memory : Memory) (address : UInt16) : UInt8 :=
  have bound := memory.address_lt address
  memory.bytes[address.toNat]

/-- Replaces the byte at an address. -/
def write (memory : Memory) (address : UInt16) (value : UInt8) : Memory where
  bytes := memory.bytes.set address.toNat value (memory.address_lt address)
  size_bytes := by
    -- Replacing a byte in place keeps the number of bytes.
    have kept := memory.size_bytes
    simp only [ByteArray.size, ByteArray.set, Array.size_set] at kept ⊢
    exact kept

/-- The word whose low byte is at an address and whose high byte follows it. -/
def readWord (memory : Memory) (address : UInt16) : UInt16 :=
  word (memory.read (address + 1)) (memory.read address)

/-- Writes a word low byte first. -/
def writeWord (memory : Memory) (address value : UInt16) : Memory :=
  (memory.write address (lowByte value)).write (address + 1) (highByte value)

/-- Writes consecutive bytes from an address on, continuing at zero past the top. -/
def load (memory : Memory) (address : UInt16) : List UInt8 → Memory
  | [] => memory
  | byte :: rest => (memory.write address byte).load (address + 1) rest

/-- The bytes at a number of consecutive addresses. -/
def slice (memory : Memory) (start : UInt16) (count : Nat) : List UInt8 :=
  (List.range count).map fun offset => memory.read (start + UInt16.ofNat offset)

/--
The bytes from `start` up to the first `stop`, or once around memory if there is none.

Memory is cut at `start`, and what lies below the cut comes behind what lies above it.
-/
def sliceUntil (memory : Memory) (stop : UInt8) (start : UInt16) : List UInt8 :=
  let (below, above) := memory.bytes.data.toList.splitAt start.toNat
  (above ++ below).takeWhile (· != stop)

/-- Fresh memory reads zero everywhere. -/
@[simp] theorem read_zero (address : UInt16) : zero.read address = 0 := by
  simp [read, zero, ByteArray.getElem_eq_getElem_data]

/-- A write changes the byte at its own address and no other. -/
theorem read_write (memory : Memory) (address place : UInt16) (value : UInt8) :
    (memory.write address value).read place =
      if place = address then value else memory.read place := by
  -- Distinct addresses are distinct positions of the stored bytes.
  simp only [read, write, ByteArray.getElem_eq_getElem_data, ByteArray.set, Array.getElem_set,
    UInt16.toNat_inj]
  simp only [eq_comm]

/-- Two memories with the same byte at every address are equal. -/
@[ext] theorem ext {left right : Memory}
    (agree : ∀ address, left.read address = right.read address) : left = right := by
  -- Every position below 65536 is an address, so the stored bytes agree position by position.
  rcases left with ⟨⟨left⟩, leftSize⟩
  rcases right with ⟨⟨right⟩, rightSize⟩
  have same : left = right := by
    have leftCount : left.size = 65536 := leftSize
    have rightCount : right.size = 65536 := rightSize
    apply Array.ext (by omega)
    intro place below _
    have value := agree (UInt16.ofNat place)
    have address : (UInt16.ofNat place).toNat = place :=
      UInt16.toNat_ofNat_of_lt' (by change place < 65536; omega)
    simpa only [read, ByteArray.getElem_eq_getElem_data, address] using value
  subst same
  rfl

/-- No address is its own successor, even at the top of memory. -/
theorem add_one_ne (address : UInt16) : address + 1 ≠ address := by
  -- The successor differs by one modulo 65536.
  intro same
  have value := congrArg UInt16.toNat same
  simp only [UInt16.toNat_add, UInt16.reduceToNat] at value
  have bound := address.toNat_lt
  omega

/-- A written word reads back, also across the top of memory. -/
@[simp] theorem readWord_writeWord (memory : Memory) (address value : UInt16) :
    (memory.writeWord address value).readWord address = value := by
  -- The two bytes have different addresses, so the second write leaves the first alone.
  simp [readWord, writeWord, read_write, (add_one_ne address).symm]

/-- Loading two runs of bytes in a row is loading the second one where the first one ended. -/
theorem load_append (memory : Memory) (address : UInt16) (front back : List UInt8) :
    memory.load address (front ++ back) =
      (memory.load address front).load (address + UInt16.ofNat front.length) back := by
  -- Each byte of the first run moves the address on by one.
  induction front generalizing memory address with
  | nil => simp [load]
  | cons byte rest ih =>
    have along : address + 1 + UInt16.ofNat rest.length =
        address + UInt16.ofNat (rest.length + 1) := by
      rw [UInt16.ofNat_add, UInt16.add_assoc, UInt16.add_comm 1]
      rfl
    simp only [List.cons_append, load, List.length_cons, ih, along]

/-- A slice holds as many bytes as were asked for. -/
@[simp] theorem length_slice (memory : Memory) (start : UInt16) (count : Nat) :
    (memory.slice start count).length = count := by
  simp [slice]

end Memory

end Intel8080
