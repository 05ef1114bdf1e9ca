import Intel8080.Message

/-! Devices on ports: what an access shows them and what they tell the host. -/

namespace Intel8080

/-- Which way a byte travels through a port. -/
inductive Direction
  /-- From the accumulator to the device. -/
  | output
  /-- From the device to the accumulator. -/
  | input
  deriving DecidableEq, Inhabited, Repr

/--
One access as the device sees it, with the byte written or the byte an input would replace.

The registers stand as they do during the instruction, and neither they nor the memory can be
changed by the device.
-/
structure PortAccess where
  port : Fin 8
  value : UInt8
  registers : Registers
  memory : Memory

/-- What was seen of one access: the byte in transit, the registers and the byte at HL. -/
structure AccessRecord where
  direction : Direction
  port : Fin 8
  value : UInt8
  registers : Registers
  pointed : UInt8
  deriving DecidableEq, Inhabited, Repr

/-- What the machine or a device makes known to the host. -/
inductive Event
  /-- Something for the log. -/
  | message (message : Message)
  /-- Text that is printed on the console. -/
  | text (text : String)
  /-- Text that is shown on the terminal while the program runs. -/
  | echo (text : String)
  /-- The program has ended. -/
  | finished
  /-- A port access was observed. -/
  | access (record : AccessRecord)
  deriving DecidableEq, Inhabited, Repr

/-- A device accepts bytes and supplies them; one that defines neither is silent. -/
class Device (δ : Type) where
  /-- Takes the byte of an output instruction. -/
  write : δ → PortAccess → δ × List Event := fun device _ => (device, [])
  /-- Gives the byte of an input instruction, by default the one already there. -/
  read : δ → PortAccess → UInt8 × δ × List Event :=
    fun device access => (access.value, device, [])

/-- A machine may mix two kinds of device. -/
instance {α β : Type} [Device α] [Device β] : Device (α ⊕ β) where
  write
    | .inl device, access =>
      let (device, events) := Device.write device access
      (.inl device, events)
    | .inr device, access =>
      let (device, events) := Device.write device access
      (.inr device, events)
  read
    | .inl device, access =>
      let (value, device, events) := Device.read device access
      (value, .inl device, events)
    | .inr device, access =>
      let (value, device, events) := Device.read device access
      (value, .inr device, events)

end Intel8080
