import Intel8080.Device

/-! The bus: the memory and the eight slots that ports can be bound to. -/

namespace Intel8080

/-- The number of slots; a port at or above it reaches none. -/
def portCount : Nat := 8

/-- The memory together with the device, if any, in each slot. -/
structure Bus (δ : Type) where
  memory : Memory := .zero
  ports : Vector (Option δ) 8 := .replicate 8 none

/-- Why a device could not be bound. -/
inductive AttachError
  /-- The port has no slot. -/
  | noSlot (port : UInt8)
  deriving DecidableEq, Inhabited, Repr

/-- The wording of a refused binding. -/
def AttachError.message : AttachError → String
  | .noSlot port => s!"port {port.toNat} outside the {portCount}-slot device table"

/-- The slot of a port. -/
def slot? (port : UInt8) : Option (Fin 8) :=
  if bound : port.toNat < 8 then some ⟨port.toNat, bound⟩ else none

namespace Bus

variable {δ : Type}

/-- Writes consecutive bytes to the memory, continuing at zero past the top. -/
def load (bus : Bus δ) (address : UInt16) (bytes : List UInt8) : Bus δ :=
  { bus with memory := bus.memory.load address bytes }

/-- Binds a device to a port in place of any device that was there. -/
def attach (bus : Bus δ) (port : UInt8) (device : δ) : Except AttachError (Bus δ) :=
  match slot? port with
  | none => .error (.noSlot port)
  | some slot => .ok { bus with ports := bus.ports.set slot (some device) }

/-- The device bound to a port. -/
def device? (bus : Bus δ) (port : UInt8) : Option δ :=
  (slot? port).bind fun slot => bus.ports[slot]

/-- Whether a device is bound to a port. -/
def isBound (bus : Bus δ) (port : UInt8) : Bool :=
  (bus.device? port).isSome

/-- The bound ports from the lowest to the highest. -/
def boundPorts (bus : Bus δ) : List (Fin 8) :=
  (List.finRange 8).filter fun slot => bus.ports[slot].isSome

/-- One line about the bus: the size of its memory and its bound ports. -/
def describe (bus : Bus δ) : String :=
  let ports := ", ".intercalate (bus.boundPorts.map fun slot => toString slot.val)
  s!"Bus \x7b memory_size: {Memory.size}, bound_ports: [" ++ ports ++ "] \x7d"

/-- Hands a byte to the device on a port; a port without one loses it. -/
def output [Device δ] (bus : Bus δ) (port value : UInt8) (registers : Registers) :
    Bus δ × List Event :=
  match slot? port with
  | none => (bus, [])
  | some slot =>
    match bus.ports[slot] with
    | none => (bus, [])
    | some device =>
      let (device, events) := Device.write device ⟨slot, value, registers, bus.memory⟩
      ({ bus with ports := bus.ports.set slot (some device) }, events)

/-- Asks the device on a port for a byte; a port without one gives back the value offered. -/
def input [Device δ] (bus : Bus δ) (port value : UInt8) (registers : Registers) :
    UInt8 × Bus δ × List Event :=
  match slot? port with
  | none => (value, bus, [])
  | some slot =>
    match bus.ports[slot] with
    | none => (value, bus, [])
    | some device =>
      let (value, device, events) := Device.read device ⟨slot, value, registers, bus.memory⟩
      (value, { bus with ports := bus.ports.set slot (some device) }, events)

end Bus

end Intel8080
