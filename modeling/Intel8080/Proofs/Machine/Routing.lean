import Intel8080.Proofs.Machine.Locality

/-!
Which device hears of which transfer through a port.

A transfer reaches the device that was bound to its port last, and that device has been through all
the transfers of the port since.
-/

namespace Intel8080

/-- One thing done to the ports of a machine, from outside or by its program. -/
inductive Use (δ : Type)
  /-- Binds a device. -/
  | attach (port : UInt8) (device : δ)
  /-- Hands a byte to a port and shows it any registers. -/
  | output (port value : UInt8) (registers : Registers)
  /-- Asks a port for a byte in place of another one and shows it any registers. -/
  | input (port value : UInt8) (registers : Registers)
  /-- Lets the program execute one instruction. -/
  | tick

/-- What the host gets back from a use. -/
inductive Reply
  | nothing
  | byte (value : UInt8)
  | refused (cause : AttachError)
  deriving DecidableEq, Repr

/-- What comes of a use. -/
structure Effect (δ : Type) where
  machine : Machine δ
  events : List Event := []
  reply : Reply := .nothing

/-- A byte on its way through a port, and what is shown along with it. -/
structure Transfer where
  direction : Direction
  port : UInt8
  value : UInt8
  registers : Registers
  memory : Memory

/-- The use binds a device to the slot. -/
def Use.Binds {δ : Type} (slot : Fin 8) : Use δ → Prop
  | .attach port _ => slot.val = port.toNat
  | _ => False

section Transfer

variable {δ : Type} [Device δ]

/-- What a device in a slot does about a transfer: the byte it leaves and what becomes of it. -/
def Transfer.answer (transfer : Transfer) (slot : Fin 8) (device : δ) : UInt8 × δ × List Event :=
  let access := ⟨slot, transfer.value, transfer.registers, transfer.memory⟩
  match transfer.direction with
  | .output => (transfer.value, Device.write device access)
  | .input => Device.read device access

/-- The device in a slot after a transfer that it has heard of. -/
def Transfer.leave (slot : Fin 8) (device : δ) (transfer : Transfer) : δ :=
  (transfer.answer slot device).2.1

/-- The byte that is left of a transfer, the devices after it and what it makes known. -/
inductive Delivered (ports : Vector (Option δ) 8) (transfer : Transfer) :
    UInt8 → Vector (Option δ) 8 → List Event → Prop
  /-- The device in the slot of the port hears of it once, and no other one does. -/
  | heard {slot : Fin 8} {device answered : δ} {value : UInt8} {events : List Event}
      (own : slot.val = transfer.port.toNat) (bound : ports.get slot = some device)
      (answer : transfer.answer slot device = (value, answered, events)) :
      Delivered ports transfer value (ports.set slot (some answered) slot.isLt) events
  /-- Without such a device nobody does, and the byte stays as it is. -/
  | unheard (free : ∀ slot : Fin 8, slot.val = transfer.port.toNat → ports.get slot = none) :
      Delivered ports transfer transfer.value ports []

end Transfer

namespace Machine

variable {δ : Type}

/--
The transfer of OUT or IN at the program counter: the byte after the code is the port, the byte on
its way is A, and the machine is shown as it stands before the instruction.
-/
def transfer (machine : Machine δ) (direction : Direction) : Transfer where
  direction := direction
  port := machine.memory.read (machine.registers.pc + 1)
  value := machine.registers.a
  registers := machine.registers
  memory := machine.memory

variable [Device δ]

/-- The machine after a use of its ports, what that makes known, and what comes back. -/
def use (machine : Machine δ) : Use δ → Effect δ
  | .attach port device =>
    match machine.toBus.attach port device with
    | .error cause => { machine := machine, reply := .refused cause }
    | .ok bus => { machine := { machine with toBus := bus } }
  | .output port value registers =>
    let (bus, events) := machine.toBus.output port value registers
    { machine := { machine with toBus := bus }, events := events }
  | .input port value registers =>
    let (value, bus, events) := machine.toBus.input port value registers
    { machine := { machine with toBus := bus }, events := events, reply := .byte value }
  | .tick =>
    let (machine, events) := machine.tick
    { machine := machine, events := events }

/-- The machine after uses of its ports. -/
def afterUses (machine : Machine δ) (uses : List (Use δ)) : Machine δ :=
  uses.foldl (fun machine use => (machine.use use).machine) machine

end Machine

/-- The transfer that a use of a machine makes, if it makes one. -/
def Use.transfer? {δ : Type} (machine : Machine δ) : Use δ → Option Transfer
  | .attach _ _ => none
  | .output port value registers => some ⟨.output, port, value, registers, machine.memory⟩
  | .input port value registers => some ⟨.input, port, value, registers, machine.memory⟩
  | .tick =>
    if machine.opcode = 0xD3 then some (machine.transfer .output)
    else if machine.opcode = 0xDB then some (machine.transfer .input)
    else none

/-- The transfers of uses in their order, whatever port they go to. -/
def Machine.transfers {δ : Type} [Device δ] (machine : Machine δ) : List (Use δ) → List Transfer
  | [] => []
  | use :: rest => (use.transfer? machine).toList ++ (machine.use use).machine.transfers rest

/-- The device in a slot after those of the transfers that go to its port. -/
def through {δ : Type} [Device δ] (slot : Fin 8) (device : δ) (transfers : List Transfer) : δ :=
  (transfers.filter fun transfer => transfer.port.toNat = slot.val).foldl (Transfer.leave slot)
    device

/-! ### Transfers over the bus -/

/-- A port below eight has the slot of its own number. -/
theorem slot?_of_own {port : UInt8} {slot : Fin 8} (own : slot.val = port.toNat) :
    slot? port = some slot := by
  -- The slot of a port has the same number.
  have bound : port.toNat < 8 := own ▸ slot.isLt
  rw [slot?, dif_pos bound]
  exact congrArg some (Fin.ext own.symm)

/-- Any other port has none. -/
theorem slot?_of_outside {port : UInt8} (outside : 8 ≤ port.toNat) : slot? port = none :=
  -- There are only eight slots.
  dif_neg (Nat.not_lt.mpr outside)

namespace Bus

variable {δ : Type} (bus : Bus δ) (port value : UInt8) (registers : Registers)

/-- A port leads to a device, or it has no slot that holds one. -/
theorem occupied_or_free :
    (∃ (slot : Fin 8) (device : δ), slot.val = port.toNat ∧ bus.ports.get slot = some device) ∨
      ∀ slot : Fin 8, slot.val = port.toNat → bus.ports.get slot = none := by
  -- A slot that holds no device is free.
  by_cases occupied : ∃ (slot : Fin 8) (device : δ),
      slot.val = port.toNat ∧ bus.ports.get slot = some device
  · exact .inl occupied
  · exact .inr fun slot own => Option.eq_none_iff_forall_ne_some.mpr fun device bound =>
      occupied ⟨slot, device, own, bound⟩

/-- A port leads to a device exactly when its slot holds one. -/
theorem isBound_iff : bus.isBound port = true ↔
    ∃ slot : Fin 8, slot.val = port.toNat ∧ (bus.ports.get slot).isSome := by
  -- Only a port below eight has a slot to look at.
  by_cases bound : port.toNat < 8
  · have own : slot? port = some ⟨port.toNat, bound⟩ := slot?_of_own rfl
    rw [isBound, device?, own]
    refine ⟨fun occupied => ⟨⟨port.toNat, bound⟩, rfl, occupied⟩, ?_⟩
    rintro ⟨slot, same, occupied⟩
    obtain rfl : slot = ⟨port.toNat, bound⟩ := Fin.ext same
    exact occupied
  · rw [isBound, device?, slot?_of_outside (Nat.not_lt.mp bound)]
    refine ⟨nofun, ?_⟩
    rintro ⟨slot, same, _⟩
    exact absurd (same ▸ slot.isLt) bound

/-- A port whose slot is free leads nowhere. -/
theorem isBound_of_free
    (free : ∀ slot : Fin 8, slot.val = port.toNat → bus.ports.get slot = none) :
    bus.isBound port = false := by
  -- A bound port would have a device in its slot.
  rw [← Bool.not_eq_true, isBound_iff]
  rintro ⟨slot, own, occupied⟩
  rw [free slot own] at occupied
  cases occupied

variable [Device δ]

/-- A byte for a port is delivered, and nothing else of the bus changes. -/
theorem delivered_output : ∃ ports events,
    Delivered bus.ports ⟨.output, port, value, registers, bus.memory⟩ value ports events ∧
      bus.output port value registers = ({ bus with ports := ports }, events) := by
  rcases bus.occupied_or_free port with ⟨slot, device, own, bound⟩ | free
  · -- The device in the slot hears of the byte and goes back there.
    have held : bus.ports[slot] = some device := bound
    refine ⟨_, _, .heard own bound rfl, ?_⟩
    simp only [output, slot?_of_own own, held]
    rfl
  · -- Without a device the byte is lost.
    exact ⟨_, _, .unheard free, output_of_unbound (bus.isBound_of_free port free) value registers⟩

/-- So is the request for a byte. -/
theorem delivered_input : ∃ passed ports events,
    Delivered bus.ports ⟨.input, port, value, registers, bus.memory⟩ passed ports events ∧
      bus.input port value registers = (passed, { bus with ports := ports }, events) := by
  rcases bus.occupied_or_free port with ⟨slot, device, own, bound⟩ | free
  · -- The device in the slot is asked and goes back there.
    have held : bus.ports[slot] = some device := bound
    refine ⟨_, _, _, .heard own bound rfl, ?_⟩
    simp only [input, slot?_of_own own, held]
    rfl
  · -- Without a device the byte offered comes back.
    exact ⟨_, _, _, .unheard free,
      input_of_unbound (bus.isBound_of_free port free) value registers⟩

end Bus

/-! ### One use -/

namespace Machine

variable {δ : Type} [Device δ]

/-- How each use of the ports of a machine comes out. -/
structure Routed (machine : Machine δ) : Prop where
  /-- A device is bound to a port below eight in place of any other one. -/
  attached : ∀ (port : UInt8) (device : δ) (bound : port.toNat < 8),
    machine.use (.attach port device) =
      { machine := { machine with ports := machine.ports.set port.toNat (some device) } }
  /-- At any other port it is refused, and nothing happens. -/
  refused : ∀ (port : UInt8) (device : δ), 8 ≤ port.toNat →
    machine.use (.attach port device) = { machine := machine, reply := .refused (.noSlot port) }
  /-- A byte from outside is delivered, and nothing changes but the device that hears of it. -/
  written : ∀ port value registers, ∃ ports events,
    Delivered machine.ports ⟨.output, port, value, registers, machine.memory⟩ value ports events ∧
      machine.use (.output port value registers) =
        { machine := { machine with ports := ports }, events := events }
  /-- So is a request from outside, which gets its byte back. -/
  asked : ∀ port value registers, ∃ passed ports events,
    Delivered machine.ports ⟨.input, port, value, registers, machine.memory⟩ passed ports events ∧
      machine.use (.input port value registers) =
        { machine := { machine with ports := ports }, events := events, reply := .byte passed }
  /-- OUT delivers A while the program counter stands on it, and then goes on. -/
  sent : machine.opcode = 0xD3 → ∃ ports events,
    Delivered machine.ports (machine.transfer .output) machine.registers.a ports events ∧
      (machine.use .tick).machine.ports = ports ∧
      (machine.use .tick).events = machine.listed ++ events ∧
      (machine.pending = none → (machine.use .tick).machine = { machine with
        registers := { machine.registers with pc := machine.registers.pc + 2 }
        cycles := machine.cycles + 10
        ports := ports })
  /-- IN asks for a byte in place of A in the same way, and leaves it there. -/
  received : machine.opcode = 0xDB → ∃ passed ports events,
    Delivered machine.ports (machine.transfer .input) passed ports events ∧
      (machine.use .tick).machine.ports = ports ∧
      (machine.use .tick).events = machine.listed ++ events ∧
      (machine.pending = none → (machine.use .tick).machine = { machine with
        registers := { machine.registers with a := passed, pc := machine.registers.pc + 2 }
        cycles := machine.cycles + 10
        ports := ports })
  /-- No device hears of any other instruction. -/
  internal : machine.opcode ≠ 0xD3 → machine.opcode ≠ 0xDB →
    (machine.use .tick).machine.ports = machine.ports ∧ machine.Announces []

section Tick

variable (machine : Machine δ)

/-- An instruction without a transfer leaves the devices alone and makes nothing known. -/
theorem ports_execute_of_internal (instruction : Instruction)
    (silent : instruction.operation ∉ [Operation.output, .input]) :
    (machine.execute instruction).1.ports = machine.ports ∧
      (machine.execute instruction).2 = [] := by
  -- Only OUT and IN have cases with a device.
  unfold execute
  cases same : instruction.operation
  case output | input => simp [same] at silent
  all_goals exact ⟨rfl, rfl⟩

/-- Executing OUT delivers the accumulator. -/
theorem execute_sent (here : machine.opcode = 0xD3) : ∃ ports events,
    Delivered machine.ports (machine.transfer .output) machine.registers.a ports events ∧
      machine.execute machine.instruction = ({ machine with
        registers := { machine.registers with pc := machine.registers.pc + 2 }
        cycles := machine.cycles + 10
        ports := ports }, events) := by
  -- The code says that it is OUT, and the byte behind it is the port.
  have operation : machine.instruction.operation = .output := operation_of_opcode here
  have byte : machine.instruction.byte = (machine.transfer .output).port :=
    machine.byte_of_width (by rw [operation]; rfl)
  obtain ⟨ports, events, delivered, handed⟩ := machine.toBus.delivered_output
    (machine.transfer .output).port machine.registers.a machine.registers
  refine ⟨ports, events, delivered, ?_⟩
  -- The program counter moves on although the device still sees it on the instruction.
  simp only [execute, Instruction.size, operation, byte, handed]
  rfl

/-- Executing IN asks for a byte in place of the accumulator. -/
theorem execute_received (here : machine.opcode = 0xDB) : ∃ passed ports events,
    Delivered machine.ports (machine.transfer .input) passed ports events ∧
      machine.execute machine.instruction = ({ machine with
        registers := { machine.registers with a := passed, pc := machine.registers.pc + 2 }
        cycles := machine.cycles + 10
        ports := ports }, events) := by
  -- The code says that it is IN, and the byte behind it is the port.
  have operation : machine.instruction.operation = .input := operation_of_opcode here
  have byte : machine.instruction.byte = (machine.transfer .input).port :=
    machine.byte_of_width (by rw [operation]; rfl)
  obtain ⟨passed, ports, events, delivered, handed⟩ := machine.toBus.delivered_input
    (machine.transfer .input).port machine.registers.a machine.registers
  refine ⟨passed, ports, events, delivered, ?_⟩
  -- Here, too, the device has been shown the program counter on the instruction.
  simp only [execute, Instruction.size, operation, byte, handed]
  rfl

/-- What a tick does follows from how it executes its instruction. -/
theorem use_tick_of_execute {executed : Machine δ} {events : List Event} (runs : ¬ machine.Halts)
    (same : machine.execute machine.instruction = (executed, events)) :
    (machine.use .tick).machine.ports = executed.ports ∧
      (machine.use .tick).events = machine.listed ++ events ∧
      (executed.pending = none → (machine.use .tick).machine = executed) := by
  -- A request is served after it, which leaves the devices alone.
  simp only [use, machine.tick_of_runs runs, same, ports_service, true_and]
  exact executed.service_of_idle

/-- Every use of the ports of a machine comes out as it should. -/
theorem routed : machine.Routed where
  attached port device bound := by
    -- The slot exists and is filled.
    have own : slot? port = some ⟨port.toNat, bound⟩ := slot?_of_own rfl
    simp only [use, Bus.attach, own]
  refused port device outside := by
    -- There is no slot to fill.
    simp only [use, Bus.attach, slot?_of_outside outside]
  written port value registers := by
    -- The bus delivers what it is given, wherever it comes from.
    obtain ⟨ports, events, delivered, handed⟩ :=
      machine.toBus.delivered_output port value registers
    exact ⟨ports, events, delivered, by simp only [use, handed]⟩
  asked port value registers := by
    obtain ⟨passed, ports, events, delivered, handed⟩ :=
      machine.toBus.delivered_input port value registers
    exact ⟨passed, ports, events, delivered, by simp only [use, handed]⟩
  sent here := by
    obtain ⟨ports, events, delivered, executed⟩ := machine.execute_sent here
    -- OUT is executed under every policy.
    have runs : ¬ machine.Halts := runs_of_opcode here (by decide)
    exact ⟨ports, events, delivered, machine.use_tick_of_execute runs executed⟩
  received here := by
    obtain ⟨passed, ports, events, delivered, executed⟩ := machine.execute_received here
    -- So is IN.
    have runs : ¬ machine.Halts := runs_of_opcode here (by decide)
    exact ⟨passed, ports, events, delivered, machine.use_tick_of_execute runs executed⟩
  internal noOutput noInput := by
    by_cases halts : machine.Halts
    · -- What halts reaches no device.
      have kept : (machine.use .tick).machine = { machine with halted := true } :=
        machine.next_of_halts halts
      rw [kept]
      exact ⟨rfl, machine.announces_of_halts halts⟩
    · -- Any other code names an operation without a transfer.
      have silent : machine.instruction.operation ∉ [Operation.output, .input] := by
        have output : Operation.ofCode machine.opcode = .output ↔ _ :=
          Operation.ofCode_eq_iff machine.opcode (by simp)
        have input : Operation.ofCode machine.opcode = .input ↔ _ :=
          Operation.ofCode_eq_iff machine.opcode (by simp)
        simp only [Instruction.operation, code_instruction, List.mem_cons, List.not_mem_nil, output,
          input, or_false, not_or]
        exact ⟨noOutput, noInput⟩
      obtain ⟨kept, quiet⟩ := machine.ports_execute_of_internal machine.instruction silent
      obtain ⟨ports, _⟩ := machine.use_tick_of_execute halts rfl
      have announced := machine.announces_of_runs halts
      rw [quiet] at announced
      exact ⟨ports.trans kept, announced⟩

end Tick

end Machine

/-! ### Uses in a row -/

section Through

variable {δ : Type} [Device δ]

/-- A device goes through transfers in a row. -/
theorem through_append (slot : Fin 8) (device : δ) (front back : List Transfer) :
    through slot device (front ++ back) = through slot (through slot device front) back := by
  -- Those for the port are chosen from both lists in order.
  rw [through, List.filter_append, List.foldl_append]
  rfl

/-- A transfer changes at most the device in the slot of its port. -/
theorem Delivered.getElem {ports later : Vector (Option δ) 8} {transfer : Transfer}
    {value : UInt8} {events : List Event} (delivered : Delivered ports transfer value later events)
    (slot : Fin 8) :
    later.get slot = (ports.get slot).map fun device => through slot device [transfer] := by
  cases delivered with
  | @heard own device answered _ _ same bound answer =>
    refine (Vector.getElem_set own.isLt slot.isLt).trans ?_
    split
    · -- This is the device that has heard of it.
      rename_i here
      obtain rfl : own = slot := Fin.ext here
      simp [bound, through, same, Transfer.leave, answer]
    · -- A device in another slot is not concerned.
      rename_i elsewhere
      have other : transfer.port.toNat ≠ slot.val := same ▸ elsewhere
      show ports.get slot = _
      simp [through, other]
  | unheard free =>
    -- The slot of the port is free, and any other one is not concerned.
    by_cases same : slot.val = transfer.port.toNat
    · simp [free slot same]
    · simp [through, Ne.symm same]

end Through

namespace Machine

variable {δ : Type} [Device δ] (machine : Machine δ)

/-- A slot that a use binds nothing to keeps its device, once that has been through the transfer. -/
theorem getElem_ports_use {use : Use δ} {slot : Fin 8} (kept : ¬ use.Binds slot) :
    (machine.use use).machine.ports.get slot = (machine.ports.get slot).map fun device =>
      through slot device (use.transfer? machine).toList := by
  have routed := machine.routed
  cases use with
  | attach port device =>
    -- Binding is no transfer, and what another slot holds stays there.
    have same (held : Option δ) : held = held.map fun device => through slot device [] := by
      cases held <;> rfl
    refine Eq.trans ?_ (same _)
    by_cases bound : port.toNat < 8
    · -- Another slot is filled.
      have other : port.toNat ≠ slot.val := Ne.symm kept
      rw [routed.attached port device bound]
      exact Vector.getElem_set_ne bound slot.isLt other
    · -- No slot is filled.
      rw [routed.refused port device (Nat.not_lt.mp bound)]
  | output port value registers =>
    -- A transfer from outside is delivered at once.
    obtain ⟨ports, events, delivered, same⟩ := routed.written port value registers
    rw [same]
    exact delivered.getElem slot
  | input port value registers =>
    obtain ⟨passed, ports, events, delivered, same⟩ := routed.asked port value registers
    rw [same]
    exact delivered.getElem slot
  | tick =>
    rw [Use.transfer?]
    split
    · -- OUT and IN make one transfer each.
      rename_i output
      obtain ⟨ports, events, delivered, same, _⟩ := routed.sent output
      rw [same]
      exact delivered.getElem slot
    · rename_i noOutput
      split
      · rename_i input
        obtain ⟨passed, ports, events, delivered, same, _⟩ := routed.received input
        rw [same]
        exact delivered.getElem slot
      · -- Any other tick makes none.
        rename_i noInput
        rw [(routed.internal noOutput noInput).1]
        cases machine.ports.get slot <;> rfl

/-- A slot that uses bind nothing to keeps its device, once that has been through the transfers. -/
theorem getElem_ports_afterUses {uses : List (Use δ)} {slot : Fin 8}
    (kept : ∀ use ∈ uses, ¬ use.Binds slot) :
    (machine.afterUses uses).ports.get slot = (machine.ports.get slot).map fun device =>
      through slot device (machine.transfers uses) := by
  induction uses generalizing machine with
  -- Without uses there are no transfers.
  | nil => cases held : machine.ports.get slot <;> exact held
  | cons use rest ih =>
    -- The transfer of the first use comes before all the others.
    rw [List.forall_mem_cons] at kept
    rw [afterUses, List.foldl_cons, transfers]
    refine (ih _ kept.2).trans ?_
    rw [machine.getElem_ports_use kept.1, Option.map_map]
    simp only [Function.comp_def, through_append]

/-- A slot holds a device after a use if it did before, or if the use binds one to it. -/
theorem isSome_ports_use (use : Use δ) (slot : Fin 8) :
    ((machine.use use).machine.ports.get slot).isSome ↔
      (machine.ports.get slot).isSome ∨ use.Binds slot := by
  by_cases binds : use.Binds slot
  · -- Only a binding binds.
    cases use with
    | attach port device =>
      have bound : port.toNat < 8 := binds ▸ slot.isLt
      obtain rfl : slot = ⟨port.toNat, bound⟩ := Fin.ext binds
      rw [machine.routed.attached port device bound]
      have set : (machine.ports.set port.toNat (some device)).get ⟨port.toNat, bound⟩ =
          some device := Vector.getElem_set_self bound
      simp [set, binds]
    | _ => exact absurd binds id
  · -- A transfer neither fills a slot nor empties one.
    rw [machine.getElem_ports_use binds, Option.isSome_map]
    simp [binds]

/-- A slot holds a device after uses if it did before, or if one of them binds one to it. -/
theorem isSome_ports_afterUses (uses : List (Use δ)) (slot : Fin 8) :
    ((machine.afterUses uses).ports.get slot).isSome ↔
      (machine.ports.get slot).isSome ∨ ∃ use ∈ uses, use.Binds slot := by
  -- A slot that is filled once stays filled.
  induction uses generalizing machine with
  | nil => simp [afterUses]
  | cons use rest ih =>
    rw [afterUses, List.foldl_cons]
    refine (ih _).trans ?_
    rw [isSome_ports_use, or_assoc]
    simp

/-- Which devices the slots of a machine hold after uses. -/
structure Bindings (uses : List (Use δ)) : Prop where
  /-- The device that was bound last has been through all the transfers of its port since. -/
  last : ∀ (front : List (Use δ)) (port : UInt8) (device : δ) (back : List (Use δ)) (slot : Fin 8),
    uses = front ++ .attach port device :: back → slot.val = port.toNat →
      (∀ use ∈ back, ¬ use.Binds slot) →
        (machine.afterUses uses).ports.get slot = some (through slot device
          ((machine.afterUses (front ++ [.attach port device])).transfers back))
  /-- Where none was bound, that holds of the device that was there before, if there was one. -/
  never : ∀ slot : Fin 8, (∀ use ∈ uses, ¬ use.Binds slot) →
    (machine.afterUses uses).ports.get slot = (machine.ports.get slot).map fun device =>
      through slot device (machine.transfers uses)
  /-- A port is bound from the first time on that a device is bound to it. -/
  isBound : ∀ port : UInt8, (machine.afterUses uses).isBound port = true ↔
    machine.isBound port = true ∨ port.toNat < 8 ∧ ∃ device, .attach port device ∈ uses
  /-- The line about the bus lists just these ports, in ascending order. -/
  described : ∃ ports : List (Fin 8), ports.Pairwise (· < ·) ∧
    (∀ slot : Fin 8, slot ∈ ports ↔
      (machine.ports.get slot).isSome ∨ ∃ use ∈ uses, use.Binds slot) ∧
    (machine.afterUses uses).describe = "Bus \x7b memory_size: 65536, bound_ports: [" ++
      ", ".intercalate (ports.map fun slot => toString slot.val) ++ "] \x7d"

/-- The slots of a machine hold those devices after any uses. -/
theorem bindings (uses : List (Use δ)) : machine.Bindings uses where
  last front port device back slot split own unbound := by
    -- The slot is that of the port that was bound.
    have bound : port.toNat < 8 := own ▸ slot.isLt
    obtain rfl : slot = ⟨port.toNat, bound⟩ := Fin.ext own
    have attached : (machine.afterUses (front ++ [.attach port device])).ports[port.toNat] =
        some device := by
      rw [afterUses, List.foldl_append, List.foldl_cons, List.foldl_nil,
        (routed _).attached port device bound]
      exact Vector.getElem_set_self bound
    have later : machine.afterUses uses =
        (machine.afterUses (front ++ [.attach port device])).afterUses back := by
      rw [split, afterUses, afterUses, afterUses, ← List.foldl_append, List.append_assoc]
      rfl
    -- From where the device is bound, nothing else is bound to its slot.
    rw [later]
    refine (getElem_ports_afterUses _ unbound).trans ?_
    exact congrArg (Option.map _) attached
  never slot unbound := machine.getElem_ports_afterUses unbound
  isBound port := by
    -- A port is bound if its slot holds a device.
    rw [Bus.isBound_iff, Bus.isBound_iff]
    simp only [isSome_ports_afterUses, and_or_left, exists_or]
    refine or_congr_right ⟨?_, ?_⟩
    · -- Whatever binds to the slot names its port.
      rintro ⟨slot, own, use, member, binds⟩
      cases use with
      | attach port' device =>
        obtain rfl : port' = port := UInt8.toNat_inj.mp (binds.symm.trans own)
        exact ⟨own ▸ slot.isLt, device, member⟩
      | _ => exact absurd binds id
    · -- A binding to a port below eight fills its slot.
      rintro ⟨bound, device, member⟩
      exact ⟨⟨port.toNat, bound⟩, rfl, _, member, rfl⟩
  described := by
    refine ⟨(machine.afterUses uses).boundPorts, ?_, fun slot => ?_, rfl⟩
    · -- The slots are looked through in ascending order.
      exact (List.pairwise_lt_finRange 8).filter _
    · -- Just those that hold a device are kept.
      rw [← isSome_ports_afterUses, Bus.boundPorts, List.mem_filter]
      exact and_iff_right (List.mem_finRange slot)

/--
Every transfer reaches the device that was bound to its port last, and no other one.

Whatever was bound before, whatever bytes went through the ports from outside and whatever the
program executed, that device has been through all the transfers of its port since it was bound.
-/
theorem transfers_routed (uses : List (Use δ)) :
    machine.Bindings uses ∧ (machine.afterUses uses).Routed :=
  -- What each use does is a fact about the machine it finds.
  ⟨machine.bindings uses, routed _⟩

end Machine

end Intel8080
