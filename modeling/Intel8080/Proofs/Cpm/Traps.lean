import Intel8080.Cpm.Run
import Intel8080.Proofs.Cpm.Console
import Intel8080.Proofs.Machine.Dispatch

/-!
What the ticks of a loaded program make known.

Its two traps never change, so a write to the one always ends it and a write to the other prints.
-/

namespace Intel8080

/-- Putting back the device that was in a slot changes nothing. -/
theorem Bus.ports_set_self {δ : Type} {bus : Bus δ} {slot : Fin 8} {device : δ}
    (bound : bus.ports.get slot = some device) :
    bus.ports.set slot.val (some device) slot.isLt = bus.ports := by
  -- The slot is written with what it holds.
  rw [← bound]
  exact Vector.set_getElem_self slot.isLt

namespace Machine

section Writes

variable {δ : Type}

/-- The next instruction hands the accumulator to a port. -/
def WritesTo (machine : Machine δ) (port : UInt8) : Prop :=
  machine.opcode = 0xD3 ∧ machine.memory.read (machine.registers.pc + 1) = port

instance (machine : Machine δ) (port : UInt8) : Decidable (machine.WritesTo port) :=
  inferInstanceAs (Decidable (_ ∧ _))

/-- A machine that is about to write to a port does not halt. -/
theorem WritesTo.runs {machine : Machine δ} {port : UInt8} (writes : machine.WritesTo port) :
    ¬ machine.Halts :=
  -- The code of OUT is documented, and it is not that of HLT.
  runs_of_opcode writes.1 (by decide)

/-- The port is the byte after the code of OUT. -/
theorem byte_of_output {machine : Machine δ} (output : machine.opcode = 0xD3) :
    machine.instruction.byte = machine.memory.read (machine.registers.pc + 1) := by
  -- OUT is two bytes wide, so the byte of the instruction is fetched from there.
  refine machine.byte_of_width ?_
  rw [operation_of_opcode output]
  rfl

end Writes

section Announced

variable {δ : Type} [Device δ] {machine : Machine δ} {events : List Event}

/-- Texts that no message has are those of what a tick announces beside messages. -/
theorem Announces.join {view : Event → String} (silent : ∀ message, view (.message message) = "")
    (announced : machine.Announces events) :
    String.join (machine.tick.2.map view) = String.join (events.map view) := by
  obtain ⟨messages, announced⟩ := announced
  -- The messages come first, and they leave nothing in front of the other texts.
  have blank : String.join ((messages.map Event.message).map view) = "" := by
    refine join_of_empty fun text member => ?_
    rw [List.map_map, List.mem_map] at member
    obtain ⟨message, _, rfl⟩ := member
    exact silent message
  rw [announced, List.map_append, String.join_append, blank, String.empty_append]

/-- Messages print nothing, so that a tick prints what it announces beside them. -/
theorem Announces.console (announced : machine.Announces events) :
    String.join (machine.tick.2.map Event.console) = String.join (events.map Event.console) :=
  announced.join fun _ => rfl

end Announced

end Machine

namespace Cpm

/-- The slots of a loaded program: one trap ends it, and the other serves the console. -/
def trapPorts (echo : Bool) : Vector (Option Trap) 8 :=
  (withTraps echo {}).ports

/-- The first port ends the program, the second one prints, and the others are free. -/
theorem device?_of_trapped {bus : Bus Trap} {echo : Bool} (trapped : bus.ports = trapPorts echo)
    (port : UInt8) : bus.device? port =
      if port = 0 then some .finish else if port = 1 then some (.console echo) else none := by
  -- Only 256 ports and two ways of echoing have to be looked at.
  have all : ∀ echo, ∀ value : Fin 256,
      (slot? (.ofFin value)).bind (fun slot => (trapPorts echo)[slot]) =
        if UInt8.ofFin value = 0 then some .finish
        else if UInt8.ofFin value = 1 then some (.console echo) else none := by
    decide +kernel
  -- The slots of the bus are those of the table.
  rw [Bus.device?, trapped]
  exact all echo port.toFin

/-- What a trap makes known of a write to it. -/
def trapEvents (registers : Registers) (memory : Memory) : Trap → List Event
  | .console echo => consoleCall echo registers memory
  | .finish => [.message (.warmBoot registers.sp), .finished]

/-- A write leaves every trap as it was. -/
theorem output_trap (bus : Bus Trap) (port value : UInt8) (registers : Registers) :
    bus.output port value registers =
      (bus, (bus.device? port).elim [] (trapEvents registers bus.memory)) := by
  -- A write reaches the slot of its port, if there is one, and the trap that is in it.
  unfold Bus.output Bus.device?
  cases slot? port with
  | none => rfl
  | some slot =>
    simp only [Option.bind_some]
    cases bound : bus.ports[slot] with
    -- An empty slot loses the byte.
    | none => rfl
    | some trap =>
      -- Either trap answers with events and comes back as it was.
      cases trap <;> simp only [Device.write, Bus.ports_set_self bound] <;> rfl

/-- A read gives back the byte offered and leaves every trap as it was. -/
theorem input_trap (bus : Bus Trap) (port value : UInt8) (registers : Registers) :
    bus.input port value registers = (value, bus, []) := by
  -- A read goes the same way as a write.
  unfold Bus.input
  cases slot? port with
  | none => rfl
  | some slot =>
    cases bound : bus.ports[slot] with
    | none => simp [bound]
    -- Neither trap has a byte of its own to give.
    | some trap => simp [bound, Device.read, Bus.ports_set_self bound]

/-- The slots hold the traps of a loaded program, of which the console echoes or does not. -/
def Trapped (echo : Bool) (machine : Machine Trap) : Prop :=
  machine.ports = trapPorts echo

/-- The text that the next tick prints: that of a console call, if it writes to the console port. -/
def consoleText (machine : Machine Trap) : String :=
  if machine.WritesTo 1 then callText machine.registers machine.memory else ""

/-- What the next tick makes known beside messages of the machine itself. -/
def tickEvents (echo : Bool) (machine : Machine Trap) : List Event :=
  if machine.WritesTo 0 then trapEvents machine.registers machine.memory .finish
  else if machine.WritesTo 1 then trapEvents machine.registers machine.memory (.console echo)
  else []

/-- No instruction changes what is in the slots. -/
theorem ports_execute (machine : Machine Trap) (instruction : Instruction) :
    (machine.execute instruction).1.ports = machine.ports := by
  -- Reads and writes leave the bus of a trapped machine, and nothing else touches the slots.
  simp only [Machine.execute, output_trap, input_trap]
  cases instruction.operation <;> rfl

/-- Only an output makes anything known, and that is what the trap on its port does. -/
theorem events_execute (machine : Machine Trap) (instruction : Instruction) :
    (machine.execute instruction).2 =
      if instruction.operation = .output then
        (machine.device? instruction.byte).elim [] (trapEvents machine.registers machine.memory)
      else [] := by
  -- A read is silent, and so is every operation that has no device.
  simp only [Machine.execute, output_trap, input_trap]
  cases instruction.operation <;> rfl

section Trapped

variable {machine : Machine Trap} {echo : Bool}

/-- No tick changes what is in the slots. -/
theorem trapped_next (trapped : Trapped echo machine) : Trapped echo machine.next := by
  by_cases halts : machine.Halts
  · -- A halting tick changes the halt flag only.
    rw [Machine.next_of_halts machine halts]
    exact trapped
  · -- Neither the instruction nor an interrupt after it puts anything into a slot.
    rw [Trapped, Machine.next_of_runs machine halts, Machine.ports_service, ports_execute]
    exact trapped

/-- The next instruction makes known what its write to a trap does, if it is executed. -/
theorem execute_eq_tickEvents (trapped : Trapped echo machine) :
    (machine.execute machine.instruction).2 = tickEvents echo machine := by
  -- An instruction is an output exactly when its code is that of OUT.
  have output : machine.instruction.operation = .output ↔ machine.opcode = 0xD3 := by
    rw [Instruction.operation, Machine.code_instruction]
    exact Operation.ofCode_eq_iff machine.opcode (by simp)
  rw [events_execute, tickEvents]
  by_cases writes : machine.opcode = 0xD3
  · -- The port decides which of the two traps hears of it, if any.
    rw [if_pos (output.mpr writes), device?_of_trapped trapped, Machine.byte_of_output writes]
    simp only [Machine.WritesTo, writes, true_and]
    split
    · -- The first port has the trap that ends the program.
      rfl
    · -- The second port has the console, and any other has none.
      split <;> rfl
  · -- Any other instruction leaves both traps alone.
    have still (port : UInt8) : ¬ machine.WritesTo port := fun both => writes both.1
    rw [if_neg (mt output.mp writes), if_neg (still 0), if_neg (still 1)]

/-- A tick makes known messages of the machine and then what its write to a trap does. -/
theorem announces_tickEvents (trapped : Trapped echo machine) :
    machine.Announces (tickEvents echo machine) := by
  by_cases halts : machine.Halts
  · -- A machine that halts writes to no port.
    have silent : tickEvents echo machine = [] := by
      have still (port : UInt8) : ¬ machine.WritesTo port := fun writes => writes.runs halts
      rw [tickEvents, if_neg (still 0), if_neg (still 1)]
    rw [silent]
    exact machine.announces_of_halts halts
  · -- A tick that is executed announces what its instruction does.
    rw [← execute_eq_tickEvents trapped]
    exact machine.announces_of_runs halts

/-- A tick ends the program exactly when it writes to the first port. -/
theorem finished_mem_tick (trapped : Trapped echo machine) :
    .finished ∈ machine.tick.2 ↔ machine.WritesTo 0 := by
  obtain ⟨messages, announced⟩ := announces_tickEvents trapped
  -- Neither a message nor a console call ends the program.
  have call : .finished ∉ consoleCall echo machine.registers machine.memory := by
    unfold consoleCall emit
    split <;> cases echo <;> simp
  rw [announced, tickEvents]
  split
  · -- A write to the finish port ends the program.
    rename_i writes
    simp [trapEvents, writes]
  · -- Anything else is a console call or nothing at all.
    rename_i other
    split <;> simp [trapEvents, other, call]

/-- Texts that only the console has are those of its call, if the tick writes to it. -/
theorem join_tick {view : Event → String} (silent : ∀ message, view (.message message) = "")
    (blank : view .finished = "") (trapped : Trapped echo machine) :
    String.join (machine.tick.2.map view) =
      if machine.WritesTo 1 then
        String.join ((consoleCall echo machine.registers machine.memory).map view)
      else "" := by
  -- The messages of the machine add no such text, so what the traps make known decides.
  rw [(announces_tickEvents trapped).join silent, tickEvents]
  split
  · -- A write to the finish port is none to the console port, since the two ports differ.
    rename_i writes
    have other : ¬ machine.WritesTo 1 := fun both => absurd (writes.2.symm.trans both.2) (by decide)
    rw [if_neg other]
    simp [trapEvents, silent, blank]
  · -- What is left is the call itself, or nothing.
    split <;> simp [trapEvents]

/-- A tick prints its console text. -/
theorem console_tick (trapped : Trapped echo machine) :
    String.join (machine.tick.2.map Event.console) = consoleText machine := by
  -- Neither messages nor the end of the program print.
  rw [join_tick (fun _ => rfl) rfl trapped, console_consoleCall, consoleText]

/-- The terminal shows that text while the tick is made, if the console echoes. -/
theorem echoed_tick (trapped : Trapped echo machine) :
    String.join (machine.tick.2.map Event.echoed) = if echo then consoleText machine else "" := by
  -- Neither messages nor the end of the program are shown on the terminal.
  rw [join_tick (fun _ => rfl) rfl trapped, echoed_consoleCall, consoleText]
  cases echo
  · -- Without an echo both branches are the empty text.
    exact ite_self ""
  · rfl

end Trapped

end Cpm

end Intel8080
