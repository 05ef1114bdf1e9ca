import Intel8080.Proofs.Cpm.Console
import Intel8080.Proofs.Cpm.Traps
import Intel8080.Proofs.Machine.Locality

/-!
Calls of the system.

Three ticks call the entry, hand the call to the console and return. The caller then finds
everything as it was, apart from the cycles and the return address below its stack pointer.
-/

namespace Intel8080

/-- A device that answers a byte without changing leaves the bus as it was. -/
theorem Bus.output_of_steady {δ : Type} [Device δ] {bus : Bus δ} {port value : UInt8} {device : δ}
    {registers : Registers} {events : List Event} (bound : bus.device? port = some device)
    (steady : ∀ slot,
      Device.write device ⟨slot, value, registers, bus.memory⟩ = (device, events)) :
    bus.output port value registers = (bus, events) := by
  unfold device? at bound
  unfold output
  -- The device was found in a slot, so the port has one.
  cases located : slot? port with
  | none => simp [located] at bound
  | some slot =>
    -- The device goes back into the slot it was taken from.
    have occupied : bus.ports[slot] = some device := by simpa [located] using bound
    simp only [occupied, steady, ports_set_self occupied]

namespace Machine

section Ticks

variable {δ : Type} {machine : Machine δ} {rest : List Operation}

/-- An operation that takes a word takes the one after its code. -/
theorem operand_of_word {operation : Operation} (holds : machine.Holds (operation :: rest))
    (wide : operation.width = .word) :
    machine.instruction.operand = machine.memory.readWord (machine.registers.pc + 1) := by
  -- Fetching goes by the width of the operation that the code names.
  have here : Operation.ofCode (machine.memory.read machine.registers.pc) = operation := holds.1.1
  have operand := Memory.operand_fetch machine.memory machine.registers.pc
  rwa [here, wide] at operand

variable [Device δ]

/-- A call leaves the address after itself on the stack and continues at its operand. -/
theorem next_of_call (idle : machine.pending = none) (holds : machine.Holds (.call :: rest)) :
    machine.next = { machine with
      registers := { machine.registers with
        sp := machine.registers.sp - 2
        pc := machine.memory.readWord (machine.registers.pc + 1) }
      memory := machine.memory.writeWord (machine.registers.sp - 2) (machine.registers.pc + 3)
      cycles := machine.cycles + 17 } := by
  -- The code at the program counter is that of a call.
  have here := operation_of_holds holds
  -- The operand is fetched before the push, which may overwrite it.
  have operand := operand_of_word holds rfl
  rw [machine.next_of_idle (not_halts_of_holds holds (by decide)) idle,
    execute_of_operation here (by decide), operand]
  rfl

/-- A return continues at the word on the stack. -/
theorem next_of_ret (idle : machine.pending = none) (holds : machine.Holds (.ret :: rest)) :
    machine.next = { machine with
      registers := { machine.registers with
        sp := machine.registers.sp + 2
        pc := machine.memory.readWord machine.registers.sp }
      cycles := machine.cycles + 10 } := by
  -- Whatever the operand, a return does not look at it.
  obtain ⟨_, returned⟩ := next_of_internal idle holds (by decide) (by decide)
  rw [returned]
  rfl

/-- An internal operation at the program counter makes nothing known. -/
theorem announces_of_internal {operation : Operation} (holds : machine.Holds (operation :: rest))
    (running : operation ≠ .hlt) (internal : operation.Internal) : machine.Announces [] := by
  -- What is executed without a device announces nothing of its own.
  have here := operation_of_holds holds
  have announced := machine.announces_of_runs (not_halts_of_holds holds running)
  rwa [execute_of_operation here internal] at announced

/-- An output to a device that does not change makes its answer known and goes on. -/
theorem next_of_output {port : UInt8} {device : δ} {events : List Event}
    (idle : machine.pending = none) (writes : machine.WritesTo port)
    (bound : machine.device? port = some device)
    (steady : ∀ slot,
      Device.write device ⟨slot, machine.registers.a, machine.registers, machine.memory⟩ =
        (device, events)) :
    machine.next = machine.past .output ∧ machine.Announces events := by
  -- The instruction is an output to the port, as its two bytes say.
  have here : machine.instruction.operation = .output := operation_of_opcode writes.1
  have byte : machine.instruction.byte = port := (byte_of_output writes.1).trans writes.2
  -- The program counter moves on although the device still sees it on the instruction.
  have executed : machine.execute machine.instruction = (machine.past .output, events) := by
    rw [← here, ← charge_eq_past, execute, charge]
    simp only [here, byte, Bus.output_of_steady bound steady]
  have announced := machine.announces_of_runs writes.runs
  rw [machine.next_of_idle writes.runs idle]
  rw [executed] at announced ⊢
  exact ⟨rfl, announced⟩

end Ticks

end Machine

namespace Cpm

/-- The device answers every byte with the console call that the registers ask for. -/
def IsConsole {δ : Type} [Device δ] (device : δ) : Prop :=
  ∃ echo, ∀ access,
    Device.write device access = (device, consoleCall echo access.registers access.memory)

/-- The console of a loaded program is one, whether it echoes or not. -/
theorem isConsole_console (echo : Bool) : IsConsole (Trap.console echo) :=
  -- Its write is the call.
  ⟨echo, fun _ => rfl⟩

section SystemCall

variable {δ : Type}

/-- The memory once a call has left the address after itself below the stack pointer. -/
def callMemory (machine : Machine δ) : Memory :=
  machine.memory.writeWord (machine.registers.sp - 2) (machine.registers.pc + 3)

/-- The machine at the entry of the system, which it has just called. -/
def atEntry (machine : Machine δ) : Machine δ :=
  { machine with
    registers := { machine.registers with sp := machine.registers.sp - 2, pc := systemEntry }
    memory := callMemory machine
    cycles := machine.cycles + 17 }

variable [Device δ]

/-- The machine is about to call the system, and everything for that is in place. -/
structure CallsSystem (machine : Machine δ) : Prop where
  idle : machine.pending = none
  call : machine.Holds [.call]
  entry : machine.memory.readWord (machine.registers.pc + 1) = systemEntry
  trap : machine.memory.slice systemEntry systemTrap.length = systemTrap
  /-- The return address goes elsewhere than over the trap. -/
  apart : ∀ address ∈ [machine.registers.sp - 2, machine.registers.sp - 1],
    ¬ Within address systemEntry systemTrap.length
  console : ∃ device, machine.device? 1 = some device ∧ IsConsole device

namespace CallsSystem

variable {machine : Machine δ} (calls : CallsSystem machine)

include calls

/-- The trap is still there after the call. -/
theorem trap_kept : (callMemory machine).read 5 = 0xD3 ∧ (callMemory machine).read 6 = 0x01 ∧
    (callMemory machine).read 7 = 0xC9 := by
  -- The call is a push, which goes elsewhere.
  have kept : ∀ place, Within place systemEntry systemTrap.length →
      (callMemory machine).read place = machine.memory.read place := by
    intro place inside
    exact machine.store.read_push _ fun pushed => calls.apart place pushed inside
  -- Before the call they were in place.
  have bytes : [machine.memory.read 5, machine.memory.read 6, machine.memory.read 7] =
      [0xD3, 0x01, 0xC9] := calls.trap
  rw [kept 5 (by decide), kept 6 (by decide), kept 7 (by decide)]
  simpa using bytes

/-- The first tick reaches the entry and prints nothing. -/
theorem next_eq_atEntry : machine.next = atEntry machine ∧ machine.Announces [] := by
  -- A call works within the registers and the memory.
  refine ⟨?_, Machine.announces_of_internal calls.call (by decide) (by decide)⟩
  -- The operand of the call is the entry.
  rw [Machine.next_of_call calls.idle calls.call, calls.entry]
  rfl

/-- The second tick hands the call to the console, with the working registers of the caller. -/
theorem next_atEntry : (atEntry machine).next = (atEntry machine).past .output ∧
    ∃ echo, (atEntry machine).Announces
      (consoleCall echo machine.registers (callMemory machine)) := by
  -- At the entry the program counter is on an output to the console port.
  obtain ⟨code, port, _⟩ := calls.trap_kept
  obtain ⟨device, bound, echo, console⟩ := calls.console
  have writes : (atEntry machine).WritesTo 1 := ⟨code, port⟩
  have idle : (atEntry machine).pending = none := calls.idle
  -- The call has moved the stack pointer and the program counter, which the console ignores.
  have steady (slot : Fin 8) : Device.write device
      ⟨slot, (atEntry machine).registers.a, (atEntry machine).registers, (atEntry machine).memory⟩ =
        (device, consoleCall echo machine.registers (callMemory machine)) := console _
  obtain ⟨answered, announced⟩ := Machine.next_of_output idle writes bound steady
  exact ⟨answered, echo, announced⟩

/-- The third tick returns behind the call and prints nothing. -/
theorem next_past_output :
    ((atEntry machine).past .output).next = { machine with
        registers := { machine.registers with pc := machine.registers.pc + 3 }
        memory := callMemory machine
        cycles := machine.cycles + 37 } ∧
      ((atEntry machine).past .output).Announces [] := by
  -- The byte behind the output is that of a return.
  obtain ⟨_, _, code⟩ := calls.trap_kept
  have idle : ((atEntry machine).past .output).pending = none := calls.idle
  have returns : ((atEntry machine).past .output).Holds [.ret] :=
    Machine.holds_of_opcode code (by decide)
  refine ⟨?_, Machine.announces_of_internal returns (by decide) (by decide)⟩
  -- The word on the stack is the address that the call has left there.
  have address : (callMemory machine).readWord (machine.registers.sp - 2) =
      machine.registers.pc + 3 := Memory.readWord_writeWord _ _ _
  have sp : machine.registers.sp - 2 + 2 = machine.registers.sp := UInt16.sub_add_cancel _ _
  have cycles : machine.cycles + 17 + 10 + 10 = machine.cycles + 37 := by
    rw [UInt64.add_assoc, UInt64.add_assoc]
    rfl
  calc ((atEntry machine).past .output).next
      = { machine with
          registers := { machine.registers with
            sp := machine.registers.sp - 2 + 2
            pc := (callMemory machine).readWord (machine.registers.sp - 2) }
          memory := callMemory machine
          cycles := machine.cycles + 17 + 10 + 10 } := Machine.next_of_ret idle returns
    _ = { machine with
          registers := { machine.registers with pc := machine.registers.pc + 3 }
          memory := callMemory machine
          cycles := machine.cycles + 37 } := by rw [sp, address, cycles]

end CallsSystem

/--
A call of the system comes back.

Three ticks later the machine is behind the call and has what it had, except that 37 cycles have
passed and the return address lies below the stack pointer. The console has printed what the
function in C prints, from the registers of the caller and the memory with that address in it.
-/
theorem system_call_returns {session : Session δ} (calls : CallsSystem session.machine) :
    (session.stepped 3).machine = { session.machine with
        registers := { session.machine.registers with pc := session.machine.registers.pc + 3 }
        memory := callMemory session.machine
        cycles := session.machine.cycles + 37 } ∧
      ∃ text, Prints session.machine.registers (callMemory session.machine) text ∧
        (session.stepped 3).output = session.output ++ text := by
  -- The machines before the three ticks are the caller, the entry and the return.
  obtain ⟨called, silentCall⟩ := calls.next_eq_atEntry
  obtain ⟨answered, echo, announced⟩ := calls.next_atEntry
  obtain ⟨returned, silentReturn⟩ := calls.next_past_output
  have start : session.machine.ticks 0 = session.machine := rfl
  have first : session.machine.ticks 1 = atEntry session.machine := called
  have second : session.machine.ticks 2 = (atEntry session.machine).past .output := by
    rw [Machine.ticks_succ, first, answered]
  -- The text is that of the call, from what the caller had.
  have printed := announced.console.trans (console_consoleCall echo _ _)
  refine ⟨?_, _, prints_callText _ _, ?_⟩
  · -- The third tick ends where the caller goes on.
    rw [Session.machine_stepped, Machine.ticks_succ, second, returned]
  · -- Of the three ticks only the second one prints.
    have ticks : List.range 3 = [0, 1, 2] := rfl
    rw [Session.output_stepped, ticks]
    simp only [List.map_cons, List.map_nil, start, first, second, silentCall.console,
      printed, silentReturn.console]
    simp

end SystemCall

/-- A program about to print a string that begins with the return address of the call. -/
def selfPrintingCall : Session Trap :=
  { machine :=
      { toProcessor := { registers := { c := 9, d := 0xFF, e := 0xFF, sp := 1, pc := 0x243E } }
        toBus :=
          { memory := (Memory.zero.load systemEntry systemTrap).load 0x243E [0xCD, 0x05, 0x00]
            ports := trapPorts false } } }

/-- It prints the low byte of that address, because the high byte is a dollar sign. -/
theorem selfPrintingCall_returns :
    CallsSystem selfPrintingCall.machine ∧
      (selfPrintingCall.stepped 3).machine.registers =
        { c := 9, d := 0xFF, e := 0xFF, sp := 1, pc := 0x2441 } ∧
      (selfPrintingCall.stepped 3).output = "A" := by
  -- The program counter is on the code of a call.
  have opcode : selfPrintingCall.machine.opcode = 0xCD := by
    simp [selfPrintingCall, Machine.opcode, Memory.load, Memory.read_write]
  have calls : CallsSystem selfPrintingCall.machine :=
    { idle := rfl
      call := Machine.holds_of_opcode opcode (by decide)
      entry := by
        simp [selfPrintingCall, Memory.load, Memory.readWord, Memory.read_write]
        rfl
      trap := by
        simp [selfPrintingCall, Memory.slice, Memory.load, Memory.read_write, systemTrap,
          systemEntry, List.range_succ]
      apart := by
        intro address pushed
        have place : address = 0xFFFF ∨ address = 0x0000 := by simpa [selfPrintingCall] using pushed
        rcases place with rfl | rfl <;> decide
      console := ⟨.console false, rfl, isConsole_console false⟩ }
  obtain ⟨returned, text, prints, output⟩ := system_call_returns calls
  -- The call puts its return address where DE points, across the top of memory.
  have first : (callMemory selfPrintingCall.machine).read 0xFFFF = 0x41 := by
    simp [callMemory, selfPrintingCall, Memory.writeWord, Memory.read_write]
    rfl
  have second : (callMemory selfPrintingCall.machine).read 0x0000 = '$'.toUInt8 := by
    simp [callMemory, selfPrintingCall, Memory.writeWord, Memory.read_write]
    rfl
  -- The string is read with the return address already in memory.
  obtain ⟨count, ends, characters⟩ := prints.string rfl
  -- It goes on for one byte only.
  have one : count = 1 := by
    rcases Nat.lt_trichotomy count 1 with none | one | more
    · -- The string is not empty, because its first byte is no dollar sign.
      obtain rfl : count = 0 := by omega
      exact absurd (first.symm.trans (ends.stops (by decide))) (by decide)
    · exact one
    · -- A longer one would run over the dollar sign.
      exact absurd second (ends.before 1 more)
  subst one
  -- The low byte of the address is the code of the letter.
  have letter : text.toList = "A".toList := by
    rw [characters]
    exact congrArg (fun byte => [Char.ofUInt8 byte]) first
  refine ⟨calls, by rw [returned]; rfl, ?_⟩
  rw [output, String.toList_inj.mp letter]
  rfl

end Cpm

end Intel8080
