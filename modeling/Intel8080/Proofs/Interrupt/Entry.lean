import Intel8080.Device.Probe
import Intel8080.Proofs.Interrupt.Protocol

/-!
Whether a handler is entered with interrupts disabled.

Accepting a restart disables interrupts, but one more instruction is executed before the restart.
-/

namespace Intel8080

namespace Machine

section Entry

variable {δ : Type} [Device δ]

/-- Every request is dropped until EI is executed. -/
def Deaf (machine : Machine δ) : Prop :=
  ∀ actions front request back, machine.history actions = front ++ request :: back →
    (∀ step ∈ front, ¬ step.Enables) → request.accepted? = none

/-- A machine is deaf exactly while interrupts are disabled. -/
theorem deaf_iff (machine : Machine δ) : machine.Deaf ↔ machine.interruptsEnabled = false := by
  constructor
  · intro deaf
    -- A restart asked for at once would be accepted if interrupts were enabled.
    cases enabled : machine.interruptsEnabled with
    | false => rfl
    | true =>
      let request : Step δ := ⟨machine, .interruptLine 0⟩
      have accepted : request.accepted? = some (restartCode 0) :=
        (Step.accepted?_eq_some_iff rfl).mpr ⟨isRestart_restartCode 0, enabled⟩
      have dropped : request.accepted? = none :=
        deaf [.interruptLine 0] [] request [] rfl (by simp)
      rw [accepted] at dropped
      cases dropped
  · intro disabled actions front request back same still
    -- An acceptance finds interrupts enabled, and only EI could have enabled them.
    cases accepted : request.accepted? with
    | none => rfl
    | some code =>
      have enabled := (Step.after_of_accepted accepted).2.1
      obtain ⟨step, member, enables⟩ := enabled_cause disabled same enabled
      exact absurd enables (still step member)

/-- After a service interrupts are enabled exactly when the instruction of that tick was EI. -/
theorem interruptsEnabled_of_serviced {machine : Machine δ} (disciplined : machine.Disciplined)
    {code : UInt8} (served : (⟨machine, .tick⟩ : Step δ).serviced? = some code) :
    machine.next.interruptsEnabled = decide (machine.opcode = 0xFB) := by
  -- A tick that serves something has executed its instruction.
  have runs : ¬ machine.Halts := (Step.after_of_serviced served).1.2
  rw [Step.serviced?_of_runs ⟨rfl, runs⟩] at served
  -- The code waited through the instruction, so interrupts were disabled before it.
  have disabled : machine.interruptsEnabled = false := by
    obtain ⟨line, waiting, _⟩ := Option.map_eq_some_iff.mp served
    exact disciplined (congrArg Option.isSome waiting)
  -- From there on only EI could have enabled them.
  rw [machine.interruptsEnabled_next_of_runs runs, disabled, ite_self]
  by_cases ei : machine.opcode = 0xFB <;> simp [ei]

/--
A handler is entered with interrupts disabled, and deaf until EI, exactly when the instruction
executed between the request and the restart is not itself EI.
-/
theorem handler_entry {machine : Machine δ} (reachable : machine.Reachable) {code : UInt8}
    (served : (⟨machine, .tick⟩ : Step δ).serviced? = some code) :
    (machine.next.interruptsEnabled = false ↔ machine.opcode ≠ 0xFB) ∧
      (machine.next.Deaf ↔ machine.opcode ≠ 0xFB) := by
  -- Discipline holds at first and through every action.
  have disciplined : machine.Disciplined :=
    reachable_invariant disciplined_perform disciplined_start reachable
  -- The two conditions speak of the same switch.
  have switch : machine.next.interruptsEnabled = false ↔ machine.opcode ≠ 0xFB := by
    rw [interruptsEnabled_of_serviced disciplined served, decide_eq_false_iff_not]
  exact ⟨switch, (deaf_iff machine.next).trans switch⟩

end Entry

/-- A machine with RST 1 accepted, about to execute a single byte. -/
def requestedBefore (code : UInt8) : Machine Probe :=
  (start { memory := Memory.zero.load 0x0100 [code] } 0x0100).after [.interrupt 0xCF]

/-- The byte is what the machine executes next. -/
theorem opcode_requestedBefore (code : UInt8) : (requestedBefore code).opcode = code := by
  -- The request touches neither the memory nor the program counter.
  have unmoved : (requestedBefore code).opcode = (Memory.zero.load 0x0100 [code]).read 0x0100 := rfl
  rw [unmoved, Memory.load, Memory.load, Memory.read_write, if_pos rfl]

/-- The next tick serves the restart unless the byte halts. -/
theorem serviced?_requestedBefore {code : UInt8} (runs : ¬ (requestedBefore code).Halts) :
    (⟨requestedBefore code, .tick⟩ : Step Probe).serviced? = some 0xCF :=
  -- The restart waits, and the tick executes the byte.
  Step.serviced?_of_runs ⟨rfl, runs⟩

/-- After a NOP the handler is entered with interrupts disabled. -/
theorem handler_entry_nop :
    (requestedBefore 0x00).Reachable ∧
      (⟨requestedBefore 0x00, .tick⟩ : Step Probe).serviced? = some 0xCF ∧
      (requestedBefore 0x00).next.interruptsEnabled = false ∧ (requestedBefore 0x00).next.Deaf := by
  have reachable : (requestedBefore 0x00).Reachable := ⟨_, _, _, rfl⟩
  -- A NOP leaves the switch as the request has left it.
  have code := opcode_requestedBefore 0x00
  have runs : ¬ (requestedBefore 0x00).Halts := by rw [Halts, code]; decide
  have served := serviced?_requestedBefore runs
  have entry := handler_entry reachable served
  exact ⟨reachable, served, entry.1.mpr (by rw [code]; decide), entry.2.mpr (by rw [code]; decide)⟩

/-- After EI it is entered with interrupts enabled, and the next request gets through. -/
theorem enabled_entry_ei :
    (requestedBefore 0xFB).Reachable ∧
      (⟨requestedBefore 0xFB, .tick⟩ : Step Probe).serviced? = some 0xCF ∧
      (requestedBefore 0xFB).next.interruptsEnabled = true ∧
      (⟨(requestedBefore 0xFB).next, .interrupt 0xD7⟩ : Step Probe).accepted? = some 0xD7 := by
  -- EI turns on what the request has turned off.
  have code := opcode_requestedBefore 0xFB
  have runs : ¬ (requestedBefore 0xFB).Halts := by rw [Halts, code]; decide
  have enabled : (requestedBefore 0xFB).next.interruptsEnabled = true := by
    rw [interruptsEnabled_next_of_runs _ runs, if_pos code]
  refine ⟨⟨_, _, _, rfl⟩, serviced?_requestedBefore runs, enabled, ?_⟩
  exact (Step.accepted?_eq_some_iff rfl).mpr ⟨by unfold IsRestart; decide, enabled⟩

end Machine

end Intel8080
