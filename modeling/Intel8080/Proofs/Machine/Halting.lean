import Intel8080.Device.Probe
import Intel8080.Proofs.Interrupt.Request
import Intel8080.Proofs.Machine.Dispatch

/-!
A machine that halts stays where it is.

Ticking it again executes the same instruction again, which halts before anything is charged, moved
or served.
-/

namespace Intel8080

/-- The action replaces neither the bus nor the policy. -/
def Action.Plain {δ : Type} : Action δ → Prop
  | .setPolicy _ | .setBus _ => False
  | _ => True

namespace Machine

section Frozen

variable {δ : Type}

/--
The later machine is the earlier one halted.

Besides, only the interrupt switch, the waiting request and the listing of instructions can differ.
-/
def Frozen (before after : Machine δ) : Prop :=
  ∃ enabled pending tracing, after = { before with
    halted := true
    interruptsEnabled := enabled
    pending := pending
    tracing := tracing }

/-- A frozen machine stands before the instruction that halted it. -/
theorem Frozen.halts {before after : Machine δ} (frozen : Frozen before after)
    (halts : before.Halts) : after.Halts := by
  -- Neither the byte at the program counter nor the policy has changed.
  obtain ⟨_, _, _, rfl⟩ := frozen
  exact halts

/-- A request leaves a frozen machine frozen. -/
theorem Frozen.interrupt {before after : Machine δ} (frozen : Frozen before after)
    (code : UInt8) : Frozen before (after.interrupt code).1 := by
  -- An accepted request waits, and it turns the switch off.
  by_cases accepts : IsRestart code ∧ after.interruptsEnabled = true
  · obtain ⟨line, _, recorded⟩ := after.interrupt_of_accepted accepts.1 accepts.2
    obtain ⟨_, _, _, rfl⟩ := frozen
    exact ⟨_, _, _, recorded⟩
  · -- A refused request does nothing.
    rw [after.interrupt_of_refused accepts]
    exact frozen

variable [Device δ]

/-- A machine that stands before a halting instruction is frozen by its next tick. -/
theorem frozen_next {machine : Machine δ} (halts : machine.Halts) : Frozen machine machine.next :=
  -- The halting tick sets the flag and leaves the other three as they were.
  ⟨_, _, _, machine.next_of_halts halts⟩

/-- No plain action thaws a frozen machine. -/
theorem Frozen.perform {before after : Machine δ} (halts : before.Halts)
    (frozen : Frozen before after) {action : Action δ} (plain : action.Plain) :
    Frozen before (after.perform action) := by
  -- Each plain action changes at most one of the three things that a frozen machine leaves open.
  cases action with
  | tick =>
    -- The same instruction halts again.
    have again := after.next_of_halts (frozen.halts halts)
    obtain ⟨_, _, _, rfl⟩ := frozen
    exact ⟨_, _, _, again⟩
  -- Both kinds of request wait, or have no effect.
  | interrupt code => exact frozen.interrupt code
  | interruptLine line => exact frozen.interrupt (restartCode line)
  | setTracing tracing =>
    obtain ⟨_, _, _, rfl⟩ := frozen
    exact ⟨_, _, _, rfl⟩
  -- The other two actions are not plain.
  | setPolicy policy => exact plain.elim
  | setBus bus => exact plain.elim

/--
A frozen machine accepts at most one request, and none while interrupts are disabled.

Accepting disables interrupts, and no instruction is executed that could enable them again.
-/
theorem Frozen.length_accepted_le {before machine : Machine δ} (halts : before.Halts)
    (frozen : Frozen before machine) {actions : List (Action δ)}
    (plain : ∀ action ∈ actions, action.Plain) :
    ((machine.history actions).filterMap Step.accepted?).length ≤
      if machine.interruptsEnabled then 1 else 0 := by
  -- The bound that the rest of the actions keep is the switch as the first one leaves it.
  induction actions generalizing machine with
  | nil => exact Nat.zero_le _
  | cons action rest ih =>
    let step : Step δ := ⟨machine, action⟩
    have steps : machine.history (action :: rest) = step :: step.after.history rest := rfl
    have later : ((step.after.history rest).filterMap Step.accepted?).length ≤
        if step.after.interruptsEnabled then 1 else 0 :=
      ih (frozen.perform halts (plain action (by simp))) fun other member =>
        plain other (List.mem_cons_of_mem _ member)
    rw [steps]
    cases step.outcome with
    | accepts line _ accepted _ enabled recorded =>
      -- This is the one request, after which interrupts are disabled.
      have disabled : step.after.interruptsEnabled = false := by rw [recorded]
      have enabled : machine.interruptsEnabled = true := enabled
      rw [disabled] at later
      rw [List.filterMap_cons_some accepted, List.length_cons, enabled]
      exact Nat.succ_le_succ later
    -- No instruction is executed.
    | runs runs _ _ _ => exact absurd (frozen.halts halts) runs.2
    | keeps _ accepted _ _ switch =>
      -- Nothing was accepted, and the switch is where it was.
      rw [List.filterMap_cons_none accepted]
      exact switch ▸ later

end Frozen

section Halting

variable {δ : Type} [Device δ]

/-- What comes of a machine that has halted while its host takes plain actions. -/
structure Inert (machine : Machine δ) (actions : List (Action δ)) : Prop where
  /-- Registers, program counter, cycles, memory and devices are those before the halting tick. -/
  frozen : Frozen machine (machine.next.after actions)
  /-- The ticks make known messages of the machine alone, since no device hears of them. -/
  silent : ∀ step ∈ machine.next.history actions, step.action = .tick → step.before.Announces []
  accepted : ((machine.next.history actions).filterMap Step.accepted?).length ≤ 1
  unserved : (machine.next.history actions).filterMap Step.serviced? = []

/-- A tick that halts makes the machine inert. -/
theorem inert_of_halts {machine : Machine δ} (halts : machine.Halts) {actions : List (Action δ)}
    (plain : ∀ action ∈ actions, action.Plain) : Inert machine actions := by
  -- Being frozen is the invariant, from which everything else is read off step by step.
  have first := frozen_next halts
  have kept : ∀ (other : Machine δ) (action : Action δ), action.Plain → Frozen machine other →
      Frozen machine (other.perform action) :=
    fun _ _ plain frozen => frozen.perform halts plain
  obtain ⟨throughout, last⟩ := history_invariant_within kept first plain
  have stands : ∀ step ∈ machine.next.history actions, step.before.Halts :=
    fun step member => (throughout step member).1.halts halts
  refine
    { frozen := last
      silent := fun step member _ => step.before.announces_of_halts (stands step member)
      accepted := Nat.le_trans (first.length_accepted_le halts plain) (by split <;> decide)
      unserved := ?unserved }
  -- Only a tick that goes past its instruction serves.
  rw [List.filterMap_eq_nil_iff]
  exact fun step member => Step.serviced?_of_not_runs fun runs => runs.2 (stands step member)

/-- No action wakes a halted machine. -/
theorem halted_perform (machine : Machine δ) (action : Action δ) (halted : machine.halted = true) :
    (machine.perform action).halted = true := by
  -- Only a tick writes the flag, and it only ever sets it.
  have requested (code : UInt8) : (machine.interrupt code).1.halted = true := by
    unfold Machine.interrupt
    split
    · -- A code without a line is ignored.
      exact halted
    · -- A restart is recorded or dropped.
      split <;> exact halted
  cases action with
  | tick => exact machine.halted_next_iff.mpr (.inl halted)
  | interrupt code => exact requested code
  | interruptLine line => exact requested (restartCode line)
  | setTracing _ | setPolicy _ | setBus _ => exact halted

/--
Halting is final.

A tick halts exactly before HLT or a refused code, it does nothing else, and plain actions leave the
machine there. Whatever else is done to the memory, the devices or the policy, it stays halted.
-/
theorem halting_final :
    (∀ machine : Machine δ, machine.halted = false →
      (machine.next.halted = true ↔ machine.Halts)) ∧
    (∀ machine : Machine δ, machine.Halts →
      machine.next = { machine with halted := true } ∧ machine.Announces [] ∧
        ∀ actions : List (Action δ), (∀ action ∈ actions, action.Plain) → Inert machine actions) ∧
    (∀ (bus : Bus δ) (entry : UInt16) (front back : List (Action δ)),
      ((start bus entry).after front).halted = true →
        ((start bus entry).after (front ++ back)).halted = true) := by
  refine ⟨fun machine awake => ?_, fun machine halts => ?_, fun bus entry front back halted => ?_⟩
  · -- An awake machine has halted after a tick exactly if that tick halted.
    rw [halted_next_iff, awake]
    simp
  · -- The first halting tick freezes it.
    exact ⟨machine.next_of_halts halts, machine.announces_of_halts halts,
      fun actions plain => inert_of_halts halts plain⟩
  · -- The flag is never cleared on the way.
    rw [after_append]
    exact (history_invariant halted_perform halted back).2

/-- A machine about to execute HLT. -/
def haltingMachine : Machine Probe :=
  start { memory := Memory.zero.load 0x0100 [0x76] } 0x0100

/-- Two requests, a change of the listing and two ticks. -/
def requestsAndTicks : List (Action Probe) :=
  [.interrupt 0xCF, .tick, .setTracing true, .interruptLine ⟨2, by decide⟩, .tick]

/-- It halts, accepts the first of two requests, serves neither, and stays halted on a new bus. -/
theorem haltingMachine_final :
    haltingMachine.halted = false ∧ haltingMachine.Halts ∧ haltingMachine.next.halted = true ∧
      (∀ action ∈ requestsAndTicks, action.Plain) ∧
      Inert haltingMachine requestsAndTicks ∧
      (⟨haltingMachine.next, .interrupt 0xCF⟩ : Step Probe).accepted? = some 0xCF ∧
      (haltingMachine.after ([.tick] ++ [.setBus {}, .tick])).halted = true := by
  -- Its only instruction is HLT.
  have code : haltingMachine.opcode = 0x76 := by
    simp [haltingMachine, opcode, start, Memory.load, Memory.read_write]
  have halts : haltingMachine.Halts := .inl code
  have plain : ∀ action ∈ requestsAndTicks, action.Plain := by
    simp [requestsAndTicks, Action.Plain]
  obtain ⟨stops, rests, stays⟩ := halting_final (δ := Probe)
  have halted := (stops haltingMachine rfl).mpr halts
  obtain ⟨moved, _, inert⟩ := rests haltingMachine halts
  -- The tick leaves interrupts enabled, so the first request gets through.
  have enabled : haltingMachine.next.interruptsEnabled = true := by rw [moved]; rfl
  refine ⟨rfl, halts, halted, plain, inert _ plain, ?_, stays _ _ _ _ halted⟩
  exact (Step.accepted?_eq_some_iff rfl).mpr ⟨by unfold IsRestart; decide, enabled⟩

end Halting

end Machine

end Intel8080
