import Intel8080.Proofs.Machine.History

/-!
What one step can do to the waiting request and the interrupt switch.

A restart is accepted only while interrupts are enabled, and one that waits keeps them disabled.
-/

namespace Intel8080

/-- The code is one of the eight restarts: all bits but those of the line are set. -/
def IsRestart (code : UInt8) : Prop :=
  code &&& 0xC7 = 0xC7

/-- A restart code is the code of exactly one line. -/
theorem restart?_eq_some_iff (code : UInt8) (line : Fin 8) :
    restart? code = some line ↔ code = restartCode line := by
  -- All codes are compared with all lines.
  have all : ∀ (value : Fin 256) (line : Fin 8),
      restart? (.ofFin value) = some line ↔ .ofFin value = restartCode line := by
    decide +kernel
  exact all code.toFin line

/-- Every other code has no line. -/
theorem restart?_eq_none_iff (code : UInt8) : restart? code = none ↔ ¬ IsRestart code := by
  -- All codes are looked at.
  have all : ∀ value : Fin 256,
      restart? (.ofFin value) = none ↔ ¬ UInt8.ofFin value &&& 0xC7 = 0xC7 := by
    decide +kernel
  exact all code.toFin

/-- The code of a line is a restart. -/
theorem isRestart_restartCode (line : Fin 8) : IsRestart (restartCode line) := by
  -- There are eight lines.
  revert line
  unfold IsRestart
  decide

namespace Machine

variable {δ : Type}

/-- The code of the restart that waits to be injected. -/
def pendingCode (machine : Machine δ) : Option UInt8 :=
  machine.pending.map restartCode

/-- A waiting restart keeps interrupts disabled. -/
def Disciplined (machine : Machine δ) : Prop :=
  machine.pending.isSome → machine.interruptsEnabled = false

/-- A restart asked for while interrupts are enabled waits, and disables them. -/
theorem interrupt_of_accepted (machine : Machine δ) {code : UInt8} (restart : IsRestart code)
    (enabled : machine.interruptsEnabled = true) :
    ∃ line, code = restartCode line ∧
      (machine.interrupt code).1 =
        { machine with interruptsEnabled := false, pending := some line } := by
  -- The code is a restart exactly if it has a line.
  cases found : restart? code with
  | none => exact absurd restart ((restart?_eq_none_iff code).mp found)
  | some line =>
    exact ⟨line, (restart?_eq_some_iff code line).mp found, by simp [interrupt, found, enabled]⟩

/-- Any other request leaves the machine as it was. -/
theorem interrupt_of_refused (machine : Machine δ) {code : UInt8}
    (refused : ¬ (IsRestart code ∧ machine.interruptsEnabled = true)) :
    (machine.interrupt code).1 = machine := by
  -- Either the code has no line, or the switch is off.
  cases found : restart? code with
  | none => simp [interrupt, found]
  | some line =>
    -- The code has a line, so the switch must have been off.
    have restart : IsRestart code := by
      rw [(restart?_eq_some_iff code line).mp found]
      exact isRestart_restartCode line
    have disabled : machine.interruptsEnabled = false := by
      simpa [restart] using refused
    simp [interrupt, found, disabled]

end Machine

namespace Step

variable {δ : Type} [Device δ]

/-- The code that a step asks for. -/
def request? (step : Step δ) : Option UInt8 :=
  match step.action with
  | .interrupt code => some code
  | .interruptLine line => some (restartCode line)
  | _ => none

/-- The code that a step accepts: it asks for it, it disables interrupts, and now the code waits. -/
def accepted? (step : Step δ) : Option UInt8 :=
  step.request?.filter fun code =>
    step.before.interruptsEnabled && !step.after.interruptsEnabled &&
      step.after.pendingCode == some code

/-- The code that a step serves: it waits before the tick and not after it. -/
def serviced? (step : Step δ) : Option UInt8 :=
  match step.action with
  | .tick => if step.after.pending = none then step.before.pendingCode else none
  | _ => none

/-- The step is a tick whose instruction does not halt. -/
def Runs (step : Step δ) : Prop :=
  step.action = .tick ∧ ¬ step.before.Halts

/-- The step executes EI. -/
def Enables (step : Step δ) : Prop :=
  step.action = .tick ∧ step.before.opcode = 0xFB

omit [Device δ] in
/-- A step that executes an instruction asks for nothing. -/
theorem request?_of_runs {step : Step δ} (runs : step.Runs) : step.request? = none := by
  -- Its action is a tick, which is no request.
  simp [request?, runs.1]

/-- A step that leaves the interrupt switch alone accepts nothing. -/
theorem accepted?_of_switch {step : Step δ}
    (switch : step.after.interruptsEnabled = step.before.interruptsEnabled) :
    step.accepted? = none := by
  -- Accepting needs the switch on before and off after.
  apply Option.filter_eq_none_iff.mpr
  intro code _
  cases enabled : step.before.interruptsEnabled <;> simp [switch, enabled]

/-- A step that executes an instruction serves whatever waits. -/
theorem serviced?_of_runs {step : Step δ} (runs : step.Runs) :
    step.serviced? = step.before.pendingCode := by
  -- Behind an instruction that is executed nothing waits any more.
  have served : step.after.pending = none := by
    rw [after, runs.1]
    exact step.before.pending_next_of_runs runs.2
  simp only [serviced?, runs.1, if_pos served]

/-- No other step serves anything. -/
theorem serviced?_of_not_runs {step : Step δ} (still : ¬ step.Runs) : step.serviced? = none := by
  -- Only ticks are looked at.
  unfold serviced?
  split
  · rename_i ticks
    -- A tick that does not run has halted, and what waited goes on waiting.
    have halts : step.before.Halts :=
      Decidable.byContradiction fun runs => still ⟨ticks, runs⟩
    have waiting : step.after.pending = step.before.pending := by
      rw [after, ticks]
      exact congrArg (·.pending) (step.before.next_of_halts halts)
    rw [waiting]
    split
    · -- Nothing waited before either.
      rename_i none
      simp [Machine.pendingCode, none]
    · rfl
  · rfl

/-- What a step can do to the waiting request and the interrupt switch. -/
inductive Outcome (step : Step δ) : Prop
  /-- It accepts a restart, which waits from now on, and changes nothing else. -/
  | accepts (line : Fin 8) (still : ¬ step.Runs)
      (accepted : step.accepted? = some (restartCode line))
      (asked : step.request? = some (restartCode line))
      (enabled : step.before.interruptsEnabled = true)
      (recorded :
        step.after = { step.before with interruptsEnabled := false, pending := some line })
  /-- It executes an instruction, which may turn the switch, and after it nothing waits. -/
  | runs (runs : step.Runs) (accepted : step.accepted? = none)
      (served : step.after.pending = none)
      (switched : step.after.interruptsEnabled =
        if step.before.opcode = 0xFB then true
        else if step.before.opcode = 0xF3 then false
        else step.before.interruptsEnabled)
  /-- It does neither, and a request that it makes is without effect. -/
  | keeps (still : ¬ step.Runs) (accepted : step.accepted? = none)
      (refused : ∀ code, step.request? = some code →
        ¬ (IsRestart code ∧ step.before.interruptsEnabled = true) ∧ step.after = step.before)
      (waiting : step.after.pending = step.before.pending)
      (switch : step.after.interruptsEnabled = step.before.interruptsEnabled)

/-- A request is either accepted or without effect. -/
theorem outcome_of_request (step : Step δ) {code : UInt8} (asked : step.request? = some code)
    (performed : step.after = (step.before.interrupt code).1) : step.Outcome := by
  -- A step that asks for something is no tick.
  have still : ¬ step.Runs := fun runs => by simp [request?_of_runs runs] at asked
  by_cases accepts : IsRestart code ∧ step.before.interruptsEnabled = true
  · -- The restart waits from now on, so its code is the one found afterwards.
    obtain ⟨line, rfl, recorded⟩ := step.before.interrupt_of_accepted accepts.1 accepts.2
    rw [← performed] at recorded
    refine .accepts line still ?_ asked accepts.2 recorded
    simp [accepted?, asked, accepts.2, recorded, Machine.pendingCode]
  · -- Nothing has changed, so the switch is as it was.
    have unchanged := performed.trans (step.before.interrupt_of_refused accepts)
    refine .keeps still (accepted?_of_switch (by rw [unchanged])) (fun other same => ?_)
      (by rw [unchanged]) (by rw [unchanged])
    obtain rfl : code = other := Option.some.inj (asked.symm.trans same)
    exact ⟨accepts, unchanged⟩

/-- Every step has one of the three outcomes. -/
theorem outcome (step : Step δ) : step.Outcome := by
  -- A change by the host asks for nothing and leaves the processor alone.
  have changed (asksNothing : step.request? = none) (still : ¬ step.Runs)
      (waiting : step.after.pending = step.before.pending)
      (switch : step.after.interruptsEnabled = step.before.interruptsEnabled) : step.Outcome :=
    .keeps still (accepted?_of_switch switch) (fun _ asked => by simp [asksNothing] at asked)
      waiting switch
  obtain ⟨before, action⟩ := step
  cases action with
  | tick =>
    by_cases halts : before.Halts
    · -- A halting tick returns before it looks at the request.
      have stopped : (⟨before, .tick⟩ : Step δ).after = { before with halted := true } :=
        before.next_of_halts halts
      exact changed rfl (fun runs => runs.2 halts) (by rw [stopped]) (by rw [stopped])
    · -- A tick that is executed serves whatever waits.
      exact .runs ⟨rfl, halts⟩ rfl (before.pending_next_of_runs halts)
        (before.interruptsEnabled_next_of_runs halts)
  -- Both kinds of request go the same way.
  | interrupt code => exact outcome_of_request _ rfl rfl
  | interruptLine line => exact outcome_of_request _ rfl rfl
  -- The host changes nothing that a request depends on.
  | setTracing tracing => exact changed rfl (fun runs => by cases runs.1) rfl rfl
  | setPolicy policy => exact changed rfl (fun runs => by cases runs.1) rfl rfl
  | setBus bus => exact changed rfl (fun runs => by cases runs.1) rfl rfl

/-- Interrupts that are disabled stay so through every step but EI. -/
theorem disabled_after (step : Step δ) (disabled : step.before.interruptsEnabled = false)
    (other : ¬ step.Enables) : step.after.interruptsEnabled = false := by
  -- Of the three outcomes only an executed instruction can turn the switch on.
  cases step.outcome with
  | accepts _ _ _ _ enabled _ => rw [disabled] at enabled; cases enabled
  | runs runs _ _ switched =>
    -- Of all instructions only EI turns the switch on.
    have code : step.before.opcode ≠ 0xFB := fun ei => other ⟨runs.1, ei⟩
    rw [switched, if_neg code, disabled, ite_self]
  | keeps _ _ _ _ switch => exact switch.trans disabled

/-- Exactly the restarts asked for while interrupts are enabled are accepted. -/
theorem accepted?_eq_some_iff {step : Step δ} {code : UInt8} (asked : step.request? = some code) :
    step.accepted? = some code ↔ IsRestart code ∧ step.before.interruptsEnabled = true := by
  -- A request is accepted in the first outcome only.
  cases step.outcome with
  | accepts line _ accepted asked' enabled _ =>
    obtain rfl : restartCode line = code := Option.some.inj (asked'.symm.trans asked)
    simp [accepted, enabled, isRestart_restartCode]
  | runs runs _ _ _ => simp [request?_of_runs runs] at asked
  | keeps _ accepted refused _ _ =>
    rw [accepted]
    exact ⟨nofun, fun accepts => absurd accepts (refused code asked).1⟩

/-- Accepting a code records its line, disables interrupts and changes nothing else. -/
theorem after_of_accepted {step : Step δ} {code : UInt8} (accepted : step.accepted? = some code) :
    step.request? = some code ∧ step.before.interruptsEnabled = true ∧
      ∃ line, code = restartCode line ∧
        step.after = { step.before with interruptsEnabled := false, pending := some line } := by
  -- The other two outcomes accept nothing.
  cases step.outcome with
  | accepts line _ same asked enabled recorded =>
    obtain rfl : restartCode line = code := Option.some.inj (same.symm.trans accepted)
    exact ⟨asked, enabled, line, rfl, recorded⟩
  | runs _ none _ _ => rw [none] at accepted; cases accepted
  | keeps _ none _ _ _ => rw [none] at accepted; cases accepted

/-- A request that is not accepted changes nothing. -/
theorem after_of_refused {step : Step δ} {code : UInt8} (asked : step.request? = some code)
    (refused : step.accepted? ≠ some code) : step.after = step.before := by
  -- In the last outcome a request is without effect.
  cases step.outcome with
  | accepts line _ accepted asked' _ _ =>
    -- The code accepted is the code asked for.
    obtain rfl : restartCode line = code := Option.some.inj (asked'.symm.trans asked)
    exact absurd accepted refused
  | runs runs _ _ _ => rw [request?_of_runs runs] at asked; cases asked
  | keeps _ _ unchanged _ _ => exact (unchanged code asked).2

/-- Serving a code is the restart of its line after the instruction of the tick. -/
theorem after_of_serviced {step : Step δ} {code : UInt8} (served : step.serviced? = some code) :
    step.Runs ∧ ∃ line, code = restartCode line ∧
      step.after = step.before.withoutRequest.next.inject line := by
  by_cases runs : step.Runs
  · -- The code served is the one that waited.
    rw [serviced?_of_runs runs, Machine.pendingCode, Option.map_eq_some_iff] at served
    obtain ⟨line, waiting, rfl⟩ := served
    refine ⟨runs, line, rfl, ?_⟩
    rw [after, runs.1]
    exact step.before.next_of_request runs.2 waiting
  · -- Any other step serves nothing.
    rw [serviced?_of_not_runs runs] at served
    cases served

/-- A tick that serves nothing is the same tick without a request, and a request goes on waiting. -/
theorem after_of_unserved {step : Step δ} (ticks : step.action = .tick)
    (unserved : step.serviced? = none) :
    step.after = { step.before.withoutRequest.next with pending := step.before.pending } := by
  -- The step is a tick, whose effect is the next machine.
  have performed : step.after = step.before.next := by rw [after, ticks]; rfl
  rw [performed]
  by_cases halts : step.before.Halts
  · -- Both ticks stop in place.
    have hidden := step.before.withoutRequest.next_of_halts halts
    rw [step.before.next_of_halts halts, hidden]
    rfl
  · -- Nothing waits before this tick, or it would have been served.
    rw [serviced?_of_runs ⟨ticks, halts⟩, Machine.pendingCode, Option.map_eq_none_iff] at unserved
    have same : step.before.withoutRequest = step.before := by
      rw [Machine.withoutRequest, ← unserved]
    rw [same, unserved, ← step.before.pending_next_of_runs halts]

/-- Nothing but a tick touches the registers and the cycles. -/
theorem registers_after_of_not_tick {step : Step δ} (other : step.action ≠ .tick) :
    step.after.registers = step.before.registers ∧ step.after.cycles = step.before.cycles := by
  -- A request has three ways to end, and none of them moves the processor.
  have unmoved (code : UInt8) :
      (step.before.interrupt code).1.registers = step.before.registers ∧
        (step.before.interrupt code).1.cycles = step.before.cycles := by
    unfold Machine.interrupt
    split
    · exact ⟨rfl, rfl⟩
    · split <;> exact ⟨rfl, rfl⟩
  obtain ⟨before, action⟩ := step
  cases action with
  | tick => exact absurd rfl other
  -- Both kinds of request are looked up by their code.
  | interrupt code => exact unmoved code
  | interruptLine line => exact unmoved (restartCode line)
  | setTracing _ | setPolicy _ | setBus _ => exact ⟨rfl, rfl⟩

end Step

namespace Machine

variable {δ : Type}

/-- Every action keeps interrupts disabled while a restart waits. -/
theorem disciplined_perform [Device δ] (machine : Machine δ) (action : Action δ)
    (disciplined : machine.Disciplined) : (machine.perform action).Disciplined := by
  intro waits
  -- Whatever waits afterwards was accepted just now or waited before.
  let step : Step δ := ⟨machine, action⟩
  cases step.outcome with
  | accepts _ _ _ _ _ recorded => exact congrArg (·.interruptsEnabled) recorded
  | runs _ _ served _ => simp [show (machine.perform action).pending = none from served] at waits
  | keeps _ _ _ waiting switch =>
    exact switch.trans (disciplined ((congrArg Option.isSome waiting).symm.trans waits))

/-- Nothing waits in a fresh machine. -/
theorem disciplined_start (bus : Bus δ) (entry : UInt16) : (start bus entry).Disciplined := by
  intro waits
  -- A fresh machine has never been asked for anything.
  cases waits

/-- While interrupts are enabled nothing waits. -/
theorem Disciplined.pendingCode_eq_none {machine : Machine δ} (disciplined : machine.Disciplined)
    (enabled : machine.interruptsEnabled = true) : machine.pendingCode = none := by
  -- A restart that waits would have disabled them.
  cases pending : machine.pending with
  | none => simp [pendingCode, pending]
  | some line => simp [disciplined (by simp [pending])] at enabled

end Machine

end Intel8080
