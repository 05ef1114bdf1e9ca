import Intel8080.Device.Probe
import Intel8080.Proofs.Interrupt.Request
import Intel8080.Proofs.Machine.Cycles
import Intel8080.Proofs.Machine.Dispatch

/-!
What the cycle counter shows after any order of ticks, requests and changes by the host.

The bit fields of each executed code give its cost, to which only a served request adds.
-/

namespace Intel8080

namespace Operation

/-- The cost depends on whether a condition holds. -/
def isConditional : Operation → Bool
  | callIf _ | retIf _ => true
  | _ => false

/-- Every other operation has a fixed cost. -/
theorem cost_of_unconditional (flags : Flags) {operation : Operation}
    (fixed : operation.isConditional = false) : operation.cost flags = operation.cycles := by
  -- The penalty is nothing unless there is a condition that can hold.
  cases operation
  case callIf | retIf => cases fixed
  all_goals exact UInt64.add_zero _

end Operation

namespace BitFields

/--
The cycles of a code as its fields lay them out.

A conditional call or return that is taken costs six more.
-/
def cost (fields : BitFields) (taken : Bool) : Nat :=
  match fields.x, fields.z with
  | 0, 0 => 4
  -- LXI and DAD.
  | 0, 1 => 10
  -- Through BC or DE, then SHLD and LHLD, then STA and LDA.
  | 0, 2 =>
    match fields.y with
    | 0 | 1 | 2 | 3 => 7
    | 4 | 5 => 16
    | 6 | 7 => 13
  -- INX and DCX, then INR and DCR, then MVI.
  | 0, 3 => 5
  | 0, 4 | 0, 5 => if fields.y.val = 6 then 10 else 5
  | 0, 6 => if fields.y.val = 6 then 10 else 7
  -- Rotations and the other work on the accumulator and the carry.
  | 0, 7 => 4
  -- MOV and arithmetic, where the memory operand is the dearer one.
  | 1, _ => if fields.y.val = 6 ∨ fields.z.val = 6 then 7 else 5
  | 2, _ => if fields.z.val = 6 then 7 else 4
  -- Conditional returns, then POP and RET against PCHL and SPHL, then jumps.
  | 3, 0 => if taken then 11 else 5
  | 3, 1 =>
    if fields.q.val = 0 then 10
    else
      match fields.p with
      | 0 | 1 => 10
      | 2 | 3 => 5
  | 3, 2 => 10
  -- JMP, OUT and IN, then XTHL, then XCHG, DI and EI.
  | 3, 3 =>
    match fields.y with
    | 0 | 1 | 2 | 3 => 10
    | 4 => 18
    | 5 | 6 | 7 => 4
  -- Conditional calls, then PUSH against CALL, then immediate arithmetic, then RST.
  | 3, 4 => if taken then 17 else 11
  | 3, 5 => if fields.q.val = 0 then 11 else 17
  | 3, 6 => 7
  | 3, 7 => 11

/-- The fields of a conditional call or return. -/
def IsConditional (fields : BitFields) : Prop :=
  fields.x.val = 3 ∧ (fields.z.val = 0 ∨ fields.z.val = 4)

instance (fields : BitFields) : Decidable fields.IsConditional :=
  inferInstanceAs (Decidable (_ ∧ _))

/-- Elsewhere the fields name an operation of the cost they give, whatever the flags. -/
theorem cost_of_unconditional {fields : BitFields} (fixed : ¬ fields.IsConditional)
    (taken : Bool) :
    fields.operation.isConditional = false ∧
      fields.operation.cycles.toNat = fields.cost taken := by
  -- The 256 combinations of fields are checked one by one.
  have all : ∀ (x : Fin 4) (y z : Fin 8) (taken : Bool), ¬ IsConditional ⟨x, y, z⟩ →
      (operation ⟨x, y, z⟩).isConditional = false ∧
        (operation ⟨x, y, z⟩).cycles.toNat = cost ⟨x, y, z⟩ taken := by
    decide +kernel
  exact all fields.x fields.y fields.z taken fixed

/-- The operation that the fields name costs what they say. -/
theorem toNat_cost_operation (fields : BitFields) (flags : Flags) :
    (fields.operation.cost flags).toNat = fields.cost (condition flags fields.y) := by
  -- Only a conditional call or return looks at the flags, so that the others are a finite table.
  by_cases conditional : fields.IsConditional
  · -- The middle field selects the flag that decides.
    obtain ⟨⟨x, _⟩, y, ⟨z, _⟩⟩ := fields
    obtain ⟨rfl : x = 3, rfl | rfl⟩ := conditional
    · simp only [operation, cost, Operation.cost, Operation.penalty, holds_conditionName]
      cases condition flags y <;> rfl
    · simp only [operation, cost, Operation.cost, Operation.penalty, holds_conditionName]
      cases condition flags y <;> rfl
  · obtain ⟨fixed, same⟩ := cost_of_unconditional conditional (condition flags fields.y)
    rw [Operation.cost_of_unconditional flags fixed, same]

end BitFields

namespace Machine

variable {δ : Type}

/-- The cycles of the next instruction by the bit fields of its code. -/
def fieldCost (machine : Machine δ) : Nat :=
  let fields := BitFields.ofCode machine.opcode
  fields.cost (BitFields.condition machine.registers.flags fields.y)

/-- The next instruction costs what the fields of its code say. -/
theorem toNat_cost_instruction (machine : Machine δ) :
    (machine.instruction.operation.cost machine.registers.flags).toNat = machine.fieldCost := by
  -- The operation of a code is the one that its fields name.
  rw [operation_instruction, BitFields.toNat_cost_operation]
  rfl

/-- That is between four and eighteen cycles. -/
theorem fieldCost_bounds (machine : Machine δ) :
    4 ≤ machine.fieldCost ∧ machine.fieldCost ≤ 18 := by
  rw [← toNat_cost_instruction]
  exact Operation.cost_bounds _ _

end Machine

namespace Step

variable {δ : Type} [Device δ]

/--
The cycles that a step takes.

Only a tick takes any. If it halts it takes none, and otherwise those of its instruction by the bit
fields and eleven more if it serves a request.
-/
def cycles (step : Step δ) : Nat :=
  match step.action with
  | .tick =>
    if step.before.Halts then 0
    else step.before.fieldCost + if step.serviced?.isSome then 11 else 0
  | _ => 0

/-- For a tick that is what the machine charges. -/
theorem cycles_of_tick {step : Step δ} (ticks : step.action = .tick) :
    step.cycles = step.before.tickCycles := by
  by_cases halts : step.before.Halts
  · -- Neither side charges a tick that halts.
    simp only [cycles, ticks, Machine.tickCycles, if_pos halts]
  · -- The request served is the one that waits.
    have served : step.serviced?.isSome = step.before.pending.isSome := by
      rw [serviced?_of_runs ⟨ticks, halts⟩, Machine.pendingCode, Option.isSome_map]
    simp only [cycles, ticks, Machine.tickCycles, if_neg halts, served,
      Machine.toNat_cost_instruction]

/-- A tick that does not halt takes between four and twenty-nine cycles. -/
theorem cycles_bounds {step : Step δ} (runs : step.Runs) :
    4 ≤ step.cycles ∧ step.cycles ≤ 29 := by
  -- The dearest instruction takes eighteen, and a restart eleven.
  have bounds := step.before.fieldCost_bounds
  simp only [cycles, runs.1, if_neg runs.2]
  split <;> omega

/-- A step moves the counter on by the cycles it takes, as far as 64 bits show it. -/
theorem cycles_after (step : Step δ) :
    step.after.cycles = step.before.cycles + .ofNat step.cycles := by
  by_cases ticks : step.action = .tick
  · have moved : step.after.cycles = step.before.next.cycles := by rw [after, ticks]; rfl
    rw [moved, Machine.cycles_next, cycles_of_tick ticks]
  · -- Nothing else is charged.
    have free : step.cycles = 0 := by
      obtain ⟨before, action⟩ := step
      cases action with
      | tick => exact absurd rfl ticks
      | _ => rfl
    rw [(registers_after_of_not_tick ticks).2, free]
    exact (UInt64.add_zero _).symm

/-- The counter shows them exactly if it has room for them. -/
theorem toNat_cycles_after {step : Step δ}
    (room : step.before.cycles.toNat + step.cycles < UInt64.size) :
    step.after.cycles.toNat = step.before.cycles.toNat + step.cycles := by
  -- A sum below the modulus is its own remainder.
  have fits : step.cycles < UInt64.size := Nat.lt_of_le_of_lt (Nat.le_add_left _ _) room
  rw [cycles_after, UInt64.toNat_add, UInt64.toNat_ofNat_of_lt' fits, Nat.mod_eq_of_lt room]

end Step

namespace Machine

variable {δ : Type} [Device δ]

/-- The cycles that all the steps of a sequence of actions take together. -/
def bill (machine : Machine δ) (actions : List (Action δ)) : Nat :=
  (machine.history actions).foldr (fun step total => step.cycles + total) 0

/-- The bill of the first action comes before that of the others. -/
theorem bill_cons (machine : Machine δ) (action : Action δ) (rest : List (Action δ)) :
    machine.bill (action :: rest) =
      (⟨machine, action⟩ : Step δ).cycles + (machine.perform action).bill rest := by
  rw [bill, history, List.foldr_cons]
  rfl

/-- A counter with room for the whole bill shows each step's share of it, and in the end all. -/
theorem toNat_cycles_of_room {machine : Machine δ} {actions : List (Action δ)}
    (room : machine.cycles.toNat + machine.bill actions < UInt64.size) :
    (∀ step ∈ machine.history actions,
        step.after.cycles.toNat = step.before.cycles.toNat + step.cycles) ∧
      (machine.after actions).cycles.toNat = machine.cycles.toNat + machine.bill actions := by
  -- The counter that the first step leaves has room for the bill of the others.
  induction actions generalizing machine with
  | nil => exact ⟨by simp [history], rfl⟩
  | cons action rest ih =>
    let step : Step δ := ⟨machine, action⟩
    rw [bill_cons, ← Nat.add_assoc] at room
    have first : (machine.perform action).cycles.toNat = machine.cycles.toNat + step.cycles :=
      step.toNat_cycles_after (Nat.lt_of_le_of_lt (Nat.le_add_right _ _) room)
    rw [← first] at room
    obtain ⟨steps, total⟩ := ih room
    refine ⟨fun other member => ?_, ?_⟩
    · rcases List.mem_cons.mp member with rfl | later
      · exact first
      · exact steps other later
    · rw [bill_cons, ← Nat.add_assoc, ← first]
      exact total

/-- The cycle counter of a fresh machine, along all the steps of a sequence of actions. -/
structure Accounted (machine : Machine δ) (actions : List (Action δ)) : Prop where
  /-- The counter shows the cycles of all ticks, each by the bit fields of its code. -/
  total : (machine.after actions).cycles.toNat = machine.bill actions
  /-- Every step moves it on by just the cycles it takes. -/
  share : ∀ step ∈ machine.history actions,
    step.after.cycles.toNat = step.before.cycles.toNat + step.cycles
  monotone : ∀ step ∈ machine.history actions, step.before.cycles ≤ step.after.cycles
  /-- A tick that does not halt adds between four and twenty-nine. -/
  bounds : ∀ step ∈ machine.history actions, step.Runs →
    step.before.cycles.toNat + 4 ≤ step.after.cycles.toNat ∧
      step.after.cycles.toNat ≤ step.before.cycles.toNat + 29
  /-- Nothing but a tick changes it. -/
  still : ∀ step ∈ machine.history actions, step.action ≠ .tick →
    step.after.cycles = step.before.cycles

/-- The counter of a fresh machine is exact as long as it has room for the whole bill. -/
theorem cycles_accounted (bus : Bus δ) (entry : UInt16) (actions : List (Action δ))
    (room : (start bus entry).bill actions < UInt64.size) :
    Accounted (start bus entry) actions := by
  -- A fresh counter shows zero.
  have fresh : (start bus entry).cycles.toNat + (start bus entry).bill actions =
      (start bus entry).bill actions := Nat.zero_add _
  rw [← fresh] at room
  obtain ⟨share, total⟩ := toNat_cycles_of_room room
  refine
    { total := total.trans fresh
      share := share
      monotone := fun step member => ?monotone
      bounds := fun step member runs => ?bounds
      still := fun step _ other => (Step.registers_after_of_not_tick other).2 }
  case monotone =>
    -- A share is a natural number.
    rw [UInt64.le_iff_toNat_le, share step member]
    exact Nat.le_add_right _ _
  case bounds =>
    have limits := step.cycles_bounds runs
    rw [share step member]
    omega

/-- On another bus the same program counter meets another code. -/
theorem opcode_setBus (machine : Machine δ) (bus : Bus δ) :
    (machine.perform (.setBus bus)).opcode = bus.memory.read machine.registers.pc := rfl

/-- A machine about to call under a condition that holds. -/
def callingMachine : Machine Probe :=
  start { memory := Memory.zero.load 0x0100 [0xC4, 0x00, 0x02] } 0x0100

/-- A request for line 1, a tick that serves it, another memory with HLT at its vector, a tick. -/
def requestedThenHalted : List (Action Probe) :=
  [.interrupt 0xCF, .tick, .setBus { memory := Memory.zero.load 0x0008 [0x76] }, .tick]

/-- The machine when the request has been accepted. -/
def callingRequested : Machine Probe :=
  { callingMachine with interruptsEnabled := false, pending := restart? 0xCF }

/-- The machine in front of HLT, with the other memory. -/
def callingReplaced : Machine Probe :=
  callingRequested.next.perform (.setBus { memory := Memory.zero.load 0x0008 [0x76] })

/-- The call takes seventeen cycles, its restart eleven, and HLT none. -/
theorem callingMachine_accounted :
    callingMachine.bill requestedThenHalted = 28 ∧
      Accounted callingMachine requestedThenHalted ∧
      (callingMachine.after requestedThenHalted).cycles.toNat = 28 := by
  have code : callingRequested.opcode = 0xC4 := by
    simp [callingRequested, callingMachine, opcode, start, Memory.load, Memory.read_write]
  have runs : ¬ callingRequested.Halts := by rw [Halts, code]; decide
  have served : (⟨callingRequested, .tick⟩ : Step Probe).cycles = 28 := by
    have call : callingRequested.fieldCost = 17 := by
      rw [fieldCost, code]
      rfl
    have serves : (⟨callingRequested, .tick⟩ : Step Probe).serviced? = some 0xCF := by
      rw [Step.serviced?_of_runs ⟨rfl, runs⟩]
      decide
    simp [Step.cycles, runs, call, serves]
  have halted : (⟨callingReplaced, .tick⟩ : Step Probe).cycles = 0 := by
    -- The restart goes to its vector, where the other memory holds HLT.
    have vector : callingRequested.next.registers.pc = 0x0008 := by
      have waiting : callingRequested.pending = some 1 := by decide
      rw [callingRequested.next_of_request runs waiting]
      rfl
    have code : callingReplaced.opcode = 0x76 := by
      rw [callingReplaced, opcode_setBus, vector, Memory.load, Memory.load, Memory.read_write,
        if_pos rfl]
    have halts : callingReplaced.Halts := .inl code
    simp [Step.cycles, halts]
  have bill : callingMachine.bill requestedThenHalted = 28 := by
    have accepted : callingMachine.perform (.interrupt 0xCF) = callingRequested := rfl
    -- The request and the other memory are free.
    rw [requestedThenHalted, bill_cons, bill_cons, bill_cons, bill_cons, accepted, served, perform,
      ← callingReplaced, halted]
    rfl
  have room : callingMachine.bill requestedThenHalted < UInt64.size := by
    rw [bill]
    decide
  have accounted : Accounted callingMachine requestedThenHalted :=
    cycles_accounted { memory := Memory.zero.load 0x0100 [0xC4, 0x00, 0x02] } 0x0100 _ room
  exact ⟨bill, accounted, accounted.total.trans bill⟩

end Machine

end Intel8080
