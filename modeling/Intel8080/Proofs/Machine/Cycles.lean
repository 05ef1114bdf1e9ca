import Intel8080.Proofs.Machine.Code

/-!
The cycles that a stretch of ticks takes, counted without bound.

The counter of a machine has 64 bits and shows this number as long as it has room for it.
-/

namespace Intel8080

/-- No operation takes fewer than four cycles or more than eighteen. -/
theorem Operation.cost_bounds (flags : Flags) (operation : Operation) :
    4 ≤ (operation.cost flags).toNat ∧ (operation.cost flags).toNat ≤ 18 := by
  -- The cost is the base and the penalty of a branch that is taken.
  simp only [cost]
  cases operation
  case callIf condition | retIf condition =>
    -- The branch costs six more when it is taken.
    simp only [cycles, penalty]
    split <;> decide
  all_goals
    -- Every other cost is fixed, once the operand in memory is told from the registers.
    simp only [cycles, penalty]
    first | decide | (split <;> decide)

namespace Machine

variable {δ : Type}

/-- The cycles that the next tick takes: none if it halts, and those of a restart if one waits. -/
def tickCycles (machine : Machine δ) : Nat :=
  if machine.Halts then 0
  else (machine.instruction.operation.cost machine.registers.flags).toNat +
    if machine.pending.isSome then 11 else 0

/-- A tick that does not halt takes at least four cycles. -/
theorem four_le_tickCycles {machine : Machine δ} (runs : ¬ machine.Halts) :
    4 ≤ machine.tickCycles := by
  -- The instruction alone costs that much.
  have bounds := machine.instruction.operation.cost_bounds machine.registers.flags
  rw [tickCycles, if_neg runs]
  omega

/-- A tick that serves no request takes at most eighteen. -/
theorem tickCycles_le {machine : Machine δ} (idle : machine.pending = none) :
    machine.tickCycles ≤ 18 := by
  -- Without a request there is nothing but the instruction.
  have bounds := machine.instruction.operation.cost_bounds machine.registers.flags
  rw [tickCycles, idle]
  split
  · exact Nat.zero_le 18
  · exact bounds.2

section Counter

variable [Device δ]

/-- A tick moves the counter on by the cycles it takes, as far as 64 bits show it. -/
theorem cycles_next (machine : Machine δ) :
    machine.next.cycles = machine.cycles + .ofNat machine.tickCycles := by
  by_cases halts : machine.Halts
  · -- A halting tick is free.
    rw [next_of_halts machine halts, tickCycles, if_pos halts]
    exact (UInt64.add_zero _).symm
  · -- Any other one charges the instruction first.
    rw [next_of_runs machine halts, tickCycles, if_neg halts, UInt64.ofNat_add, UInt64.ofNat_toNat,
      ← UInt64.add_assoc, ← cycles_execute]
    -- What is left is the restart of a request that waits through the instruction.
    cases waiting : machine.pending with
    | none =>
      rw [service_of_idle _ (by simp [waiting])]
      exact (UInt64.add_zero _).symm
    | some line =>
      have served := (machine.execute machine.instruction).1.service_of_pending
        ((pending_execute machine machine.instruction).trans waiting)
      rw [served]
      rfl

/-- The cycles that so many ticks take. -/
def spent (machine : Machine δ) : Nat → Nat
  | 0 => 0
  | count + 1 => machine.spent count + (machine.ticks count).tickCycles

/-- The counter shows the cycles taken as long as it has room for them. -/
theorem toNat_cycles_ticks {machine : Machine δ} {count : Nat}
    (room : machine.cycles.toNat + machine.spent count < UInt64.size) :
    (machine.ticks count).cycles.toNat = machine.cycles.toNat + machine.spent count := by
  -- As long as there is room, each addition is exact.
  induction count with
  | zero => rfl
  | succ count ih =>
    rw [spent, ← Nat.add_assoc] at room
    -- There was room for the earlier ticks too.
    have earlier := ih (Nat.lt_of_le_of_lt (Nat.le_add_right _ _) room)
    have fits : (machine.ticks count).tickCycles < UInt64.size :=
      Nat.lt_of_le_of_lt (Nat.le_add_left _ _) room
    rw [ticks_succ, cycles_next, UInt64.toNat_add, UInt64.toNat_ofNat_of_lt' fits, earlier,
      Nat.mod_eq_of_lt room, spent, Nat.add_assoc]

/-- A counter that begins at zero shows just the cycles taken. -/
theorem toNat_cycles_of_fresh {machine : Machine δ} (fresh : machine.cycles = 0) {count : Nat}
    (room : machine.spent count < UInt64.size) :
    (machine.ticks count).cycles.toNat = machine.spent count := by
  -- From zero the sum is the number of cycles alone.
  have start : machine.cycles.toNat + machine.spent count = machine.spent count := by
    rw [fresh, UInt64.toNat_zero, Nat.zero_add]
  rw [← start] at room
  rw [toNat_cycles_ticks room, start]

/-- More ticks take no fewer cycles. -/
theorem spent_mono (machine : Machine δ) {first second : Nat} (later : first ≤ second) :
    machine.spent first ≤ machine.spent second := by
  -- Each further tick adds a number that is not negative.
  induction later with
  | refl => exact Nat.le_refl _
  | step _ ih => exact Nat.le_trans ih (Nat.le_add_right _ _)

/-- A tick that does not halt takes some cycles, so that the total after it is larger. -/
theorem spent_lt {machine : Machine δ} {passed count : Nat} (before : passed < count)
    (runs : ¬ (machine.ticks passed).Halts) : machine.spent passed < machine.spent count := by
  -- It is the tick right behind the earlier total.
  have atLeast := four_le_tickCycles runs
  calc machine.spent passed
      < machine.spent (passed + 1) := by rw [spent]; omega
    _ ≤ machine.spent count := machine.spent_mono before

/-- Ticks that do not halt take at least four cycles each. -/
theorem four_mul_le_spent {machine : Machine δ} {count : Nat}
    (runs : ∀ earlier < count, ¬ (machine.ticks earlier).Halts) :
    4 * count ≤ machine.spent count := by
  -- Each tick adds its four cycles to those of the ticks before it.
  induction count with
  | zero => exact Nat.le_refl 0
  | succ count ih =>
    -- The cheapest operations take four cycles, and a restart after them only adds to that.
    have before := ih fun earlier below => runs earlier (Nat.lt_succ_of_lt below)
    have last := four_le_tickCycles (runs count (Nat.lt_succ_self count))
    rw [spent]
    omega

/--
Ticks that all begin with the counter below a limit end at most seventeen cycles above it.

The counter cannot wrap on the way if the limit leaves room for one more tick.
-/
theorem spent_le_of_below {machine : Machine δ} (idle : machine.pending = none)
    (fresh : machine.cycles = 0) {limit : UInt64} (room : limit.toNat + 18 ≤ UInt64.size)
    {count : Nat} (below : ∀ earlier < count, (machine.ticks earlier).cycles < limit) :
    machine.spent count ≤ limit.toNat + 17 := by
  -- If the earlier ticks ended above the limit, the last one would not begin below it.
  induction count with
  | zero => exact Nat.zero_le _
  | succ count ih =>
    have before := ih fun earlier less => below earlier (Nat.lt_succ_of_lt less)
    -- The counter shows what the earlier ticks took, so that much is below the limit.
    have shown := toNat_cycles_of_fresh fresh (Nat.lt_of_le_of_lt before room)
    have less := UInt64.lt_iff_toNat_lt.mp (below count (Nat.lt_succ_self count))
    have last : (machine.ticks count).tickCycles ≤ 18 :=
      tickCycles_le (ticks_invariant pending_next_of_idle idle count)
    rw [spent]
    omega

end Counter

end Machine

end Intel8080
