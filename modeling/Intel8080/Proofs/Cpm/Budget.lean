import Intel8080.Proofs.Cpm.Report
import Intel8080.Proofs.Machine.Cycles
import Mathlib.Data.Nat.Find

/-!
Runs under a cycle limit.

Every tick that goes on takes at least four cycles, so a limit also bounds the ticks of a run.
-/

namespace Intel8080.Cpm

section Ticks

variable {machine : Machine Trap} {count : Nat} {limit : UInt64}

/-- Ticks before which there is no reason to stop begin below the limit. -/
theorem below_of_unstopped
    (going : ∀ earlier < count, stopAt? machine (some limit) earlier = none) :
    ∀ earlier < count, (machine.ticks earlier).cycles < limit := by
  -- A counter at the limit would be a reason.
  intro earlier less
  exact (stopAt?_eq_none_iff.mp (going earlier less)).2.2 limit rfl

/-- There are at most as many such ticks as a quarter of the limit, rounded up. -/
theorem count_le_of_unstopped (idle : machine.pending = none) (fresh : machine.cycles = 0)
    (room : limit.toNat + 18 ≤ UInt64.size)
    (going : ∀ earlier < count, stopAt? machine (some limit) earlier = none) :
    count ≤ (limit.toNat + 3) / 4 := by
  -- The last tick of the sequence has not been paid yet, so it is set apart.
  cases count with
  | zero => exact Nat.zero_le _
  | succ passed =>
    have below := below_of_unstopped going
    -- After each of the others there was no reason, so none of them has halted.
    have runs : ∀ earlier < passed, ¬ (machine.ticks earlier).Halts :=
      fun earlier less => runs_of_unstopped (going _ (Nat.succ_lt_succ less))
    -- The last of them begins below the limit, and those before it took four cycles each.
    have total := Machine.spent_le_of_below idle fresh room
      fun earlier less => below earlier (Nat.lt_succ_of_lt less)
    have shown := Machine.toNat_cycles_of_fresh fresh (Nat.lt_of_le_of_lt total room)
    have less := UInt64.lt_iff_toNat_lt.mp (below passed (Nat.lt_succ_self passed))
    have atLeast := Machine.four_mul_le_spent runs
    -- Four times the number of the others is below the limit.
    omega

/-- The host is prepared for more instructions than a limit can let through. -/
theorem within_of_unstopped (idle : machine.pending = none) (fresh : machine.cycles = 0)
    (room : limit.toNat + 18 ≤ UInt64.size)
    (going : ∀ earlier < count, stopAt? machine (some limit) earlier = none) :
    count ≤ instructionBound := by
  -- A quarter of what 64 bits can hold is what the host is prepared for.
  have quarter := count_le_of_unstopped idle fresh room going
  have bound : 4 * instructionBound = UInt64.size := by decide
  omega

/-- It is prepared as well for a run whose cycles the counter has room for, even without a limit. -/
theorem StopsAt.within {limit : Option UInt64} {reason : StopReason}
    (stops : StopsAt machine limit count reason) (room : machine.spent count < UInt64.size) :
    count ≤ instructionBound := by
  -- Here too the last tick may be one that halts without being paid.
  cases count with
  | zero => exact Nat.zero_le _
  | succ passed =>
    have runs : ∀ earlier < passed, ¬ (machine.ticks earlier).Halts :=
      fun earlier less => runs_of_unstopped (stops.first _ (Nat.succ_lt_succ less))
    -- All ticks but the last took four cycles each, and they fit into the counter.
    have atLeast := Machine.four_mul_le_spent runs
    have fewer := machine.spent_mono (Nat.le_add_right passed 1)
    have bound : 4 * instructionBound = UInt64.size := by decide
    omega

/-- Under a limit there is a reason to stop sooner or later, and hence a first one. -/
theorem exists_stopsAt (idle : machine.pending = none) (fresh : machine.cycles = 0)
    (room : limit.toNat + 18 ≤ UInt64.size) :
    ∃ count reason, StopsAt machine (some limit) count reason := by
  -- Otherwise there would be no bound on the number of ticks.
  have somewhere : ∃ count, (stopAt? machine (some limit) count).isSome := by
    by_contra never
    have going : ∀ earlier < (limit.toNat + 3) / 4 + 1,
        stopAt? machine (some limit) earlier = none :=
      fun earlier _ => Option.not_isSome_iff_eq_none.mp fun stops => never ⟨earlier, stops⟩
    -- So many ticks without a reason are one too many.
    have tooMany := count_le_of_unstopped idle fresh room going
    omega
  -- The least such number is the place to stop.
  obtain ⟨reason, stops⟩ := Option.isSome_iff_exists.mp (Nat.find_spec somewhere)
  exact ⟨Nat.find somewhere, reason, stops,
    fun _ less => Option.not_isSome_iff_eq_none.mp (Nat.find_min somewhere less)⟩

end Ticks

/-! ### A program that prints a letter -/

/-- Code that prints the letter A with its third instruction and then executes its last byte. -/
def printingCode (last : UInt8) : List UInt8 :=
  [0x0E, 0x02, 0x1E, 0x41, 0xD3, 0x01, last]

/-- A program with that code after at most three instructions. -/
def printingAfter (config : Config) : Nat → Machine Trap
  | 0 => loaded config
  | 1 => { loaded config with registers := { c := 2, pc := 0x0102 }, cycles := 7 }
  | 2 => { loaded config with registers := { c := 2, e := 0x41, pc := 0x0104 }, cycles := 14 }
  | _ => { loaded config with registers := { c := 2, e := 0x41, pc := 0x0106 }, cycles := 24 }

section Printing

variable {config : Config} {last : UInt8} (program : config.program = printingCode last)
  {limit : UInt64} {count passed : Nat}

include program

/-- Its code is where programs are loaded to. -/
theorem read_printing (index : Nat) {byte : UInt8}
    (there : (printingCode last)[index]? = some byte) :
    (loaded config).memory.read (programStart + .ofNat index) = byte := by
  -- Seven bytes fit.
  have fits : (printingCode last).length ≤ programCapacity := (by decide : 7 ≤ programCapacity)
  rw [← program] at fits there
  exact read_loaded fits there

/-- Each of its first three instructions leads on, and does not end the program. -/
theorem next_printing (early : passed < 3) :
    (printingAfter config passed).next = printingAfter config (passed + 1) ∧
      ¬ (printingAfter config passed).WritesTo 0 := by
  match passed, early with
  | 0, _ =>
    -- MVI C, 2 selects the function that prints a character.
    have here : (printingAfter config 0).opcode = 0x0E := read_printing program 0 rfl
    have fetched : (printingAfter config 0).instruction = ⟨0x0E, 0x02⟩ :=
      Memory.fetch_of_byte rfl here (read_printing program 1 rfl)
    refine ⟨?_, fun writes => absurd (here.symm.trans writes.1) (by decide)⟩
    rw [Machine.next_of_idle _ (Machine.runs_of_opcode here (by decide)) rfl,
      Machine.execute_of_operation (Machine.operation_of_opcode here) (by decide), fetched]
    rfl
  | 1, _ =>
    -- MVI E, 'A' names the character.
    have here : (printingAfter config 1).opcode = 0x1E := read_printing program 2 rfl
    have fetched : (printingAfter config 1).instruction = ⟨0x1E, 0x41⟩ :=
      Memory.fetch_of_byte rfl here (read_printing program 3 rfl)
    refine ⟨?_, fun writes => absurd (here.symm.trans writes.1) (by decide)⟩
    rw [Machine.next_of_idle _ (Machine.runs_of_opcode here (by decide)) rfl,
      Machine.execute_of_operation (Machine.operation_of_opcode here) (by decide), fetched]
    rfl
  | 2, _ =>
    -- OUT 1 reaches the console directly, and the console stays as it is.
    have here : (printingAfter config 2).opcode = 0xD3 := read_printing program 4 rfl
    have port : (printingAfter config 2).memory.read 0x0105 = 0x01 := read_printing program 5 rfl
    have fetched : (printingAfter config 2).instruction = ⟨0xD3, 0x01⟩ :=
      Memory.fetch_of_byte rfl here port
    have output : Instruction.operation ⟨0xD3, 0x01⟩ = .output := rfl
    refine ⟨?_, fun writes => absurd (port.symm.trans writes.2) (by decide)⟩
    rw [Machine.next_of_idle _ (Machine.runs_of_opcode here (by decide)) rfl, Machine.execute,
      fetched]
    simp only [output, output_trap]
    rfl

/-- Its ticks lead from one of these machines to the next. -/
theorem ticks_printing (early : count ≤ 3) :
    (loaded config).ticks count = printingAfter config count := by
  -- Three instructions are followed one after the other.
  induction count with
  | zero => rfl
  | succ count ih =>
    rw [Machine.ticks_succ, ih (Nat.le_of_succ_le early)]
    exact (next_printing program early).1

/-- Up to its last instruction it has neither ended nor halted. -/
theorem going_printing (early : count ≤ 3) :
    ¬ HasEnded (loaded config) count ∧ ((loaded config).ticks count).halted = false := by
  constructor
  · -- None of the three writes to the port that ends the program.
    rintro ⟨passed, less, writes⟩
    have before : passed < 3 := Nat.lt_of_lt_of_le less early
    rw [ticks_printing program (Nat.le_of_lt before)] at writes
    exact (next_printing program before).2 writes
  · -- In none of the four machines is the flag set.
    rw [ticks_printing program early]
    match count with
    | 0 | 1 | 2 | _ + 3 => rfl

/-- So it goes on while it is below its limit. -/
theorem unstopped_printing (early : count ≤ 3)
    (below : (printingAfter config count).cycles < limit) :
    stopAt? (loaded config) (some limit) count = none := by
  -- The limit is the only reason left.
  obtain ⟨unended, awake⟩ := going_printing program early
  refine stopAt?_eq_none_iff.mpr ⟨unended, awake, fun bound member => ?_⟩
  obtain rfl : limit = bound := Option.some.inj member
  rwa [ticks_printing program early]

/-- A limit cuts it short after the first instruction that reaches it. -/
theorem stopsAt_printing (early : count ≤ 3) (reached : limit ≤ (printingAfter config count).cycles)
    (below : ∀ earlier < count, (printingAfter config earlier).cycles < limit) :
    StopsAt (loaded config) (some limit) count .cycleLimit where
  stops := by
    -- The first two reasons are absent, so the limit is the one.
    obtain ⟨unended, awake⟩ := going_printing program early
    rw [← ticks_printing program early] at reached
    exact stopAt?_eq_cycleLimit_iff.mpr ⟨unended, awake, limit, rfl, reached⟩
  first earlier less :=
    unstopped_printing program (Nat.le_trans (Nat.le_of_lt less) early) (below earlier less)

/-- Below the limit it gets to its last instruction, and stops there if that halts. -/
theorem stopsAt_printing_last (halts : (printingAfter config 3).Halts)
    (below : ∀ earlier < 4, (printingAfter config earlier).cycles < limit) :
    StopsAt (loaded config) (some limit) 4 .halted := by
  -- After each of the first three instructions it goes on.
  have going : ∀ earlier < 4, stopAt? (loaded config) (some limit) earlier = none :=
    fun earlier less => unstopped_printing program (Nat.le_of_lt_succ less) (below earlier less)
  rw [← ticks_printing program (Nat.le_refl 3)] at halts
  exact ⟨stopAt?_of_halts (going 3 (by decide)) halts, going⟩

/-- It prints its letter with the third instruction and nothing before. -/
theorem printed_printing :
    printed (loaded config) 2 = "" ∧ printed (loaded config) 3 = "A" := by
  -- The two moves write to no port.
  have first : consoleText ((loaded config).ticks 0) = "" := by
    have here : (printingAfter config 0).opcode = 0x0E := read_printing program 0 rfl
    exact if_neg fun writes => absurd (here.symm.trans writes.1) (by decide)
  have second : consoleText ((loaded config).ticks 1) = "" := by
    have here : (printingAfter config 1).opcode = 0x1E := read_printing program 2 rfl
    rw [ticks_printing program (by decide)]
    exact if_neg fun writes => absurd (here.symm.trans writes.1) (by decide)
  have third : consoleText ((loaded config).ticks 2) = "A" := by
    -- With 2 in C a console call prints the character in E.
    have letter := (prints_callText (printingAfter config 2).registers
      (printingAfter config 2).memory).character rfl
    rw [ticks_printing program (by decide), consoleText,
      if_pos ⟨read_printing program 4 rfl, read_printing program 5 rfl⟩]
    exact String.toList_inj.mp letter
  have two : List.range 2 = [0, 1] := rfl
  have three : List.range 3 = [0, 1, 2] := rfl
  constructor
  · simp [printed, two, first, second]
  · simp [printed, three, first, second, third]

/-- If its last instruction halts, that is one more instruction without cycles or a text. -/
theorem reportAt_printing_last (halts : (printingAfter config 3).Halts) :
    reportAt (loaded config) 4 .halted =
      { stop := .halted, cycles := 24, instructions := 4, output := "A" } := by
  -- The fourth tick starts from the last of the known machines.
  have third := ticks_printing program (Nat.le_refl 3)
  -- What halts prints nothing.
  have silent : printed ((loaded config).ticks 3) 1 = "" := by
    have last : consoleText (printingAfter config 3) = "" :=
      if_neg fun writes => writes.runs halts
    rw [third, printed, List.range_one, List.map_singleton]
    exact String.empty_append.trans last
  rw [reportAt, printed_add _ 3 1, silent, (printed_printing program).2, Machine.ticks_succ, third,
    Machine.next_of_halts _ halts]
  rfl

end Printing

section Limited

variable {config : Config} {limit : UInt64} {count : Nat} {reason : StopReason}

/-- The counter of a loaded program shows the cycles of all ticks before the limit ends them. -/
theorem toNat_cycles_of_limited (room : limit.toNat + 18 ≤ UInt64.size)
    (going : ∀ earlier < count, stopAt? (loaded config) (some limit) earlier = none) :
    (loaded config).spent count ≤ limit.toNat + 17 ∧ ∀ earlier ≤ count,
      ((loaded config).ticks earlier).cycles.toNat = (loaded config).spent earlier := by
  -- The last tick begins below the limit and costs at most eighteen.
  have total := Machine.spent_le_of_below rfl rfl room (below_of_unstopped going)
  refine ⟨total, fun earlier before => ?_⟩
  -- Fewer ticks have cost no more, so the counter has not wrapped there either.
  have fewer := (loaded config).spent_mono before
  exact Machine.toNat_cycles_of_fresh rfl (by omega)

/-- A program under a limit runs to the first reason to stop. -/
theorem exists_run (fits : config.program.length ≤ programCapacity)
    (room : limit.toNat + 18 ≤ UInt64.size) :
    ∃ result, run { config with limit := some limit } = .ok result ∧
      ∃ count reason, StopsAt (loaded config) (some limit) count reason ∧
        result.report = reportAt (loaded config) count reason := by
  -- A limit is a reason sooner or later.
  have found : ∃ count reason, StopsAt (loaded config) (some limit) count reason :=
    exists_stopsAt rfl rfl room
  obtain ⟨count, reason, stops⟩ := found
  -- The host has instructions enough to get there.
  have within := within_of_unstopped rfl rfl room stops.first
  obtain ⟨result, ended, reported, _⟩ :=
    run_of_stopsAt { config with limit := some limit } fits within stops
  exact ⟨result, ended, count, reason, stops, reported⟩

/-- The report of a run that a limit ends at the latest. -/
structure Exact (config : Config) (limit : UInt64) (report : Report) : Prop where
  /-- The run stops after the least number of ticks that gives a reason to, for the first reason. -/
  stops : StopsAt (loaded config) (some limit) report.instructions report.stop
  /-- It is finished exactly when the last instruction, and no other, writes to the finish port. -/
  finished : report.stop = .finished ↔ ∃ passed, report.instructions = passed + 1 ∧
    ((loaded config).ticks passed).WritesTo 0 ∧
      ∀ earlier < passed, ¬ ((loaded config).ticks earlier).WritesTo 0
  /-- It is halted exactly when the last instruction is HLT or a code that the policy refuses. -/
  halted : report.stop = .halted ↔
    ∃ passed, report.instructions = passed + 1 ∧ ((loaded config).ticks passed).Halts
  /-- Otherwise the counter has reached the limit. -/
  limited : report.stop = .cycleLimit → limit ≤ report.cycles
  cycles : report.cycles = ((loaded config).ticks report.instructions).cycles
  /-- The counter never wraps: all the time it shows the number of cycles taken. -/
  counter : ∀ count ≤ report.instructions,
    ((loaded config).ticks count).cycles.toNat = (loaded config).spent count
  cycles_le : report.cycles.toNat ≤ limit.toNat + 17
  /-- There are at most as many instructions as a quarter of the limit, rounded up. -/
  instructions_le : report.instructions ≤ (limit.toNat + 3) / 4
  output : report.output = String.join ((List.range report.instructions).map
    fun earlier => consoleText ((loaded config).ticks earlier))

/-- The report on the ticks of a program up to the first reason to stop is exact. -/
theorem exact_reportAt (room : limit.toNat + 18 ≤ UInt64.size)
    (stops : StopsAt (loaded config) (some limit) count reason) :
    Exact config limit (reportAt (loaded config) count reason) := by
  -- All the figures are those of the ticks, so each clause is a fact about them.
  obtain ⟨total, counter⟩ := toNat_cycles_of_limited room stops.first
  exact
    { stops := stops
      finished := stops.finished_iff
      halted := stops.halted_iff rfl
      limited := by
        rintro rfl
        obtain ⟨_, _, bound, member, reached⟩ := stopAt?_eq_cycleLimit_iff.mp stops.stops
        obtain rfl : limit = bound := Option.some.inj member
        exact reached
      cycles := rfl
      counter := counter
      cycles_le := Nat.le_trans (Nat.le_of_eq (counter count (Nat.le_refl count))) total
      instructions_le := count_le_of_unstopped rfl rfl room stops.first
      output := rfl }

/--
A program under a limit always stops, and its report is exact.

The limit leaves room for one more instruction, of eighteen cycles, in the 64 bits of the counter.
-/
theorem run_within_limit (config : Config) {limit : UInt64}
    (fits : config.program.length ≤ programCapacity) (room : limit.toNat + 18 ≤ UInt64.size) :
    ∃ result, run { config with limit := some limit } = .ok result ∧
      Exact config limit result.report := by
  -- The run exists, and what is known of its ticks holds of its report.
  obtain ⟨result, ended, count, reason, stops, reported⟩ := exists_run fits room
  refine ⟨result, ended, ?_⟩
  rw [reported]
  exact exact_reportAt room stops

/-- A program that prints a letter and halts. -/
def printingProgram : Config :=
  { program := printingCode 0x76 }

/-- A limit of twenty cycles cuts it short when it has printed its letter. -/
theorem printingProgram_within_limit :
    printingProgram.program.length ≤ programCapacity ∧ (20 : UInt64).toNat + 18 ≤ UInt64.size ∧
      ∃ result, run { printingProgram with limit := some 20 } = .ok result ∧
        Exact printingProgram 20 result.report ∧ result.report =
          { stop := .cycleLimit, cycles := 24, instructions := 3, output := "A" } := by
  have fits : printingProgram.program.length ≤ programCapacity := by decide
  have room : (20 : UInt64).toNat + 18 ≤ UInt64.size := by decide
  obtain ⟨result, ended, faithful⟩ := run_within_limit printingProgram fits room
  refine ⟨fits, room, result, ended, faithful, ?_⟩
  -- The third instruction takes the counter from fourteen to twenty-four.
  have stops : StopsAt (loaded printingProgram) (some 20) 3 .cycleLimit :=
    stopsAt_printing rfl (Nat.le_refl 3) (by decide) (by decide)
  rw [report_of_run ended stops, reportAt, (printed_printing rfl).2,
    ticks_printing rfl (Nat.le_refl 3)]
  rfl

/-- A program that consists of HLT. -/
def haltingProgram : Config :=
  { program := [0x76] }

/-- Under any limit but zero it stops with its only instruction. -/
theorem stopsAt_haltingProgram {bound : UInt64} (positive : 0 < bound) :
    StopsAt (loaded haltingProgram) (some bound) 1 .halted := by
  -- Its first tick halts, which the limit does not prevent.
  refine stopsAt_of_halts ?_ (.inl (opcode_loaded rfl (by decide)))
  rintro bound' member
  obtain rfl : bound = bound' := Option.some.inj member
  exact positive

end Limited

/-! ### Wider limits -/

/-- A limit that stops nothing before another one does, or no limit at all. -/
def Wider (wide narrow : Option UInt64) : Prop :=
  ∀ bound ∈ wide, ∃ less ∈ narrow, less ≤ bound

section Wider

variable {machine : Machine Trap} {narrow wide : Option UInt64} {first second : Nat}
  {reason other : StopReason}

/-- Where a limit lets a program go on, a wider one does too. -/
theorem unstopped_of_wider (wider : Wider wide narrow)
    (going : stopAt? machine narrow first = none) : stopAt? machine wide first = none := by
  obtain ⟨unended, awake, below⟩ := stopAt?_eq_none_iff.mp going
  -- Every bound of the wider limit lies at or above one of the narrow limit.
  refine stopAt?_eq_none_iff.mpr ⟨unended, awake, fun bound member => ?_⟩
  obtain ⟨less, member', atMost⟩ := wider bound member
  exact UInt64.lt_of_lt_of_le (below less member') atMost

/-- A program that stops by itself does so at the same place under a wider limit. -/
theorem StopsAt.of_wider (wider : Wider wide narrow) (stops : StopsAt machine narrow first reason)
    (itself : reason ≠ .cycleLimit) : StopsAt machine wide first reason where
  stops := by
    -- Neither of the two other reasons looks at the limit.
    cases reason with
    | finished => exact stopAt?_eq_finished_iff.mpr (stopAt?_eq_finished_iff.mp stops.stops)
    | halted => exact stopAt?_eq_halted_iff.mpr (stopAt?_eq_halted_iff.mp stops.stops)
    | cycleLimit => exact absurd rfl itself
  -- No earlier place is a reason under the wider limit either.
  first := fun earlier less => unstopped_of_wider wider (stops.first earlier less)

/-- A wider limit stops a program no earlier. -/
theorem StopsAt.le_of_wider (wider : Wider wide narrow)
    (short : StopsAt machine narrow first reason) (long : StopsAt machine wide second other) :
    first ≤ second := by
  -- A later stop under the narrow limit would have been passed under it.
  by_contra more
  have going := unstopped_of_wider wider (short.first second (Nat.lt_of_not_le more))
  cases going.symm.trans long.stops

/-- The report on more ticks extends that on fewer, as long as the counter has room for them. -/
theorem extends_reportAt (fresh : machine.cycles = 0) (later : first ≤ second)
    (room : machine.spent second < UInt64.size) :
    Extends (reportAt machine second other) (reportAt machine first reason) where
  instructions := later
  cycles := by
    -- The counter wraps at neither place, so it orders them as the totals do.
    have fewer := machine.spent_mono later
    have shown := Machine.toNat_cycles_of_fresh fresh room
    have shown' := Machine.toNat_cycles_of_fresh fresh (Nat.lt_of_le_of_lt fewer room)
    rw [UInt64.le_iff_toNat_le, reportAt, reportAt, shown, shown']
    exact fewer
  output := by
    -- The more ticks begin with the fewer.
    obtain ⟨more, rfl⟩ := Nat.exists_eq_add_of_le later
    exact ⟨_, printed_add machine first more⟩

end Wider

section Runs

variable {config : Config} {narrow wide : Option UInt64} {count : Nat} {reason : StopReason}

/-- A program that stops by itself has the same report under a wider limit. -/
theorem run_of_wider (fits : config.program.length ≤ programCapacity) (wider : Wider wide narrow)
    (within : count ≤ instructionBound) (stops : StopsAt (loaded config) narrow count reason)
    (itself : reason ≠ .cycleLimit) :
    ∃ long, run { config with limit := wide } = .ok long ∧
      long.report = reportAt (loaded config) count reason := by
  -- The wider limit lets it get to the same place.
  obtain ⟨long, ended, reported, _⟩ :=
    run_of_stopsAt { config with limit := wide } fits within (stops.of_wider wider itself)
  exact ⟨long, ended, reported⟩

/-- The report of a run under a wider limit extends that of the ticks up to a stop. -/
theorem extends_of_wider (wider : Wider wide narrow)
    (stops : StopsAt (loaded config) narrow count reason) {long : Run}
    (ended : run { config with limit := wide } = .ok long)
    (room : (loaded config).spent long.report.instructions < UInt64.size) :
    Extends long.report (reportAt (loaded config) count reason) := by
  -- The run under the wider limit has some place to stop, and that is no earlier.
  obtain ⟨_, count', _, reason', stops', reported⟩ := stopsAt_of_run ended
  rw [reported] at room ⊢
  exact extends_reportAt rfl (stops.le_of_wider wider stops') room

/--
Of two limits, the larger one only extends the run.

A program that stops by itself under the smaller one has the same report under the larger one, and
without a limit. One that the smaller limit cuts short goes on from there.
-/
theorem run_with_larger_limit (config : Config) {first second : UInt64}
    (fits : config.program.length ≤ programCapacity) (order : first ≤ second)
    (room : second.toNat + 18 ≤ UInt64.size) :
    ∃ short long, run { config with limit := some first } = .ok short ∧
      run { config with limit := some second } = .ok long ∧
      (short.report.stop ≠ .cycleLimit → long.report = short.report ∧
        ∃ free, run { config with limit := none } = .ok free ∧ free.report = short.report) ∧
      (short.report.stop = .cycleLimit → Extends long.report short.report ∧
        ∀ free, run { config with limit := none } = .ok free →
          (loaded config).spent free.report.instructions < UInt64.size →
            Extends free.report short.report) := by
  -- Both the larger limit and none at all are wider than the smaller one.
  have larger : Wider (some second) (some first) := by
    rintro bound member
    obtain rfl : second = bound := Option.some.inj member
    exact ⟨first, rfl, order⟩
  have unlimited : Wider none (some first) := nofun
  have smaller : first.toNat + 18 ≤ UInt64.size := by
    have atMost := UInt64.le_iff_toNat_le.mp order
    omega
  obtain ⟨short, shortEnded, count, reason, stops, shortReport⟩ := exists_run fits smaller
  obtain ⟨long, longEnded, count', reason', stops', longReport⟩ := exists_run fits room
  refine ⟨short, long, shortEnded, longEnded, fun itself => ?_, fun _ => ?_⟩
  · -- A program that stops by itself does so in all three runs.
    rw [shortReport] at itself ⊢
    have within := within_of_unstopped rfl rfl smaller stops.first
    exact ⟨report_of_run longEnded (stops.of_wider larger itself),
      run_of_wider fits unlimited within stops itself⟩
  · -- One that was cut short goes on, in either of the other two.
    rw [shortReport]
    refine ⟨?_, fun free ended less => extends_of_wider unlimited stops ended less⟩
    -- Under the larger limit the counter has room for the whole run.
    refine extends_of_wider larger stops longEnded ?_
    rw [longReport]
    exact Nat.lt_of_le_of_lt (toNat_cycles_of_limited room stops'.first).1 room

/-- A limit of ten cycles cuts the printing program short; under a hundred it goes on to halt. -/
theorem printingProgram_with_larger_limit :
    printingProgram.program.length ≤ programCapacity ∧ (10 : UInt64) ≤ 100 ∧
      (100 : UInt64).toNat + 18 ≤ UInt64.size ∧
      ∃ short long, run { printingProgram with limit := some 10 } = .ok short ∧
        run { printingProgram with limit := some 100 } = .ok long ∧
        Extends long.report short.report ∧
        short.report = { stop := .cycleLimit, cycles := 14, instructions := 2, output := "" } ∧
        long.report = { stop := .halted, cycles := 24, instructions := 4, output := "A" } := by
  have fits : printingProgram.program.length ≤ programCapacity := by decide
  have order : (10 : UInt64) ≤ 100 := by decide
  have room : (100 : UInt64).toNat + 18 ≤ UInt64.size := by decide
  obtain ⟨short, long, shortEnded, longEnded, _, cut⟩ :=
    run_with_larger_limit printingProgram fits order room
  -- The last byte of its code is that of HLT.
  have halts : (printingAfter printingProgram 3).Halts := .inl (read_printing rfl 6 rfl)
  -- The smaller limit is reached before anything is printed.
  have shortReport : short.report =
      { stop := .cycleLimit, cycles := 14, instructions := 2, output := "" } := by
    have stops : StopsAt (loaded printingProgram) (some 10) 2 .cycleLimit :=
      stopsAt_printing rfl (by decide) (by decide) (by decide)
    rw [report_of_run shortEnded stops, reportAt, (printed_printing rfl).1,
      ticks_printing rfl (by decide)]
    rfl
  -- The larger limit is out of reach of four instructions.
  have longReport : long.report =
      { stop := .halted, cycles := 24, instructions := 4, output := "A" } := by
    have stops : StopsAt (loaded printingProgram) (some 100) 4 .halted :=
      stopsAt_printing_last rfl halts (by decide)
    exact (report_of_run longEnded stops).trans (reportAt_printing_last rfl halts)
  have limited : short.report.stop = .cycleLimit := by rw [shortReport]
  exact ⟨fits, order, room, short, long, shortEnded, longEnded, (cut limited).1, shortReport,
    longReport⟩

end Runs

end Intel8080.Cpm
