import Intel8080.Proofs.Cpm.Traps

/-!
The report of a run in terms of the ticks of its machine.

A run stops after the least number of ticks that gives a reason to, and reports on exactly those.
-/

namespace Intel8080.Cpm

/-- The machine of a program that has not executed anything yet. -/
def loaded (config : Config) : Machine Trap :=
  { Machine.start (withTraps config.echo { memory := image config.program }) programStart with
    policy := config.policy
    tracing := config.tracing }

/-- Every byte of a loaded program stands where it was loaded to. -/
theorem read_loaded {config : Config} {index : Nat} {byte : UInt8}
    (fits : config.program.length ≤ programCapacity)
    (there : config.program[index]? = some byte) :
    (loaded config).memory.read (programStart + .ofNat index) = byte := by
  have within : index < config.program.length := (List.getElem?_eq_some_iff.mp there).1
  have capacity : programCapacity = 65280 := by decide
  -- The traps, which are loaded later, are far below the program.
  have above {start : UInt16} {count : Nat} (below : start.toNat + count ≤ 256) :
      ¬ Within (programStart + .ofNat index) start count := by
    have entry : programStart.toNat = 256 := rfl
    simp only [Within, UInt16.toNat_sub, UInt16.toNat_add, UInt16.toNat_ofNat', entry]
    omega
  have memory : (loaded config).memory = image config.program := rfl
  rw [memory, image, Memory.read_load _ (above (by decide)),
    Memory.read_load _ (above (by decide))]
  exact Memory.read_load_offset _ (by omega) index there

/-- A loaded program is about to execute its first byte. -/
theorem opcode_loaded {config : Config} {code : UInt8} {rest : List UInt8}
    (program : config.program = code :: rest) (fits : config.program.length ≤ programCapacity) :
    (loaded config).opcode = code := by
  -- The program starts at index zero of itself.
  have first : config.program[0]? = some code := by
    rw [program]
    rfl
  exact read_loaded fits first

/-- One of so many ticks has written to the finish port. -/
def HasEnded (machine : Machine Trap) (count : Nat) : Prop :=
  ∃ earlier < count, (machine.ticks earlier).WritesTo 0

instance (machine : Machine Trap) (count : Nat) : Decidable (HasEnded machine count) :=
  inferInstanceAs (Decidable (∃ _, _))

/--
Why a program would be stopped after so many ticks, if it would.

That it has ended comes first, then that it has halted, and then the limit.
-/
def stopAt? (machine : Machine Trap) (limit : Option UInt64) (count : Nat) : Option StopReason :=
  if HasEnded machine count then some .finished
  else if (machine.ticks count).halted then some .halted
  else if limit.any (· ≤ (machine.ticks count).cycles) then some .cycleLimit
  else none

/-- There is a reason to stop after so many ticks, and none after fewer. -/
structure StopsAt (machine : Machine Trap) (limit : Option UInt64) (count : Nat)
    (reason : StopReason) : Prop where
  stops : stopAt? machine limit count = some reason
  first : ∀ earlier < count, stopAt? machine limit earlier = none

/-- What so many ticks print, one after the other. -/
def printed (machine : Machine Trap) (count : Nat) : String :=
  String.join ((List.range count).map fun earlier => consoleText (machine.ticks earlier))

/-- The report on so many ticks. -/
def reportAt (machine : Machine Trap) (count : Nat) (reason : StopReason) : Report where
  stop := reason
  cycles := (machine.ticks count).cycles
  instructions := count
  output := printed machine count

/-- The message about the stop: why it happened, where the machine stands, and after what. -/
def lastMessage (machine : Machine Trap) (count : Nat) (reason : StopReason) : Message :=
  .stopped reason (machine.ticks count).registers.pc count (machine.ticks count).cycles

section Reasons

variable {machine : Machine Trap} {limit : Option UInt64} {count : Nat}

/-- A program that has ended is stopped as finished, whatever else is true of it. -/
theorem stopAt?_eq_finished_iff :
    stopAt? machine limit count = some .finished ↔ HasEnded machine count := by
  -- This reason is looked for first, so nothing else can hide it.
  grind [stopAt?]

/-- One that has halted is stopped as halted unless it has ended. -/
theorem stopAt?_eq_halted_iff : stopAt? machine limit count = some .halted ↔
    ¬ HasEnded machine count ∧ (machine.ticks count).halted = true := by
  -- The end of the program hides it, and the limit comes later.
  grind [stopAt?]

/-- The limit stops one that could go on. -/
theorem stopAt?_eq_cycleLimit_iff : stopAt? machine limit count = some .cycleLimit ↔
    ¬ HasEnded machine count ∧ (machine.ticks count).halted = false ∧
      ∃ bound ∈ limit, bound ≤ (machine.ticks count).cycles := by
  -- Without a limit both sides are false.
  cases limit <;> grind [stopAt?]

/-- There is no reason to stop while a program goes on below its limit. -/
theorem stopAt?_eq_none_iff : stopAt? machine limit count = none ↔
    ¬ HasEnded machine count ∧ (machine.ticks count).halted = false ∧
      ∀ bound ∈ limit, (machine.ticks count).cycles < bound := by
  -- Without a limit nothing is asked of the counter.
  have below : limit.any (· ≤ (machine.ticks count).cycles) = false ↔
      ∀ bound ∈ limit, (machine.ticks count).cycles < bound := by
    cases limit <;> simp
  -- The rest is the order in which the three reasons are tried.
  rw [← below]
  grind [stopAt?]

end Reasons

/-- Two reasons to stop at the first opportunity are found at the same place. -/
theorem StopsAt.unique {machine : Machine Trap} {limit : Option UInt64} {first second : Nat}
    {reason reason' : StopReason} (left : StopsAt machine limit first reason)
    (right : StopsAt machine limit second reason') : first = second ∧ reason = reason' := by
  -- The earlier of two different places would have a reason that the later one rules out.
  have same : first = second := by
    rcases Nat.lt_trichotomy first second with less | same | more
    · cases left.stops.symm.trans (right.first first less)
    · exact same
    · cases right.stops.symm.trans (left.first second more)
  subst same
  -- At one place there is one reason.
  exact ⟨rfl, Option.some.inj (left.stops.symm.trans right.stops)⟩

/-! ### The last tick -/

section Last

variable {machine : Machine Trap} {limit : Option UInt64} {count : Nat} {reason : StopReason}

/-- A tick after which there is no reason to stop has not halted. -/
theorem runs_of_unstopped {passed : Nat} (going : stopAt? machine limit (passed + 1) = none) :
    ¬ (machine.ticks passed).Halts := by
  -- A halt shows in the flag, which is the second reason to stop.
  intro halts
  cases (Machine.halted_ticks_succ halts).symm.trans (stopAt?_eq_none_iff.mp going).2.1

/-- A tick that halts is a reason to stop, whatever the limit. -/
theorem stopAt?_of_halts {passed : Nat} (going : stopAt? machine limit passed = none)
    (halts : (machine.ticks passed).Halts) :
    stopAt? machine limit (passed + 1) = some .halted := by
  -- A tick that halts does not write, so that the program has not ended either.
  have unended : ¬ HasEnded machine (passed + 1) := by
    rintro ⟨earlier, less, writes⟩
    rcases Nat.lt_succ_iff_lt_or_eq.mp less with before | rfl
    · -- Nothing before the last tick was a reason to stop.
      exact (stopAt?_eq_none_iff.mp going).1 ⟨earlier, before, writes⟩
    · exact writes.runs halts
  exact stopAt?_eq_halted_iff.mpr ⟨unended, Machine.halted_ticks_succ halts⟩

/-- A run is finished exactly when its last tick writes to the finish port, and no earlier one. -/
theorem StopsAt.finished_iff (stops : StopsAt machine limit count reason) :
    reason = .finished ↔ ∃ passed, count = passed + 1 ∧ (machine.ticks passed).WritesTo 0 ∧
      ∀ earlier < passed, ¬ (machine.ticks earlier).WritesTo 0 := by
  constructor
  · -- A run that is finished has a tick that wrote.
    rintro rfl
    obtain ⟨passed, less, writes⟩ := stopAt?_eq_finished_iff.mp stops.stops
    -- The run goes on before the tick that writes, and stops right after it.
    have going := (stopAt?_eq_none_iff.mp (stops.first passed less)).1
    have last : count = passed + 1 := by
      rcases Nat.lt_or_eq_of_le (Nat.succ_le_of_lt less) with before | same
      · have unended := (stopAt?_eq_none_iff.mp (stops.first _ before)).1
        -- One more tick would have found the end already.
        exact absurd ⟨passed, Nat.lt_succ_self passed, writes⟩ unended
      · exact same.symm
    exact ⟨passed, last, writes, fun earlier before ends => going ⟨earlier, before, ends⟩⟩
  · -- A write by the last tick is found before any other reason.
    rintro ⟨passed, rfl, writes, _⟩
    have ended : HasEnded machine (passed + 1) := ⟨passed, Nat.lt_succ_self passed, writes⟩
    exact Option.some.inj (stops.stops.symm.trans (stopAt?_eq_finished_iff.mpr ended))

/-- A run is halted exactly when its last tick halts. -/
theorem StopsAt.halted_iff (awake : machine.halted = false)
    (stops : StopsAt machine limit count reason) :
    reason = .halted ↔ ∃ passed, count = passed + 1 ∧ (machine.ticks passed).Halts := by
  constructor
  · -- A run that is halted has the flag set.
    rintro rfl
    have halted := (stopAt?_eq_halted_iff.mp stops.stops).2
    cases count with
    -- No tick was made, and the machine was awake.
    | zero => cases awake.symm.trans halted
    | succ passed =>
      -- It had not halted before the last tick.
      have earlier := (stopAt?_eq_none_iff.mp (stops.first passed (Nat.lt_succ_self passed))).2.1
      rw [Machine.ticks_succ, Machine.halted_next_iff, earlier] at halted
      exact ⟨passed, rfl, halted.resolve_left (by simp)⟩
  · -- Conversely, a last tick that halts is the reason to stop.
    rintro ⟨passed, rfl, halts⟩
    have going := stops.first passed (Nat.lt_succ_self passed)
    exact Option.some.inj (stops.stops.symm.trans (stopAt?_of_halts going halts))

end Last

/-- A program that halts with its first tick stops there, unless the limit is zero. -/
theorem stopsAt_of_halts {config : Config} {limit : Option UInt64}
    (positive : ∀ bound ∈ limit, 0 < bound) (halts : (loaded config).Halts) :
    StopsAt (loaded config) limit 1 .halted := by
  -- Before the first tick nothing has ended or halted, and the limit is not reached.
  have going : stopAt? (loaded config) limit 0 = none :=
    stopAt?_eq_none_iff.mpr ⟨fun ⟨_, less, _⟩ => Nat.not_lt_zero _ less, rfl, positive⟩
  refine ⟨stopAt?_of_halts going halts, fun earlier less => ?_⟩
  rwa [Nat.lt_one_iff.mp less]

/-! ### Longer runs -/

/-- A report is as another one or goes on from there. -/
structure Extends (long short : Report) : Prop where
  instructions : short.instructions ≤ long.instructions
  cycles : short.cycles ≤ long.cycles
  output : ∃ more, long.output = short.output ++ more

/-- What more ticks print begins with what fewer ticks print. -/
theorem printed_add (machine : Machine Trap) (first second : Nat) :
    printed machine (first + second) =
      printed machine first ++ printed (machine.ticks first) second := by
  -- The later ticks are those of the machine that the earlier ones leave.
  simp only [printed, List.range_add, List.map_append, List.map_map, String.join_append,
    Machine.ticks_add, Function.comp_def]

/-! ### Machines side by side -/

/-- Up to so many ticks two machines differ at most in how the host wants them run. -/
def Together (machine other : Machine Trap) (count : Nat) : Prop :=
  ∀ passed ≤ count, (machine.ticks passed).toProcessor = (other.ticks passed).toProcessor ∧
    (machine.ticks passed).toBus = (other.ticks passed).toBus

section Together

variable {machine other : Machine Trap} {limit : Option UInt64} {count fewer : Nat}
  {reason : StopReason}

/-- They do so up to fewer ticks. -/
theorem Together.of_le (together : Together machine other count) (within : fewer ≤ count) :
    Together machine other fewer :=
  -- What holds up to more ticks holds up to fewer.
  fun passed less => together passed (Nat.le_trans less within)

/-- Neither of them has to come first. -/
theorem Together.symm (together : Together machine other count) : Together other machine count :=
  fun passed within => ⟨(together passed within).1.symm, (together passed within).2.symm⟩

/-- The next tick of the one writes to a port if that of the other does. -/
theorem Together.writesTo_iff (together : Together machine other count) (port : UInt8) :
    (machine.ticks count).WritesTo port ↔ (other.ticks count).WritesTo port := by
  obtain ⟨processor, bus⟩ := together count (Nat.le_refl count)
  -- Whether it writes is told from the code and the byte after it.
  simp only [Machine.WritesTo, Machine.opcode, processor, bus]

/-- The one has a reason to stop if the other has it. -/
theorem Together.stopAt?_eq (together : Together machine other count) :
    stopAt? machine limit count = stopAt? other limit count := by
  -- The same ticks have written, since each of them met the same machine.
  have ended : HasEnded machine count ↔ HasEnded other count :=
    exists_congr fun earlier => and_congr_right fun less =>
      (together.of_le (Nat.le_of_lt less)).writesTo_iff 0
  obtain ⟨processor, _⟩ := together count (Nat.le_refl count)
  -- The flag and the counter are parts of the processor.
  simp only [stopAt?, ended, processor]

/-- Where the one stops, the other stops. -/
theorem StopsAt.of_together (stops : StopsAt machine limit count reason)
    (together : Together machine other count) : StopsAt other limit count reason where
  -- The reason after the last tick is a fact about that place only.
  stops := together.stopAt?_eq.symm.trans stops.stops
  first earlier less :=
    (together.of_le (Nat.le_of_lt less)).stopAt?_eq.symm.trans (stops.first earlier less)

/-- What one more tick prints is up to the registers and the memory that it finds. -/
theorem Together.printed_eq (together : Together machine other count) (within : fewer ≤ count + 1) :
    printed machine fewer = printed other fewer := by
  -- The texts are compared tick by tick.
  refine congrArg String.join (List.map_congr_left fun earlier member => ?_)
  have less : earlier ≤ count :=
    Nat.le_of_lt_succ (Nat.lt_of_lt_of_le (List.mem_range.mp member) within)
  obtain ⟨processor, bus⟩ := together earlier less
  simp only [consoleText, (together.of_le less).writesTo_iff, processor, bus]

/-- The reports on them are the same. -/
theorem Together.reportAt_eq (together : Together machine other count) :
    reportAt machine count reason = reportAt other count reason := by
  -- The counter is part of the processor, and the texts are the same.
  obtain ⟨processor, _⟩ := together count (Nat.le_refl count)
  rw [reportAt, reportAt, together.printed_eq (Nat.le_succ count), processor]

/-- So are the messages about their stops. -/
theorem Together.lastMessage_eq (together : Together machine other count) :
    lastMessage machine count reason = lastMessage other count reason := by
  -- Such a message says only what the processor has.
  obtain ⟨processor, _⟩ := together count (Nat.le_refl count)
  rw [lastMessage, lastMessage, processor]

end Together

/-! ### The session of a run -/

/-- The session of a loaded program, which has announced the run and done nothing else. -/
def begun (config : Config) : Session Trap where
  machine := loaded config
  events := #[.message (.started config.program.length programStart config.policy)]

/-- A program is refused exactly when it is too long. -/
theorem start_eq (config : Config) :
    start config = if programCapacity < config.program.length then
      .error (.tooLarge config.program.length) else .ok (begun config) := by
  -- The length of the program is the only thing that is checked.
  unfold start load
  split <;> rfl

/-- The traps stay in their slots. -/
theorem trapped_ticks (config : Config) (count : Nat) :
    Trapped config.echo ((loaded config).ticks count) := by
  -- Every tick leaves them there, and loading puts them there.
  have kept : ∀ machine, Trapped config.echo machine → Trapped config.echo machine.next :=
    fun _ => trapped_next
  have initial : Trapped config.echo (loaded config) := rfl
  exact Machine.ticks_invariant kept initial count

/-- The host finds the reasons to stop that the ticks give. -/
theorem stop?_begun (config : Config) (limit : Option UInt64) (count : Nat) :
    ((begun config).stepped count).stop? limit = stopAt? (loaded config) limit count := by
  -- The host sees the end of the program in the events, which the traps tell apart by port.
  have finished : ((begun config).stepped count).finished = true ↔
      HasEnded (loaded config) count := by
    rw [Session.finished_stepped, HasEnded]
    simp only [begun, finished_mem_tick (trapped_ticks config _), Bool.false_eq_true, false_or]
  -- The other two reasons are read off the machine.
  rw [Session.stop?, stopAt?, Session.machine_stepped]
  simp only [finished]
  rfl

/-- The run that stops after so many ticks for a reason. -/
def concluded (config : Config) (count : Nat) (reason : StopReason) : Run :=
  conclude ((begun config).stepped count) reason

/-- Its instructions are the ticks. -/
theorem instructions_begun (config : Config) (count : Nat) :
    ((begun config).stepped count).instructions = count := by
  -- Each tick was counted once, from zero.
  rw [Session.instructions_stepped]
  exact Nat.zero_add count

/-- Its report is that on the ticks. -/
theorem report_concluded (config : Config) (count : Nat) (reason : StopReason) :
    (concluded config count reason).report = reportAt (loaded config) count reason := by
  have output : ((begun config).stepped count).output = printed (loaded config) count := by
    -- The announcement of the run prints nothing.
    have silent : (begun config).output = "" := rfl
    rw [Session.output_stepped, silent, String.empty_append, printed]
    simp only [begun, console_tick (trapped_ticks config _)]
  -- The other fields are read off the session as it stands.
  simp only [concluded, conclude, reportAt, output, instructions_begun, Session.machine_stepped]
  rfl

/-- Its terminal has shown piece by piece what the ticks print, if the console echoes. -/
theorem echoed_concluded (config : Config) (count : Nat) (reason : StopReason) :
    (concluded config count reason).echoed =
      if config.echo then printed (loaded config) count else "" := by
  have pieces : ((begun config).stepped count).echoed = String.join ((List.range count).map
      fun earlier =>
        if config.echo then consoleText ((loaded config).ticks earlier) else "") := by
    -- Before the first tick nothing has been shown.
    have silent : (begun config).echoed = "" := rfl
    rw [Session.echoed_stepped, silent, String.empty_append]
    simp only [begun, echoed_tick (trapped_ticks config _)]
  rw [concluded, conclude, pieces]
  cases config.echo with
  -- Every piece is the console text of its tick.
  | true => rfl
  | false =>
    -- All the pieces are empty.
    refine join_of_empty fun piece member => ?_
    obtain ⟨_, _, rfl⟩ := List.mem_map.mp member
    rfl

/-- Its log announces the run, goes through the messages of the ticks and tells about the stop. -/
theorem log_concluded (config : Config) (count : Nat) (reason : StopReason) :
    (concluded config count reason).log =
      .started config.program.length programStart config.policy ::
        ((List.range count).flatMap fun earlier =>
          ((loaded config).ticks earlier).tick.2.filterMap Event.logged) ++
        [lastMessage (loaded config) count reason] := by
  -- The message about the stop is noted last, behind those of the ticks.
  simp only [concluded, conclude, Session.log_stepped, instructions_begun, Session.machine_stepped]
  rfl

/-- A run ends where its ticks first give a reason to stop. -/
theorem run_eq_concluded (config : Config) (fits : config.program.length ≤ programCapacity)
    {count : Nat} {reason : StopReason} (within : count ≤ instructionBound)
    (stops : StopsAt (loaded config) config.limit count reason) :
    run config = .ok (concluded config count reason) := by
  -- The host looks for a reason where the ticks have one.
  have found := stop?_begun config config.limit
  have advanced : (begun config).advance config.limit instructionBound =
      (begun config).stepped count := by
    refine Session.advance_of_first _ within ?_ fun earlier less => ?_
    · -- This is the place with a reason.
      rw [found, stops.stops]
      rfl
    · -- No earlier place has one.
      rw [found, stops.first earlier less]
  -- The program fits, so that its run is that of the session.
  rw [run, start_eq, if_neg (Nat.not_lt.mpr fits)]
  simp only [advanced, found, stops.stops]
  rfl

/-- A run that ends does so where its ticks first give a reason to stop. -/
theorem exists_concluded {config : Config} {result : Run} (ended : run config = .ok result) :
    config.program.length ≤ programCapacity ∧ ∃ count ≤ instructionBound, ∃ reason,
      StopsAt (loaded config) config.limit count reason ∧
        result = concluded config count reason := by
  -- What the host finds after so many steps is what the ticks give.
  have found := stop?_begun config config.limit
  by_cases tooLong : programCapacity < config.program.length
  · -- A program that is too long has no run.
    rw [run, start_eq, if_pos tooLong] at ended
    cases ended
  · -- Otherwise the session has made some number of steps.
    obtain ⟨count, within, advanced, before, _⟩ :=
      (begun config).advance_cases config.limit instructionBound
    rw [run, start_eq, if_neg tooLong] at ended
    simp only [advanced, found] at ended
    cases located : stopAt? (loaded config) config.limit count with
    | none =>
      -- The session has used up its instructions, and such a run has no report.
      rw [located] at ended
      cases ended
    -- The reason is the first one, as the host has looked after every step.
    | some reason =>
      rw [located] at ended
      obtain rfl := Except.ok.inj ended
      have first : ∀ earlier < count, stopAt? (loaded config) config.limit earlier = none := by
        intro earlier less
        rw [← found]
        exact before earlier less
      exact ⟨Nat.not_lt.mp tooLong, count, within, reason, ⟨located, first⟩, rfl⟩

/-- A run reports on its ticks up to where they first give a reason to stop. -/
theorem run_of_stopsAt (config : Config) (fits : config.program.length ≤ programCapacity)
    {count : Nat} {reason : StopReason} (within : count ≤ instructionBound)
    (stops : StopsAt (loaded config) config.limit count reason) :
    ∃ result, run config = .ok result ∧ result.report = reportAt (loaded config) count reason ∧
      result.log.getLast? = some (lastMessage (loaded config) count reason) := by
  -- The log ends with the message about the stop.
  refine ⟨_, run_eq_concluded config fits within stops, report_concluded config count reason, ?_⟩
  rw [log_concluded, List.getLast?_concat]

/-- A run that ends reports on its ticks up to where they first give a reason to stop. -/
theorem stopsAt_of_run {config : Config} {result : Run} (ended : run config = .ok result) :
    config.program.length ≤ programCapacity ∧ ∃ count ≤ instructionBound, ∃ reason,
      StopsAt (loaded config) config.limit count reason ∧
        result.report = reportAt (loaded config) count reason := by
  -- The run is the one that stops there, whose report is known.
  obtain ⟨fits, count, within, reason, stops, rfl⟩ := exists_concluded ended
  exact ⟨fits, count, within, reason, stops, report_concluded config count reason⟩

/-- If the console echoes, the terminal has shown exactly what the report has for its output. -/
theorem echoed_of_run {config : Config} {result : Run} (ended : run config = .ok result) :
    result.echoed = if config.echo then result.report.output else "" := by
  -- Both texts are what the same ticks print.
  obtain ⟨_, count, _, reason, _, rfl⟩ := exists_concluded ended
  rw [echoed_concluded, report_concluded, reportAt]

/-- A run of a program that fits is without a report only if it does not end. -/
theorem error_of_run {config : Config} (fits : config.program.length ≤ programCapacity)
    {cause : RunError} (failed : run config = .error cause) : cause = .endless := by
  -- Loading succeeds, so only the missing reason to stop is left.
  rw [run, start_eq, if_neg (Nat.not_lt.mpr fits)] at failed
  dsimp only at failed
  split at failed
  · exact (Except.error.inj failed).symm
  · cases failed

/-- Programs that run side by side under the same limit have the same report. -/
theorem report_of_together {config other : Config} (fits : config.program.length ≤ programCapacity)
    (fits' : other.program.length ≤ programCapacity)
    (together : ∀ count, Together (loaded config) (loaded other) count)
    (limit : config.limit = other.limit) :
    (run config).map Run.report = (run other).map Run.report := by
  -- Either both runs end at the same place, or neither ends.
  cases ended : run config with
  | ok result =>
    obtain ⟨_, count, within, reason, stops, reported⟩ := stopsAt_of_run ended
    have stops' := limit ▸ stops.of_together (together count)
    obtain ⟨result', ended', reported', _⟩ := run_of_stopsAt other fits' within stops'
    rw [ended', Except.map, Except.map, reported, reported', (together count).reportAt_eq]
  | error cause =>
    cases ended' : run other with
    | ok result' =>
      -- A report on the one would be a report on the other.
      obtain ⟨_, count, within, reason, stops, _⟩ := stopsAt_of_run ended'
      have stops' := limit ▸ stops.of_together (together count).symm
      obtain ⟨result, ended'', _⟩ := run_of_stopsAt config fits within stops'
      cases ended.symm.trans ended''
    -- Two runs that do not end fail for the same cause.
    | error cause' => rw [error_of_run fits ended, error_of_run fits' ended']

/-- The report of a run is that on the ticks up to where they first give a reason to stop. -/
theorem report_of_run {config : Config} {result : Run} (ended : run config = .ok result)
    {count : Nat} {reason : StopReason}
    (stops : StopsAt (loaded config) config.limit count reason) :
    result.report = reportAt (loaded config) count reason := by
  -- There is only one place that is first.
  obtain ⟨_, _, _, _, found, reported⟩ := stopsAt_of_run ended
  obtain ⟨rfl, rfl⟩ := stops.unique found
  exact reported

end Intel8080.Cpm
