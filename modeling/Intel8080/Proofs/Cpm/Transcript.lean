import Intel8080.Proofs.Cpm.Budget

/-!
The log of a traced run, against that of the same run without tracing.

Nothing but the listings looks at the tracing, so they are all that it adds.
-/

namespace Intel8080

/-- The address of a listing. -/
def Message.listedAt? : Message → Option UInt16
  | .listing address _ => some address
  | _ => none

namespace Machine

section Tracing

variable {δ : Type}

/-- The same machine with its instructions listed or not. -/
def withTracing (machine : Machine δ) (tracing : Bool) : Machine δ :=
  { machine with tracing := tracing }

/-- The listing of the instruction in memory at the program counter. -/
def headline (machine : Machine δ) : Message :=
  .listing machine.registers.pc (machine.memory.fetch machine.registers.pc)

/-- The tracing does not decide whether the machine halts. -/
theorem halts_withTracing_iff (machine : Machine δ) (tracing : Bool) :
    (machine.withTracing tracing).Halts ↔ machine.Halts :=
  -- The code and the policy decide, and both are the same.
  Iff.rfl

/-- Serving a request does not look at the tracing. -/
theorem service_withTracing (machine : Machine δ) (tracing : Bool) :
    (machine.withTracing tracing).service = machine.service.withTracing tracing := by
  -- The service depends on the request alone.
  simp only [service, withTracing]
  cases machine.pending <;> rfl

variable [Device δ]

/-- Execution does not look at the tracing, and makes the same known. -/
theorem execute_withTracing (machine : Machine δ) (tracing : Bool) (instruction : Instruction) :
    (machine.withTracing tracing).execute instruction =
      ((machine.execute instruction).1.withTracing tracing, (machine.execute instruction).2) := by
  -- The listing is made before the execution, never during it.
  unfold execute
  cases instruction.operation <;> rfl

/-- A tick is the same with its instruction listed or not. -/
theorem next_withTracing (machine : Machine δ) (tracing : Bool) :
    (machine.withTracing tracing).next = machine.next.withTracing tracing := by
  -- Both halt or both go on.
  have same := machine.halts_withTracing_iff tracing
  by_cases halts : machine.Halts
  · -- Both stop in place.
    rw [next_of_halts machine halts, next_of_halts _ (same.mpr halts)]
    rfl
  · -- Both execute the instruction and serve the same request.
    rw [next_of_runs machine halts, next_of_runs _ (mt same.mp halts), execute_withTracing]
    exact service_withTracing _ tracing

/-- So is any number of them. -/
theorem ticks_withTracing (machine : Machine δ) (tracing : Bool) (count : Nat) :
    (machine.withTracing tracing).ticks count = (machine.ticks count).withTracing tracing := by
  -- The difference stays the same from tick to tick.
  induction count with
  | zero => rfl
  -- The last tick begins with machines that differ in the tracing and nothing else.
  | succ count ih => rw [ticks_succ, ih, next_withTracing, ← ticks_succ]

end Tracing

end Machine

namespace Cpm

/-! ### The messages of one tick -/

/--
What the next tick tells beside its listing.

A machine that halts tells why. Any other one tells only of a warm boot, or of a call of a console
function that there is not.
-/
def remarks (machine : Machine Trap) : List Message :=
  if machine.Halts then [machine.haltMessage]
  else if machine.WritesTo 0 then [.warmBoot machine.registers.sp]
  else if machine.WritesTo 1 ∧ machine.registers.c ∉ [2, 9] then
    [.unknownFunction machine.registers.c]
  else []

/-- A console call is logged only if there is no such function. -/
theorem logged_consoleCall (echo : Bool) (registers : Registers) (memory : Memory) :
    (consoleCall echo registers memory).filterMap Event.logged =
      if registers.c ∉ [2, 9] then [.unknownFunction registers.c] else [] := by
  -- Neither printing nor showing a text is a message.
  have unlogged (text : String) : (emit echo text).filterMap Event.logged = [] := by
    cases echo <;> rfl
  unfold consoleCall
  split
  · -- Function 2 only prints.
    rename_i two
    simp [two, unlogged]
  · -- So does function 9.
    rename_i nine
    simp [nine, unlogged]
  · rename_i other notTwo notNine
    have unknown : registers.c ∉ [2, 9] := by
      simp only [List.mem_cons, List.not_mem_nil, or_false, not_or]
      exact ⟨notTwo, notNine⟩
    rw [if_pos unknown]
    rfl

/-- What a tick that does not halt logs beside its listing comes from the traps. -/
theorem logged_tickEvents {machine : Machine Trap} (echo : Bool) (runs : ¬ machine.Halts) :
    (tickEvents echo machine).filterMap Event.logged = remarks machine := by
  -- The traps and the remarks are told apart by the same two ports.
  rw [tickEvents, remarks, if_neg runs]
  split
  · -- The end of the program is an event beside the message of the warm boot.
    rfl
  · by_cases writes : machine.WritesTo 1
    · -- Whether the call is logged depends on its function alone.
      rw [if_pos writes, trapEvents, logged_consoleCall]
      simp only [writes, true_and]
    · -- Without a write to a trap there is nothing to tell.
      rw [if_neg writes, if_neg fun both => writes both.1]
      rfl

/-- The messages of a tick are its listing, if the machine is traced, and then its remarks. -/
theorem logged_tick {machine : Machine Trap} {echo : Bool} (trapped : Trapped echo machine)
    (tracing : Bool) : (machine.withTracing tracing).tick.2.filterMap Event.logged =
      (if tracing then [machine.headline] else []) ++ remarks machine := by
  -- The listing is there or not, whatever the tick does next.
  have listing : (machine.withTracing tracing).listed.filterMap Event.logged =
      if tracing then [machine.headline] else [] := by
    cases tracing <;> rfl
  have same := machine.halts_withTracing_iff tracing
  by_cases halts : machine.Halts
  · -- The listing comes before the cause of the halt.
    rw [Machine.tick_of_halts _ (same.mpr halts), List.filterMap_append, listing, remarks,
      if_pos halts]
    rfl
  · -- It comes before what the instruction makes known, too.
    have executed := Machine.execute_withTracing machine tracing machine.instruction
    have there : (machine.withTracing tracing).instruction = machine.instruction := rfl
    rw [Machine.tick_of_runs _ (mt same.mp halts), List.filterMap_append, listing, there, executed,
      execute_eq_tickEvents trapped, logged_tickEvents echo halts]

/-- No remark is a listing. -/
theorem listedAt?_of_mem_remarks {machine : Machine Trap} {message : Message}
    (member : message ∈ remarks machine) : message.listedAt? = none := by
  -- Neither cause of a halt is a listing.
  have halt : machine.haltMessage.listedAt? = none := by
    unfold Machine.haltMessage
    split <;> rfl
  unfold remarks at member
  split at member
  · -- It tells why the machine halts.
    rw [List.mem_singleton.mp member, halt]
  · split at member
    · -- It tells of the warm boot.
      rw [List.mem_singleton.mp member]
      rfl
    · split at member
      · -- It tells of an unknown function.
        rw [List.mem_singleton.mp member]
        rfl
      · cases member

/-! ### The log of a run -/

/-- A log that announces a run, goes on to what each tick tells and ends with the stop. -/
def told (config : Config) (count : Nat) (reason : StopReason)
    (tells : Machine Trap → List Message) : List Message :=
  .started config.program.length programStart config.policy ::
    ((List.range count).flatMap fun earlier => tells ((loaded config).ticks earlier)) ++
    [lastMessage (loaded config) count reason]

/-- The same program with its instructions listed or not. -/
def Config.traced (config : Config) (tracing : Bool) : Config :=
  { config with tracing := tracing }

/-- The tracing makes no difference to the machines of a run. -/
theorem ticks_loaded_traced (config : Config) (tracing : Bool) (count : Nat) :
    (loaded (config.traced tracing)).ticks count =
      ((loaded config).ticks count).withTracing tracing :=
  -- Tracing is the only thing in which the two machines differ.
  (loaded config).ticks_withTracing tracing count

/-- So the host sees the same of them. -/
theorem together_traced (config : Config) (tracing : Bool) (count : Nat) :
    Together (loaded (config.traced tracing)) (loaded config) count := by
  -- The processor and the bus are the same in both.
  intro passed _
  rw [ticks_loaded_traced]
  exact ⟨rfl, rfl⟩

/-- The log of a run with tracing differs from that without it in the listing before each tick. -/
theorem log_concluded_traced (config : Config) (tracing : Bool) (count : Nat)
    (reason : StopReason) : (concluded (config.traced tracing) count reason).log =
      told config count reason fun machine =>
        (if tracing then [machine.headline] else []) ++ remarks machine := by
  -- The message about the stop has no listing, so it is the same.
  have last : lastMessage (loaded (config.traced tracing)) count reason =
      lastMessage (loaded config) count reason :=
    (together_traced config tracing count).lastMessage_eq
  rw [log_concluded, told, last]
  simp only [ticks_loaded_traced, logged_tick (trapped_ticks config _)]
  rfl

/-- Every run is one with tracing or without. -/
theorem log_concluded_eq_told (config : Config) (count : Nat) (reason : StopReason) :
    (concluded config count reason).log = told config count reason fun machine =>
      (if config.tracing then [machine.headline] else []) ++ remarks machine :=
  -- A program is itself, traced as it asks to be.
  log_concluded_traced config config.tracing count reason

/-- Its listings are those that the ticks tell. -/
theorem filter_listed_told {config : Config} {count : Nat} {reason : StopReason}
    {tells : Machine Trap → List Message} :
    (told config count reason tells).filter (·.listedAt?.isSome) =
      (List.range count).flatMap fun earlier =>
        (tells ((loaded config).ticks earlier)).filter (·.listedAt?.isSome) := by
  -- Neither the announcement nor the message about the stop is a listing.
  simp [told, lastMessage, Message.listedAt?, List.filter_flatMap]

/-- Without them it is the log of what else the ticks tell. -/
theorem filter_unlisted_told {config : Config} {count : Nat} {reason : StopReason}
    {tells : Machine Trap → List Message} :
    (told config count reason tells).filter (·.listedAt?.isNone) =
      told config count reason fun machine => (tells machine).filter (·.listedAt?.isNone) := by
  -- The announcement and the message about the stop stay.
  simp [told, lastMessage, Message.listedAt?, List.filter_flatMap]

/-! ### Errors -/

/-- A machine that does not halt remarks on no error. -/
theorem level_of_mem_remarks {machine : Machine Trap} {message : Message}
    (runs : ¬ machine.Halts) (member : message ∈ remarks machine) : message.level ≠ .error := by
  -- What is left are the messages of the traps.
  rw [remarks, if_neg runs] at member
  split at member
  · -- A warm boot is a message for debugging.
    rw [List.mem_singleton.mp member]
    exact nofun
  · split at member
    · -- An unknown function leaves no more than a trace.
      rw [List.mem_singleton.mp member]
      exact nofun
    · cases member

/-- No error is logged by a run that does not end with a halt. -/
theorem level_of_mem_log {config : Config} {result : Run} (ended : run config = .ok result)
    (running : result.report.stop ≠ .halted) {message : Message} (member : message ∈ result.log) :
    message.level ≠ .error := by
  -- The log is that of the ticks up to the stop.
  obtain ⟨_, count, _, reason, stops, rfl⟩ := exists_concluded ended
  rw [report_concluded] at running
  -- None of its ticks halts, since the last one would be the end of it.
  have runs : ∀ earlier < count, ¬ ((loaded config).ticks earlier).Halts := by
    intro earlier less halts
    have last : count = earlier + 1 := by
      by_contra more
      have going := stops.first (earlier + 1) (by omega)
      exact runs_of_unstopped going halts
    exact running ((stops.halted_iff rfl).mpr ⟨earlier, last, halts⟩)
  rw [log_concluded_eq_told, told, List.mem_append, List.mem_cons, List.mem_flatMap] at member
  rcases member with (rfl | ⟨earlier, within, member⟩) | member
  · -- The announcement is for information.
    exact nofun
  · -- A listing is for debugging, and the remarks of a tick that goes on are no errors.
    have less := List.mem_range.mp within
    rcases List.mem_append.mp member with listing | remark
    · split at listing
      · rw [List.mem_singleton.mp listing]
        exact nofun
      · cases listing
    · exact level_of_mem_remarks (runs earlier less) remark
  · -- The message about the stop is for information too.
    rw [List.mem_singleton.mp member]
    exact nofun

/-! ### Traced and untraced runs -/

/--
The log of a traced run is an exact transcript of the run without tracing.

Both go through the same machines, which are those of the program whether or not it asks for
tracing itself.
-/
structure Transcript (config : Config) (plain traced : Run) : Prop where
  report : traced.report = plain.report
  shared : ∀ tracing count, (loaded (config.traced tracing)).ticks count =
    ((loaded config).ticks count).withTracing tracing
  /-- Without tracing every tick tells its remarks. -/
  remarked : plain.log = told config plain.report.instructions plain.report.stop remarks
  /-- With it the listing of its instruction stands before them. -/
  headed : traced.log = told config plain.report.instructions plain.report.stop
    fun machine => machine.headline :: remarks machine
  /-- So the listings are those of the ticks, in their order. -/
  listings : traced.log.filter (·.listedAt?.isSome) =
    (List.range plain.report.instructions).map fun earlier =>
      ((loaded config).ticks earlier).headline
  /-- There is one for each instruction. -/
  counted : (traced.log.filter (·.listedAt?.isSome)).length = plain.report.instructions
  /-- Without them the log is that of the run without tracing. -/
  unlisted : traced.log.filter (·.listedAt?.isNone) = plain.log
  /-- Their addresses are where the program counter has been. -/
  addresses : traced.log.filterMap Message.listedAt? =
    (List.range plain.report.instructions).map fun earlier =>
      ((loaded config).ticks earlier).registers.pc
  /-- It starts with the program. -/
  entry : (loaded config).registers.pc = 0x0100

/-- The remarks of a tick have no listing among them. -/
theorem filter_remarks (machine : Machine Trap) :
    (remarks machine).filter (·.listedAt?.isSome) = [] ∧
      (remarks machine).filter (·.listedAt?.isNone) = remarks machine := by
  constructor
  · -- None of them is kept by a choice of listings.
    refine List.filter_eq_nil_iff.mpr fun message member => ?_
    simp [listedAt?_of_mem_remarks member]
  · -- All of them are kept by the opposite choice.
    refine List.filter_eq_self.mpr fun message member => ?_
    simp [listedAt?_of_mem_remarks member]

/-- The runs with and without tracing that stop after so many ticks for a reason. -/
theorem transcript_concluded (config : Config) (count : Nat) (reason : StopReason) :
    Transcript config (concluded (config.traced false) count reason)
      (concluded (config.traced true) count reason) := by
  -- The report does not depend on the tracing.
  have reported (tracing : Bool) : (concluded (config.traced tracing) count reason).report =
      reportAt (loaded config) count reason := by
    rw [report_concluded, (together_traced config tracing count).reportAt_eq]
  -- Both logs are told from the same machines.
  have plain : (concluded (config.traced false) count reason).log =
      told config count reason remarks := log_concluded_traced config false count reason
  have traced : (concluded (config.traced true) count reason).log =
      told config count reason fun machine => machine.headline :: remarks machine :=
    log_concluded_traced config true count reason
  have listings : (concluded (config.traced true) count reason).log.filter
      (·.listedAt?.isSome) = (List.range count).map fun earlier =>
        ((loaded config).ticks earlier).headline := by
    -- Of each tick there is the headline, and none of the remarks.
    rw [traced, filter_listed_told, List.map_eq_flatMap]
    congr 1
    funext earlier
    rw [List.filter_cons_of_pos rfl, (filter_remarks _).1]
  have instructions : (reportAt (loaded config) count reason).instructions = count := rfl
  refine ⟨(reported true).trans (reported false).symm, ticks_loaded_traced config, ?remarked,
    ?headed, ?listings, ?counted, ?unlisted, ?addresses, rfl⟩
  case remarked => rw [reported, plain, reportAt]
  case headed => rw [reported, traced, reportAt]
  case listings => rw [reported, listings, instructions]
  case counted => rw [reported, listings, instructions, List.length_map, List.length_range]
  case unlisted =>
    -- Only the headline is left out of each tick.
    rw [traced, plain, filter_unlisted_told]
    congr 1
    funext machine
    rw [List.filter_cons_of_neg Bool.false_ne_true, (filter_remarks machine).2]
  case addresses =>
    -- Only listings have addresses.
    have only (log : List Message) : log.filterMap Message.listedAt? =
        (log.filter (·.listedAt?.isSome)).filterMap Message.listedAt? := by
      rw [List.filterMap_filter]
      congr 1
      funext message
      cases message.listedAt? <;> rfl
    rw [only, listings, reported, instructions, List.filterMap_map]
    exact congrFun List.filterMap_eq_map _

/--
Tracing adds an exact transcript to the log and does nothing else.

With it and without it a run comes to the same report, or to none for the same reason.
-/
theorem run_traced (config : Config) :
    (run (config.traced true)).map Run.report = (run (config.traced false)).map Run.report ∧
      ∀ plain traced, run (config.traced false) = .ok plain →
        run (config.traced true) = .ok traced → Transcript config plain traced := by
  -- The machines of the two runs differ in the tracing alone.
  have together (count : Nat) :
      Together (loaded (config.traced true)) (loaded (config.traced false)) count := by
    intro passed _
    rw [ticks_loaded_traced, ticks_loaded_traced]
    exact ⟨rfl, rfl⟩
  refine ⟨?_, fun plain traced ended ended' => ?_⟩
  · by_cases fits : config.program.length ≤ programCapacity
    · -- Both runs stop at the same place, or neither does.
      exact report_of_together fits fits together rfl
    · -- The program is refused in either case.
      have tooLong := Nat.lt_of_not_le fits
      rw [run, run, start_eq, start_eq, Config.traced, Config.traced, if_pos tooLong,
        if_pos tooLong]
  · -- Where the one has stopped, the other stops.
    obtain ⟨fits, count, within, reason, stops, rfl⟩ := exists_concluded ended
    have stops' : StopsAt (loaded (config.traced true)) config.limit count reason :=
      stops.of_together (together count).symm
    have same := run_eq_concluded (config.traced true) fits within stops'
    obtain rfl := Except.ok.inj (same.symm.trans ended')
    exact transcript_concluded config count reason

/-- The transcript of a program that consists of HLT is one line. -/
theorem haltingProgram_traced :
    ∃ plain traced, run (haltingProgram.traced false) = .ok plain ∧
      run (haltingProgram.traced true) = .ok traced ∧
      Transcript haltingProgram plain traced ∧
      plain.log = [.started 1 0x0100 .emulate, .halt 0x0100, .stopped .halted 0x0100 1 0] ∧
      traced.log = [.started 1 0x0100 .emulate, .listing 0x0100 ⟨0x76, 0⟩, .halt 0x0100,
        .stopped .halted 0x0100 1 0] := by
  -- The first tick halts, whether it is listed or not.
  have fits : haltingProgram.program.length ≤ programCapacity := by decide
  have opcode : (loaded haltingProgram).opcode = 0x76 := opcode_loaded rfl fits
  have halts : (loaded haltingProgram).Halts := .inl opcode
  have ended (tracing : Bool) : run (haltingProgram.traced tracing) =
      .ok (concluded (haltingProgram.traced tracing) 1 .halted) :=
    run_eq_concluded (haltingProgram.traced tracing) fits (by decide) (stopsAt_of_halts nofun halts)
  have script := (run_traced haltingProgram).2 _ _ (ended false) (ended true)
  have remarked : remarks (loaded haltingProgram) = [.halt 0x0100] := by
    rw [remarks, if_pos halts]
    rfl
  -- HLT takes no operand, so that the bytes behind it are not fetched.
  have headline : (loaded haltingProgram).headline = .listing 0x0100 ⟨0x76, 0⟩ := by
    have read : (loaded haltingProgram).memory.read 0x0100 = 0x76 := opcode
    have fetched : (loaded haltingProgram).memory.fetch 0x0100 = ⟨0x76, 0⟩ := by
      rw [Memory.fetch, read]
      rfl
    rw [Machine.headline, ← fetched]
    rfl
  -- The program counter stays on HLT, and no cycle is charged.
  have last : lastMessage (loaded haltingProgram) 1 .halted = .stopped .halted 0x0100 1 0 := by
    have next : (loaded haltingProgram).ticks 1 = { loaded haltingProgram with halted := true } :=
      Machine.next_of_halts _ halts
    rw [lastMessage, next]
    rfl
  have log (tracing : Bool) : (concluded (haltingProgram.traced tracing) 1 .halted).log =
      .started 1 0x0100 .emulate ::
        ((if tracing then [.listing 0x0100 ⟨0x76, 0⟩] else []) ++ [.halt 0x0100]) ++
        [.stopped .halted 0x0100 1 0] := by
    rw [log_concluded_traced, told, last, List.range_one, List.flatMap_singleton, ← headline,
      ← remarked]
    rfl
  exact ⟨_, _, ended false, ended true, script, log false, log true⟩

end Cpm

end Intel8080
