import Intel8080.CommandLine.Outcome
import Intel8080.Proofs.CommandLine.Reading
import Intel8080.Proofs.Cpm.Transcript

/-!
What every command line comes to.

Its only reading tells whether a file is read, which one, and how the process ends in each case.
-/

namespace Intel8080.CommandLine

/--
The logger writes about errors and about nothing else.

This is what it does unless the environment asks for other messages, or for none.
-/
def Logger.ErrorsOnly (logger : Logger) : Prop :=
  ∀ place message, message.level ≠ .error → logger.line place message = ""

/-- The process fails with an error, and prints nothing else. -/
structure Outcome.Fails (outcome : Outcome) : Prop where
  exitCode : outcome.exitCode = 1
  stdout : outcome.stdout = ""
  stderr : ∃ reason, outcome.stderr = "Error: " ++ reason

/-- The process ends without a program, and tells how to name one. -/
structure Outcome.Asks (outcome : Outcome) : Prop where
  exitCode : outcome.exitCode = 1
  stdout : outcome.stdout = ""
  stderr : ∃ before after, outcome.stderr = before ++ usage ++ after

/-- The process prints what a program printed and a line about its run. -/
structure Outcome.Reports (outcome : Outcome) (report : Cpm.Report) : Prop where
  exitCode : outcome.exitCode =
    match report.stop with
    | .finished => 0
    | .halted => 2
    | .cycleLimit => 3
  stdout : outcome.stdout = report.output ++ "\n" ++
    toString report.instructions ++ " instructions, " ++ toString report.cycles.toNat ++
    " cycles (" ++ report.stop.name ++ ")\n"
  /-- It is silent about runs that the program ended by itself, and only about them. -/
  stderr : outcome.stderr = "" ↔ outcome.exitCode = 0

/-- How the process ends once it has tried to read the program that it should run. -/
def Options.Settles (options : Options) (outcome : Outcome) :
    Except FileError (List UInt8) → Prop
  | .error _ => outcome.Fails
  | .ok program =>
    let config : Cpm.Config :=
      { program := program
        tracing := options.debug
        policy := if options.strict then .fault else .emulate
        limit := options.limit
        echo := true }
    if 65280 < program.length then outcome.Fails
    -- The run ends, and the counter has room for all the cycles until then.
    else ∀ count reason, Cpm.StopsAt (Cpm.loaded config) options.limit count reason →
      (Cpm.loaded config).spent count < UInt64.size →
        ∃ run, Cpm.run config = .ok run ∧
          run.report = Cpm.reportAt (Cpm.loaded config) count reason ∧ outcome.Reports run.report

section Invocation

variable {μ : Type → Type} [Monad μ] (readProgram : String → μ (Except FileError (List UInt8)))
  (logger : Logger)

/--
What a command line with a reading comes to.

Whether a file is read is settled by the words alone. It is the last path, and nothing else is done
before or after.
-/
def Reading.Settles {words : List String} (reading : Reading words) : Prop :=
  let options := Options.ofGroups reading.groups
  match reading.verdict, options.path with
  | .help, _ => invoke readProgram words logger = pure { exitCode := 0, stdout := usage ++ "\n" }
  | .wrong, _ => ∃ outcome, invoke readProgram words logger = pure outcome ∧ outcome.Fails
  | .done, none => ∃ outcome, invoke readProgram words logger = pure outcome ∧ outcome.Asks
  | .done, some path => ∃ settle : Except FileError (List UInt8) → Outcome,
      invoke readProgram words logger = (do return settle (← readProgram path)) ∧
        ∀ contents, options.Settles (settle contents) contents

end Invocation

/-- Every failure is an error of the process. -/
theorem Failure.fails (failure : Failure) : failure.outcome.Fails where
  exitCode := rfl
  stdout := rfl
  stderr := by
    -- The first word is the same with a cause and without.
    unfold outcome
    split
    · exact ⟨_, String.append_assoc⟩
    · simp only [String.append_assoc]
      exact ⟨_, rfl⟩

/-- Having no program asks for one. -/
theorem Outcome.asks_noProgram : Outcome.noProgram.Asks where
  exitCode := rfl
  stdout := rfl
  -- The usage stands between the complaint and an example.
  stderr := ⟨"No program provided.\n", _, String.append_assoc⟩

/-- About a log without errors such a logger writes nothing. -/
theorem Logger.lines_of_no_error {logger : Logger} (errors : logger.ErrorsOnly)
    {log : List Message} (clean : ∀ message ∈ log, message.level ≠ .error) :
    logger.lines log = "" := by
  -- What is written is put together from the lines about the single messages.
  refine join_of_empty fun line member => ?_
  obtain ⟨place, within, rfl⟩ := List.mem_mapIdx.mp member
  exact errors place _ (clean _ (List.getElem_mem within))

namespace Outcome

variable {logger : Logger}

/-- That a program has been chosen leaves no trace on a failure. -/
theorem after_chosen (errors : logger.ErrorsOnly) (path : String) (outcome : Outcome) :
    outcome.after logger [.chosen path] = outcome := by
  -- The choice is logged for information.
  have silent : logger.lines [.chosen path] = "" :=
    logger.lines_of_no_error errors (by simp [Message.level])
  rw [after, silent, String.empty_append]

/-- A run whose console echoes is reported as it should be. -/
theorem reports_ofRun (errors : logger.ErrorsOnly) (path : String) {config : Cpm.Config}
    (echoes : config.echo = true) {run : Cpm.Run} (ended : Cpm.run config = .ok run) :
    ((ofRun run).after logger (.chosen path :: run.log)).Reports run.report where
  -- Both tell the three reasons to stop apart by the same numbers.
  exitCode := rfl
  stdout := by
    -- By the end the terminal has shown all the console output.
    have shown : run.echoed = run.report.output := by
      rw [Cpm.echoed_of_run ended, if_pos echoes]
    simp only [after, ofRun, shown, String.append_assoc]
    rfl
  stderr := by
    cases stop : run.report.stop with
    | finished =>
      -- The program has ended without an error, so that the logger has had nothing to write.
      have running : run.report.stop ≠ .halted := by simp [stop]
      have clean : ∀ message ∈ Message.chosen path :: run.log, message.level ≠ .error :=
        List.forall_mem_cons.mpr
          ⟨by simp [Message.level], fun message => Cpm.level_of_mem_log ended running⟩
      simp [after, ofRun, stop, logger.lines_of_no_error errors clean]
    -- Whatever the logger has written, a line about the stop follows.
    | halted => simp [after, ofRun, stop]
    | cycleLimit => simp [after, ofRun, stop]

end Outcome

/-- How the process ends once it has tried to read the program at a path. -/
def Options.conclude (options : Options) (logger : Logger) (path : String) :
    Except FileError (List UInt8) → Outcome
  | .error error => (Failure.ofFile path error).outcome.after logger [.chosen path]
  | .ok program => options.execute logger path program

/-- A program that does not fit is refused when it is loaded. -/
theorem Options.execute_of_long {program : List UInt8}
    (long : Cpm.programCapacity < program.length) (options : Options) (logger : Logger)
    (path : String) : options.execute logger path program =
      (Failure.ofRun (.load (.tooLarge program.length))).outcome.after logger [.chosen path] := by
  -- Loading refuses it before anything is executed.
  have start : Cpm.start (options.config program) = .error (.tooLarge program.length) := by
    rw [Cpm.start_eq]
    exact if_pos long
  rw [execute, Cpm.run, start]

/-- It ends as it should, whatever the file holds. -/
theorem Options.settles_conclude (options : Options) {logger : Logger}
    (errors : logger.ErrorsOnly) (path : String) (contents : Except FileError (List UInt8)) :
    options.Settles (options.conclude logger path contents) contents := by
  -- The limit on a program is the number of bytes above its entry.
  have capacity : Cpm.programCapacity = 65280 := by decide
  cases contents with
  -- A file that cannot be read is a failure.
  | error error =>
    rw [conclude, Outcome.after_chosen errors]
    exact (Failure.ofFile path error).fails
  | ok program =>
    rw [Settles, conclude, ← capacity]
    split
    · -- So is a program that is too long.
      rename_i long
      rw [execute_of_long long, Outcome.after_chosen errors]
      exact Failure.fails _
    · -- Otherwise the run ends where its ticks give a reason to stop.
      rename_i short
      intro count reason stops room
      obtain ⟨run, ended, reported, _⟩ :=
        Cpm.run_of_stopsAt (options.config program) (Nat.not_lt.mp short) (stops.within room) stops
      rw [execute, ended]
      exact ⟨run, ended, reported, Outcome.reports_ofRun errors path rfl ended⟩

section Invocation

variable {μ : Type → Type} [Monad μ] (readProgram : String → μ (Except FileError (List UInt8)))
  (logger : Logger) {words : List String}

/-- Words that make no sense are reported without reading a file. -/
theorem invoke_of_error {error : UsageError} (wrong : parse {} words = .error error) :
    invoke readProgram words logger = pure (Failure.ofUsage error).outcome := by
  -- The words are looked at first, and nothing else is done for an error.
  rw [invoke, wrong]

/-- The summary is shown without reading a file. -/
theorem invoke_of_help (help : parse {} words = .ok .help) :
    invoke readProgram words logger = pure .help := by
  -- Nor is anything else done for a request for help.
  rw [invoke, help]

/-- To run a program, just its own file is read. -/
theorem invoke_of_run {options : Options} (run : parse {} words = .ok (.run options)) :
    invoke readProgram words logger =
      match options.path with
      | none => pure .noProgram
      | some path => do return options.conclude logger path (← readProgram path) := by
  rw [invoke, run]
  cases path : options.path with
  -- Without a path there is no file to read.
  | none => simp only [path]
  | some path' =>
    simp only [path]
    -- Both sides read the file, and then look at what came of it.
    refine congrArg (readProgram path' >>= ·) (funext fun contents => ?_)
    cases contents <;> rfl

/-- A command line comes to what a reading of it tells. -/
theorem Reading.settled (errors : logger.ErrorsOnly) (reading : Reading words) :
    reading.Settles readProgram logger := by
  -- What the words are taken for is known from the reading.
  have means := reading.means
  unfold Settles
  -- The verdict has been read off the words, and the words alone decide what is done.
  cases verdict : reading.verdict with
  | help =>
    rw [verdict] at means
    exact invoke_of_help readProgram logger means
  | wrong =>
    rw [verdict] at means
    obtain ⟨error, wrong⟩ := means
    exact ⟨_, invoke_of_error readProgram logger wrong, Failure.fails _⟩
  | done =>
    rw [verdict] at means
    have invoked := invoke_of_run readProgram logger means
    -- Of the paths the last one counts, if there is one.
    cases path : (Options.ofGroups reading.groups).path with
    | none =>
      rw [path] at invoked
      simp only [path]
      exact ⟨_, invoked, Outcome.asks_noProgram⟩
    | some path' =>
      rw [path] at invoked
      simp only [path]
      exact ⟨_, invoked, Options.settles_conclude _ errors path'⟩

/--
Every command line has exactly one reading, and comes to what that tells.

All the words are looked at before any file is read. The logger writes about errors at most.
-/
theorem invoke_settled (errors : logger.ErrorsOnly) (words : List String) :
    ∃ reading : Reading words, (∀ other : Reading words, other = reading) ∧
      reading.Settles readProgram logger := by
  -- Any words can be read, and all their readings are the same.
  obtain ⟨reading⟩ := exists_reading words
  exact ⟨reading, fun other => other.unique reading, reading.settled readProgram logger errors⟩

end Invocation

/-- A logger that writes about errors only, with the place in the log for the time. -/
def errorLogger : Logger where
  line place message :=
    if message.level = .error then s!"[{place} {message.level.name}] {message.text}\n" else ""

/-- Every file holds a program that prints a letter and comes to an undocumented code. -/
def refusedFiles (_ : String) : Id (Except FileError (List UInt8)) :=
  pure (.ok (Cpm.printingCode 0x08))

/-- A command line with two paths and a limit between them. -/
def twoPaths : Reading ["first.com", "--max-cycles", "100", "second.com", "--strict"] where
  groups := [.path "first.com", .limit "100" 100, .path "second.com", .strict]
  rest := []
  verdict := .done
  split := rfl
  valid := by
    have first : ¬ Long "first.com" := mt (isOption_iff _).mpr (by decide)
    have second : ¬ Long "second.com" := mt (isOption_iff _).mpr (by decide)
    have limit : Decimal.Writes "100".toList 100 := (Decimal.read_eq_ok_iff _ _).mp rfl
    simpa [Group.Valid, knownOptions] using ⟨first, limit, second⟩
  decides := .done

/-- The run that it asks for. -/
def twoPathsConfig : Cpm.Config :=
  { program := Cpm.printingCode 0x08, policy := .fault, limit := some 100, echo := true }

/-- The policy refuses its fourth instruction. -/
theorem halts_twoPathsConfig : (Cpm.printingAfter twoPathsConfig 3).Halts := by
  have last : (Cpm.printingAfter twoPathsConfig 3).opcode = 0x08 := Cpm.read_printing rfl 6 rfl
  refine .inr ⟨rfl, ?_⟩
  rw [last]
  decide

/-- So the run stops there, and the counter has room until then. -/
theorem stopsAt_twoPathsConfig :
    Cpm.StopsAt (Cpm.loaded twoPathsConfig) (some 100) 4 .halted ∧
      (Cpm.loaded twoPathsConfig).spent 4 < UInt64.size := by
  have stops : Cpm.StopsAt (Cpm.loaded twoPathsConfig) (some 100) 4 .halted :=
    Cpm.stopsAt_printing_last rfl halts_twoPathsConfig (by decide)
  have room : (100 : UInt64).toNat + 18 ≤ UInt64.size := by decide
  exact ⟨stops, Nat.lt_of_le_of_lt (Cpm.toNat_cycles_of_limited room stops.first).1 room⟩

/-- The letter has been shown when the counts are printed, and the exit code tells of the halt. -/
theorem invoke_settled_twoPaths :
    errorLogger.ErrorsOnly ∧ ∃ run, Cpm.run twoPathsConfig = .ok run ∧
      run.report = { stop := .halted, cycles := 24, instructions := 4, output := "A" } ∧
      let outcome := invoke refusedFiles
        ["first.com", "--max-cycles", "100", "second.com", "--strict"] errorLogger
      Outcome.Reports outcome run.report ∧ outcome.exitCode = 2 ∧
        outcome.stdout = "A\n4 instructions, 24 cycles (Halted)\n" := by
  have errors : errorLogger.ErrorsOnly := fun _ _ other => if_neg other
  obtain ⟨reading, only, settled⟩ := invoke_settled refusedFiles errorLogger errors
    ["first.com", "--max-cycles", "100", "second.com", "--strict"]
  obtain rfl := only twoPaths
  obtain ⟨settle, invoked, settles⟩ := settled
  have short : ¬ 65280 < (Cpm.printingCode 0x08).length := (by decide : ¬ 65280 < 7)
  have settled := settles (.ok (Cpm.printingCode 0x08))
  rw [Options.Settles, if_neg short] at settled
  obtain ⟨stops, room⟩ := stopsAt_twoPathsConfig
  obtain ⟨run, ended, reported, reports⟩ := settled 4 .halted stops room
  have report := reported.trans (Cpm.reportAt_printing_last rfl halts_twoPathsConfig)
  refine ⟨errors, run, ended, report, ?_⟩
  rw [invoked]
  refine ⟨reports, ?_, ?_⟩
  · refine reports.exitCode.trans ?_
    rw [report]
  · refine reports.stdout.trans ?_
    rw [report]
    rfl

end Intel8080.CommandLine
