import Intel8080.Proofs.CommandLine.Outcome

/-!
The order of the groups on a command line.

It makes no difference except among the paths and among the limits, of which the last one counts.
-/

namespace Intel8080.CommandLine

/-- A group has this value, and none behind it has one. -/
def Last {α : Type} (value? : Group → Option α) (groups : List Group) (value : α) : Prop :=
  ∃ before group after, groups = before ++ group :: after ∧ value? group = some value ∧
    ∀ later ∈ after, value? later = none

/-- The options are what the groups ask for together. -/
structure Options.Collects (options : Options) (groups : List Group) : Prop where
  debug : options.debug = true ↔ .debug ∈ groups
  strict : options.strict = true ↔ .strict ∈ groups
  limit : ∀ count, options.limit = some count ↔ Last Group.limit? groups count
  path : ∀ word, options.path = some word ↔ Last Group.path? groups word

/-- The last value that there is belongs to the last group that has one. -/
theorem getLast?_filterMap_iff {α : Type} (value? : Group → Option α) (groups : List Group)
    (value : α) : (groups.filterMap value?).getLast? = some value ↔ Last value? groups value := by
  rw [List.getLast?_filterMap, List.findSome?_eq_some_iff]
  -- The search goes through the groups from the end.
  constructor
  · -- Reversing puts what comes after the group in front of it.
    rintro ⟨after, group, before, reversed, valued, none⟩
    refine ⟨before.reverse, group, after.reverse, ?_, valued, by simpa using none⟩
    simpa using congrArg List.reverse reversed
  · -- It does so in the other direction, too.
    rintro ⟨before, group, after, rfl, valued, none⟩
    exact ⟨after.reverse, group, before.reverse, by simp, valued, by simpa using none⟩

namespace Options

/-- Groups leave behind the options that they ask for. -/
theorem collects_ofGroups (groups : List Group) : (ofGroups groups).Collects groups where
  -- Each flag is set by its group, and each value is the last one there is.
  debug := decide_eq_true_iff
  strict := decide_eq_true_iff
  limit := getLast?_filterMap_iff Group.limit? groups
  path := getLast?_filterMap_iff Group.path? groups

namespace Collects

variable {options options' : Options} {groups groups' : List Group}

/-- There is only one thing that groups ask for. -/
theorem unique (collects : options.Collects groups) (collects' : options'.Collects groups) :
    options = options' := by
  -- Each of the four is settled by its own question about the groups.
  have debug : options.debug = options'.debug :=
    Bool.eq_iff_iff.mpr (collects.debug.trans collects'.debug.symm)
  have strict : options.strict = options'.strict :=
    Bool.eq_iff_iff.mpr (collects.strict.trans collects'.strict.symm)
  have limit : options.limit = options'.limit :=
    Option.ext fun count => (collects.limit count).trans (collects'.limit count).symm
  have path : options.path = options'.path :=
    Option.ext fun word => (collects.path word).trans (collects'.path word).symm
  -- With equal fields the options are equal.
  cases options
  cases options'
  congr

/-- In another order groups ask for the same, as long as the last path and limit stay the last. -/
theorem perm (collects : options.Collects groups) (reordered : groups'.Perm groups)
    (limit : ∀ count, Last Group.limit? groups' count ↔ Last Group.limit? groups count)
    (path : ∀ word, Last Group.path? groups' word ↔ Last Group.path? groups word) :
    options.Collects groups' where
  -- Membership does not depend on the order.
  debug := collects.debug.trans reordered.mem_iff.symm
  strict := collects.strict.trans reordered.mem_iff.symm
  -- For the values the last ones are the same by assumption.
  limit count := (collects.limit count).trans (limit count).symm
  path word := (collects.path word).trans (path word).symm

end Collects

end Options

/-- Groups alone, with nothing behind them, are taken for a run with the options they ask for. -/
theorem parse_groups {groups : List Group} (valid : ∀ group ∈ groups, group.Valid)
    {options : Options} (collects : options.Collects groups) :
    parse {} (groups.flatMap Group.words) = .ok (.run options) := by
  -- The options are the ones that the groups leave behind.
  obtain rfl := (Options.collects_ofGroups groups).unique collects
  -- When all the groups have changed the options, no word is left.
  rw [← List.append_nil (groups.flatMap Group.words), parse_flatMap valid, foldl_apply, parse]

/-- A word that no option begins like is a path. -/
theorem Group.path_valid {word : String} (noHelp : word ≠ "-h") (short : ¬ Long word) :
    (path word).Valid := by
  -- All the other options there are begin with two dashes.
  have options : ∀ word ∈ knownOptions, word = "-h" ∨ isOption word := by decide
  refine ⟨fun member => ?_, short⟩
  exact (options word member).elim noHelp (short ∘ (isOption_iff word).mp)

/-! ### The word behind the option for the limit -/

/-- A word that is no limit is reported with the reason. -/
theorem Failure.outcome_invalidLimit (word : String) (cause : Decimal.ReadError) :
    (ofUsage (.invalidLimit word cause)).outcome =
      { exitCode := 1
        stderr := "Error: invalid --max-cycles value '" ++ word ++ "'\n\nCaused by:\n    " ++
          cause.message ++ "\n" } := by
  have failure : ofUsage (.invalidLimit word cause) =
      { message := "invalid --max-cycles value '" ++ word ++ "'"
        cause := some cause.message } := rfl
  -- The word stands between two texts that are put together from parts.
  have before : "Error: " ++ "invalid --max-cycles value '" =
      "Error: invalid --max-cycles value '" := rfl
  have after : "'" ++ "\n\nCaused by:\n    " = "'\n\nCaused by:\n    " := rfl
  rw [failure, outcome, ← before, ← after]
  simp only [String.append_assoc]

/-- What options begin with is no sign that a count may have. -/
theorem not_writes_of_dash {word : String} (option : word = "-h" ∨ Long word) (count : UInt64) :
    ¬ Decimal.Writes word.toList count := by
  -- Either kind of option begins with a dash.
  obtain ⟨rest, dashed⟩ : ∃ rest, word.toList = '-' :: rest := by
    obtain rfl | ⟨name, rfl⟩ := option
    · exact ⟨['h'], rfl⟩
    · exact ⟨'-' :: name.toList, String.toList_append⟩
  rw [dashed, Decimal.writes_iff (by simp)]
  -- A dash would have to be a digit.
  rintro ⟨_, digits, _⟩
  exact absurd (digits '-' List.mem_cons_self) (by decide)

section Invocation

variable {μ : Type → Type} [Monad μ] (readProgram : String → μ (Except FileError (List UInt8)))
  (logger : Logger)

/--
Behind groups that leave these options, a word follows the option for the limit.

Whatever the word may be, it is taken for the limit, and for nothing else.
-/
structure TakenAsLimit (groups : List Group) (options : Options) (word : String)
    (rest : List String) : Prop where
  /-- The words behind it are taken as they would be without it, but for the limit. -/
  written : ∀ count, Decimal.Writes word.toList count →
    parse {} (groups.flatMap Group.words ++ "--max-cycles" :: word :: rest) =
      parse { options with limit := some count } rest
  /-- No word behind it matters, and no file is read. -/
  refused : (∀ count, ¬ Decimal.Writes word.toList count) →
    ∃ cause : Decimal.ReadError, Decimal.read word.toList = .error cause ∧
      invoke readProgram (groups.flatMap Group.words ++ "--max-cycles" :: word :: rest) logger =
        pure
          { exitCode := 1
            stderr := "Error: invalid --max-cycles value '" ++ word ++ "'\n\nCaused by:\n    " ++
              cause.message ++ "\n" }
  /-- The options there are write no count, so they are among the words that are refused. -/
  option : word = "-h" ∨ Long word → ∀ count, ¬ Decimal.Writes word.toList count

/-- Any word is taken for the limit behind the option that sets it. -/
theorem takenAsLimit {groups : List Group} (valid : ∀ group ∈ groups, group.Valid)
    {options : Options} (collects : options.Collects groups) (word : String)
    (rest : List String) : TakenAsLimit readProgram logger groups options word rest where
  written count writes := by
    -- What is known of the options is that the groups leave them.
    obtain rfl := (Options.collects_ofGroups groups).unique collects
    rw [parse_flatMap valid, foldl_apply]
    -- The option and the word behind it are one more group.
    have valid : (Group.limit word count).Valid := writes
    exact parse_words_append valid _ rest
  refused unwritten := by
    -- The word is either read as a count or refused for a cause.
    cases read : Decimal.read word.toList with
    | ok count => exact absurd ((Decimal.read_eq_ok_iff _ _).mp read) (unwritten count)
    | error cause =>
      have wrong :
          parse {} (groups.flatMap Group.words ++ "--max-cycles" :: word :: rest) =
            .error (.invalidLimit word cause) := by
        rw [parse_flatMap valid, parse, read]
      refine ⟨cause, rfl, ?_⟩
      rw [invoke_of_error readProgram logger wrong, Failure.outcome_invalidLimit]
  option := not_writes_of_dash

/--
The order of the groups makes no difference beyond which path and which limit come last.

A path is any word that does not begin with two dashes, other than the short request for help.
The logger may write about anything.
-/
theorem groups_order {groups : List Group}
    (limits : ∀ word count, .limit word count ∈ groups → Decimal.Writes word.toList count)
    (paths : ∀ word, .path word ∈ groups → word ≠ "-h" ∧ ¬ Long word) :
    ∃ options : Options, options.Collects groups ∧
      parse {} (groups.flatMap Group.words) = .ok (.run options) ∧
      (∀ groups' : List Group, groups'.Perm groups →
        (∀ count, Last Group.limit? groups' count ↔ Last Group.limit? groups count) →
        (∀ word, Last Group.path? groups' word ↔ Last Group.path? groups word) →
          invoke readProgram (groups'.flatMap Group.words) logger =
            invoke readProgram (groups.flatMap Group.words) logger) ∧
      ∀ word rest, TakenAsLimit readProgram logger groups options word rest := by
  -- Each kind of group is valid by what is assumed of its words.
  have valid : ∀ group ∈ groups, group.Valid := by
    rintro (_ | _ | ⟨word, count⟩ | word) member
    · trivial
    · trivial
    · exact limits word count member
    · exact Group.path_valid (paths word member).1 (paths word member).2
  -- In the given order the groups leave what they collect.
  have collects := Options.collects_ofGroups groups
  have parsed := parse_groups valid collects
  refine ⟨_, collects, parsed, fun groups' reordered limit path => ?_,
    takenAsLimit readProgram logger valid collects⟩
  -- In another order the same groups are valid.
  have valid' : ∀ group ∈ groups', group.Valid :=
    fun group member => valid group (reordered.mem_iff.mp member)
  -- The other order is read with the same options, and nothing else of the words is looked at.
  have parsed' := parse_groups valid' (collects.perm reordered limit path)
  rw [invoke, invoke, parsed, parsed']

end Invocation

/-- Every file holds a program that consists of HLT. -/
def haltingFiles (_ : String) : Id (Except FileError (List UInt8)) :=
  pure (.ok Cpm.haltingProgram.program)

/-- Two paths, of which the first one has a dash in front, with other groups around them. -/
def dashedPath : List Group :=
  [.path "-x", .limit "100" 100, .debug, .path "halt.com", .strict]

/-- The same groups in another order, with the same path behind the other. -/
def dashedPathReordered : List Group :=
  [.strict, .path "-x", .debug, .path "halt.com", .limit "100" 100]

/-- Both orders come to the same, and a request for help behind them is no limit. -/
theorem groups_order_dashedPath :
    parse {} ["-x", "--max-cycles", "100", "--debug", "halt.com", "--strict"] = .ok (.run
      { path := some "halt.com", debug := true, strict := true, limit := some 100 }) ∧
    invoke haltingFiles ["--strict", "-x", "--debug", "halt.com", "--max-cycles", "100"] =
      invoke haltingFiles ["-x", "--max-cycles", "100", "--debug", "halt.com", "--strict"] ∧
    ∀ rest, ∃ cause : Decimal.ReadError,
      invoke haltingFiles (["-x", "--max-cycles", "100", "--debug", "halt.com", "--strict"] ++
        "--max-cycles" :: "--help" :: rest) =
          { exitCode := 1
            stderr := "Error: invalid --max-cycles value '" ++ "--help" ++
              "'\n\nCaused by:\n    " ++ cause.message ++ "\n" } := by
  -- The words of the groups are as they have to be.
  have written : Decimal.Writes "100".toList 100 := (Decimal.read_eq_ok_iff _ _).mp rfl
  have dashed : ¬ Long "-x" := mt (isOption_iff _).mpr (by decide)
  have short : ¬ Long "halt.com" := mt (isOption_iff _).mpr (by decide)
  have limits : ∀ word count, .limit word count ∈ dashedPath →
      Decimal.Writes word.toList count := by
    simpa [dashedPath] using written
  have paths : ∀ word, .path word ∈ dashedPath → word ≠ "-h" ∧ ¬ Long word := by
    simp [dashedPath, dashed, short]
  obtain ⟨options, collects, parsed, reorder, taken⟩ :=
    groups_order haltingFiles .silent limits paths
  obtain rfl := (Options.collects_ofGroups dashedPath).unique collects
  have reordered : dashedPathReordered.Perm dashedPath := by decide
  -- The limit and the path that come last can be read off the lists.
  refine ⟨parsed, reorder dashedPathReordered reordered ?_ ?_, fun rest => ?_⟩
  · intro count
    rw [← getLast?_filterMap_iff, ← getLast?_filterMap_iff]
    rfl
  · intro word
    rw [← getLast?_filterMap_iff, ← getLast?_filterMap_iff]
    rfl
  · -- The long request for help is written like an option, so it is no count.
    have help : ∀ count, ¬ Decimal.Writes "--help".toList count :=
      (taken "--help" rest).option (.inr ⟨"help", rfl⟩)
    obtain ⟨cause, _, invoked⟩ := (taken "--help" rest).refused help
    exact ⟨cause, invoked⟩

end Intel8080.CommandLine
