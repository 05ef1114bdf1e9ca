import Intel8080.CommandLine.Options
import Intel8080.Proofs.CommandLine.Count
import Mathlib.Data.List.Induction

/-!
The one way to read a command line.

Its words fall into groups that each say one thing about the run. They go on up to the first word
that decides the outcome by itself, or to the end.
-/

namespace Intel8080.CommandLine

/-- A word is written like a long option. -/
def Long (word : String) : Prop :=
  ∃ name, word = "--" ++ name

/-- Two dashes are looked for in front. -/
theorem isOption_iff (word : String) : isOption word ↔ Long word := by
  rw [isOption, List.isPrefixOf_iff_prefix]
  constructor
  · -- What follows the dashes is the name.
    rintro ⟨name, same⟩
    refine ⟨String.ofList name, String.toList_inj.mp ?_⟩
    simp [← same]
  · -- A name with two dashes in front begins with them.
    rintro ⟨name, rfl⟩
    rw [String.toList_append]
    exact List.prefix_append _ _

/-- The options there are. -/
def knownOptions : List String :=
  ["--debug", "--strict", "--max-cycles", "-h", "--help"]

/-- There are five of them. -/
@[grind =] theorem mem_knownOptions (word : String) : word ∈ knownOptions ↔
    word = "--debug" ∨ word = "--strict" ∨ word = "--max-cycles" ∨ word = "-h" ∨
      word = "--help" := by
  -- Membership in a list of five is a choice among them.
  simp [knownOptions]

/-- The words that say one thing about the run. -/
inductive Group
  | debug
  | strict
  /-- A limit, as it is written and as a count. -/
  | limit (word : String) (count : UInt64)
  | path (word : String)
  deriving DecidableEq, Repr

namespace Group

/-- How a group stands on the command line. -/
def words : Group → List String
  | .debug => ["--debug"]
  | .strict => ["--strict"]
  | .limit word _ => ["--max-cycles", word]
  | .path word => [word]

/-- A limit is written as its count, and a path is no option and not written like one. -/
def Valid : Group → Prop
  | .debug | .strict => True
  | .limit word count => Decimal.Writes word.toList count
  | .path word => word ∉ knownOptions ∧ ¬ Long word

/-- The count of a limit. -/
def limit? : Group → Option UInt64
  | .limit _ count => some count
  | _ => none

/-- The word of a path. -/
def path? : Group → Option String
  | .path word => some word
  | _ => none

/-- What a group changes about the options. -/
def apply (options : Options) : Group → Options
  | .debug => { options with debug := true }
  | .strict => { options with strict := true }
  | .limit _ count => { options with limit := some count }
  | .path word => { options with path := some word }

end Group

/-- The options that groups ask for together: of limits and of paths the last one counts. -/
def Options.ofGroups (groups : List Group) : Options where
  path := (groups.filterMap Group.path?).getLast?
  debug := decide (.debug ∈ groups)
  strict := decide (.strict ∈ groups)
  limit := (groups.filterMap Group.limit?).getLast?

/-- The groups leave these options behind when they are applied one after the other. -/
theorem foldl_apply (groups : List Group) : groups.foldl Group.apply {} = .ofGroups groups := by
  -- The induction removes groups from the end, because that is where the last one counts.
  induction groups using List.reverseRecOn with
  -- No group changes nothing.
  | nil => rfl
  | append_singleton groups group ih =>
    rw [List.foldl_append, ih]
    -- A flag that is set stays set, and a value replaces the one before.
    cases group <;> simp [Options.ofGroups, Group.apply, Group.path?, Group.limit?]

/-- What the words behind the groups amount to. -/
inductive Verdict
  /-- They ask for the summary. -/
  | help
  /-- They make no sense. -/
  | wrong
  /-- There are none. -/
  | done
  deriving DecidableEq, Repr

/-- The first of these words decides the outcome by itself, unless there are none. -/
inductive Decides : List String → Verdict → Prop
  | done : Decides [] .done
  | help (rest : List String) : Decides ("-h" :: rest) .help
  | longHelp (rest : List String) : Decides ("--help" :: rest) .help
  /-- No option is called that. -/
  | unknown {word : String} (rest : List String) (other : word ∉ knownOptions)
    (long : Long word) : Decides (word :: rest) .wrong
  /-- There is no word to set the limit. -/
  | missing : Decides ["--max-cycles"] .wrong
  /-- The word that should set the limit writes no count, whatever else it may be. -/
  | invalid {word : String} (rest : List String)
    (unwritten : ∀ count, ¬ Decimal.Writes word.toList count) :
    Decides ("--max-cycles" :: word :: rest) .wrong

/-- A command line as groups and what is left after them. -/
@[ext] structure Reading (words : List String) where
  groups : List Group
  rest : List String
  verdict : Verdict
  split : words = groups.flatMap Group.words ++ rest
  valid : ∀ group ∈ groups, group.Valid
  decides : Decides rest verdict

/-! ### Every command line has a reading -/

/-- One more group in front. -/
def Reading.cons {words : List String} (group : Group) (valid : group.Valid)
    (reading : Reading words) : Reading (group.words ++ words) where
  groups := group :: reading.groups
  rest := reading.rest
  verdict := reading.verdict
  split := by
    -- The words of the group come before all the others.
    rw [List.flatMap_cons, List.append_assoc, ← reading.split]
  valid := List.forall_mem_cons.mpr ⟨valid, reading.valid⟩
  decides := reading.decides

/-- A command line without groups. -/
def Reading.ofDecides {words : List String} {verdict : Verdict} (decides : Decides words verdict) :
    Reading words where
  groups := []
  rest := words
  verdict := verdict
  split := rfl
  valid := nofun
  decides := decides

/-- A word that none of the known options takes is none of them. -/
theorem not_mem_knownOptions {word : String} {rest : List String} (noDebug : word ≠ "--debug")
    (noStrict : word ≠ "--strict") (noMissing : word = "--max-cycles" → rest ≠ [])
    (noLimit : ∀ next more, word = "--max-cycles" → rest ≠ next :: more)
    (noHelp : word ≠ "-h") (noLongHelp : word ≠ "--help") : word ∉ knownOptions := by
  -- The option for the limit is excluded both with a word behind it and without.
  cases rest <;> grind

/-- Any words at all can be read. -/
theorem exists_reading (words : List String) : Nonempty (Reading words) := by
  -- The induction follows the scan, whose steps take one group each until one of them ends it.
  induction ({} : Options), words using parse.induct with
  -- No words are left.
  | case1 => exact ⟨.ofDecides .done⟩
  -- A flag is a group, and the scan goes on behind it.
  | case2 options rest ih =>
    obtain ⟨reading⟩ := ih
    exact ⟨reading.cons .debug trivial⟩
  | case3 options rest ih =>
    obtain ⟨reading⟩ := ih
    exact ⟨reading.cons .strict trivial⟩
  -- The option for the limit is the last word.
  | case4 options => exact ⟨.ofDecides .missing⟩
  | case5 options word rest cause refused =>
    -- The word behind it has been refused, so it writes no count.
    refine ⟨.ofDecides (.invalid rest fun count writes => ?_)⟩
    cases refused.symm.trans ((Decimal.read_eq_ok_iff _ _).mpr writes)
  -- The word has been read, so it writes that count.
  | case6 options word rest count read ih =>
    obtain ⟨reading⟩ := ih
    exact ⟨reading.cons (.limit word count) ((Decimal.read_eq_ok_iff _ _).mp read)⟩
  -- Either request for help decides.
  | case7 options rest => exact ⟨.ofDecides (.help rest)⟩
  | case8 options rest => exact ⟨.ofDecides (.longHelp rest)⟩
  -- A word with two dashes is unknown if it is none of the options.
  | case9 options word rest noDebug noStrict noMissing noLimit noHelp noLongHelp long =>
    have other := not_mem_knownOptions noDebug noStrict noMissing noLimit noHelp noLongHelp
    exact ⟨.ofDecides (.unknown rest other ((isOption_iff word).mp long))⟩
  -- Any other word is a path.
  | case10 options word rest noDebug noStrict noMissing noLimit noHelp noLongHelp short ih =>
    have other := not_mem_knownOptions noDebug noStrict noMissing noLimit noHelp noLongHelp
    obtain ⟨reading⟩ := ih
    exact ⟨reading.cons (.path word) ⟨other, mt (isOption_iff word).mpr short⟩⟩

/-! ### No command line has two -/

/-- The first group can be told from the words. -/
theorem Group.words_inj {first second : Group} {rest other : List String}
    (valid : first.Valid) (valid' : second.Valid)
    (same : first.words ++ rest = second.words ++ other) : first = second ∧ rest = other := by
  cases first <;> cases second
  case limit.limit word count word' count' =>
    -- The word is the same, and it writes one count only.
    obtain ⟨rfl, rfl⟩ : word = word' ∧ rest = other := by simpa [words] using same
    exact ⟨congrArg _ (valid.unique valid'), rfl⟩
  -- Groups of different kinds begin with different words, since no path is a known option.
  all_goals
    grind [words, Valid]

/-- A group is none of the words that decide. -/
theorem Decides.ne_words {group : Group} {words rest : List String} {verdict : Verdict}
    (decides : Decides words verdict) (valid : group.Valid) : words ≠ group.words ++ rest := by
  intro same
  -- They would have to begin alike, but only the limit does so, and it lacks a count here.
  cases decides <;> cases group <;> grind [Group.words, Group.Valid]

/-- The same words decide the same. -/
theorem Decides.unique {words words' : List String} {verdict verdict' : Verdict}
    (decides : Decides words verdict) (decides' : Decides words' verdict')
    (same : words = words') : verdict = verdict' := by
  -- The first word tells the ways of deciding apart, and for the limit the second one does.
  cases decides <;> cases decides' <;> grind

/-- The groups and what follows them can be told from the words. -/
theorem split_unique {groups groups' : List Group} {rest rest' : List String}
    {verdict verdict' : Verdict} (valid : ∀ group ∈ groups, group.Valid)
    (valid' : ∀ group ∈ groups', group.Valid) (decides : Decides rest verdict)
    (decides' : Decides rest' verdict')
    (same : groups.flatMap Group.words ++ rest = groups'.flatMap Group.words ++ rest') :
    groups = groups' ∧ rest = rest' := by
  -- Groups are taken off both sides, for as long as there are some on either.
  induction groups generalizing groups' with
  | nil =>
    cases groups' with
    -- Both sides are what is left, and there are no groups.
    | nil => exact ⟨rfl, same⟩
    | cons group' groups' =>
      rw [List.flatMap_cons, List.append_assoc] at same
      exact absurd same (decides.ne_words (valid' group' List.mem_cons_self))
  | cons group groups ih =>
    rw [List.flatMap_cons, List.append_assoc] at same
    cases groups' with
    -- A group on the left cannot be what decides on the right.
    | nil => exact absurd same.symm (decides'.ne_words (valid group List.mem_cons_self))
    | cons group' groups' =>
      rw [List.flatMap_cons, List.append_assoc] at same
      rw [List.forall_mem_cons] at valid valid'
      -- The first groups are the same, and so is everything behind them.
      obtain ⟨rfl, later⟩ := Group.words_inj valid.1 valid'.1 same
      obtain ⟨rfl, rest⟩ := ih valid.2 valid'.2 later
      exact ⟨rfl, rest⟩

/-- All readings of the same words are the same. -/
theorem Reading.unique {words : List String} (first second : Reading words) : first = second := by
  -- The words determine the groups and the rest, and the rest determines the verdict.
  obtain ⟨groups, rest⟩ := split_unique first.valid second.valid first.decides second.decides
    (first.split.symm.trans second.split)
  exact Reading.ext groups rest (first.decides.unique second.decides rest)

/-! ### What the words are taken for -/

/-- Words with a verdict are taken for this, after groups that left these options behind. -/
def Verdict.Means (options : Options) (result : Except UsageError Request) : Verdict → Prop
  | .help => result = .ok .help
  | .wrong => ∃ error, result = .error error
  | .done => result = .ok (.run options)

/-- A word that is no option is a path, or an unknown option if it is written like one. -/
theorem parse_of_other {word : String} (other : word ∉ knownOptions) (options : Options)
    (rest : List String) : parse options (word :: rest) =
      if isOption word then .error (.unknownOption word)
      else parse { options with path := some word } rest := by
  -- The word falls through to the last equation, since it is none that the others name.
  rw [parse] <;> grind

/-- A group changes the options, and the rest is taken as it would be without it. -/
theorem parse_words_append {group : Group} (valid : group.Valid) (options : Options)
    (rest : List String) :
    parse options (group.words ++ rest) = parse (group.apply options) rest := by
  -- Each kind of group is taken by an equation of its own.
  cases group with
  | debug => rfl
  | strict => rfl
  | limit word count =>
    -- A word that writes a count is read as that count.
    have read := (Decimal.read_eq_ok_iff _ _).mpr valid
    rw [Group.words, List.cons_append, List.cons_append, List.nil_append, parse, read]
    rfl
  | path word =>
    -- A path is neither an option nor written like one.
    have short : ¬ isOption word := mt (isOption_iff word).mp valid.2
    rw [Group.words, List.cons_append, List.nil_append, parse_of_other valid.1, if_neg short]
    rfl

/-- All groups change the options, one after the other. -/
theorem parse_flatMap {groups : List Group} (valid : ∀ group ∈ groups, group.Valid)
    (options : Options) (rest : List String) : parse options (groups.flatMap Group.words ++ rest) =
      parse (groups.foldl Group.apply options) rest := by
  -- The first group is taken with what follows it still in place.
  induction groups generalizing options with
  | nil => rfl
  | cons group groups ih =>
    rw [List.forall_mem_cons] at valid
    rw [List.flatMap_cons, List.append_assoc, parse_words_append valid.1, ih valid.2]
    rfl

/-- Words that decide the outcome are taken for what they decide. -/
theorem Decides.means {words : List String} {verdict : Verdict} (decides : Decides words verdict)
    (options : Options) : verdict.Means options (parse options words) := by
  cases decides with
  -- Words that ask for help or are none at all are taken for what they are.
  | done => rfl
  | help rest => rfl
  | longHelp rest => rfl
  | unknown rest other long =>
    -- An option that is unknown is reported.
    rw [parse_of_other other, if_pos ((isOption_iff _).mpr long)]
    exact ⟨_, rfl⟩
  | missing => exact ⟨_, rfl⟩
  | @invalid word rest unwritten =>
    -- Where no count is written, none is read.
    cases read : Decimal.read word.toList with
    | error cause =>
      rw [parse, read]
      exact ⟨_, rfl⟩
    | ok count => exact absurd ((Decimal.read_eq_ok_iff _ _).mp read) (unwritten count)

/-- A command line is taken for its verdict, with the options that its groups ask for. -/
theorem Reading.means {words : List String} (reading : Reading words) :
    reading.verdict.Means (.ofGroups reading.groups) (parse {} words) := by
  -- The words are those of the groups and then what decides.
  have split := congrArg (parse {}) reading.split
  rw [split, parse_flatMap reading.valid, ← foldl_apply]
  exact reading.decides.means _

-- The word behind the option for the limit is never an option itself.
example : parse {} ["--debug", "--max-cycles", "--help"] =
    .error (.invalidLimit "--help" .invalidDigit) := by
  rfl

end Intel8080.CommandLine
