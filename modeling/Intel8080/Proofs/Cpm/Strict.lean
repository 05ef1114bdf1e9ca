import Intel8080.Proofs.Cpm.Budget

/-!
Runs that refuse undocumented codes, against runs that execute them.

Nothing but the refusal looks at the policy, so both do the same up to the first such code.
-/

namespace Intel8080

namespace Machine

section Policy

variable {δ : Type}

/-- The same machine under another policy. -/
def underPolicy (machine : Machine δ) (policy : Policy) : Machine δ :=
  { machine with policy := policy }

/-- At a documented code the policy does not decide whether the machine halts. -/
theorem halts_underPolicy_iff {machine : Machine δ} (policy : Policy)
    (documented : machine.opcode ∉ undocumentedCodes) :
    (machine.underPolicy policy).Halts ↔ machine.Halts := by
  -- Only an undocumented code brings the policy into it.
  have same : (machine.underPolicy policy).opcode = machine.opcode := rfl
  simp only [Halts, same, documented, and_false, or_false]

/-- Serving a request does not look at the policy. -/
theorem service_underPolicy (machine : Machine δ) (policy : Policy) :
    (machine.underPolicy policy).service = machine.service.underPolicy policy := by
  -- The cases of a service are those of the request.
  simp only [service, underPolicy]
  cases machine.pending <;> rfl

variable [Device δ]

/-- Execution does not look at the policy. -/
theorem execute_underPolicy (machine : Machine δ) (policy : Policy) (instruction : Instruction) :
    ((machine.underPolicy policy).execute instruction).1 =
      (machine.execute instruction).1.underPolicy policy := by
  -- The policy is asked before the execution, never during it.
  unfold execute
  cases instruction.operation <;> rfl

/-- No tick changes the policy. -/
theorem policy_next (machine : Machine δ) : machine.next.policy = machine.policy := by
  by_cases halts : machine.Halts
  · -- A halting tick sets the flag only.
    rw [next_of_halts machine halts]
  · -- Neither the execution nor the service has a case that sets it.
    rw [next_of_runs machine halts, policy_service, policy_execute]

/-- A tick at a documented code is the same under every policy. -/
theorem next_underPolicy {machine : Machine δ} (policy : Policy)
    (documented : machine.opcode ∉ undocumentedCodes) :
    (machine.underPolicy policy).next = machine.next.underPolicy policy := by
  -- The code decides alone, so both halt or both go on.
  have same := halts_underPolicy_iff policy documented
  by_cases halts : machine.Halts
  · -- Both set the flag.
    rw [next_of_halts machine halts, next_of_halts _ (same.mpr halts)]
    rfl
  · -- Both fetch the same instruction, since the memory and the registers are the same.
    rw [next_of_runs machine halts, next_of_runs _ (mt same.mp halts), ← service_underPolicy,
      ← execute_underPolicy]
    rfl

/-- So many ticks find only documented codes. -/
def Documented (machine : Machine δ) (count : Nat) : Prop :=
  ∀ earlier < count, (machine.ticks earlier).opcode ∉ undocumentedCodes

/-- Fewer ticks find no other codes. -/
theorem Documented.of_le {machine : Machine δ} {count fewer : Nat}
    (documented : machine.Documented count) (within : fewer ≤ count) : machine.Documented fewer :=
  -- Fewer ticks are among the more.
  fun earlier less => documented earlier (Nat.lt_of_lt_of_le less within)

/-- Ticks at documented codes are the same under every policy. -/
theorem ticks_underPolicy {machine : Machine δ} (policy : Policy) {count : Nat}
    (documented : machine.Documented count) :
    (machine.underPolicy policy).ticks count = (machine.ticks count).underPolicy policy := by
  -- One more tick keeps the machines alike, by the documented code it finds.
  induction count with
  | zero => rfl
  | succ count ih =>
    -- The last tick begins with machines that differ in the policy and nothing else.
    have before := ih (documented.of_le (Nat.le_succ count))
    rw [ticks_succ, ticks_succ, before,
      next_underPolicy policy (documented count (Nat.lt_succ_self count))]

end Policy

end Machine

namespace Cpm

/-! ### Ticks at documented codes -/

/-- Up to an undocumented code the policy makes no difference to what the host sees. -/
theorem together_underPolicy {machine : Machine Trap} {policy : Policy} {count : Nat}
    (documented : machine.Documented count) :
    Together (machine.underPolicy policy) machine count := by
  -- The machines of the two sequences are the same but for the policy.
  intro passed within
  rw [Machine.ticks_underPolicy policy (documented.of_le within)]
  exact ⟨rfl, rfl⟩

/-! ### The first undocumented code -/

section Undocumented

variable {machine : Machine Trap} {limit : Option UInt64} {count passed : Nat}
  {reason : StopReason}

/-- Under the strict policy an undocumented code halts. -/
theorem halts_of_undocumented (strict : machine.policy = .fault)
    (undocumented : (machine.ticks passed).opcode ∈ undocumentedCodes) :
    (machine.ticks passed).Halts := by
  -- The policy is still the strict one when the code is found.
  have kept : ∀ machine : Machine Trap, machine.policy = .fault → machine.next.policy = .fault :=
    fun machine strict => machine.policy_next.trans strict
  exact .inr ⟨Machine.ticks_invariant kept strict passed, undocumented⟩

/-- Under the loose policy the same code is executed. -/
theorem runs_of_undocumented (documented : machine.Documented passed)
    (undocumented : (machine.ticks passed).opcode ∈ undocumentedCodes) :
    ¬ ((machine.underPolicy .emulate).ticks passed).Halts := by
  -- The loose machine at that place is the strict one under the other policy.
  rw [Machine.ticks_underPolicy .emulate documented]
  rintro (hlt | ⟨refusing, _⟩)
  · -- The code of HLT is documented.
    have blank : (0x76 : UInt8) ∈ undocumentedCodes := hlt ▸ undocumented
    exact absurd blank (by decide)
  · -- The loose policy refuses nothing.
    cases refusing

/-- A strict program stops with the first undocumented code, if the loose one gets that far. -/
theorem stopsAt_of_undocumented (strict : machine.policy = .fault)
    (documented : machine.Documented passed)
    (undocumented : (machine.ticks passed).opcode ∈ undocumentedCodes)
    (stops : StopsAt (machine.underPolicy .emulate) limit count reason) (less : passed < count) :
    StopsAt machine limit (passed + 1) .halted := by
  -- Up to the code neither of them has a reason to stop.
  have going : ∀ earlier ≤ passed, stopAt? machine limit earlier = none := by
    intro earlier within
    have same : stopAt? (machine.underPolicy .emulate) limit earlier =
        stopAt? machine limit earlier :=
      (together_underPolicy (documented.of_le within)).stopAt?_eq
    rw [← same]
    exact stops.first earlier (Nat.lt_of_le_of_lt within less)
  -- The next tick finds the code and halts.
  have halts := halts_of_undocumented strict undocumented
  exact ⟨stopAt?_of_halts (going passed (Nat.le_refl passed)) halts,
    fun earlier before => going earlier (Nat.le_of_lt_succ before)⟩

/-- The loose program pays for the code, and the strict one does not. -/
theorem cycles_lt_of_undocumented (strict : machine.policy = .fault) (fresh : machine.cycles = 0)
    (documented : machine.Documented passed)
    (undocumented : (machine.ticks passed).opcode ∈ undocumentedCodes) (less : passed < count)
    (room : (machine.underPolicy .emulate).spent count < UInt64.size) :
    (machine.ticks (passed + 1)).cycles < ((machine.underPolicy .emulate).ticks count).cycles := by
  -- The tick that refuses the code costs nothing.
  have unpaid : (machine.ticks (passed + 1)).cycles =
      ((machine.underPolicy .emulate).ticks passed).cycles := by
    rw [Machine.ticks_succ, Machine.next_of_halts _ (halts_of_undocumented strict undocumented),
      Machine.ticks_underPolicy .emulate documented]
    rfl
  -- The tick that executes it costs something.
  have paid := Machine.spent_lt less (runs_of_undocumented documented undocumented)
  -- The counter of the loose program shows at both places what was paid.
  have fresh' : (machine.underPolicy .emulate).cycles = 0 := fresh
  have shown := Machine.toNat_cycles_of_fresh fresh' room
  have shown' := Machine.toNat_cycles_of_fresh fresh' (Nat.lt_trans paid room)
  rw [unpaid, UInt64.lt_iff_toNat_lt, shown, shown']
  exact paid

end Undocumented

/-! ### Strict and loose runs -/

/-- The same program under another policy. -/
def Config.under (config : Config) (policy : Policy) : Config :=
  { config with policy := policy }

/--
A strict run is cut short by an undocumented code that a loose run of the same program executes.

So many ticks precede the one that finds it.
-/
structure CutShort (config : Config) (loose strict : Run) (passed : Nat) : Prop where
  stop : strict.report.stop = .halted
  instructions : strict.report.instructions = passed + 1
  documented : (loaded (config.under .fault)).Documented passed
  undocumented : ((loaded (config.under .fault)).ticks passed).opcode ∈ undocumentedCodes
  /-- Finding the code halts the machine and changes nothing else. -/
  halts : (loaded (config.under .fault)).ticks (passed + 1) =
    { (loaded (config.under .fault)).ticks passed with halted := true }
  /-- The log says that the program counter is on the code. -/
  logged : strict.log.getLast? = some (.stopped .halted
    ((loaded (config.under .fault)).ticks passed).registers.pc (passed + 1) strict.report.cycles)
  /-- The loose run arrives at the code with the same machine. -/
  shared : (loaded (config.under .emulate)).ticks passed =
    ((loaded (config.under .fault)).ticks passed).underPolicy .emulate
  further : Extends loose.report strict.report
  cheaper : strict.report.cycles < loose.report.cycles

section Strict

variable {config : Config} {passed : Nat} {loose : Run}

/-- A strict run has the report of the loose run if that finds only documented codes. -/
theorem run_of_documented (ended : run (config.under .emulate) = .ok loose)
    (documented : (loaded (config.under .fault)).Documented loose.report.instructions) :
    ∃ strict, run (config.under .fault) = .ok strict ∧ strict.report = loose.report := by
  -- The loose run ends somewhere, and the strict machine runs along to that place.
  obtain ⟨fits, count, within, reason, stops, reported⟩ := stopsAt_of_run ended
  rw [reported] at documented ⊢
  have stops' : StopsAt (loaded (config.under .fault)) config.limit count reason :=
    stops.of_together (together_underPolicy documented)
  obtain ⟨strict, ended', reported', _⟩ :=
    run_of_stopsAt (config.under .fault) fits within stops'
  refine ⟨strict, ended', reported'.trans ?_⟩
  exact (together_underPolicy documented).reportAt_eq.symm

/-- At the first undocumented code that a loose run executes, the strict run is cut short. -/
theorem cutShort_of_undocumented (ended : run (config.under .emulate) = .ok loose)
    (room : (loaded (config.under .emulate)).spent loose.report.instructions < UInt64.size)
    (less : passed < loose.report.instructions)
    (documented : (loaded (config.under .fault)).Documented passed)
    (undocumented : ((loaded (config.under .fault)).ticks passed).opcode ∈ undocumentedCodes) :
    ∃ strict, run (config.under .fault) = .ok strict ∧ CutShort config loose strict passed := by
  -- The loose run has got beyond the code by the place where it ends.
  obtain ⟨fits, count, within, reason, stops, reported⟩ := stopsAt_of_run ended
  rw [reported] at room less
  have stops' : StopsAt (loaded (config.under .fault)) config.limit (passed + 1) .halted :=
    stopsAt_of_undocumented rfl documented undocumented stops less
  obtain ⟨strict, ended', reported', logged⟩ :=
    run_of_stopsAt (config.under .fault) fits (Nat.le_trans less within) stops'
  -- The last strict tick sets the halt flag and nothing else.
  have last : (loaded (config.under .fault)).ticks (passed + 1) =
      { (loaded (config.under .fault)).ticks passed with halted := true } := by
    rw [Machine.ticks_succ, Machine.next_of_halts _ (halts_of_undocumented rfl undocumented)]
  have cheaper : strict.report.cycles < loose.report.cycles := by
    rw [reported, reported']
    exact cycles_lt_of_undocumented rfl rfl documented undocumented less room
  -- Up to the refused code both have printed the same, and the loose run may print more.
  have output : ∃ more, loose.report.output = strict.report.output ++ more := by
    have same : printed (loaded (config.under .emulate)) (passed + 1) =
        printed (loaded (config.under .fault)) (passed + 1) :=
      (together_underPolicy documented).printed_eq (Nat.le_refl _)
    obtain ⟨more, rfl⟩ := Nat.exists_eq_add_of_le (Nat.succ_le_of_lt less)
    rw [reported, reported', reportAt, reportAt, ← same]
    exact ⟨_, printed_add _ (passed + 1) more⟩
  refine ⟨strict, ended', ?_⟩
  exact
    { stop := by rw [reported']; rfl
      instructions := by rw [reported']; rfl
      documented := documented
      undocumented := undocumented
      halts := last
      logged := by rw [logged, reported', lastMessage, reportAt, last]
      shared := Machine.ticks_underPolicy .emulate documented
      further := ⟨by rw [reported, reported']; exact less, UInt64.le_of_lt cheaper, output⟩
      cheaper := cheaper }

/--
Refusing undocumented codes only cuts a run short.

Unless the strict run finds such a code, its report is that of the loose run.
-/
theorem run_under_fault (config : Config) {loose : Run}
    (ended : run (config.under .emulate) = .ok loose)
    (room : (loaded (config.under .emulate)).spent loose.report.instructions < UInt64.size) :
    ∃ strict, run (config.under .fault) = .ok strict ∧
      ((loaded (config.under .fault)).Documented strict.report.instructions →
        strict.report = loose.report) ∧
      (¬ (loaded (config.under .fault)).Documented strict.report.instructions →
        ∃ passed, CutShort config loose strict passed) := by
  -- Either the loose run comes to such a code, and to a first one, or to none.
  by_cases found : ∃ earlier, earlier < loose.report.instructions ∧
      ((loaded (config.under .fault)).ticks earlier).opcode ∈ undocumentedCodes
  · -- The strict run does not get beyond the first one.
    obtain ⟨less, undocumented⟩ := Nat.find_spec found
    have documented : (loaded (config.under .fault)).Documented (Nat.find found) :=
      fun earlier before blank => Nat.find_min found before ⟨Nat.lt_trans before less, blank⟩
    obtain ⟨strict, ended', short⟩ :=
      cutShort_of_undocumented ended room less documented undocumented
    -- The code is among those that the strict run finds, so its ticks are not all documented.
    refine ⟨strict, ended', fun clean => ?_, fun _ => ⟨_, short⟩⟩
    refine absurd undocumented (clean _ ?_)
    rw [short.instructions]
    exact Nat.lt_succ_self _
  · -- Without such a code both runs are the same.
    have documented : (loaded (config.under .fault)).Documented loose.report.instructions :=
      fun earlier less blank => found ⟨earlier, less, blank⟩
    obtain ⟨strict, ended', same⟩ := run_of_documented ended documented
    refine ⟨strict, ended', fun _ => same, fun unclean => ?_⟩
    rw [same] at unclean
    exact absurd documented unclean

/-- A program that begins with an undocumented code for NOP, under a limit of a hundred cycles. -/
def aliasedProgram : Config :=
  { program := [0x08], limit := some 100 }

/-- The strict run stops at the code, and the loose one goes on. -/
theorem aliasedProgram_cutShort :
    ∃ loose strict, run (aliasedProgram.under .emulate) = .ok loose ∧
      (loaded (aliasedProgram.under .emulate)).spent loose.report.instructions < UInt64.size ∧
      run (aliasedProgram.under .fault) = .ok strict ∧
      CutShort aliasedProgram loose strict 0 := by
  -- The limit bounds the loose run, whose cycles therefore fit into the counter.
  have fits : (aliasedProgram.under .emulate).program.length ≤ programCapacity := by decide
  have limit : (100 : UInt64).toNat + 18 ≤ UInt64.size := by decide
  obtain ⟨loose, ended, count, reason, stops, reported⟩ := exists_run fits limit
  have room : (loaded (aliasedProgram.under .emulate)).spent loose.report.instructions <
      UInt64.size := by
    rw [reported]
    exact Nat.lt_of_le_of_lt (toNat_cycles_of_limited limit stops.first).1 limit
  obtain ⟨strict, ended', _, short⟩ := run_under_fault aliasedProgram ended room
  -- The strict program halts at its first code, so that its run has one instruction.
  have undocumented : (loaded (aliasedProgram.under .fault)).opcode ∈ undocumentedCodes := by
    rw [opcode_loaded rfl (by decide)]
    decide
  have positive : ∀ bound ∈ (aliasedProgram.under .fault).limit, 0 < bound := by
    simp [aliasedProgram, Config.under]
  have once : strict.report.instructions = 1 := by
    rw [report_of_run ended' (stopsAt_of_halts positive (.inr ⟨rfl, undocumented⟩))]
    rfl
  have unclean : ¬ (loaded (aliasedProgram.under .fault)).Documented
      strict.report.instructions := by
    intro clean
    exact clean 0 (once ▸ Nat.one_pos) undocumented
  -- The code is met at once, before any other tick.
  obtain ⟨passed, cut⟩ := short unclean
  obtain rfl : passed = 0 := Nat.succ.inj (cut.instructions.symm.trans once)
  exact ⟨loose, strict, ended, room, ended', cut⟩

end Strict

end Cpm

end Intel8080
