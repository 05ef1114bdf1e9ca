import Intel8080.Proofs.Interrupt.Request

/-!
Interrupt requests under any order of ticks, requests and changes by the host.

An accepted request waits alone, and the first tick that does not halt serves it.
-/

namespace Intel8080

namespace Machine

variable {δ : Type} [Device δ]

/--
The codes accepted are those served, in the same order, and then the one that still waits.

A code that waits at the beginning counts as accepted before.
-/
theorem accepted_eq_serviced {machine : Machine δ} (disciplined : machine.Disciplined)
    (actions : List (Action δ)) :
    machine.pendingCode.toList ++ (machine.history actions).filterMap Step.accepted? =
      (machine.history actions).filterMap Step.serviced? ++
        (machine.after actions).pendingCode.toList := by
  -- Each action is one step, after which the rest of the actions meet the same machine.
  induction actions generalizing machine with
  | nil => simp [history, after]
  | cons action rest ih =>
    let step : Step δ := ⟨machine, action⟩
    have last : machine.after (action :: rest) = step.after.after rest := rfl
    have steps : machine.history (action :: rest) = step :: step.after.history rest := rfl
    have later : step.after.pendingCode.toList ++ _ = _ :=
      ih (disciplined_perform machine action disciplined)
    rw [last, steps]
    cases step.outcome with
    | accepts line still accepted _ enabled recorded =>
      -- Nothing waited before, and the accepted code waits now.
      have free : machine.pendingCode = none := disciplined.pendingCode_eq_none enabled
      have waits : step.after.pendingCode = some (restartCode line) := by
        rw [recorded]
        rfl
      rw [List.filterMap_cons_some accepted,
        List.filterMap_cons_none (Step.serviced?_of_not_runs still), free, ← later, waits]
      rfl
    | runs runs accepted served _ =>
      -- What waited is served now, and nothing is left for the rest.
      have served' : step.after.pendingCode = none := by simp [pendingCode, served]
      have serviced : step.serviced? = machine.pendingCode := Step.serviced?_of_runs runs
      rw [List.filterMap_cons_none accepted]
      rw [served'] at later
      cases waits : machine.pendingCode with
      | none =>
        rw [List.filterMap_cons_none (serviced.trans waits)]
        exact later
      | some code =>
        rw [List.filterMap_cons_some (serviced.trans waits), List.cons_append, ← later]
        rfl
    | keeps still accepted _ waiting _ =>
      -- Neither list grows, and the same code goes on waiting.
      have waits : step.after.pendingCode = machine.pendingCode :=
        congrArg (Option.map restartCode) waiting
      rw [List.filterMap_cons_none accepted,
        List.filterMap_cons_none (Step.serviced?_of_not_runs still), ← later, waits]

/-- A waiting restart goes on waiting until an instruction is executed. -/
theorem pendingCode_kept {machine : Machine δ} (disciplined : machine.Disciplined) {code : UInt8}
    (waits : machine.pendingCode = some code) {actions : List (Action δ)}
    {middle back : List (Step δ)} {last : Step δ}
    (same : machine.history actions = middle ++ last :: back)
    (still : ∀ step ∈ middle, ¬ step.Runs) : last.before.pendingCode = some code := by
  -- Discipline is carried along: without it a second request could displace the first.
  induction middle generalizing machine actions with
  -- The next step begins where the code was seen to wait.
  | nil => rw [(history_eq_cons same).1, waits]
  | cons step middle ih =>
    obtain ⟨rfl, later, tail⟩ := history_eq_cons same
    have kept : step.after.pendingCode = some code := by
      cases step.outcome with
      | accepts _ _ _ _ enabled _ =>
        -- A restart that waits keeps every other out.
        rw [disciplined.pendingCode_eq_none enabled] at waits
        cases waits
      -- No step in between executes an instruction.
      | runs runs _ _ _ => exact absurd runs (still step (by simp))
      | keeps _ _ _ waiting _ => exact (congrArg (Option.map restartCode) waiting).trans waits
    exact ih (disciplined_perform _ _ disciplined) kept tail fun other member =>
      still other (List.mem_cons_of_mem _ member)

/-- A restart that waits before a step was accepted, and no instruction was executed since. -/
theorem pendingCode_cause {machine : Machine δ} {actions : List (Action δ)}
    {front back : List (Step δ)} {last : Step δ}
    (same : machine.history actions = front ++ last :: back) {code : UInt8}
    (waits : last.before.pendingCode = some code) :
    (machine.pendingCode = some code ∧ ∀ step ∈ front, ¬ step.Runs) ∨
      ∃ earlier request middle, front = earlier ++ request :: middle ∧
        request.accepted? = some code ∧ ∀ step ∈ middle, ¬ step.Runs := by
  -- The cause is sought from the first step on, and only the last acceptance counts.
  induction front generalizing machine actions with
  -- With no step in front the code has waited from the beginning.
  | nil =>
    rw [(history_eq_cons same).1] at waits
    exact .inl ⟨waits, by simp⟩
  | cons step front ih =>
    obtain ⟨rfl, later, tail⟩ := history_eq_cons same
    rcases ih tail with ⟨moved, still⟩ | ⟨earlier, request, middle, rfl, accepted, still⟩
    · -- It waits right after this step, which therefore accepted it or left it waiting.
      cases step.outcome with
      | accepts line _ accepted _ _ recorded =>
        have waits' : step.after.pendingCode = some (restartCode line) := by
          rw [recorded]
          rfl
        exact .inr ⟨[], step, front, rfl, accepted.trans (waits'.symm.trans moved), still⟩
      | runs _ _ served _ => simp [pendingCode, served] at moved
      | keeps halted _ _ waiting _ =>
        refine .inl ⟨(congrArg (Option.map restartCode) waiting).symm.trans moved, ?_⟩
        intro other member
        rcases List.mem_cons.mp member with rfl | later
        · exact halted
        · exact still other later
    · -- The cause lies among the later steps.
      exact .inr ⟨step :: earlier, request, middle, rfl, accepted, still⟩

/-- Disabled interrupts are enabled again by EI alone. -/
theorem enabled_cause {machine : Machine δ} (disabled : machine.interruptsEnabled = false)
    {actions : List (Action δ)} {middle back : List (Step δ)} {last : Step δ}
    (same : machine.history actions = middle ++ last :: back)
    (enabled : last.before.interruptsEnabled = true) : ∃ step ∈ middle, step.Enables := by
  -- The steps are gone through in order, up to the first EI.
  induction middle generalizing machine actions with
  | nil =>
    rw [(history_eq_cons same).1, disabled] at enabled
    cases enabled
  | cons step middle ih =>
    obtain ⟨rfl, later, tail⟩ := history_eq_cons same
    -- Either this step is the EI sought, or interrupts are still disabled after it.
    by_cases enables : step.Enables
    · exact ⟨step, by simp, enables⟩
    · obtain ⟨other, member, enables'⟩ := ih (step.disabled_after disabled enables) tail
      exact ⟨other, List.mem_cons_of_mem _ member, enables'⟩

/-- The first instruction executed after an acceptance is followed by its service. -/
theorem serviced?_of_accepted {machine : Machine δ} (disciplined : machine.Disciplined)
    {actions : List (Action δ)} {front middle back : List (Step δ)} {request tick : Step δ}
    (same : machine.history actions = front ++ request :: middle ++ tick :: back)
    (still : ∀ step ∈ middle, ¬ step.Runs) (runs : tick.Runs) {code : UInt8}
    (accepted : request.accepted? = some code) : tick.serviced? = some code := by
  -- Right after the acceptance discipline holds like anywhere else.
  have member : request ∈ machine.history actions := by rw [same]; simp
  have kept := ((history_invariant disciplined_perform disciplined actions).1 request member).2
  obtain ⟨_, rest⟩ : ∃ later, request.after.history later = middle ++ tick :: back :=
    history_suffix (same.trans (List.append_assoc _ _ _))
  -- The code waits right after the acceptance, hence still before the tick.
  obtain ⟨_, _, line, rfl, recorded⟩ := Step.after_of_accepted accepted
  have waits : request.after.pendingCode = some (restartCode line) := by rw [recorded]; rfl
  rw [Step.serviced?_of_runs runs]
  exact pendingCode_kept kept waits rest still

/-- Between two acceptances EI is executed. -/
theorem enables_between {machine : Machine δ} {actions : List (Action δ)}
    {front middle back : List (Step δ)} {first second : Step δ}
    (same : machine.history actions = front ++ first :: middle ++ second :: back)
    (firstAccepts : first.accepted?.isSome) (secondAccepts : second.accepted?.isSome) :
    ∃ step ∈ middle, step.Enables := by
  -- An acceptance accepts some code.
  obtain ⟨_, accepted⟩ := Option.isSome_iff_exists.mp firstAccepts
  obtain ⟨_, accepted'⟩ := Option.isSome_iff_exists.mp secondAccepts
  obtain ⟨_, _, line, _, recorded⟩ := Step.after_of_accepted accepted
  obtain ⟨_, rest⟩ : ∃ later, first.after.history later = middle ++ second :: back :=
    history_suffix (same.trans (List.append_assoc _ _ _))
  -- The first acceptance disables interrupts, and the second finds them enabled.
  have disabled : first.after.interruptsEnabled = false := by rw [recorded]
  exact enabled_cause disabled rest (Step.after_of_accepted accepted').2.1

/--
The protocol of interrupt requests, along all the steps of a sequence of actions.

`accepted?` and `serviced?` read off a step what it did to the waiting code.
-/
structure InterruptProtocol (machine : Machine δ) (actions : List (Action δ)) : Prop where
  /-- A code that waits is a restart, and interrupts are disabled meanwhile. -/
  waiting : ∀ step ∈ machine.history actions, ∀ code, step.after.pendingCode = some code →
    IsRestart code ∧ step.after.interruptsEnabled = false
  /-- A request is accepted exactly when it is for a restart and interrupts are enabled. -/
  acceptance : ∀ step ∈ machine.history actions, ∀ code, step.request? = some code →
    (step.accepted? = some code ↔ IsRestart code ∧ step.before.interruptsEnabled = true)
  /-- A request that is not accepted leaves the machine and its bus as they were. -/
  refusal : ∀ step ∈ machine.history actions, ∀ code, step.request? = some code →
    step.accepted? ≠ some code → step.after = step.before
  /-- An accepted request waits, disables interrupts, and has no other effect. -/
  recording : ∀ step ∈ machine.history actions, ∀ code, step.accepted? = some code →
    ∃ line, code = restartCode line ∧
      step.after = { step.before with interruptsEnabled := false, pending := some line }
  /-- The codes accepted are those served, in the same order, and then the one that waits. -/
  order : (machine.history actions).filterMap Step.accepted? =
    (machine.history actions).filterMap Step.serviced? ++
      (machine.after actions).pendingCode.toList
  /-- There are as many services as acceptances, less one if a request still waits. -/
  count : ((machine.history actions).filterMap Step.serviced?).length +
      (if (machine.after actions).pending.isSome then 1 else 0) =
    ((machine.history actions).filterMap Step.accepted?).length
  /-- The first tick after an acceptance that does not halt serves the code accepted. -/
  prompt : ∀ front request middle tick back,
    machine.history actions = front ++ request :: middle ++ tick :: back →
    (∀ step ∈ middle, ¬ step.Runs) → tick.Runs →
    ∀ code, request.accepted? = some code → tick.serviced? = some code
  /-- A code served was accepted, and no tick between the two executed an instruction. -/
  caused : ∀ front tick back, machine.history actions = front ++ tick :: back →
    ∀ code, tick.serviced? = some code → ∃ earlier request middle,
      front = earlier ++ request :: middle ∧ request.accepted? = some code ∧
        ∀ step ∈ middle, ¬ step.Runs
  /-- A tick that serves a code injects its restart once, after its own instruction. -/
  injection : ∀ step ∈ machine.history actions, ∀ code, step.serviced? = some code →
    step.Runs ∧ ∃ line, code = restartCode line ∧
      step.after = step.before.withoutRequest.next.inject line
  /-- Any other tick injects nothing: a request that waits changes nothing in it. -/
  silence : ∀ step ∈ machine.history actions, step.action = .tick → step.serviced? = none →
    step.after = { step.before.withoutRequest.next with pending := step.before.pending }
  /-- Nothing is injected between the ticks. -/
  stillness : ∀ step ∈ machine.history actions, step.action ≠ .tick →
    step.after.registers = step.before.registers ∧ step.after.cycles = step.before.cycles
  /-- Between any two acceptances EI is executed. -/
  reenabling : ∀ front first middle second back,
    machine.history actions = front ++ first :: middle ++ second :: back →
    first.accepted?.isSome → second.accepted?.isSome → ∃ step ∈ middle, step.Enables

/-- Every sequence of actions on a fresh machine follows the protocol. -/
theorem interrupt_protocol (bus : Bus δ) (entry : UInt16) (actions : List (Action δ)) :
    InterruptProtocol (start bus entry) actions := by
  -- Discipline holds at first and through every step, and nothing waits at first.
  have initial : (start bus entry).Disciplined := disciplined_start bus entry
  have disciplined := (history_invariant disciplined_perform initial actions).1
  have order := accepted_eq_serviced initial actions
  have idle : (start bus entry).pendingCode = none := rfl
  rw [idle, Option.toList_none, List.nil_append] at order
  refine
    { waiting := ?waiting
      acceptance := fun step _ code asked => step.accepted?_eq_some_iff asked
      refusal := fun step _ code asked refused => Step.after_of_refused asked refused
      recording := fun step _ code accepted => (Step.after_of_accepted accepted).2.2
      order := order
      count := ?count
      prompt := fun _ _ _ _ _ same still runs _ accepted =>
        serviced?_of_accepted initial same still runs accepted
      caused := ?caused
      injection := fun step _ code served => Step.after_of_serviced served
      silence := fun step _ ticks unserved => Step.after_of_unserved ticks unserved
      stillness := fun step _ other => Step.registers_after_of_not_tick other
      reenabling := fun _ _ _ _ _ same => enables_between same }
  case waiting =>
    intro step member code waits
    -- A code that waits is that of a line, and discipline has disabled interrupts.
    obtain ⟨line, pending, rfl⟩ := Option.map_eq_some_iff.mp waits
    exact ⟨isRestart_restartCode line, (disciplined step member).2 (by simp [pending])⟩
  case count =>
    -- At most one code is left waiting in the end.
    rw [order, List.length_append, pendingCode]
    cases (start bus entry).after actions |>.pending <;> rfl
  case caused =>
    intro front tick back same code served
    have runs := (Step.after_of_serviced served).1
    rw [Step.serviced?_of_runs runs] at served
    -- At first nothing waits, so the code served was accepted on the way.
    rcases pendingCode_cause same served with ⟨waits, _⟩ | accepted
    · cases waits
    · exact accepted

end Machine

end Intel8080
