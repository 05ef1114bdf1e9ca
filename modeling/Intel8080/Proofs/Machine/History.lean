import Intel8080.Proofs.Machine.Tick

/-! What a host can do to a machine, and the steps of a machine under any order of it. -/

namespace Intel8080

/-- One thing a host does to a machine. -/
inductive Action (δ : Type)
  /-- Lets it execute one instruction. -/
  | tick
  /-- Asks for the injection of an instruction. -/
  | interrupt (code : UInt8)
  /-- Asks for the restart of a line. -/
  | interruptLine (line : Fin 8)
  /-- Switches the listing of instructions. -/
  | setTracing (tracing : Bool)
  /-- Chooses how undocumented codes are taken. -/
  | setPolicy (policy : Policy)
  /-- Leaves any other memory and any other devices on the bus. -/
  | setBus (bus : Bus δ)

namespace Machine

variable {δ : Type} [Device δ]

/-- The machine after an action. -/
def perform (machine : Machine δ) : Action δ → Machine δ
  | .tick => machine.next
  | .interrupt code => (machine.interrupt code).1
  | .interruptLine line => (machine.interruptLine line).1
  | .setTracing tracing => { machine with tracing := tracing }
  | .setPolicy policy => { machine with policy := policy }
  | .setBus bus => { machine with toBus := bus }

/-- The machine after a sequence of actions. -/
def after (machine : Machine δ) (actions : List (Action δ)) : Machine δ :=
  actions.foldl perform machine

end Machine

/-- An action together with the machine it is done to. -/
structure Step (δ : Type) where
  before : Machine δ
  action : Action δ

/-- The machine after a step. -/
def Step.after {δ : Type} [Device δ] (step : Step δ) : Machine δ :=
  step.before.perform step.action

namespace Machine

variable {δ : Type} [Device δ]

/-- The steps of a sequence of actions, oldest first. -/
def history (machine : Machine δ) : List (Action δ) → List (Step δ)
  | [] => []
  | action :: rest => ⟨machine, action⟩ :: (machine.perform action).history rest

/-- The first step of a history starts at its machine, and the rest is a history from its end. -/
theorem history_eq_cons {machine : Machine δ} {actions : List (Action δ)} {step : Step δ}
    {rest : List (Step δ)} (same : machine.history actions = step :: rest) :
    step.before = machine ∧ ∃ later, step.after.history later = rest := by
  cases actions with
  -- Without actions there is no first step.
  | nil => simp [history] at same
  | cons action later =>
    obtain ⟨rfl, tail⟩ := List.cons.inj same
    exact ⟨rfl, later, tail⟩

/-- What follows a step in a history is a history from the end of the step. -/
theorem history_suffix {machine : Machine δ} {actions : List (Action δ)}
    {front rest : List (Step δ)} {step : Step δ}
    (same : machine.history actions = front ++ step :: rest) :
    ∃ later, step.after.history later = rest := by
  -- The steps in front are left behind one at a time.
  induction front generalizing machine actions with
  | nil => exact (history_eq_cons same).2
  | cons first front ih =>
    obtain ⟨_, later, tail⟩ := history_eq_cons same
    exact ih tail

/-- A machine that some host has brought about from an initial one. -/
def Reachable (machine : Machine δ) : Prop :=
  ∃ (bus : Bus δ) (entry : UInt16) (actions : List (Action δ)),
    machine = (start bus entry).after actions

/-- The actions of two lists are done one list after the other. -/
theorem after_append (machine : Machine δ) (front back : List (Action δ)) :
    machine.after (front ++ back) = (machine.after front).after back :=
  -- Both sides fold over the actions from the left.
  List.foldl_append

/-- What holds at first and through every allowed action holds as long as no other is taken. -/
theorem history_invariant_within {Allowed : Action δ → Prop} {Holds : Machine δ → Prop}
    (kept : ∀ machine action, Allowed action → Holds machine → Holds (machine.perform action))
    {machine : Machine δ} (initial : Holds machine) {actions : List (Action δ)}
    (allowed : ∀ action ∈ actions, Allowed action) :
    (∀ step ∈ machine.history actions, Holds step.before ∧ Holds step.after) ∧
      Holds (machine.after actions) := by
  -- Each action starts where the one before it ended.
  induction actions generalizing machine with
  | nil => exact ⟨by simp [history], initial⟩
  | cons action rest ih =>
    -- The first action keeps what holds, and the rest starts from there.
    have moved := kept machine action (allowed action (by simp)) initial
    obtain ⟨steps, last⟩ := ih moved fun other member =>
      allowed other (List.mem_cons_of_mem _ member)
    refine ⟨fun step member => ?_, last⟩
    rcases List.mem_cons.mp member with rfl | later
    · exact ⟨initial, moved⟩
    · exact steps step later

/-- What holds at first and through every action holds before and after every step. -/
theorem history_invariant {Holds : Machine δ → Prop}
    (kept : ∀ machine action, Holds machine → Holds (machine.perform action))
    {machine : Machine δ} (initial : Holds machine) (actions : List (Action δ)) :
    (∀ step ∈ machine.history actions, Holds step.before ∧ Holds step.after) ∧
      Holds (machine.after actions) := by
  -- Here every action is allowed.
  refine history_invariant_within (fun machine action (_ : True) => kept machine action) initial ?_
  exact fun _ _ => trivial

/-- What every action keeps of an initial machine holds of every reachable one. -/
theorem reachable_invariant {Holds : Machine δ → Prop}
    (kept : ∀ machine action, Holds machine → Holds (machine.perform action))
    (initial : ∀ (bus : Bus δ) (entry : UInt16), Holds (start bus entry))
    {machine : Machine δ} (reachable : machine.Reachable) : Holds machine := by
  -- A reachable machine stands at the end of some history.
  obtain ⟨bus, entry, actions, rfl⟩ := reachable
  exact (history_invariant kept (initial bus entry) actions).2

end Machine

end Intel8080
