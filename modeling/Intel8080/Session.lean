import Intel8080.Machine

/-! A machine under a host that collects what it makes known and decides when to stop. -/

namespace Intel8080

/-- A machine and what the host has seen of it. -/
structure Session (δ : Type) where
  machine : Machine δ
  /-- How many instructions were executed, one that halted included. -/
  instructions : Nat := 0
  /-- Everything made known so far, oldest first. -/
  events : Array Event := #[]
  /-- Whether the program has ended. -/
  finished : Bool := false

namespace Session

variable {δ : Type}

/-- Takes note of new events. -/
def note (session : Session δ) (events : List Event) : Session δ :=
  { session with
    events := session.events ++ events
    finished := session.finished || events.contains .finished }

/-- Executes one instruction. -/
def step [Device δ] (session : Session δ) : Session δ :=
  let (machine, events) := session.machine.tick
  { session with machine := machine, instructions := session.instructions + 1 }.note events

/-- Why the host would stop here, if it would: the end of the program comes first, then a halt. -/
def stop? (session : Session δ) (limit : Option UInt64) : Option StopReason :=
  if session.finished then some .finished
  else if session.machine.halted then some .halted
  else if limit.any (· ≤ session.machine.cycles) then some .cycleLimit
  else none

/-- Executes instructions until there is a reason to stop, but no more than a given number. -/
def advance [Device δ] (session : Session δ) (limit : Option UInt64) : Nat → Session δ
  | 0 => session
  | budget + 1 =>
    if (session.stop? limit).isSome then session else session.step.advance limit budget

/-- Where there is a reason to stop, advancing changes nothing. -/
theorem advance_of_stop [Device δ] (session : Session δ) (limit : Option UInt64) (budget : Nat)
    (stopped : (session.stop? limit).isSome) : session.advance limit budget = session := by
  cases budget with
  | zero => rfl
  | succ budget => simp [advance, stopped]

/-- The console text so far. -/
def output (session : Session δ) : String :=
  session.events.foldl (fun text event =>
    match event with
    | .text more => text ++ more
    | _ => text) ""

/-- The text shown on the terminal so far. -/
def echoed (session : Session δ) : String :=
  session.events.foldl (fun text event =>
    match event with
    | .echo more => text ++ more
    | _ => text) ""

/-- The messages so far. -/
def log (session : Session δ) : List Message :=
  session.events.toList.filterMap fun event =>
    match event with
    | .message message => some message
    | _ => none

/-- The observed port accesses so far. -/
def accesses (session : Session δ) : List AccessRecord :=
  session.events.toList.filterMap fun event =>
    match event with
    | .access record => some record
    | _ => none

end Session

end Intel8080
