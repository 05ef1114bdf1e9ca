import Intel8080.Proofs.Machine.Code
import Intel8080.Session

/-!
A session executes ticks of its machine and collects what they make known.

Advancing it stops at the first tick after which there is a reason to.
-/

namespace Intel8080

/-- The text that an event adds to the console. -/
def Event.console : Event → String
  | .text more => more
  | _ => ""

/-- The text that an event shows on the terminal. -/
def Event.echoed : Event → String
  | .echo more => more
  | _ => ""

/-- The message that an event adds to the log. -/
def Event.logged : Event → Option Message
  | .message added => some added
  | _ => none

/-- Empty texts are nothing together. -/
theorem join_of_empty {texts : List String} (empty : ∀ text ∈ texts, text = "") :
    String.join texts = "" := by
  -- Each text in turn adds nothing to the others.
  induction texts with
  | nil => rfl
  | cons text rest ih =>
    obtain ⟨first, others⟩ := List.forall_mem_cons.mp empty
    rw [String.join_cons, first, ih others, String.empty_append]

namespace Session

section Output

variable {δ : Type}

/-- Collecting the texts of events from the left is joining them. -/
theorem foldl_append_eq_join (view : Event → String) (events : Array Event) :
    events.foldl (fun text event => text ++ view event) "" =
      String.join (events.toList.map view) := by
  -- Joining is itself a fold from the left over the texts.
  rw [← Array.foldl_toList, String.join_eq_foldl, List.foldl_map]

/-- The console text is that of the events, one after the other. -/
theorem output_eq_join (session : Session δ) :
    session.output = String.join (session.events.toList.map Event.console) := by
  rw [output, ← foldl_append_eq_join]
  congr 1
  -- An event that prints nothing adds the empty text.
  funext before event
  cases event <;> simp [Event.console]

/-- So is the text on the terminal. -/
theorem echoed_eq_join (session : Session δ) :
    session.echoed = String.join (session.events.toList.map Event.echoed) := by
  rw [echoed, ← foldl_append_eq_join]
  congr 1
  -- An event that is not echoed adds the empty text.
  funext before event
  cases event <;> simp [Event.echoed]

/-- The log is made up of the messages among the events. -/
theorem log_eq_filterMap (session : Session δ) :
    session.log = session.events.toList.filterMap Event.logged :=
  -- A message is kept for the log by the same cases on both sides.
  rfl

/-- The events taken note of come behind the earlier ones. -/
theorem events_note (session : Session δ) (events : List Event) :
    (session.note events).events.toList = session.events.toList ++ events :=
  -- The array is extended at its end.
  Array.toList_appendList

/-- Taking note of events adds their text behind the earlier console text. -/
theorem output_note (session : Session δ) (events : List Event) :
    (session.note events).output = session.output ++ String.join (events.map Event.console) := by
  -- Joining takes the two lists of events apart.
  rw [output_eq_join, output_eq_join, events_note, List.map_append, String.join_append]

/-- It adds what they echo behind what the terminal has shown. -/
theorem echoed_note (session : Session δ) (events : List Event) :
    (session.note events).echoed = session.echoed ++ String.join (events.map Event.echoed) := by
  -- The same list of events is read for what it echoes.
  rw [echoed_eq_join, echoed_eq_join, events_note, List.map_append, String.join_append]

end Output

section Stepping

variable {δ : Type} [Device δ] (session : Session δ)

/-- The session after so many instructions, whether or not there is a reason to stop. -/
def stepped : Nat → Session δ
  | 0 => session
  | count + 1 => (stepped count).step

/-- The first of so many steps precedes the others. -/
theorem stepped_succ (count : Nat) : session.stepped (count + 1) = session.step.stepped count := by
  -- Both sides append the same last step.
  induction count with
  | zero => rfl
  | succ count ih => rw [stepped, ih, stepped]

/-- The machine has made as many ticks as there were steps. -/
theorem machine_stepped (count : Nat) :
    (session.stepped count).machine = session.machine.ticks count := by
  -- A step makes one tick of the machine, whatever the session has collected.
  induction count with
  | zero => rfl
  | succ count ih =>
    rw [Machine.ticks_succ, ← ih]
    rfl

/-- Every step counts as one instruction. -/
theorem instructions_stepped (count : Nat) :
    (session.stepped count).instructions = session.instructions + count := by
  -- A step adds one to the count.
  induction count with
  | zero => rfl
  | succ count ih =>
    rw [← Nat.add_assoc, ← ih]
    rfl

/-- The events of the ticks follow the earlier ones in order. -/
theorem events_stepped (count : Nat) :
    (session.stepped count).events.toList = session.events.toList ++
      (List.range count).flatMap fun earlier => (session.machine.ticks earlier).tick.2 := by
  -- Each step takes note of the events of one more tick.
  induction count with
  | zero => simp [stepped]
  | succ count ih =>
    -- Appending a list to the array of events keeps their order.
    have last : (session.stepped (count + 1)).events =
        (session.stepped count).events ++ (session.stepped count).machine.tick.2 := rfl
    rw [last, Array.toList_appendList, ih, machine_stepped, List.range_succ, List.flatMap_append,
      List.append_assoc, List.flatMap_singleton]

/-- Of whatever texts are taken from the events, those of the ticks follow the earlier ones. -/
theorem join_events_stepped (view : Event → String) (count : Nat) :
    String.join ((session.stepped count).events.toList.map view) =
      String.join (session.events.toList.map view) ++ String.join ((List.range count).map
        fun earlier => String.join ((session.machine.ticks earlier).tick.2.map view)) := by
  rw [events_stepped, List.map_append, String.join_append]
  congr 1
  -- Both sides hold the same characters in the same order.
  simp only [← String.toList_inj, String.toList_join, List.map_flatMap, List.flatMap_map,
    List.flatMap_assoc]

/-- What the ticks print follows the earlier console text in order. -/
theorem output_stepped (count : Nat) :
    (session.stepped count).output = session.output ++ String.join ((List.range count).map
      fun earlier => String.join ((session.machine.ticks earlier).tick.2.map Event.console)) := by
  -- This is the view that keeps what is printed.
  rw [output_eq_join, join_events_stepped, ← output_eq_join]

/-- What they echo follows what the terminal has shown before. -/
theorem echoed_stepped (count : Nat) :
    (session.stepped count).echoed = session.echoed ++ String.join ((List.range count).map
      fun earlier => String.join ((session.machine.ticks earlier).tick.2.map Event.echoed)) := by
  -- This is the view that keeps what is echoed.
  rw [echoed_eq_join, join_events_stepped, ← echoed_eq_join]

/-- The messages of the ticks follow the earlier ones in order. -/
theorem log_stepped (count : Nat) : (session.stepped count).log = session.log ++
    (List.range count).flatMap fun earlier =>
      (session.machine.ticks earlier).tick.2.filterMap Event.logged := by
  -- Choosing the messages goes through the ticks one at a time.
  rw [log_eq_filterMap, events_stepped, List.filterMap_append, List.filterMap_flatMap,
    ← log_eq_filterMap]

/-- The program has ended if it had before, or if one of the ticks made its end known. -/
theorem finished_stepped (count : Nat) :
    (session.stepped count).finished = true ↔ session.finished = true ∨
      ∃ earlier < count, .finished ∈ (session.machine.ticks earlier).tick.2 := by
  -- The flag is raised by the first tick that makes the end known, and never lowered.
  induction count with
  | zero => simp [stepped]
  | succ count ih =>
    -- The host looks only for the end among the events of the last tick.
    have last : (session.stepped (count + 1)).finished = ((session.stepped count).finished ||
        (session.stepped count).machine.tick.2.contains .finished) := rfl
    rw [last, Bool.or_eq_true, List.contains_iff_mem, ih, machine_stepped, or_assoc]
    simp only [Nat.lt_succ_iff_lt_or_eq, or_and_right, exists_or, exists_eq_left]

/--
Advancing makes some number of steps, before each of which there is no reason to stop.

It makes fewer than it may only if there is a reason after them.
-/
theorem advance_cases (limit : Option UInt64) (budget : Nat) :
    ∃ count ≤ budget, session.advance limit budget = session.stepped count ∧
      (∀ earlier < count, (session.stepped earlier).stop? limit = none) ∧
      (count < budget → ((session.stepped count).stop? limit).isSome) := by
  -- The induction is on the budget, with the session left open since each step changes it.
  induction budget generalizing session with
  | zero => exact ⟨0, Nat.le_refl 0, rfl, nofun, nofun⟩
  | succ budget ih =>
    by_cases stops : (session.stop? limit).isSome
    · -- With a reason at once, no step is made.
      exact ⟨0, Nat.zero_le _, advance_of_stop session limit _ stops, nofun, fun _ => stops⟩
    · -- Without one, a step is made, and the rest is advancing from there.
      obtain ⟨count, within, advanced, before, after⟩ := ih session.step
      refine ⟨count + 1, Nat.succ_le_succ within, ?_, fun earlier less => ?_, fun less => ?_⟩
      · rw [advance, if_neg stops, advanced, stepped_succ]
      · -- The session itself is the first one, and the others come after its step.
        cases earlier with
        | zero => exact Option.not_isSome_iff_eq_none.mp stops
        | succ earlier =>
          rw [stepped_succ]
          exact before earlier (Nat.lt_of_succ_lt_succ less)
      · rw [stepped_succ]
        exact after (Nat.lt_of_succ_lt_succ less)

/-- Advancing stops where the first reason to stop is found, if the budget reaches so far. -/
theorem advance_of_first {limit : Option UInt64} {count budget : Nat} (within : count ≤ budget)
    (stops : ((session.stepped count).stop? limit).isSome)
    (before : ∀ earlier < count, (session.stepped earlier).stop? limit = none) :
    session.advance limit budget = session.stepped count := by
  obtain ⟨reached, _, advanced, before', after⟩ := session.advance_cases limit budget
  rcases Nat.lt_trichotomy reached count with less | same | more
  · -- Stopping earlier would need a reason that is not there.
    have reason := after (Nat.lt_of_lt_of_le less within)
    simp [before reached less] at reason
  · rw [advanced, same]
  · -- Going on would need that there is none.
    simp [before' count more] at stops

end Stepping

end Session

end Intel8080
