import Intel8080.Device.Probe
import Intel8080.Proofs.Machine.Block

/-!
Nested pushes and pops on one stack.

Words come back to the pops that match their pushes as long as the stack does not fill the memory.
-/

namespace Intel8080

namespace Operation

/-- The operation always pushes a word. -/
def Pushes : Operation → Prop
  | push _ | call | rst _ => True
  | _ => False

/-- The operation always pops one. -/
def Pops : Operation → Prop
  | pop _ | ret => True
  | _ => False

/--
The word is what a pushing operation has to store, given the store behind its instruction.

A push of the status word stores A above the flags, with bit 1 set and bits 3 and 5 clear. Other
pushes store their pair, and calls store the address of the following instruction.
-/
def Stores (store : Store) (word : UInt16) : Operation → Prop
  | push .psw => highByte word = store.registers.a ∧
      Flags.ofByte (lowByte word) = store.registers.flags ∧ lowByte word &&& 0x2A = 0x02
  | push pair => word = store.getStackPair pair
  | _ => word = store.registers.pc

/-- A popping operation has left a word in the store: in A and the flags, in a pair, or in PC. -/
def Receives (store : Store) (word : UInt16) : Operation → Prop
  | pop .psw => store.registers.a = highByte word ∧
      store.registers.flags = Flags.ofByte (lowByte word)
  | pop pair => store.getStackPair pair = word
  | _ => store.registers.pc = word

/-- What pushes works within the registers and the memory. -/
theorem Pushes.internal {operation : Operation} (pushes : operation.Pushes) :
    operation.Internal := by
  -- None of the operations with a device or a switch pushes.
  cases operation
  case output | input | ei | di => exact pushes.elim
  all_goals simp [Internal]

/-- So does what pops. -/
theorem Pops.internal {operation : Operation} (pops : operation.Pops) : operation.Internal := by
  -- None of them pops, either.
  cases operation
  case output | input | ei | di => exact pops.elim
  all_goals simp [Internal]

end Operation

/-- Whatever puts a word on the stack: an instruction under any code, or an injected restart. -/
inductive Push
  | executed (instruction : Instruction) (pushes : instruction.operation.Pushes)
  | injected (line : Fin 8)

/-- An instruction under any code that takes a word off the stack. -/
structure Pop where
  instruction : Instruction
  pops : instruction.operation.Pops

/-- A nested sequence: nothing, or a push with its pop and what happens between and behind them. -/
inductive Nesting
  | empty
  | frame (push : Push) (inner : Nesting) (pop : Pop) (rest : Nesting)

/-- How many words are on the stack at most. -/
def Nesting.depth : Nesting → Nat
  | empty => 0
  | frame _ inner _ rest => max (inner.depth + 1) rest.depth

section Effect

variable {δ : Type}

/-- The memories agree but for so many bytes below a stack pointer. -/
def Machine.AgreeAbove (sp : UInt16) (depth : Nat) (before after : Machine δ) : Prop :=
  ∀ address, ¬ Below address sp depth → after.memory.read address = before.memory.read address

/-- The word is what a push has to store; an injected restart stores the program counter. -/
def Push.Stores (machine : Machine δ) (word : UInt16) : Push → Prop
  | executed instruction _ => instruction.operation.Stores (machine.charge instruction).store word
  | injected _ => word = machine.registers.pc

variable [Device δ]

/-- The machine after a push. -/
def Push.apply (machine : Machine δ) : Push → Machine δ
  | executed instruction _ => (machine.execute instruction).1
  | injected line => { machine with pending := some line }.service

/-- The machine after a pop. -/
def Pop.apply (machine : Machine δ) (pop : Pop) : Machine δ :=
  (machine.execute pop.instruction).1

namespace Nesting

/-- The machine after a nested sequence. -/
def run : Nesting → Machine δ → Machine δ
  | empty, machine => machine
  | frame push inner pop rest, machine =>
    rest.run (pop.apply (inner.run (push.apply machine)))

/-- The machine before each push and pop and at the end. -/
def visits : Nesting → Machine δ → List (Machine δ)
  | empty, machine => [machine]
  | frame push inner pop rest, machine =>
    machine :: (inner.visits (push.apply machine) ++
      rest.visits (pop.apply (inner.run (push.apply machine))))

/-- Every pop finds and receives the word that its push stored, and leaves the memory as it is. -/
def Matched : Nesting → Machine δ → Prop
  | empty, _ => True
  | frame push inner pop rest, machine =>
    let pushed := push.apply machine
    let reached := inner.run pushed
    let popped := pop.apply reached
    (push.Stores machine pushed.store.top ∧ reached.store.top = pushed.store.top ∧
      pop.instruction.operation.Receives popped.store pushed.store.top ∧
      popped.memory = reached.memory) ∧
      inner.Matched pushed ∧ rest.Matched popped

/-- What a nested sequence does to the stack and to the memory. -/
structure Restores (nesting : Nesting) (machine : Machine δ) : Prop where
  matched : nesting.Matched machine
  sp : (nesting.run machine).registers.sp = machine.registers.sp
  /-- At any time, only as many words below the stack pointer have changed as are nested. -/
  memory : ∀ visited ∈ nesting.visits machine,
    Machine.AgreeAbove machine.registers.sp (2 * nesting.depth) machine visited

end Nesting

end Effect

/-! ### One push and one pop -/

/-- A word has been put on the stack, and nothing else has changed in memory. -/
structure Store.Pushed (before after : Store) (word : UInt16) : Prop where
  sp : after.registers.sp = before.registers.sp - 2
  memory : after.memory = before.memory.writeWord (before.registers.sp - 2) word

/-- A word has been taken off the stack, and nothing has changed in memory. -/
structure Store.Popped (before after : Store) : Prop where
  sp : after.registers.sp = before.registers.sp + 2
  memory : after.memory = before.memory

/-- The word that was put on the stack is on top. -/
theorem Store.Pushed.top {before after : Store} {word : UInt16}
    (pushed : before.Pushed after word) : after.top = word := by
  -- The stack pointer is on the word that was written.
  rw [Store.top, pushed.sp, pushed.memory]
  exact Memory.readWord_writeWord _ _ _

/-- A status word has the accumulator above flags that read back, and its fixed bits are fixed. -/
theorem Registers.psw_fields (registers : Registers) :
    highByte registers.psw = registers.a ∧
      Flags.ofByte (lowByte registers.psw) = registers.flags ∧
      lowByte registers.psw &&& 0x2A = 0x02 := by
  -- Thirty-two sets of flags have the same fixed bits.
  have fixed : ∀ flags : Flags, flags.statusByte &&& 0x2A = 0x02 := by
    rintro ⟨_ | _, _ | _, _ | _, _ | _, _ | _⟩ <;> rfl
  rw [psw, highByte_word, lowByte_word]
  exact ⟨rfl, Flags.ofByte_statusByte _, fixed _⟩

/-- A pushing operation puts its word on the stack. -/
theorem Operation.Pushes.transform {operation : Operation} (pushes : operation.Pushes)
    (operand : UInt16) (store : Store) :
    ∃ word, store.Pushed (operation.transform operand store) word ∧
      operation.Stores store word := by
  -- Each kind of push names its word.
  cases operation
  case push pair =>
    refine ⟨store.getStackPair pair, ⟨rfl, rfl⟩, ?_⟩
    -- The status word is put together, and the other pairs are words already.
    cases pair
    case psw => exact store.registers.psw_fields
    all_goals rfl
  case call | rst => exact ⟨store.registers.pc, ⟨rfl, rfl⟩, rfl⟩
  all_goals exact pushes.elim

/-- A popping operation takes the word on top and leaves it where it belongs. -/
theorem Operation.Pops.transform {operation : Operation} (pops : operation.Pops)
    (operand : UInt16) (store : Store) :
    store.Popped (operation.transform operand store) ∧
      operation.Receives (operation.transform operand store) store.top := by
  -- Each kind of pop names the place of its word.
  cases operation
  case pop pair =>
    have framed := Store.framed_setStackPair store.drop pair store.top
    refine ⟨⟨framed.sp, framed.memory⟩, ?_⟩
    cases pair
    -- The status word is taken apart again.
    case psw => exact ⟨rfl, rfl⟩
    all_goals exact word_highByte_lowByte store.top
  case ret => exact ⟨⟨rfl, rfl⟩, rfl⟩
  all_goals exact pops.elim

/-! ### Addresses below the stack pointer -/

namespace Machine

/-- A deeper stack has the addresses of a less deep one. -/
theorem Below.mono {address sp : UInt16} {depth deeper : Nat} (le : depth ≤ deeper)
    (below : Below address sp depth) : Below address sp deeper := by
  -- Both ranges end at the stack pointer, and distances from their starts are remainders.
  have addressBound := address.toNat_lt
  have spBound := sp.toNat_lt
  simp only [Below, Within, UInt16.toNat_sub, UInt16.toNat_ofNat'] at below ⊢
  omega

variable {δ : Type}

/-- Memories that agree above some bytes agree above more of them. -/
theorem AgreeAbove.mono {before after : Machine δ} {sp : UInt16} {depth deeper : Nat}
    (agree : AgreeAbove sp depth before after) (le : depth ≤ deeper) :
    AgreeAbove sp deeper before after :=
  -- An address outside of the larger range is outside of the smaller one.
  fun address outside => agree address fun below => outside (below.mono le)

/-- What agrees above some bytes below a pushed word agrees above these and the word. -/
theorem AgreeAbove.of_pushed {before pushed after : Machine δ} {word : UInt16} {depth : Nat}
    (push : before.store.Pushed pushed.store word)
    (agree : AgreeAbove pushed.registers.sp depth pushed after) :
    AgreeAbove before.registers.sp (depth + 2) before after := by
  intro address outside
  -- The push has moved the stack pointer and written its word.
  have sp : pushed.registers.sp = before.registers.sp - 2 := push.sp
  have memory : pushed.memory = before.memory.writeWord (before.registers.sp - 2) word :=
    push.memory
  rw [agree address fun below => outside (.of_pushed (sp ▸ below)), memory]
  exact Memory.read_writeWord _ _ fun top => outside (.of_top depth top)

end Machine

/-! ### Nested pushes and pops -/

section Nested

variable {δ : Type} [Device δ]

/-- Every push puts its word on the stack. -/
theorem Push.pushed (push : Push) (machine : Machine δ) :
    ∃ word, machine.store.Pushed (push.apply machine).store word ∧ push.Stores machine word := by
  -- A push is either executed or injected.
  cases push with
  | injected line => exact ⟨machine.registers.pc, ⟨rfl, rfl⟩, rfl⟩
  | executed instruction pushes =>
    -- Paying for the instruction changes neither the stack pointer nor the memory.
    obtain ⟨word, pushed, stores⟩ :=
      pushes.transform instruction.operand (machine.charge instruction).store
    rw [apply, Machine.execute_internal _ _ pushes.internal]
    exact ⟨word, ⟨pushed.sp, pushed.memory⟩, stores⟩

/-- Every pop takes the word on top and leaves it where it belongs. -/
theorem Pop.popped (pop : Pop) (machine : Machine δ) :
    machine.store.Popped (pop.apply machine).store ∧
      pop.instruction.operation.Receives (pop.apply machine).store machine.store.top := by
  -- Paying for the instruction changes nothing that the pop looks at.
  obtain ⟨popped, receives⟩ :=
    pop.pops.transform pop.instruction.operand (machine.charge pop.instruction).store
  rw [apply, Machine.execute_internal _ _ pop.pops.internal]
  exact ⟨⟨popped.sp, popped.memory⟩, receives⟩

namespace Nesting

/-- However deep it is, a nested sequence ends with the stack pointer where it began. -/
theorem sp_run (nesting : Nesting) (machine : Machine δ) :
    (nesting.run machine).registers.sp = machine.registers.sp := by
  -- Each frame goes down by one word and up again by one.
  induction nesting generalizing machine with
  | empty => rfl
  | frame push inner pop rest ihInner ihRest =>
    obtain ⟨_, pushed, _⟩ := push.pushed machine
    obtain ⟨popped, _⟩ := pop.popped (inner.run (push.apply machine))
    have down : (push.apply machine).registers.sp = machine.registers.sp - 2 := pushed.sp
    calc
      _ = (pop.apply (inner.run (push.apply machine))).registers.sp := ihRest _
      _ = (inner.run (push.apply machine)).registers.sp + 2 := popped.sp
      _ = machine.registers.sp - 2 + 2 := by rw [ihInner, down]
      _ = machine.registers.sp := UInt16.sub_add_cancel _ _

/-- The machine after a nested sequence is the last one that it visits. -/
theorem run_mem_visits (nesting : Nesting) (machine : Machine δ) :
    nesting.run machine ∈ nesting.visits machine := by
  -- The last machine is that of the last rest.
  induction nesting generalizing machine with
  | empty => exact List.mem_singleton.mpr rfl
  | frame push inner pop rest _ ih =>
    exact List.mem_cons_of_mem _ (List.mem_append_right _ (ih _))

/-- At no time has memory changed above the words that can be on the stack. -/
theorem agreeAbove_visits (nesting : Nesting) (machine : Machine δ) :
    ∀ visited ∈ nesting.visits machine,
      machine.AgreeAbove machine.registers.sp (2 * nesting.depth) visited := by
  -- The stack of what is inside lies two bytes lower than that of the frame.
  induction nesting generalizing machine with
  | empty =>
    -- Nothing has happened yet.
    intro visited member address _
    rw [List.mem_singleton.mp member]
  | frame push inner pop rest ihInner ihRest =>
    have innerDepth : 2 * inner.depth + 2 ≤ 2 * (frame push inner pop rest).depth :=
      Nat.mul_le_mul_left 2 (Nat.le_max_left (inner.depth + 1) rest.depth)
    have restDepth : 2 * rest.depth ≤ 2 * (frame push inner pop rest).depth :=
      Nat.mul_le_mul_left 2 (Nat.le_max_right (inner.depth + 1) rest.depth)
    obtain ⟨word, pushed, _⟩ := push.pushed machine
    obtain ⟨popped, _⟩ := pop.popped (inner.run (push.apply machine))
    -- The push writes its word, and what is inside writes below it.
    have during : ∀ visited ∈ inner.visits (push.apply machine),
        machine.AgreeAbove machine.registers.sp (2 * (frame push inner pop rest).depth) visited :=
      fun visited member => ((ihInner _ visited member).of_pushed pushed).mono innerDepth
    intro visited member
    rcases List.mem_cons.mp member with rfl | later
    · -- At the beginning memory is as it is.
      exact fun _ _ => rfl
    rcases List.mem_append.mp later with inside | behind
    · -- Inside, the frame and its contents share the bytes below.
      exact during visited inside
    · -- Behind the pop, which writes nothing, the stack begins where it began before the push.
      have back : (pop.apply (inner.run (push.apply machine))).registers.sp =
          machine.registers.sp := (frame push inner pop empty).sp_run machine
      have after := ihRest _ visited behind
      rw [back] at after
      intro address outside
      calc
        _ = (pop.apply (inner.run (push.apply machine))).memory.read address :=
          after.mono restDepth address outside
        _ = (inner.run (push.apply machine)).memory.read address :=
          congrArg (·.read address) popped.memory
        _ = machine.memory.read address := during _ (inner.run_mem_visits _) address outside

/-- What happens above a word on the stack leaves it there, unless the stack fills the memory. -/
theorem top_run (nesting : Nesting) (machine : Machine δ) (shallow : nesting.depth < 32768) :
    (nesting.run machine).store.top = machine.store.top := by
  -- The stack pointer is back at the word, which lies above all that was written.
  rw [Store.top, Store.top, Machine.store, nesting.sp_run]
  refine Memory.readWord_congr fun place inside => ?_
  exact nesting.agreeAbove_visits machine _ (nesting.run_mem_visits machine) place
    (Machine.not_below_of_top (by omega) inside)

/-- On a stack that fits into the memory, every pop receives the word of its push. -/
theorem matched (nesting : Nesting) (machine : Machine δ) (shallow : nesting.depth ≤ 32768) :
    nesting.Matched machine := by
  -- Inside and behind a frame the stack is no deeper than it may be.
  induction nesting generalizing machine with
  | empty => trivial
  | frame push inner pop rest ihInner ihRest =>
    rw [depth, Nat.max_le] at shallow
    obtain ⟨word, pushed, stores⟩ := push.pushed machine
    obtain ⟨popped, receives⟩ := pop.popped (inner.run (push.apply machine))
    -- What is inside leaves the word of the push on top.
    have top := inner.top_run (push.apply machine) shallow.1
    rw [top] at receives
    rw [← pushed.top] at stores
    exact ⟨⟨stores, top, receives, popped.memory⟩, ihInner _ (by omega), ihRest _ shallow.2⟩

/--
Words come back from a stack that is at most 32768 words deep, wherever it is.

Its stack pointer comes back too, and memory changes only in the words that the stack needs.
-/
theorem restores (nesting : Nesting) (machine : Machine δ) (shallow : nesting.depth ≤ 32768) :
    nesting.Restores machine where
  -- The stack pointer and the memory need no bound on the depth, but the words do.
  matched := nesting.matched machine shallow
  sp := nesting.sp_run machine
  memory := nesting.agreeAbove_visits machine

/-- The status word is pushed, and an interrupt comes and goes before it is popped. -/
def interruptedPsw (line : Fin 8) : Nesting :=
  frame (.executed ⟨0xF5, 0⟩ trivial) (frame (.injected line) empty ⟨⟨0xC9, 0⟩, trivial⟩ empty)
    ⟨⟨0xF1, 0⟩, trivial⟩ empty

/-- The stack goes round the end of memory, with the status word at FFFF and 0000. -/
theorem interruptedPsw_restores :
    let machine : Machine Probe :=
      { registers := { a := 0x12, flags := { carry := true }, sp := 1 } }
    let last := (interruptedPsw 1).run machine
    (interruptedPsw 1).depth ≤ 32768 ∧ (interruptedPsw 1).Restores machine ∧
      last.registers.a = 0x12 ∧ last.registers.flags = { carry := true } ∧
      last.registers.sp = 1 := by
  intro machine last
  have shallow : (interruptedPsw 1).depth ≤ 32768 := by decide
  have restored := restores (interruptedPsw 1) machine shallow
  -- The pop receives what the push has stored.
  obtain ⟨⟨⟨a, flags, _⟩, _, ⟨aBack, flagsBack⟩, _⟩, _⟩ := restored.matched
  exact ⟨shallow, restored, aBack.trans a, flagsBack.trans flags, restored.sp⟩

/-! ### One word more -/

omit [Device δ] in
/-- Steps along addresses add up. -/
theorem add_one_ofNat (address : UInt16) (count : Nat) :
    address + 1 + .ofNat count = address + .ofNat (count + 1) := by
  -- Both sides add the same number to the address.
  rw [UInt16.add_assoc, Nat.add_comm count, UInt16.ofNat_add]
  rfl

/-- An interrupt between so many pushes of BC and their pops. -/
def tower (line : Fin 8) : Nat → Nesting
  | 0 => frame (.injected line) empty ⟨⟨0xC9, 0⟩, trivial⟩ empty
  | height + 1 =>
    frame (.executed ⟨0xC5, 0⟩ trivial) (tower line height) ⟨⟨0xC1, 0⟩, trivial⟩ empty

/-- The interrupt pushes one more word. -/
theorem depth_tower (line : Fin 8) (height : Nat) : (tower line height).depth = height + 1 := by
  -- Every push adds one word, and the interrupt is the last one.
  induction height with
  | zero => rfl
  | succ height ih => rw [tower, depth, ih, depth, Nat.max_zero]

/-- The address that the interrupt pushed is still in memory at the end. -/
theorem readWord_tower (line : Fin 8) (height : Nat) (machine : Machine δ) :
    ((tower line height).run machine).memory.readWord
        (machine.registers.sp - .ofNat (2 * (height + 1))) =
      machine.registers.pc + .ofNat height := by
  -- The word lies deeper with every push, and the address is one further on.
  induction height generalizing machine with
  | zero =>
    -- Nothing is executed between the injected restart and its return.
    refine (Memory.readWord_writeWord _ _ _).trans ?_
    exact (UInt16.add_zero _).symm
  | succ height ih =>
    let pushed := Push.apply machine (.executed ⟨0xC5, 0⟩ trivial)
    obtain ⟨popped, _⟩ := Pop.popped ⟨⟨0xC1, 0⟩, trivial⟩ ((tower line height).run pushed)
    -- The push moves the stack pointer down and the program counter up, and the pop writes nothing.
    have bottom : pushed.registers.sp - .ofNat (2 * (height + 1)) =
        machine.registers.sp - .ofNat (2 * (height + 1 + 1)) :=
      (Machine.stack_start machine.registers.sp (2 * (height + 1))).symm
    have along : pushed.registers.pc + .ofNat height =
        machine.registers.pc + .ofNat (height + 1) := add_one_ofNat machine.registers.pc height
    rw [← bottom, ← along, ← ih pushed]
    exact congrArg (·.readWord _) popped.memory

/-- The word number 32769 covers the first one, which then does not come back to its pop. -/
theorem not_restores_tower (line : Fin 8) {machine : Machine δ}
    (other : machine.registers.bc ≠ machine.registers.pc + 32768) :
    ¬ (tower line 32768).Restores machine := by
  -- The number of words is kept apart, so that it is not unfolded.
  obtain ⟨height, full⟩ : ∃ height, height + 1 = 32768 := ⟨32767, rfl⟩
  rw [← full]
  intro kept
  let pushed := Push.apply machine (.executed ⟨0xC5, 0⟩ trivial)
  obtain ⟨⟨stores, top, _⟩, _⟩ := kept.matched
  -- The interrupt pushes its address 65536 bytes below the first word.
  have around : pushed.registers.sp - .ofNat (2 * (height + 1)) = pushed.registers.sp := by
    rw [full]
    exact UInt16.sub_zero _
  have found :
      ((tower line height).run pushed).store.top = pushed.registers.pc + .ofNat height := by
    rw [Store.top, Machine.store, sp_run, ← readWord_tower line height pushed, around]
  -- A matched pop would have to receive the pushed pair.
  refine other ?_
  calc
    _ = pushed.store.top := stores.symm
    _ = machine.registers.pc + 1 + .ofNat height := top.symm.trans found
    _ = machine.registers.pc + .ofNat (height + 1) := add_one_ofNat _ height
    _ = machine.registers.pc + 32768 := by
      rw [full]
      rfl

end Nesting

end Nested

end Intel8080
