import Intel8080.Proofs.Machine.Code

/-!
Blocks of code that end with the stack pointer where they began.

A block touches only memory below the stack pointer, and a push and a pop around it make a block.
-/

namespace Intel8080

namespace Store

/-- The stores differ at most in the accumulator, the flags and the six working registers. -/
structure Framed (before after : Store) : Prop where
  memory : after.memory = before.memory
  sp : after.registers.sp = before.registers.sp
  pc : after.registers.pc = before.registers.pc

/-- A change within the frame and another one are together within the frame. -/
theorem Framed.trans {first second third : Store} (front : first.Framed second)
    (back : second.Framed third) : first.Framed third :=
  -- What neither change touches stays the same through both.
  ⟨back.memory.trans front.memory, back.sp.trans front.sp, back.pc.trans front.pc⟩

/-- Flags lie within the frame. -/
theorem framed_setFlags (store : Store) (flags : Flags) : store.Framed (store.setFlags flags) :=
  ⟨rfl, rfl, rfl⟩

/-- Every location but the memory operand lies within the frame. -/
theorem framed_set (store : Store) {location : Location} (register : location ≠ .m)
    (value : UInt8) : store.Framed (store.set location value) := by
  -- Only the memory operand is not a register.
  cases location with
  | m => exact absurd rfl register
  | _ => exact ⟨rfl, rfl, rfl⟩

/-- Every pair but the stack pointer lies within the frame. -/
theorem framed_setPair (store : Store) {pair : Pair} (working : pair ≠ .sp) (value : UInt16) :
    store.Framed (store.setPair pair value) := by
  -- A working pair lies in the registers that may differ.
  cases pair with
  | sp => exact absurd rfl working
  | _ => exact ⟨rfl, rfl, rfl⟩

/-- Arithmetic on the accumulator stays within the frame. -/
theorem framed_accumulate (store : Store) (function : Arithmetic) (operand : UInt8) :
    store.Framed (store.accumulate function operand) :=
  ⟨rfl, rfl, rfl⟩

/-- So does a step on any register. -/
theorem framed_modify (store : Store) {location : Location} (register : location ≠ .m)
    (step : Flags → UInt8 → UInt8 × Flags) : store.Framed (store.modify location step) :=
  -- A step sets the register and then the flags.
  (framed_setFlags store _).trans (framed_set _ register _)

/-- Every pair that can be popped lies within the frame. -/
theorem framed_setStackPair (store : Store) (pair : StackPair) (value : UInt16) :
    store.Framed (store.setStackPair pair value) := by
  -- The four pairs are the working registers, the accumulator and the flags.
  cases pair <;> exact ⟨rfl, rfl, rfl⟩

/-- A pair taken from another store reads as it does there, the flags included. -/
theorem getStackPair_setStackPair (store other : Store) (pair : StackPair) :
    (store.setStackPair pair (other.getStackPair pair)).getStackPair pair =
      other.getStackPair pair := by
  -- A status byte made from flags reads back as the same flags, and so gives the same byte.
  cases pair <;> simp [getStackPair, setStackPair, Registers.psw, Registers.setPsw]

/-- Setting one pair leaves the others. -/
theorem getStackPair_setStackPair_of_ne (store : Store) {pair other : StackPair}
    (different : other ≠ pair) (value : UInt16) :
    (store.setStackPair pair value).getStackPair other = store.getStackPair other := by
  -- No two pairs share a register.
  cases pair <;> cases other <;> first | exact absurd rfl different | rfl

end Store

/--
The operation goes on to the next one and writes neither memory nor the stack pointer.

It may read memory.
-/
def Operation.Straight : Operation → Prop
  | .nop | .arithmetic _ _ | .immediate _ | .dad _ | .rotate _ | .daa | .cma | .stc | .cmc
  | .lda | .ldax _ | .lhld | .xchg => True
  | .mov target _ | .mvi target | .inr target | .dcr target => target ≠ .m
  | .lxi pair | .inx pair | .dcx pair => pair ≠ .sp
  | _ => False

namespace Operation

/-- A straight operation stays within the frame. -/
theorem framed_transform {operation : Operation} (straight : operation.Straight)
    (operand : UInt16) (store : Store) : store.Framed (operation.transform operand store) := by
  -- Each operation is one of the changes above, or two of them.
  cases operation <;> simp only [transform]
  case nop | xchg => exact ⟨rfl, rfl, rfl⟩
  case lxi | inx | dcx => exact store.framed_setPair straight _
  case lhld => exact store.framed_setPair (by decide) _
  case mov | mvi => exact store.framed_set straight _
  case lda | ldax | cma => exact store.framed_set (by decide) _
  case inr | dcr => exact store.framed_modify straight _
  case daa => exact store.framed_modify (by decide) _
  case arithmetic | immediate => exact store.framed_accumulate _ _
  case stc | cmc => exact store.framed_setFlags _
  case dad => exact (store.framed_setPair (by decide) _).trans (Store.framed_setFlags _ _)
  case rotate => exact (store.framed_set (by decide) _).trans (Store.framed_setFlags _ _)
  all_goals exact straight.elim

/-- A straight operation never calls or returns, and its cost is fixed. -/
theorem cost_of_straight {operation : Operation} (straight : operation.Straight) (flags : Flags) :
    operation.cost flags = operation.cycles := by
  -- Only a conditional call or return can cost more than its base.
  cases operation
  case callIf | retIf => exact straight.elim
  all_goals exact UInt64.add_zero _

/-- A straight operation works within the registers and the memory, and does not halt. -/
theorem Straight.internal {operation : Operation} (straight : operation.Straight) :
    operation.Internal ∧ operation ≠ .hlt := by
  -- The operations with a device, a switch or a halt are not straight.
  cases operation
  case output | input | ei | di | hlt => exact straight.elim
  all_goals simp [Internal]

end Operation

namespace Machine

variable {δ : Type}

/-- The addresses of so many bytes below a stack pointer. -/
def Below (address sp : UInt16) (depth : Nat) : Prop :=
  Within address (sp - .ofNat depth) depth

/-- The stack below a pushed word starts where the stack with the word does. -/
theorem stack_start (sp : UInt16) (depth : Nat) :
    sp - .ofNat (depth + 2) = sp - 2 - .ofNat depth := by
  -- Addresses are subtracted in either order.
  rw [UInt16.sub_eq_iff_eq_add, UInt16.ofNat_add, ← UInt16.add_assoc, UInt16.sub_add_cancel]
  exact (UInt16.sub_add_cancel sp 2).symm

/-- What lies below a pushed word lies below the stack pointer before the push. -/
theorem Below.of_pushed {address sp : UInt16} {depth : Nat}
    (below : Below address (sp - 2) depth) : Below address sp (depth + 2) := by
  -- The bytes below the pushed word are the lower part of the range.
  rw [Below, stack_start]
  exact Within.of_earlier below

/-- So does the pushed word itself. -/
theorem Below.of_top {address sp : UInt16} (depth : Nat) (top : Within address (sp - 2) 2) :
    Below address sp (depth + 2) := by
  -- The pushed word is its upper part.
  rw [Below, stack_start]
  refine Within.of_later ?_
  rwa [UInt16.sub_add_cancel]

/-- The word on top of the stack does not lie below it, unless the stack fills the memory. -/
theorem not_below_of_top {address sp : UInt16} {depth : Nat} (shallow : depth + 2 ≤ 65536)
    (top : Within address sp 2) : ¬ Below address sp depth := by
  -- The word lies right behind the range, which does not come round to it.
  refine Within.not_earlier ?_ shallow
  rwa [UInt16.sub_add_cancel]

/-- Nothing has changed but the registers, the memory and the cycles, which are so many more. -/
def Takes (cycles : UInt64) (before after : Machine δ) : Prop :=
  after = { before with
    registers := after.registers
    memory := after.memory
    cycles := before.cycles + cycles }

/-- Cycles add up. -/
theorem Takes.trans {first second third : Machine δ} {front back : UInt64}
    (before : Takes front first second) (after : Takes back second third) :
    Takes (front + back) first third := by
  -- The counter is the only thing that adds up, and the rest is taken over.
  have cycles : first.cycles + (front + back) = second.cycles + back := by
    rw [← UInt64.add_assoc, congrArg (·.cycles) before]
  rw [Takes, cycles, after, before]

/-- An operation whose cost is fixed takes its cycles. -/
theorem takes_past (machine : Machine δ) {operation : Operation} (store : Store)
    (fixed : operation.cost machine.registers.flags = operation.cycles) :
    Takes operation.cycles machine ((machine.past operation).withStore store) := by
  -- What is charged is the cost under the flags there are.
  rw [← fixed]
  rfl

/-- The machine can execute a block: it is next, and lies apart from the stack that it uses. -/
structure Ready (depth : Nat) (block : List Operation) (machine : Machine δ) : Prop where
  idle : machine.pending = none
  holds : machine.Holds block
  apart : ∀ address, Below address machine.registers.sp depth →
    ¬ Within address machine.registers.pc (codeSize block)

/-- What a block that restores some pairs leaves of the machine it began with. -/
structure Balanced (depth : Nat) (pairs : List StackPair) (block : List Operation)
    (before after : Machine δ) : Prop where
  takes : Takes (codeCycles block) before after
  sp : after.registers.sp = before.registers.sp
  pc : after.registers.pc = before.registers.pc + .ofNat (codeSize block)
  /-- Memory has changed only below the stack pointer. -/
  memory : ∀ address, ¬ Below address before.registers.sp depth →
    after.memory.read address = before.memory.read address
  restored : ∀ pair ∈ pairs, after.store.getStackPair pair = before.store.getStackPair pair

/-- Where a block can be executed, so can its front. -/
theorem Ready.front {machine : Machine δ} {depth : Nat} {front back : List Operation}
    (ready : machine.Ready depth (front ++ back)) : machine.Ready depth front where
  idle := ready.idle
  holds := (Memory.holds_append.mp ready.holds).1
  apart address below inside := by
    -- A shorter block lies within the longer one.
    refine ready.apart address below ?_
    rw [codeSize_append]
    exact inside.of_earlier

/-- After the front of a block its back can be executed. -/
theorem Ready.back {before after : Machine δ} {depth : Nat} {pairs : List StackPair}
    {front back : List Operation} (ready : before.Ready depth (front ++ back))
    (done : Balanced depth pairs front before after) : after.Ready depth back := by
  -- The back lies behind the front, so it lies apart from the stack as well.
  have apart : ∀ address, Below address before.registers.sp depth →
      ¬ Within address after.registers.pc (codeSize back) := by
    intro address below inside
    refine ready.apart address below ?_
    rw [done.pc] at inside
    rw [codeSize_append]
    exact inside.of_later
  -- The policy and the code are still what they were.
  have policy : after.policy = before.policy := congrArg (·.policy) done.takes
  have held := (Memory.holds_append.mp ready.holds).2
  rw [← done.pc, ← policy] at held
  refine ⟨(congrArg (·.pending) done.takes).trans ready.idle, held.congr ?_, ?_⟩
  · -- The front has written only to the stack.
    intro place inside
    exact done.memory place fun below => apart place below inside
  · -- The back uses the same stack.
    rw [done.sp]
    exact apart

/-- Nothing happens in no time. -/
theorem Balanced.refl (depth : Nat) (pairs : List StackPair) (machine : Machine δ) :
    Balanced depth pairs [] machine machine where
  takes := by
    -- No cycles are no change of the counter.
    have free : machine.cycles + codeCycles [] = machine.cycles := UInt64.add_zero _
    rw [Takes, free]
  sp := rfl
  pc := (UInt16.add_zero _).symm
  memory _ _ := rfl
  restored _ _ := rfl

/-- What two blocks leave one after the other. -/
theorem Balanced.trans {first second third : Machine δ} {depth : Nat} {pairs : List StackPair}
    {front back : List Operation} (before : Balanced depth pairs front first second)
    (after : Balanced depth pairs back second third) :
    Balanced depth pairs (front ++ back) first third where
  takes := by
    rw [codeCycles_append]
    -- Each figure of the whole is put together from those of the parts.
    exact before.takes.trans after.takes
  sp := after.sp.trans before.sp
  pc := by
    rw [after.pc, before.pc, codeSize_append, UInt16.ofNat_add, UInt16.add_assoc]
  memory address outside := by
    rw [after.memory address (by rwa [before.sp]), before.memory address outside]
  restored pair member := (after.restored pair member).trans (before.restored pair member)

/-- The machine with a pair pushed by the operation at the program counter. -/
def pushed (machine : Machine δ) (pair : StackPair) : Machine δ :=
  (machine.past (.push pair)).withStore
    ((machine.past (.push pair)).store.push (machine.store.getStackPair pair))

/-- The machine with a pair popped by the operation at the program counter. -/
def popped (machine : Machine δ) (pair : StackPair) : Machine δ :=
  (machine.past (.pop pair)).withStore
    ((machine.past (.pop pair)).store.drop.setStackPair pair machine.store.top)

/-- The rest of a block that begins with a push can be executed after the push. -/
theorem Ready.pushed {machine : Machine δ} {depth : Nat} {pair : StackPair}
    {rest : List Operation} (ready : machine.Ready (depth + 2) (.push pair :: rest)) :
    (machine.pushed pair).Ready depth rest := by
  -- A push takes one byte.
  have size : codeSize (.push pair :: rest) = 1 + codeSize rest := rfl
  refine ⟨ready.idle, ready.holds.2.congr fun place inside => ?_, fun address below inside => ?_⟩
  · -- The pushed word lies apart from the code.
    refine Memory.read_writeWord _ _ fun top => ready.apart place (.of_top depth top) ?_
    rw [size]
    exact inside.of_later
  · -- The stack below the pushed word is part of the whole one.
    refine ready.apart address below.of_pushed ?_
    rw [size]
    exact inside.of_later

/-- A block leaves the word on top of the stack. -/
theorem Balanced.top {before after : Machine δ} {depth : Nat} (shallow : depth + 2 ≤ 65536)
    {pairs : List StackPair} {block : List Operation}
    (done : Balanced depth pairs block before after) : after.store.top = before.store.top := by
  -- The block works strictly below the word.
  rw [Store.top, Store.top, store, store, done.sp]
  exact Memory.readWord_congr fun place inside =>
    done.memory place (not_below_of_top shallow inside)

/-- A block between a push and a pop of one pair restores that pair too. -/
theorem Balanced.restored_popped {machine inner : Machine δ} {depth : Nat}
    (shallow : depth + 2 ≤ 65536) {pairs : List StackPair} {block : List Operation}
    {pair : StackPair} (done : Balanced depth pairs block (machine.pushed pair) inner) :
    ∀ other ∈ pair :: pairs,
      (inner.popped pair).store.getStackPair other = machine.store.getStackPair other := by
  intro other member
  have loaded : (inner.popped pair).store = (inner.past (.pop pair)).store.drop.setStackPair pair
      (machine.store.getStackPair pair) := by
    -- The word on top is still the one that was pushed.
    have word : inner.store.top = machine.store.getStackPair pair :=
      (done.top shallow).trans (Store.top_push _ _)
    rw [← word]
    rfl
  rw [loaded]
  by_cases same : other = pair
  · -- The pair itself is loaded with its own word.
    rw [same, Store.getStackPair_setStackPair]
  · -- The block has restored the other pair, and neither the push nor the pop concerns it.
    rw [Store.getStackPair_setStackPair_of_ne _ same]
    have kept := done.restored other ((List.mem_cons.mp member).resolve_left same)
    cases other <;> exact kept

/-- A block between a push and a pop is balanced as a whole. -/
theorem Balanced.bracket {machine inner : Machine δ} {depth : Nat} (shallow : depth + 2 ≤ 65536)
    {pairs : List StackPair} {block : List Operation} {pair : StackPair}
    (done : Balanced depth pairs block (machine.pushed pair) inner) :
    Balanced (depth + 2) (pair :: pairs) (.push pair :: block ++ [.pop pair]) machine
      (inner.popped pair) := by
  -- The pop sets one pair and moves the stack pointer.
  have framed := Store.framed_setStackPair (inner.past (.pop pair)).store.drop pair inner.store.top
  have size : codeSize (.push pair :: block ++ [.pop pair]) = 1 + codeSize block + 1 := by
    rw [codeSize_append]
    rfl
  have cycles : codeCycles (.push pair :: block ++ [.pop pair]) =
      (Operation.push pair).cycles + codeCycles block + (Operation.pop pair).cycles := by
    rw [codeCycles_append]
    rfl
  refine { takes := ?takes, sp := ?sp, pc := ?pc, memory := ?memory, restored := ?restored }
  case takes =>
    -- The push and the pop have fixed costs.
    have push : Takes (Operation.push pair).cycles machine (machine.pushed pair) :=
      takes_past machine _ (UInt64.add_zero _)
    have pop : Takes (Operation.pop pair).cycles inner (inner.popped pair) :=
      takes_past inner _ (UInt64.add_zero _)
    rw [cycles]
    exact (push.trans done.takes).trans pop
  case sp =>
    -- The push moves the stack pointer down, and the pop moves it up again.
    calc (inner.popped pair).registers.sp
        = inner.registers.sp + 2 := framed.sp
      _ = machine.registers.sp - 2 + 2 := by rw [done.sp]; rfl
      _ = machine.registers.sp := UInt16.sub_add_cancel _ _
  case pc =>
    -- The push and the pop are one byte each.
    calc (inner.popped pair).registers.pc
        = inner.registers.pc + 1 := framed.pc
      _ = machine.registers.pc + 1 + .ofNat (codeSize block) + 1 := by rw [done.pc]; rfl
      _ = machine.registers.pc + .ofNat (codeSize (.push pair :: block ++ [.pop pair])) := by
        rw [size, UInt16.ofNat_add, UInt16.ofNat_add, ← UInt16.add_assoc, ← UInt16.add_assoc]
        rfl
  case memory =>
    -- The pop writes nothing, the block stays below the word, and the push writes the word.
    intro address outside
    calc (inner.popped pair).memory.read address
        = inner.memory.read address := congrArg (·.read address) framed.memory
      _ = (machine.pushed pair).memory.read address :=
        done.memory address fun below => outside below.of_pushed
      _ = machine.memory.read address :=
        Memory.read_writeWord _ _ fun inside => outside (.of_top depth inside)
  case restored => exact done.restored_popped shallow

section Neutral

variable [Device δ]

variable (δ) in
/-- Whatever machine executes the block, it is balanced afterwards. -/
def Neutral (depth : Nat) (pairs : List StackPair) (block : List Operation) : Prop :=
  ∀ machine : Machine δ, machine.Ready depth block →
    Balanced depth pairs block machine (machine.ticks block.length)

/-- Two neutral blocks in a row are neutral. -/
theorem Neutral.append {depth : Nat} {pairs : List StackPair} {front back : List Operation}
    (before : Neutral δ depth pairs front) (after : Neutral δ depth pairs back) :
    Neutral δ depth pairs (front ++ back) := by
  intro machine ready
  -- What the front leaves is ready for the back.
  have middle := before machine ready.front
  rw [List.length_append, ticks_add]
  exact middle.trans (after _ (ready.back middle))

/-- A straight operation is neutral without any stack. -/
theorem neutral_straight {operation : Operation} (straight : operation.Straight) :
    Neutral δ 0 [] [operation] := by
  intro machine ready
  -- One tick executes the operation, which stays within the frame.
  obtain ⟨internal, running⟩ := straight.internal
  obtain ⟨operand, moved⟩ := next_of_internal ready.idle ready.holds running internal
  have framed := Operation.framed_transform straight operand (machine.past operation).store
  show Balanced 0 [] [operation] machine machine.next
  -- A block of one operation takes its cycles.
  have cycles : codeCycles [operation] = operation.cycles := UInt64.add_zero _
  rw [moved]
  exact
    { takes := by rw [cycles]; exact takes_past machine _ (Operation.cost_of_straight straight _)
      sp := framed.sp
      pc := framed.pc
      memory := fun address _ => congrArg (·.read address) framed.memory
      restored := nofun }

/-- So is any run of straight operations. -/
theorem neutral_of_straight {body : List Operation}
    (straight : ∀ operation ∈ body, operation.Straight) : Neutral δ 0 [] body := by
  -- The operations are done one after the other.
  induction body with
  | nil => exact fun machine _ => .refl 0 [] machine
  | cons operation rest ih =>
    have first := neutral_straight (δ := δ) (straight operation (by simp))
    exact first.append (ih fun other member => straight other (List.mem_cons_of_mem _ member))

/-- A push at the program counter is executed. -/
theorem next_of_push {machine : Machine δ} {pair : StackPair} {rest : List Operation}
    (idle : machine.pending = none) (holds : machine.Holds (.push pair :: rest)) :
    machine.next = machine.pushed pair := by
  -- The tick executes an internal operation.
  obtain ⟨operand, moved⟩ := next_of_internal idle holds nofun (by simp [Operation.Internal])
  rw [moved, Operation.transform]
  cases pair <;> rfl

/-- A pop at the program counter is executed. -/
theorem next_of_pop {machine : Machine δ} {pair : StackPair} {rest : List Operation}
    (idle : machine.pending = none) (holds : machine.Holds (.pop pair :: rest)) :
    machine.next = machine.popped pair := by
  -- What is popped is the word on top before the tick.
  obtain ⟨operand, moved⟩ := next_of_internal idle holds nofun (by simp [Operation.Internal])
  rw [moved, Operation.transform]
  rfl

/-- A push before a neutral block and a pop after it are neutral, and restore one more pair. -/
theorem Neutral.bracket {depth : Nat} (shallow : depth + 2 ≤ 65536) {pairs : List StackPair}
    {block : List Operation} (inner : Neutral δ depth pairs block) (pair : StackPair) :
    Neutral δ (depth + 2) (pair :: pairs) (.push pair :: block ++ [.pop pair]) := by
  intro machine ready
  -- After the push the block and the pop are left to execute.
  have inside : (machine.pushed pair).Ready depth (block ++ [.pop pair]) := ready.pushed
  have done := inner (machine.pushed pair) inside.front
  have behind := inside.back done
  -- The ticks are those of the push, of the block and of the pop.
  have ticks : machine.ticks (Operation.push pair :: block ++ [Operation.pop pair]).length =
      ((machine.pushed pair).ticks block.length).popped pair := by
    rw [← next_of_pop behind.idle behind.holds, ← next_of_push ready.idle ready.holds,
      List.cons_append, List.length_cons, List.length_append, Nat.add_comm, ticks_add, ticks_add]
    rfl
  rw [ticks]
  exact done.bracket shallow

end Neutral

end Machine

end Intel8080
