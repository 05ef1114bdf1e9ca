import Intel8080.Device.Probe
import Intel8080.Proofs.Machine.Code
import Intel8080.Proofs.Machine.Dispatch

/-!
Which bytes of the memory one tick reads, and which ones it writes.

Two machines that agree on what is read do the same, and no byte outside what is written changes.
-/

namespace Intel8080

/-! ### The addresses of an operation -/

namespace Operation

/-- Where an operation reads its data, apart from the bytes of the instruction itself. -/
def reads (registers : Registers) (operand : UInt16) : Operation → List UInt16
  | mov _ .m | arithmetic _ .m | inr .m | dcr .m => [registers.hl]
  | ldax .bc => [registers.bc]
  | ldax .de => [registers.de]
  | lda => [operand]
  | lhld => [operand, operand + 1]
  | pop _ | ret | xthl => [registers.sp, registers.sp + 1]
  | retIf condition =>
    if condition.holds registers.flags then [registers.sp, registers.sp + 1] else []
  | _ => []

/-- Where an operation writes. -/
def writes (registers : Registers) (operand : UInt16) : Operation → List UInt16
  | mov .m _ | mvi .m | inr .m | dcr .m => [registers.hl]
  | stax .bc => [registers.bc]
  | stax .de => [registers.de]
  | sta => [operand]
  | shld => [operand, operand + 1]
  | xthl => [registers.sp, registers.sp + 1]
  | push _ | call | rst _ => [registers.sp - 2, registers.sp - 1]
  | callIf condition =>
    if condition.holds registers.flags then [registers.sp - 2, registers.sp - 1] else []
  | _ => []

end Operation

/-- A range of two addresses is its start and the address after it. -/
theorem Within.mem_word {place address : UInt16} (inside : Within place address 2) :
    place ∈ [address, address + 1] := by
  -- The distance from the start is a remainder, and it is zero or one.
  have placeBound := place.toNat_lt
  have addressBound := address.toNat_lt
  simp only [Within, UInt16.toNat_sub] at inside
  simp only [List.mem_cons, List.not_mem_nil, or_false, ← UInt16.toNat_inj, UInt16.toNat_add,
    UInt16.reduceToNat]
  omega

/-! ### Memories that agree at certain addresses -/

namespace Memory

/-- Both memories hold the same byte at each of certain addresses. -/
def Agree (agreed : UInt16 → Prop) (left right : Memory) : Prop :=
  ∀ address, agreed address → left.read address = right.read address

section Agree

variable {agreed : UInt16 → Prop} {left right : Memory}

/-- Writing the same byte to both keeps them in agreement. -/
theorem Agree.write (agree : left.Agree agreed right) (address : UInt16) (value : UInt8) :
    (left.write address value).Agree agreed (right.write address value) := by
  -- At the address itself both now hold the value, and elsewhere what they held.
  intro place seen
  rw [read_write, read_write, agree place seen]

/-- So does writing the same word. -/
theorem Agree.writeWord (agree : left.Agree agreed right) (address value : UInt16) :
    (left.writeWord address value).Agree agreed (right.writeWord address value) :=
  (agree.write address _).write (address + 1) _

/-- Both read the same word where they agree on its two bytes. -/
theorem Agree.readWord (agree : left.Agree agreed right) {address : UInt16}
    (seen : ∀ place ∈ [address, address + 1], agreed place) :
    left.readWord address = right.readWord address := by
  -- The high byte of a word lies behind the low one.
  rw [Memory.readWord, Memory.readWord, agree address (seen _ (by simp)),
    agree (address + 1) (seen _ (by simp))]

end Agree

/-- Memories that agree on the bytes of an instruction hold the same one. -/
theorem fetch_congr {memory other : Memory} {address : UInt16}
    (agree : ∀ place, Within place address (memory.fetch address).operation.size →
      memory.read place = other.read place) :
    memory.fetch address = other.fetch address := by
  -- The size that the agreement reaches to depends on the code, which comes first.
  have code : memory.read address = other.read address := agree address (within_start address _)
  have size : (memory.fetch address).operation.size =
      1 + (Operation.ofCode (memory.read address)).width.count := by
    rw [Operation.size, Instruction.operation, code_fetch]
  rw [size] at agree
  -- The codes agree, so both take as many operand bytes.
  simp only [fetch, ← code]
  cases width : (Operation.ofCode (memory.read address)).width with
  | none => rfl
  | byte =>
    rw [width] at agree
    have byte := agree (address + 1) (within_second address 0)
    simp only [byte]
  | word =>
    rw [width] at agree
    have word : memory.readWord (address + 1) = other.readWord (address + 1) :=
      readWord_congr fun place inside => agree place (Within.of_later inside)
    simp only [word]

end Memory

/-! ### Stores with the same registers -/

namespace Store

/-- Both stores have the same registers, and their memories agree at certain addresses. -/
inductive Alike (agreed : UInt16 → Prop) : Store → Store → Prop
  | intro (registers : Registers) {left right : Memory} (agree : left.Agree agreed right) :
      Alike agreed ⟨registers, left⟩ ⟨registers, right⟩

section Alike

variable {agreed : UInt16 → Prop} {left right : Store}

/-- Locations read the same, provided the memory operand is agreed on. -/
theorem Alike.get (alike : Alike agreed left right) {location : Location}
    (seen : location = .m → agreed left.registers.hl) :
    left.get location = right.get location := by
  -- Every location but the memory operand is one of the shared registers.
  obtain ⟨registers, agree⟩ := alike
  cases location with
  | m => exact agree _ (seen rfl)
  | _ => rfl

/-- Writing the same byte to a location of both keeps them alike. -/
theorem Alike.set (alike : Alike agreed left right) (location : Location) (value : UInt8) :
    Alike agreed (left.set location value) (right.set location value) := by
  obtain ⟨registers, agree⟩ := alike
  cases location with
  | m => exact .intro registers (agree.write _ _)
  | _ => exact .intro _ agree

/-- So does a step on a location, provided the memory operand is agreed on. -/
theorem Alike.modify (alike : Alike agreed left right) {location : Location}
    (seen : location = .m → agreed left.registers.hl) (step : Flags → UInt8 → UInt8 × Flags) :
    Alike agreed (left.modify location step) (right.modify location step) := by
  -- The step sees the same flags and the same byte, and so gives the same result.
  have same := alike.get seen
  obtain ⟨registers, agree⟩ := alike
  simp only [Store.modify, same]
  exact Alike.set (.intro _ agree) location _

/-- So does arithmetic on the same operand. -/
theorem Alike.accumulate (alike : Alike agreed left right) (function : Arithmetic)
    (operand : UInt8) :
    Alike agreed (left.accumulate function operand) (right.accumulate function operand) := by
  obtain ⟨registers, agree⟩ := alike
  exact .intro _ agree

/-- So does pushing the same word. -/
theorem Alike.push (alike : Alike agreed left right) (value : UInt16) :
    Alike agreed (left.push value) (right.push value) := by
  obtain ⟨registers, agree⟩ := alike
  exact .intro _ (agree.writeWord _ _)

/-- So does continuing at the same address. -/
theorem Alike.jump (alike : Alike agreed left right) (target : UInt16) :
    Alike agreed (left.jump target) (right.jump target) := by
  obtain ⟨registers, agree⟩ := alike
  exact .intro _ agree

/-- So does calling the same address. -/
theorem Alike.call (alike : Alike agreed left right) (target : UInt16) :
    Alike agreed (left.call target) (right.call target) := by
  -- Both push the shared program counter.
  obtain ⟨registers, agree⟩ := alike
  exact (Alike.push (.intro registers agree) registers.pc).jump target

/-- So does returning, provided the word on the stack is agreed on. -/
theorem Alike.ret (alike : Alike agreed left right)
    (seen : ∀ place ∈ [left.registers.sp, left.registers.sp + 1], agreed place) :
    Alike agreed left.ret right.ret := by
  -- Both continue at the word that lies on top of the stack.
  obtain ⟨registers, agree⟩ := alike
  have same : (⟨registers, _⟩ : Store).top = (⟨registers, _⟩ : Store).top := agree.readWord seen
  simp only [Store.ret, same]
  exact Alike.jump (.intro _ agree) _

end Alike

/-- Writing a location changes at most the byte at HL. -/
theorem read_set (store : Store) {location : Location} (value : UInt8) {address : UInt16}
    (outside : location = .m → address ≠ store.registers.hl) :
    (store.set location value).memory.read address = store.memory.read address := by
  cases location with
  | m => exact (Memory.read_write _ _ _ _).trans (if_neg (outside rfl))
  | _ => rfl

/-- So does a step on a location. -/
theorem read_modify (store : Store) {location : Location} (step : Flags → UInt8 → UInt8 × Flags)
    {address : UInt16} (outside : location = .m → address ≠ store.registers.hl) :
    (store.modify location step).memory.read address = store.memory.read address :=
  (store.setFlags _).read_set _ outside

/-- Pushing a word changes at most the two bytes below the stack pointer. -/
theorem read_push (store : Store) (value : UInt16) {address : UInt16}
    (outside : address ∉ [store.registers.sp - 2, store.registers.sp - 1]) :
    (store.push value).memory.read address = store.memory.read address := by
  rw [← sub_two_add_one] at outside
  exact Memory.read_writeWord _ _ fun inside => outside inside.mem_word

end Store

namespace Operation

section Transform

variable {agreed : UInt16 → Prop} {left right : Store}

/-- An operation does the same to both stores if what it reads is agreed on. -/
theorem alike_transform {operation : Operation} {operand : UInt16}
    (alike : left.Alike agreed right)
    (seen : ∀ address ∈ operation.reads left.registers operand, agreed address) :
    (operation.transform operand left).Alike agreed (operation.transform operand right) := by
  -- The operations are sorted by what their results depend on.
  obtain @⟨registers, left, right, agree⟩ := alike
  have alike := Store.Alike.intro registers agree
  cases operation with
  | nop | hlt | output | input | ei | di => exact alike
  -- What these do depends on the registers and the operand alone.
  | rotate | cma | stc | cmc | xchg | sphl | pchl => exact .intro _ agree
  | lxi pair | inx pair | dcx pair | dad pair => cases pair <;> exact .intro _ agree
  | immediate function => exact alike.accumulate function _
  | daa =>
    have register : Location.a = .m → agreed registers.hl := nofun
    exact alike.modify register decimalAdjust
  | jump => exact alike.jump operand
  | jumpIf condition =>
    simp only [transform]
    split
    · exact alike.jump operand
    · exact alike
  -- The same goes for what these write.
  | mvi location => exact alike.set location _
  | stax pointer => cases pointer <;> exact .intro _ (agree.write _ _)
  | sta => exact .intro _ (agree.write _ _)
  | shld => exact .intro _ (agree.writeWord _ _)
  | push pair => cases pair <;> exact .intro _ (agree.writeWord _ _)
  | call => exact alike.call operand
  | callIf condition =>
    simp only [transform]
    split
    · exact alike.call operand
    · exact alike
  | rst line => exact alike.call _
  -- These read a byte, which both stores agree on.
  | mov target source =>
    have same : Store.get ⟨registers, left⟩ source = Store.get ⟨registers, right⟩ source :=
      alike.get (by rintro rfl; exact seen _ (by simp [reads]))
    simp only [transform, same]
    exact alike.set target _
  | arithmetic function source =>
    have same : Store.get ⟨registers, left⟩ source = Store.get ⟨registers, right⟩ source :=
      alike.get (by rintro rfl; exact seen _ (by simp [reads]))
    simp only [transform, same]
    exact alike.accumulate function _
  | inr location => exact alike.modify (by rintro rfl; exact seen _ (by simp [reads])) increment
  | dcr location => exact alike.modify (by rintro rfl; exact seen _ (by simp [reads])) decrement
  | ldax pointer =>
    have same : left.read (Store.getPointer ⟨registers, left⟩ pointer) =
        right.read (Store.getPointer ⟨registers, right⟩ pointer) := by
      cases pointer <;> exact agree _ (seen _ (by simp [reads, Store.getPointer]))
    simp only [transform, same]
    exact alike.set .a _
  | lda =>
    simp only [transform, agree operand (seen _ (by simp [reads]))]
    exact alike.set .a _
  -- And these read a word.
  | lhld =>
    simp only [transform, agree.readWord seen]
    exact .intro _ agree
  | pop pair =>
    simp only [transform, Store.top, agree.readWord seen]
    cases pair <;> exact .intro _ agree
  | xthl =>
    simp only [transform, Store.top, agree.readWord seen]
    exact .intro _ (agree.writeWord _ _)
  | ret => exact alike.ret seen
  | retIf condition =>
    simp only [transform, reads] at seen ⊢
    split
    · rename_i holds
      exact alike.ret (by simpa [holds] using seen)
    · exact alike

/-- An operation changes no byte outside what it writes. -/
theorem read_transform {operation : Operation} {operand : UInt16} {store : Store}
    {address : UInt16} (outside : address ∉ operation.writes store.registers operand) :
    (operation.transform operand store).memory.read address = store.memory.read address := by
  -- Those that write come first, each with its own target.
  cases operation with
  | mov target source => exact store.read_set _ (by rintro rfl; simpa [writes] using outside)
  | mvi target => exact store.read_set _ (by rintro rfl; simpa [writes] using outside)
  | inr location | dcr location =>
    exact store.read_modify _ (by rintro rfl; simpa [writes] using outside)
  | stax pointer =>
    have other : address ≠ store.getPointer pointer := by
      cases pointer <;> simpa [writes, Store.getPointer] using outside
    exact (Memory.read_write _ _ _ _).trans (if_neg other)
  | sta =>
    have other : address ≠ operand := by simpa [writes] using outside
    exact (Memory.read_write _ _ _ _).trans (if_neg other)
  | shld | xthl => exact Memory.read_writeWord _ _ fun inside => outside inside.mem_word
  | push | call | rst => exact store.read_push _ outside
  | callIf condition =>
    simp only [transform, writes] at outside ⊢
    split
    · rename_i holds
      exact store.read_push _ (by simpa [holds] using outside)
    · rfl
  -- Everything else leaves the memory alone.
  | jumpIf | retIf =>
    simp only [transform]
    split <;> rfl
  | lxi pair | inx pair | dcx pair | dad pair | pop pair => cases pair <;> rfl
  | ldax pointer => cases pointer <;> rfl
  | _ => rfl

end Transform

end Operation

/-! ### Ticks -/

/-- A device sees the memory and cannot change it. -/
theorem Bus.memory_output {δ : Type} [Device δ] (bus : Bus δ) (port value : UInt8)
    (registers : Registers) : (bus.output port value registers).1.memory = bus.memory := by
  -- At most its slot is replaced.
  unfold output
  split
  · rfl
  · split <;> rfl

/-- Nor can it when it is asked for a byte. -/
theorem Bus.memory_input {δ : Type} [Device δ] (bus : Bus δ) (port value : UInt8)
    (registers : Registers) : (bus.input port value registers).2.1.memory = bus.memory := by
  unfold input
  split
  · rfl
  · split <;> rfl

/-- A byte for a port without a device is lost. -/
theorem Bus.output_of_unbound {δ : Type} [Device δ] {bus : Bus δ} {port : UInt8}
    (unbound : bus.isBound port = false) (value : UInt8) (registers : Registers) :
    bus.output port value registers = (bus, []) := by
  -- Either the port has no slot, or its slot is free.
  unfold Bus.isBound Bus.device? at unbound
  unfold output
  cases located : slot? port with
  | none => rfl
  | some slot =>
    have free : bus.ports[slot] = none := by simpa [located] using unbound
    simp only [free]

/-- A port without a device gives back the byte offered. -/
theorem Bus.input_of_unbound {δ : Type} [Device δ] {bus : Bus δ} {port : UInt8}
    (unbound : bus.isBound port = false) (value : UInt8) (registers : Registers) :
    bus.input port value registers = (value, bus, []) := by
  unfold Bus.isBound Bus.device? at unbound
  unfold input
  cases located : slot? port with
  | none => rfl
  | some slot =>
    have free : bus.ports[slot] = none := by simpa [located] using unbound
    simp only [free]

namespace Machine

section Footprint

variable {δ : Type} (machine : Machine δ)

/-- The next instruction is a port access that a device hears of. -/
def ReachesDevice : Prop :=
  machine.instruction.operation ∈ [Operation.output, .input] ∧
    machine.isBound machine.instruction.byte = true

/-- The addresses of the next instruction, its operand included. -/
def InCode (address : UInt16) : Prop :=
  Within address machine.registers.pc machine.instruction.operation.size

/-- Where the next tick reads its data: nowhere if it halts. -/
def reads : List UInt16 :=
  if machine.Halts then []
  else machine.instruction.operation.reads machine.registers machine.instruction.operand

variable [Device δ]

/--
Where the next tick writes.

A request that it serves pushes a word below the stack pointer that the instruction leaves.
-/
def writes : List UInt16 :=
  if machine.Halts then []
  else
    machine.instruction.operation.writes machine.registers machine.instruction.operand ++
      if machine.pending.isSome then
        let sp := machine.withoutRequest.next.registers.sp
        [sp - 2, sp - 1]
      else []

/-- Executing an instruction changes the memory as its operation does, whatever a device does. -/
theorem memory_execute (instruction : Instruction) :
    (machine.execute instruction).1.memory =
      (instruction.operation.transform instruction.operand
        (machine.charge instruction).store).memory := by
  -- Port accesses and the switch have cases of their own, which transform nothing.
  unfold execute
  cases same : instruction.operation
  case output => exact Bus.memory_output _ _ _ _
  case input => exact Bus.memory_input _ _ _ _
  all_goals simp only [charge, same]; rfl

/-- A port access that no device hears of is only charged. -/
theorem execute_of_unbound {instruction : Instruction}
    (external : instruction.operation ∈ [Operation.output, .input])
    (unbound : machine.isBound instruction.byte = false) :
    (machine.execute instruction).1 = machine.charge instruction := by
  -- An input then gives back the accumulator, which keeps its value.
  simp only [List.mem_cons, List.not_mem_nil, or_false] at external
  unfold execute charge
  obtain same | same := external
  · simp only [same, Bus.output_of_unbound unbound]
  · simp only [same, Bus.input_of_unbound unbound]

/-- Without a request a tick changes no byte outside what its instruction writes. -/
theorem read_next_of_idle (runs : ¬ machine.Halts) (idle : machine.pending = none)
    {address : UInt16}
    (outside : address ∉
      machine.instruction.operation.writes machine.registers machine.instruction.operand) :
    machine.next.memory.read address = machine.memory.read address := by
  rw [machine.next_of_idle runs idle, memory_execute]
  exact Operation.read_transform outside

/-- A tick changes no byte outside what it writes. -/
theorem read_next {address : UInt16} (outside : address ∉ machine.writes) :
    machine.next.memory.read address = machine.memory.read address := by
  by_cases halts : machine.Halts
  · -- A machine that halts writes nothing.
    rw [machine.next_of_halts halts]
  · rw [writes, if_neg halts, List.mem_append, not_or] at outside
    cases waiting : machine.pending with
    | none => exact machine.read_next_of_idle halts waiting outside.1
    | some line =>
      -- The restart pushes its word on what the instruction leaves.
      rw [machine.next_of_request halts waiting]
      have below := outside.2
      rw [waiting] at below
      exact (machine.withoutRequest.next.store.read_push _ below).trans
        (machine.withoutRequest.read_next_of_idle halts rfl outside.1)

end Footprint

section Alike

variable {δ ε : Type} {agreed : UInt16 → Prop} {left : Machine δ} {right : Machine ε}

/--
Two machines in the same state under the same policy, whose memories agree at certain addresses.

Their devices can be of different kinds, and only one of them may list its instructions.
-/
structure Alike (agreed : UInt16 → Prop) (left : Machine δ) (right : Machine ε) : Prop where
  processor : left.toProcessor = right.toProcessor
  policy : left.policy = right.policy
  memory : left.memory.Agree agreed right.memory

/-- Their registers and memories are alike. -/
theorem Alike.store (alike : Alike agreed left right) : left.store.Alike agreed right.store := by
  -- A store has the registers of the processor, so only the memories can differ.
  have registers : left.registers = right.registers := congrArg (·.registers) alike.processor
  rw [Machine.store, Machine.store, registers]
  exact .intro _ alike.memory

/-- They stay alike with other registers and memories that are alike. -/
theorem Alike.withStore (alike : Alike agreed left right) {store other : Store}
    (stores : store.Alike agreed other) :
    Alike agreed (left.withStore store) (right.withStore other) := by
  -- The policy is no part of the store.
  obtain ⟨processor, policy, _⟩ := alike
  obtain ⟨registers, agree⟩ := stores
  refine ⟨?_, policy, agree⟩
  exact congrArg (fun kept : Processor => { kept with registers := registers }) processor

/-- Both are charged the same for the same instruction. -/
theorem Alike.charge (alike : Alike agreed left right) (instruction : Instruction) :
    Alike agreed (left.charge instruction) (right.charge instruction) := by
  -- The size comes from the code, and the cost also from the flags, which are the same.
  refine ⟨?_, alike.policy, alike.memory⟩
  exact congrArg (fun before : Processor => { before with
    registers := { before.registers with pc := before.registers.pc + instruction.size }
    cycles := before.cycles + instruction.operation.cost before.registers.flags }) alike.processor

/-- Without what waits they are alike still. -/
theorem Alike.withoutRequest (alike : Alike agreed left right) :
    Alike agreed left.withoutRequest right.withoutRequest :=
  ⟨congrArg (fun before : Processor => { before with pending := none }) alike.processor,
    alike.policy, alike.memory⟩

/-- The same position of the interrupt switch leaves them alike. -/
theorem Alike.switch (alike : Alike agreed left right) (enabled : Bool) :
    Alike agreed { left with interruptsEnabled := enabled }
      { right with interruptsEnabled := enabled } :=
  ⟨congrArg (fun before : Processor => { before with interruptsEnabled := enabled })
    alike.processor, alike.policy, alike.memory⟩

/-- So does the same restart. -/
theorem Alike.inject (alike : Alike agreed left right) (line : Fin 8) :
    Alike agreed (left.inject line) (right.inject line) := by
  -- The pushed address is the program counter, which is the same on both sides.
  have pushed := alike.withStore ((alike.store.call (restartVector line)))
  refine ⟨?_, alike.policy, pushed.memory⟩
  exact congrArg (fun before : Processor => { before with cycles := before.cycles + 11 })
    pushed.processor

/-- Serving a request leaves them alike. -/
theorem Alike.service (alike : Alike agreed left right) :
    Alike agreed left.service right.service := by
  -- What waits is part of the processor, so one request or none waits at both.
  have pending : left.pending = right.pending := congrArg (·.pending) alike.processor
  cases waiting : left.pending with
  | none =>
    rw [left.service_of_idle waiting, right.service_of_idle (pending ▸ waiting)]
    exact alike
  | some line =>
    rw [service_of_pending left waiting, service_of_pending right (pending ▸ waiting)]
    exact alike.withoutRequest.inject line

/-- Both are about to execute the same instruction if its bytes are agreed on. -/
theorem Alike.instruction (alike : Alike agreed left right)
    (code : ∀ address, left.InCode address → agreed address) :
    left.instruction = right.instruction := by
  -- Both fetch from the same address.
  have registers : left.registers = right.registers := congrArg (·.registers) alike.processor
  rw [Machine.instruction, Machine.instruction, ← registers]
  exact Memory.fetch_congr fun place inside => alike.memory place (code place inside)

/-- Then it halts both or neither. -/
theorem Alike.halts_iff (alike : Alike agreed left right)
    (code : ∀ address, left.InCode address → agreed address) : left.Halts ↔ right.Halts := by
  rw [Halts, Halts, ← code_instruction, ← code_instruction, alike.instruction code, alike.policy]

variable [Device δ] [Device ε]

/-- Executing the same instruction leaves them alike if its data is agreed on and unheard. -/
theorem Alike.execute (alike : Alike agreed left right) {instruction : Instruction}
    (seen : ∀ address ∈ instruction.operation.reads left.registers instruction.operand,
      agreed address)
    (quiet : instruction.operation ∈ [Operation.output, .input] →
      left.isBound instruction.byte = false ∧ right.isBound instruction.byte = false) :
    Alike agreed (left.execute instruction).1 (right.execute instruction).1 := by
  have charged := alike.charge instruction
  by_cases internal : instruction.operation.Internal
  · -- Paying moves neither HL nor the stack pointer, so that the data stays where it was.
    rw [execute_internal left instruction internal, execute_internal right instruction internal]
    exact charged.withStore (Operation.alike_transform charged.store seen)
  · -- The four others leave the memory alone, and an unbound port leaves the registers as well.
    rw [Operation.Internal, Decidable.not_not] at internal
    cases same : instruction.operation with
    | output | input =>
      obtain ⟨leftUnbound, rightUnbound⟩ := quiet (by simp [same])
      rw [execute_of_unbound left (by simp [same]) leftUnbound,
        execute_of_unbound right (by simp [same]) rightUnbound]
      exact charged
    | ei | di =>
      simp only [Machine.charge, Machine.execute, same] at charged ⊢
      exact charged.switch _
    | _ => simp [same] at internal

section Tick

variable (alike : Alike agreed left right) (leftQuiet : ¬ left.ReachesDevice)
  (rightQuiet : ¬ right.ReachesDevice) (code : ∀ address, left.InCode address → agreed address)
  (data : ∀ address ∈ left.reads, agreed address)

include alike leftQuiet rightQuiet code data

/-- A tick leaves them alike if what it reads is agreed on and no device hears of it. -/
theorem Alike.next : Alike agreed left.next right.next := by
  -- Both have the same instruction before them, which halts both or neither.
  have same := alike.instruction code
  by_cases halts : left.Halts
  · rw [left.next_of_halts halts, right.next_of_halts ((alike.halts_iff code).mp halts)]
    exact ⟨congrArg (fun before : Processor => { before with halted := true }) alike.processor,
      alike.policy, alike.memory⟩
  · have runs : ¬ right.Halts := halts ∘ (alike.halts_iff code).mpr
    have quiet : left.instruction.operation ∈ [Operation.output, .input] →
        left.isBound left.instruction.byte = false ∧
          right.isBound left.instruction.byte = false := by
      intro external
      rw [ReachesDevice, not_and] at leftQuiet rightQuiet
      rw [← same] at rightQuiet
      exact ⟨by simpa using leftQuiet external, by simpa using rightQuiet external⟩
    -- What they read is what the instruction reads, since serving a request reads nothing.
    rw [reads, if_neg halts] at data
    rw [left.next_of_runs halts, right.next_of_runs runs, ← same]
    exact (alike.execute data quiet).service

/-- It writes to the same addresses of both. -/
theorem Alike.writes : left.writes = right.writes := by
  -- The stack pointer that a restart pushes below is the one after the instruction alone.
  have same := alike.instruction code
  have registers : left.registers = right.registers := congrArg (·.registers) alike.processor
  have pending : left.pending = right.pending := congrArg (·.pending) alike.processor
  have idle : left.withoutRequest.next.registers = right.withoutRequest.next.registers :=
    congrArg (·.registers)
      (alike.withoutRequest.next leftQuiet rightQuiet code data).processor
  simp only [Machine.writes, alike.halts_iff code, same, registers, pending, idle]

end Tick

end Alike

/--
A tick is local.

Take two machines in the same state under the same policy that agree on the bytes of the next
instruction and on the data it reads, and let no device hear of it. After one tick they are again in
the same state and agree wherever they agreed, and neither memory has changed outside what the tick
writes.
-/
theorem tick_local {δ ε : Type} [Device δ] [Device ε] {left : Machine δ} {right : Machine ε}
    (processor : left.toProcessor = right.toProcessor) (policy : left.policy = right.policy)
    (leftQuiet : ¬ left.ReachesDevice) (rightQuiet : ¬ right.ReachesDevice)
    (code : ∀ address, left.InCode address →
      left.memory.read address = right.memory.read address)
    (data : ∀ address ∈ left.reads, left.memory.read address = right.memory.read address) :
    left.next.toProcessor = right.next.toProcessor ∧ left.next.policy = right.next.policy ∧
      (∀ address, left.memory.read address = right.memory.read address →
        left.next.memory.read address = right.next.memory.read address) ∧
      ∀ address ∉ left.writes,
        left.next.memory.read address = left.memory.read address ∧
          right.next.memory.read address = right.memory.read address := by
  -- The addresses followed are exactly those where both agree at first.
  have alike : Alike (fun address => left.memory.read address = right.memory.read address)
      left right := ⟨processor, policy, fun _ same => same⟩
  obtain ⟨processorAfter, policyAfter, agree⟩ := alike.next leftQuiet rightQuiet code data
  have writes := alike.writes leftQuiet rightQuiet code data
  exact ⟨processorAfter, policyAfter, agree, fun address outside =>
    ⟨left.read_next outside, right.read_next (writes ▸ outside)⟩⟩

/-- A machine about to exchange HL with the word across the top of memory, a request waiting. -/
def exchangingMachine (other : UInt8) : Machine Probe :=
  { toProcessor :=
      { registers := { sp := 0xFFFF, pc := 0x0100 }
        interruptsEnabled := false
        pending := restart? 0xCF }
    toBus := { memory := (Memory.zero.load 0x0100 [0xE3]).write 0x2000 other } }

/-- The exchange and the restart neither see a byte elsewhere nor change it. -/
theorem exchangingMachine_local :
    (exchangingMachine 0xAA).toProcessor = (exchangingMachine 0x55).toProcessor ∧
      (exchangingMachine 0xAA).policy = (exchangingMachine 0x55).policy ∧
      ¬ (exchangingMachine 0xAA).ReachesDevice ∧ ¬ (exchangingMachine 0x55).ReachesDevice ∧
      (exchangingMachine 0xAA).reads = [0xFFFF, 0x0000] ∧
      (exchangingMachine 0xAA).writes = [0xFFFF, 0x0000, 0xFFFD, 0xFFFE] ∧
      (exchangingMachine 0xAA).next.toProcessor = (exchangingMachine 0x55).next.toProcessor ∧
      (exchangingMachine 0xAA).next.memory.read 0x2000 = 0xAA ∧
      (exchangingMachine 0x55).next.memory.read 0x2000 = 0x55 := by
  -- The byte that differs is no part of the code.
  have code (other : UInt8) : (exchangingMachine other).opcode = 0xE3 := by
    simp [exchangingMachine, opcode, Memory.load, Memory.read_write]
  have holds (other : UInt8) : (exchangingMachine other).Holds [.xthl] :=
    holds_of_opcode (code other) (by decide)
  have exchanges (other : UInt8) : (exchangingMachine other).instruction.operation = .xthl :=
    operation_of_holds (holds other)
  have runs (other : UInt8) : ¬ (exchangingMachine other).Halts :=
    not_halts_of_holds (holds other) (by decide)
  have quiet (other : UInt8) : ¬ (exchangingMachine other).ReachesDevice := by
    simp [ReachesDevice, exchanges]
  -- XTHL reads the word at the top of the stack, across the end of memory.
  have reads : (exchangingMachine 0xAA).reads = [0xFFFF, 0x0000] := by
    rw [Machine.reads, if_neg (runs _), exchanges]
    rfl
  -- It writes the same word, and the restart pushes another one below it.
  have writes : (exchangingMachine 0xAA).writes = [0xFFFF, 0x0000, 0xFFFD, 0xFFFE] := by
    have idle : (exchangingMachine 0xAA).withoutRequest.Holds [.xthl] := holds 0xAA
    obtain ⟨_, exchanged⟩ := next_of_internal rfl idle (by decide) (by decide)
    have sp : (exchangingMachine 0xAA).withoutRequest.next.registers.sp = 0xFFFF := by
      rw [exchanged]
      rfl
    rw [Machine.writes, if_neg (runs _), exchanges, sp]
    rfl
  -- The only difference lies outside the instruction and its data.
  have agree : ∀ address, address ≠ 0x2000 →
      (exchangingMachine 0xAA).memory.read address =
        (exchangingMachine 0x55).memory.read address := by
    intro address elsewhere
    simp [exchangingMachine, Memory.read_write, elsewhere]
  -- What follows are the conditions of a local tick, one by one.
  have same : (exchangingMachine 0xAA).toProcessor = (exchangingMachine 0x55).toProcessor := rfl
  have apart : ¬ (exchangingMachine 0xAA).InCode 0x2000 := by
    rw [InCode, exchanges]
    decide
  have unread : 0x2000 ∉ (exchangingMachine 0xAA).reads := by
    rw [reads]
    decide
  have unwritten : 0x2000 ∉ (exchangingMachine 0xAA).writes := by
    rw [writes]
    decide
  obtain ⟨processor, _, _, unchanged⟩ := tick_local same rfl (quiet _) (quiet _)
    (fun address inside => agree address fun place => apart (place ▸ inside))
    (fun address member => agree address fun place => unread (place ▸ member))
  obtain ⟨left, right⟩ := unchanged 0x2000 unwritten
  refine ⟨same, rfl, quiet _, quiet _, reads, writes, processor, ?_, ?_⟩
  · -- The byte that nothing reads or writes is still different.
    rw [left]
    exact (Memory.read_write _ _ _ _).trans (if_pos rfl)
  · rw [right]
    exact (Memory.read_write _ _ _ _).trans (if_pos rfl)

end Machine

end Intel8080
