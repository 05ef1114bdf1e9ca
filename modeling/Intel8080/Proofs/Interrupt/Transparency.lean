import Intel8080.Device.Probe
import Intel8080.Proofs.Machine.Block

/-!
A handler that saves what it uses is invisible to the program it interrupts.

It leaves its traces in the ten bytes below the stack pointer and in the cycles alone.
-/

namespace Intel8080

/-- The four pairs determine the working registers and the flags. -/
theorem Registers.eq_of_pairs {left right : Registers} (psw : left.psw = right.psw)
    (bc : left.bc = right.bc) (de : left.de = right.de) (hl : left.hl = right.hl)
    (sp : left.sp = right.sp) (pc : left.pc = right.pc) : left = right := by
  -- A word determines its halves, and the status byte determines the flags.
  have halves {high low high' low' : UInt8} (same : word high low = word high' low') :
      high = high' ∧ low = low' :=
    ⟨by simpa using congrArg highByte same, by simpa using congrArg lowByte same⟩
  obtain ⟨a, status⟩ := halves psw
  obtain ⟨b, c⟩ := halves bc
  obtain ⟨d, e⟩ := halves de
  obtain ⟨h, l⟩ := halves hl
  have flags : left.flags = right.flags := by simpa using congrArg Flags.ofByte status
  -- With equal fields the registers are equal.
  cases left
  cases right
  congr

/-- The body of a handler between pushes of every register and the pops of them. -/
def saved (body : List Operation) : List Operation :=
  [.push .psw, .push .bc, .push .de, .push .hl] ++ body ++
    [.pop .hl, .pop .de, .pop .bc, .pop .psw]

/-- A handler that restores every register, enables interrupts and returns. -/
def handler (body : List Operation) : List Operation :=
  saved body ++ [.ei, .ret]

namespace Machine

variable {δ : Type} [Device δ]

/-- The machine as a tick would leave it with no request waiting. -/
def undisturbed (machine : Machine δ) : Machine δ :=
  machine.withoutRequest.next

variable (δ) in
/-- Between the pushes and the pops, straight operations disturb no register. -/
theorem neutral_saved {body : List Operation} (straight : ∀ operation ∈ body, operation.Straight) :
    Neutral δ 8 [.psw, .bc, .de, .hl] (saved body) := by
  -- Four brackets, the innermost first.
  have brackets := ((((neutral_of_straight (δ := δ) straight).bracket (by decide) .hl).bracket
    (by decide) .de).bracket (by decide) .bc).bracket (by decide) .psw
  have same : saved body = .push .psw :: (.push .bc :: (.push .de :: (.push .hl :: body ++
      [.pop .hl]) ++ [.pop .de]) ++ [.pop .bc]) ++ [.pop .psw] := by
    simp [saved]
  rw [same]
  exact brackets

omit [Device δ] in
/-- A saved block leaves the registers as it found them, except that the program goes on. -/
theorem Balanced.registers {before after : Machine δ} {depth : Nat} {block : List Operation}
    (done : Balanced depth [.psw, .bc, .de, .hl] block before after) :
    after.registers = { before.registers with
      pc := before.registers.pc + .ofNat (codeSize block) } :=
  -- The pairs have been restored one by one, and the pointers are part of the balance.
  Registers.eq_of_pairs (done.restored .psw (by simp)) (done.restored .bc (by simp))
    (done.restored .de (by simp)) (done.restored .hl (by simp)) done.sp done.pc

omit [Device δ] in
/-- A handler apart from the stack can be executed once its restart is injected. -/
theorem ready_inject {machine : Machine δ} (idle : machine.pending = none) {line : Fin 8}
    {depth : Nat} {code : List Operation}
    (holds : machine.memory.Holds machine.policy (restartVector line) code)
    (apart : ∀ address, Below address machine.registers.sp (depth + 2) →
      ¬ Within address (restartVector line) (codeSize code)) :
    (machine.inject line).Ready depth code where
  -- The injection pushes two bytes, which lie apart from the handler as well.
  idle := idle
  holds := holds.congr fun place inside =>
    Memory.read_writeWord _ _ fun top => apart place (.of_top depth top) inside
  apart address below := apart address below.of_pushed

/-- EI and RET enable interrupts and continue at the word on the stack. -/
theorem ticks_ei_ret {machine : Machine δ} (idle : machine.pending = none)
    (holds : machine.Holds [.ei, .ret]) :
    machine.ticks 2 = { machine with
      registers := { machine.registers with
        sp := machine.registers.sp + 2
        pc := machine.store.top }
      cycles := machine.cycles + codeCycles [.ei, .ret]
      interruptsEnabled := true } := by
  -- The first tick switches interrupts on and moves to the return.
  have enabled := next_of_ei idle holds
  -- The return is still in memory.
  have last : machine.next.Holds [.ret] := by
    rw [enabled]
    exact holds.2
  obtain ⟨operand, returned⟩ :=
    next_of_internal (by rw [enabled]; exact idle) last nofun (by simp [Operation.Internal])
  -- The cycles of the two are charged one after the other.
  have cycles : machine.cycles + codeCycles [.ei, .ret] =
      machine.cycles + Operation.ei.cycles + Operation.ret.cycles := by
    rw [UInt64.add_assoc]
    rfl
  show machine.next.next = _
  rw [returned, enabled, cycles]
  rfl

/--
A program interrupted by a handler that saves what it uses goes on as if nothing had happened.

The service and the handler end in the machine that the tick alone would have left, but for the ten
bytes below its stack pointer, the interrupt switch and the cycles.
-/
theorem handler_transparent (machine : Machine δ) {line : Fin 8} {body : List Operation}
    (waiting : machine.pending = some line) (runs : ¬ machine.Halts)
    (straight : ∀ operation ∈ body, operation.Straight)
    (holds : machine.undisturbed.memory.Holds machine.undisturbed.policy (restartVector line)
      (handler body))
    (apart : ∀ address, Below address machine.undisturbed.registers.sp 10 →
      ¬ Within address (restartVector line) (codeSize (handler body))) :
    ∃ memory : Memory,
      machine.ticks (1 + (handler body).length) =
        { machine.undisturbed with
          memory := memory
          interruptsEnabled := true
          cycles := machine.undisturbed.cycles + 11 + codeCycles (handler body) } ∧
      machine.undisturbed.pending = none ∧
      ∀ address, ¬ Below address machine.undisturbed.registers.sp 10 →
        memory.read address = machine.undisturbed.memory.read address := by
  -- The tick alone leaves nothing waiting.
  have idle : machine.undisturbed.pending = none :=
    machine.withoutRequest.pending_next_of_runs runs
  -- With the request it ends in the injection of the restart.
  have entered : machine.next = machine.undisturbed.inject line :=
    machine.next_of_request runs waiting
  -- The saved body uses eight bytes below the return address.
  have ready : (machine.undisturbed.inject line).Ready 8 (handler body) :=
    ready_inject idle holds apart
  -- Between the pushes and the pops the body disturbs nothing.
  have done := neutral_saved δ straight (machine.undisturbed.inject line) ready.front
  have behind := ready.back done
  -- One tick serves the request, and the others execute the handler.
  have ticks : machine.ticks (1 + (handler body).length) =
      ((machine.undisturbed.inject line).ticks (saved body).length).ticks 2 := by
    rw [← entered, handler, List.length_append, ticks_add, ticks_add]
    rfl
  rw [ticks, ticks_ei_ret behind.idle behind.holds]
  generalize (machine.undisturbed.inject line).ticks (saved body).length = inner at done
  -- Above them lies the return address, to which RET continues.
  have top : inner.store.top = machine.undisturbed.registers.pc :=
    (done.top (by decide)).trans (Memory.readWord_writeWord _ _ _)
  -- The return brings back the stack pointer and the program counter.
  have registers : { inner.registers with
      sp := inner.registers.sp + 2
      pc := machine.undisturbed.registers.pc } = machine.undisturbed.registers := by
    rw [done.registers]
    simp [inject]
  -- The restart, the body and the return are charged one after the other.
  have cycles : inner.cycles + codeCycles [.ei, .ret] =
      machine.undisturbed.cycles + 11 + codeCycles (handler body) := by
    rw [congrArg (·.cycles) done.takes, handler, codeCycles_append, ← UInt64.add_assoc]
    rfl
  -- What is left to compare is untouched by the handler.
  refine ⟨inner.memory, ?_, idle, fun address outside => ?_⟩
  · rw [top, registers, cycles, done.takes]
    rfl
  · calc inner.memory.read address
        = (machine.undisturbed.inject line).memory.read address :=
          done.memory address fun below => outside below.of_pushed
      _ = machine.undisturbed.memory.read address :=
          Memory.read_writeWord _ _ fun inside => outside (.of_top 8 inside)

/-- A handler at the vector of line 1 that loads B and clears the accumulator. -/
def savingHandler : List Instruction :=
  [⟨0xF5, 0⟩, ⟨0xC5, 0⟩, ⟨0xD5, 0⟩, ⟨0xE5, 0⟩, ⟨0x06, 0x2A⟩, ⟨0xAF, 0⟩,
    ⟨0xE1, 0⟩, ⟨0xD1, 0⟩, ⟨0xC1, 0⟩, ⟨0xF1, 0⟩, ⟨0xFB, 0⟩, ⟨0xC9, 0⟩]

/-- A machine with that handler, about to execute a NOP when line 1 asks for it. -/
def interruptedNop : Machine Probe :=
  (start { memory := Memory.zero.load 0x0008 (savingHandler.flatMap Instruction.encode) }
    0x0100).after [.interrupt 0xCF]

/-- The NOP and then the handler are executed, and the program goes on behind the NOP. -/
theorem interruptedNop_transparent :
    interruptedNop.Reachable ∧ interruptedNop.pending = some 1 ∧ ¬ interruptedNop.Halts ∧
      ∃ memory : Memory,
        interruptedNop.ticks 13 =
          { interruptedNop.undisturbed with
            memory := memory
            interruptsEnabled := true
            cycles := interruptedNop.undisturbed.cycles + 11 + 109 } ∧
        interruptedNop.undisturbed.pending = none ∧
        ∀ address, ¬ Below address interruptedNop.undisturbed.registers.sp 10 →
          memory.read address = interruptedNop.undisturbed.memory.read address := by
  have bytes : (savingHandler.flatMap Instruction.encode).length = 13 := by decide
  -- The program is a NOP outside of the handler.
  have opcode : interruptedNop.opcode = 0 := by
    have outside : ¬ Within 0x0100 0x0008 (savingHandler.flatMap Instruction.encode).length := by
      rw [bytes]
      decide
    exact (Memory.read_load _ outside).trans (Memory.read_zero _)
  have nop : interruptedNop.withoutRequest.Holds [.nop] := by
    have code : Operation.ofCode 0 = .nop := by decide
    have executed : interruptedNop.policy.Executes interruptedNop.opcode :=
      fun fault => absurd fault (by decide)
    exact ⟨⟨(congrArg Operation.ofCode opcode).trans code, executed⟩, trivial⟩
  have runs : ¬ interruptedNop.Halts := not_halts_of_holds nop (by decide)
  -- Without the request the tick is that NOP.
  have undisturbed : interruptedNop.undisturbed = interruptedNop.withoutRequest.past .nop := by
    obtain ⟨_, moved⟩ := next_of_internal rfl nop (by decide) (by simp [Operation.Internal])
    exact moved
  -- The handler stands at the vector.
  have holds : interruptedNop.undisturbed.memory.Holds interruptedNop.undisturbed.policy
      (restartVector 1) (handler [.mvi .b, .arithmetic .xra .a]) := by
    have operations : savingHandler.map Instruction.operation =
        handler [.mvi .b, .arithmetic .xra .a] := by decide
    rw [undisturbed, ← operations]
    exact Memory.holds_load _ (fun _ _ fault => absurd fault (by decide)) (by rw [bytes]; decide)
  -- The stack wraps around below zero, far above the handler.
  have apart : ∀ address, Below address interruptedNop.undisturbed.registers.sp 10 →
      ¬ Within address (restartVector 1) (codeSize (handler [.mvi .b, .arithmetic .xra .a])) := by
    intro address below
    rw [undisturbed] at below
    have stack : Within address (0 - 10) 10 := below
    have size : codeSize (handler [.mvi .b, .arithmetic .xra .a]) = 13 := rfl
    have vector : restartVector 1 = 0x0008 := rfl
    simp only [Within, UInt16.toNat_sub, UInt16.reduceToNat, size, vector] at stack ⊢
    omega
  -- Twelve instructions take their documented cycles.
  have cycles : codeCycles (handler [.mvi .b, .arithmetic .xra .a]) = 109 := rfl
  have final := handler_transparent interruptedNop rfl runs (by simp [Operation.Straight]) holds
    apart
  rw [cycles] at final
  exact ⟨⟨_, _, _, rfl⟩, rfl, runs, final⟩

end Machine

end Intel8080
