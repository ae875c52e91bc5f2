/-
  Returning from interrupts and calls.

  An entry and a call leave the way back on the stack, and the two returns take it from there.  The
  stack is page one of RAM, with a pointer that wraps around in it, so the bytes that were pushed
  can be told from each other whatever the stack pointer was (`Bus.stack_of_pushWord`).  Whatever
  ran in between, a return finds its way back if the stack pointer and the pushed bytes are as the
  entry or the call left them.
-/
import Console6502.Proofs.InterruptLatch

namespace Console6502

/-! ## Cells of the stack -/

theorem Ram.index_stackCell (ram : Ram) (sp : Byte) :
    (ram.index (Cpu.stackCell sp)).val = 256 + sp.toNat := by
  have hsp := sp.isLt
  show (Cpu.stackCell sp - 0x0000).toNat % 0x0800 = _
  rw [show Cpu.stackCell sp - 0x0000 = Cpu.stackCell sp from BitVec.sub_zero _,
    Cpu.toNat_stackCell]
  omega

/-- No two stack pointers mean the same cell. -/
theorem Ram.index_stackCell_inj (ram : Ram) (s t : Byte) :
    ram.index (Cpu.stackCell s) = ram.index (Cpu.stackCell t) ↔ s = t := by
  rw [Fin.ext_iff, Ram.index_stackCell, Ram.index_stackCell, ← BitVec.toNat_inj]
  omega

namespace Status

/-- The break bit that was pushed makes no difference to what is pulled. -/
theorem ofStackByte_stackByte (s : Status) (brk : Bool) :
    ofStackByte (s.stackByte brk) = s.set .brk false := by
  obtain ⟨b⟩ := s
  revert b brk
  decide

/-- The status that was pushed comes back with the break bit clear and bit 5 set. -/
theorem toByte_ofStackByte_stackByte (s : Status) (brk : Bool) :
    (ofStackByte (s.stackByte brk)).toByte =
      s.toByte &&& ~~~Flag.brk.mask ||| Flag.alwaysOn.mask := by
  rw [ofStackByte_stackByte]
  rfl

end Status

variable {β : Type} [Board β]

namespace Bus

variable {b b' : Bus β}

theorem peek_stackCell (b : Bus β) (s : Byte) :
    b.peek (Cpu.stackCell s) = b.ram.read (Cpu.stackCell s) :=
  peek_of_read (read_of_ram (AddressRegion.of_stackCell s))

/-- A byte written to the stack is in its cell, and the other cells keep theirs. -/
theorem peek_of_stack_write {s : Byte} {v : Byte}
    (h : b.answer (.write (Cpu.stackCell s) v) = some b') (t : Byte) :
    b'.peek (Cpu.stackCell t) = if s = t then v else b.peek (Cpu.stackCell t) := by
  have hw := write_of_answer h
  rw [write_of_ram (AddressRegion.of_stackCell s)] at hw
  cases hw
  rw [peek_stackCell, peek_stackCell, Window.read_write]
  simp only [Ram.index_stackCell_inj]

/-- A pushed word lies below the stack pointer, high byte first; the other cells keep theirs. -/
theorem stack_of_pushWord {sp : Byte} {w : Word} (h : b.grant (Request.pushWord sp w) = some b')
    (t : Byte) :
    b'.peek (Cpu.stackCell t) =
      if sp - 1 = t then Word.low w
      else if sp = t then Word.high w
      else b.peek (Cpu.stackCell t) := by
  obtain ⟨b₁, hhigh, h⟩ := Option.bind_eq_some_iff.mp h
  obtain ⟨b₂, hlow, h⟩ := Option.bind_eq_some_iff.mp h
  obtain rfl := Option.some.inj h
  rw [peek_of_stack_write hlow, peek_of_stack_write hhigh]

/-- What an entry has pushed, by the stack pointer that it leaves. -/
theorem stack_of_entry {sp : Byte} {w : Word} {p : Byte}
    (h : b.grant (Request.pushWord sp w ++ [.write (Cpu.stackCell (sp - 2)) p]) = some b') :
    b'.peek (Cpu.stackCell (sp - 3 + 1)) = p ∧
      Word.ofBytes (b'.peek (Cpu.stackCell (sp - 3 + 2))) (b'.peek (Cpu.stackCell (sp - 3 + 3))) =
        w := by
  rw [grant_append] at h
  obtain ⟨b₁, hword, h⟩ := Option.bind_eq_some_iff.mp h
  obtain ⟨b₂, hstatus, h⟩ := Option.bind_eq_some_iff.mp h
  obtain rfl := Option.some.inj h
  have h1 : sp - 3 + 1 = sp - 2 := by bv_omega
  have h2 : sp - 3 + 2 = sp - 1 := by bv_omega
  have h3 : sp - 3 + 3 = sp := by bv_omega
  have hlow : sp - 2 ≠ sp - 1 := by bv_omega
  have hhigh : sp - 2 ≠ sp := by bv_omega
  have hword' : sp - 1 ≠ sp := by bv_omega
  rw [h1, h2, h3, peek_of_stack_write hstatus, peek_of_stack_write hstatus,
    peek_of_stack_write hstatus, if_pos rfl, if_neg hlow, if_neg hhigh, stack_of_pushWord hword,
    stack_of_pushWord hword, if_pos rfl, if_neg hword', if_pos rfl, Word.ofBytes_low_high]
  exact ⟨rfl, rfl⟩

/-- What a call has pushed, by the stack pointer that it leaves. -/
theorem stack_of_call {sp : Byte} {w : Word} (h : b.grant (Request.pushWord sp w) = some b') :
    Word.ofBytes (b'.peek (Cpu.stackCell (sp - 2 + 1))) (b'.peek (Cpu.stackCell (sp - 2 + 2))) =
      w := by
  have h1 : sp - 2 + 1 = sp - 1 := by bv_omega
  have h2 : sp - 2 + 2 = sp := by bv_omega
  have hword : sp - 1 ≠ sp := by bv_omega
  rw [h1, h2, stack_of_pushWord h, stack_of_pushWord h, if_pos rfl, if_neg hword, if_pos rfl,
    Word.ofBytes_low_high]

end Bus

/-! ## The way there -/

namespace Machine

/-- The step from here executes this operation. -/
def IsAt (m : Machine β) (operation : Operation) : Prop :=
  m.cpu.dueInterrupt = none ∧
    ∃ i, m.bus.instruction? m.cpu.pc = some i ∧ i.operation = operation

/-- The stack pointer and this many bytes above it are in `m₂` what they are in `m₁`. -/
def KeepsStack (m₁ m₂ : Machine β) (n : Nat) : Prop :=
  m₂.cpu.sp = m₁.cpu.sp ∧ ∀ k < n,
    m₂.bus.peek (Cpu.stackCell (m₁.cpu.sp + BitVec.ofNat 8 (k + 1))) =
      m₁.bus.peek (Cpu.stackCell (m₁.cpu.sp + BitVec.ofNat 8 (k + 1)))

/-- The stack holds the way back from an interrupt: a status and below it the place to go on at. -/
structure HoldsReturn (m : Machine β) (pc : Word) (p : Byte) : Prop where
  status : m.bus.stackByte m.cpu 1 = p
  pc : Word.ofBytes (m.bus.stackByte m.cpu 2) (m.bus.stackByte m.cpu 3) = pc

/-- The stack holds the way back from a call: the address of its last byte. -/
def HoldsCall (m : Machine β) (last : Word) : Prop :=
  Word.ofBytes (m.bus.stackByte m.cpu 1) (m.bus.stackByte m.cpu 2) = last

/-- Behind a return: the processor goes on at `pc` with this stack pointer and this status, with the
    registers and all of memory as they were. -/
structure ReturnedTo (m m' : Machine β) (pc : Word) (sp : Byte) (p : Byte) : Prop where
  pc : m'.cpu.pc = pc
  sp : m'.cpu.sp = sp
  status : m'.cpu.status.toByte = p
  a : m'.cpu.a = m.cpu.a
  x : m'.cpu.x = m.cpu.x
  y : m'.cpu.y = m.cpu.y
  bus : m'.bus = m.bus

variable {m m₁ m₂ : Machine β} {pc : Word} {p : Byte} {n : Nat}

theorem KeepsStack.stackByte (h : m₁.KeepsStack m₂ n) {k : Nat} (hk : k < n) :
    m₂.bus.stackByte m₂.cpu (BitVec.ofNat 8 (k + 1)) =
      m₁.bus.stackByte m₁.cpu (BitVec.ofNat 8 (k + 1)) := by
  rw [Bus.stackByte, Bus.stackByte, h.1]
  exact h.2 k hk

theorem HoldsReturn.of_keepsStack (h : m₁.HoldsReturn pc p) (hk : m₁.KeepsStack m₂ 3) :
    m₂.HoldsReturn pc p := by
  have h1 : m₂.bus.stackByte m₂.cpu 1 = m₁.bus.stackByte m₁.cpu 1 :=
    hk.stackByte (k := 0) (by decide)
  have h2 : m₂.bus.stackByte m₂.cpu 2 = m₁.bus.stackByte m₁.cpu 2 :=
    hk.stackByte (k := 1) (by decide)
  have h3 : m₂.bus.stackByte m₂.cpu 3 = m₁.bus.stackByte m₁.cpu 3 :=
    hk.stackByte (k := 2) (by decide)
  exact ⟨h1.trans h.status, by rw [h2, h3, h.pc]⟩

theorem HoldsCall.of_keepsStack (h : m₁.HoldsCall pc) (hk : m₁.KeepsStack m₂ 2) :
    m₂.HoldsCall pc := by
  have h1 : m₂.bus.stackByte m₂.cpu 1 = m₁.bus.stackByte m₁.cpu 1 :=
    hk.stackByte (k := 0) (by decide)
  have h2 : m₂.bus.stackByte m₂.cpu 2 = m₁.bus.stackByte m₁.cpu 2 :=
    hk.stackByte (k := 1) (by decide)
  rw [HoldsCall, h1, h2, h]

theorem Entered.holdsReturn {v : InterruptVector} (h : m.Entered m₁ v) :
    m₁.HoldsReturn m.cpu.pc (m.cpu.status.stackByte false) ∧ m₁.cpu.sp = m.cpu.sp - 3 := by
  have hsp : m₁.cpu.sp = m.cpu.sp - 3 := by
    rw [h.cpu]
    cases v <;> rfl
  have hgrant := h.bus
  rw [Request.entry, Bus.grant_append] at hgrant
  obtain ⟨b, hreads, hpushes⟩ := Option.bind_eq_some_iff.mp hgrant
  obtain rfl := Bus.grant_of_reads (Request.vectorWord_are_reads v) hreads
  obtain ⟨hstatus, hpc⟩ := Bus.stack_of_entry hpushes
  refine ⟨⟨?_, ?_⟩, hsp⟩
  · rw [Bus.stackByte, hsp, hstatus]
  · rw [Bus.stackByte, Bus.stackByte, hsp, hpc]

/-- Behind an instruction the bus has taken what its operation writes. -/
theorem IsAt.of_ok {operation : Operation} (h : m.IsAt operation)
    (hstep : Exec.step m = .ok n m₁) :
    ∃ i, Instruction.decode? i.opcode = some i ∧ i.operation = operation ∧
      m.bus.grant (operation.writes (i.operand m.cpu m.bus) (i.taken m.cpu m.bus) m.bus) =
        some m₁.bus ∧
      m₁.cpu = i.after m.cpu m.bus := by
  obtain ⟨hq, i, hi, rfl⟩ := h
  obtain ⟨hbus, ⟨v, hv, -⟩ | ⟨i', -, hi', -, hcpu⟩⟩ := Exec.step_ok_cases hstep
  · rw [hq] at hv
    cases hv
  · obtain rfl := Option.some.inj (hi.symm.trans hi')
    rw [Cpu.plan, hq, hi] at hbus
    exact ⟨i, (Bus.read_of_instruction? hi).2, rfl, Instruction.grant_writes hbus, hcpu⟩

end Machine

/-- The addressing modes of calls and returns. -/
theorem Instruction.mode_of_stack {opcode : Byte} {i : Instruction} (h : decode? opcode = some i) :
    (i.operation = .call → i.mode = .absolute) ∧
    (i.operation = .returnFromCall ∨ i.operation = .returnFromInterrupt → i.mode = .implied) :=
  of_decode? (P := fun i =>
    (i.operation = .call → i.mode = .absolute) ∧
    (i.operation = .returnFromCall ∨ i.operation = .returnFromInterrupt → i.mode = .implied))
    (by decide +kernel) h

namespace Machine

variable {m m₁ m₂ : Machine β} {pc : Word} {p : Byte} {n : Nat}

theorem IsAt.holdsReturn (h : m.IsAt .brk) (hstep : Exec.step m = .ok n m₁) :
    m₁.HoldsReturn (m.cpu.pc + 2) (m.cpu.status.stackByte true) ∧
      m₁.cpu.sp = m.cpu.sp - 3 := by
  obtain ⟨i, hd, hop, hpushes, hcpu⟩ := h.of_ok hstep
  have hmode := Instruction.mode_of_brk hd hop
  have htaken : i.taken m.cpu m.bus = m.cpu.begin i.opcode := by
    rw [Instruction.taken, hmode]
    rfl
  have hsp : m₁.cpu.sp = m.cpu.sp - 3 := by
    rw [hcpu, Instruction.after, hop, htaken]
    rfl
  rw [htaken] at hpushes
  obtain ⟨hstatus, hpc⟩ := Bus.stack_of_entry hpushes
  refine ⟨⟨?_, ?_⟩, hsp⟩
  · rw [Bus.stackByte, hsp]
    exact hstatus
  · rw [Bus.stackByte, Bus.stackByte, hsp, ← Word.add_one_add_one]
    exact hpc

theorem IsAt.holdsCall (h : m.IsAt .call) (hstep : Exec.step m = .ok n m₁) :
    m₁.HoldsCall (m.cpu.pc + 2) ∧ m₁.cpu.sp = m.cpu.sp - 2 := by
  obtain ⟨i, hd, hop, hpushes, hcpu⟩ := h.of_ok hstep
  have hmode := (Instruction.mode_of_stack hd).1 hop
  have htaken : (i.taken m.cpu m.bus).sp = m.cpu.sp ∧
      (i.taken m.cpu m.bus).pc - 1 = m.cpu.pc + 2 := by
    rw [Instruction.taken, hmode]
    refine ⟨rfl, ?_⟩
    show m.cpu.pc + 1 + 2 - 1 = m.cpu.pc + 2
    bv_omega
  have hsp : m₁.cpu.sp = m.cpu.sp - 2 := by
    rw [hcpu, Instruction.after, hop, ← htaken.1, Instruction.operand, hmode]
    rfl
  simp only [Operation.writes, htaken.1, htaken.2] at hpushes
  refine ⟨?_, hsp⟩
  rw [HoldsCall, Bus.stackByte, Bus.stackByte, hsp]
  exact Bus.stack_of_call hpushes

end Machine

/-! ## The way back -/

namespace Exec

variable {m : Machine β}

/-- A return asks for nothing but its opcode and bytes of the stack, so it succeeds. -/
theorem step_return {operation : Operation} (h : m.IsAt operation)
    (hreturn : operation = .returnFromCall ∨ operation = .returnFromInterrupt) :
    ∃ (i : Instruction) (n : Nat) (j : Journal), i.operation = operation ∧ i.mode = .implied ∧
      Exec.step m = .ok n ⟨i.after m.cpu m.bus, m.bus, j⟩ := by
  obtain ⟨hq, i, hi, rfl⟩ := h
  obtain ⟨hr, hd⟩ := Bus.read_of_instruction? hi
  have hmode := (Instruction.mode_of_stack hd).2 hreturn
  have hattempts : ∃ l, i.attempts m.cpu m.bus = l ∧
      ∀ t ∈ l, t.request.isWrite = false ∧ AddressRegion.of t.request.address = .ram := by
    refine ⟨_, rfl, ?_⟩
    rw [Instruction.attempts, hmode]
    rcases hreturn with hop | hop <;> rw [hop] <;>
      simp [AddressingMode.attempts, AddressingMode.operandBytes, AddressingMode.pointer,
        Cpu.fetches, Operation.attempts, Operation.reads, Operation.writes, Attempt.all,
        Request.pullWord, Request.isWrite, Request.address, AddressRegion.of_stackCell]
  obtain ⟨l, hl, hstack⟩ := hattempts
  have hserve := Bus.serve_cons_of_some (t := ⟨.read m.cpu.pc, m.cpu⟩)
    (Bus.answer_of_read_ok rfl hr) l
  have hfollows := step_instruction hq hi
  rw [hl] at hfollows
  obtain ⟨j, hok, -⟩ := hfollows.granted (by
    rw [hserve]
    exact Bus.serve_of_ram fun t ht => (hstack t ht).2)
  have hbus : (m.bus.serve l).bus = m.bus :=
    Bus.serve_bus_of_reads fun t ht => (hstack t ht).1
  rw [hserve, hbus] at hok
  exact ⟨i, _, j, rfl, hmode, hok⟩

/-- RTI goes on where the stack says, with the status from there. -/
theorem step_returnFromInterrupt {pc : Word} {p : Byte} (h : m.IsAt .returnFromInterrupt)
    (hstack : m.HoldsReturn pc p) :
    ∃ n m', Exec.step m = .ok n m' ∧
      m.ReturnedTo m' pc (m.cpu.sp + 3) (Status.ofStackByte p).toByte := by
  obtain ⟨i, n, j, hop, hmode, hok⟩ := step_return h (.inr rfl)
  have hafter : i.after m.cpu m.bus =
      Cpu.charge { m.cpu.begin i.opcode with
        sp := m.cpu.sp + 3
        status := .ofStackByte p
        pc := pc } (i.cycles m.cpu m.bus) := by
    rw [Instruction.after, Instruction.taken, hop, hmode, ← hstack.status, ← hstack.pc]
    rfl
  refine ⟨n, _, hok, ?_⟩
  rw [hafter]
  exact ⟨rfl, rfl, rfl, rfl, rfl, rfl, rfl⟩

/-- RTS goes on behind the address that the stack holds. -/
theorem step_returnFromCall {last : Word} (h : m.IsAt .returnFromCall)
    (hstack : m.HoldsCall last) :
    ∃ n m', Exec.step m = .ok n m' ∧
      m.ReturnedTo m' (last + 1) (m.cpu.sp + 2) m.cpu.status.toByte := by
  obtain ⟨i, n, j, hop, hmode, hok⟩ := step_return h (.inl rfl)
  have hafter : i.after m.cpu m.bus =
      Cpu.charge { m.cpu.begin i.opcode with sp := m.cpu.sp + 2, pc := last + 1 }
        (i.cycles m.cpu m.bus) := by
    rw [Instruction.after, Instruction.taken, hop, hmode, ← hstack]
    rfl
  refine ⟨n, _, hok, ?_⟩
  rw [hafter]
  exact ⟨rfl, rfl, rfl, rfl, rfl, rfl, rfl⟩

/-! ## There and back -/

/-- Behind an entry that pushed the place `pc` and a status, and with the pushed bytes kept, RTI goes
    back to `pc`. -/
theorem returns_from_entry {m m₁ m₂ : Machine β} {pc : Word} {brk : Bool}
    (hheld : m₁.HoldsReturn pc (m.cpu.status.stackByte brk)) (hsp : m₁.cpu.sp = m.cpu.sp - 3)
    (hkeeps : m₁.KeepsStack m₂ 3) (hat : m₂.IsAt .returnFromInterrupt) :
    ∃ n' m₃, Exec.step m₂ = .ok n' m₃ ∧
      m₂.ReturnedTo m₃ pc m.cpu.sp
        (m.cpu.status.toByte &&& ~~~Flag.brk.mask ||| Flag.alwaysOn.mask) := by
  obtain ⟨n', m₃, hok, hreturned⟩ := step_returnFromInterrupt hat (hheld.of_keepsStack hkeeps)
  rw [hkeeps.1, hsp, BitVec.sub_add_cancel, Status.toByte_ofStackByte_stackByte] at hreturned
  exact ⟨n', m₃, hok, hreturned⟩

/-- Let `m₁` be behind an interrupt entry, a BRK or a call from `m`, and `m₂` any machine whose
    stack pointer and pushed bytes are those of `m₁`.  A return from `m₂` succeeds and goes on
    where `m` was, for BRK behind its padding byte and for a call behind its operand, with the
    stack pointer of `m`.  Behind an interrupt or BRK the status is that of `m` with the break bit
    clear.  Registers and memory stay as they are in `m₂`, and behind a call the status too. -/
theorem return_transparency (m m₁ m₂ : Machine β) (n : Nat) (hstep : Exec.step m = .ok n m₁) :
    (∀ v, m.Enters v → m₁.KeepsStack m₂ 3 → m₂.IsAt .returnFromInterrupt →
      ∃ n' m₃, Exec.step m₂ = .ok n' m₃ ∧
        m₂.ReturnedTo m₃ m.cpu.pc m.cpu.sp
          (m.cpu.status.toByte &&& ~~~Flag.brk.mask ||| Flag.alwaysOn.mask)) ∧
    (m.IsAt .brk → m₁.KeepsStack m₂ 3 → m₂.IsAt .returnFromInterrupt →
      ∃ n' m₃, Exec.step m₂ = .ok n' m₃ ∧
        m₂.ReturnedTo m₃ (m.cpu.pc + 2) m.cpu.sp
          (m.cpu.status.toByte &&& ~~~Flag.brk.mask ||| Flag.alwaysOn.mask)) ∧
    (m.IsAt .call → m₁.KeepsStack m₂ 2 → m₂.IsAt .returnFromCall →
      ∃ n' m₃, Exec.step m₂ = .ok n' m₃ ∧
        m₂.ReturnedTo m₃ (m.cpu.pc + 3) m.cpu.sp m₂.cpu.status.toByte) := by
  refine ⟨?_, ?_, ?_⟩
  · intro v henters hkeeps hat
    rw [Machine.Enters, hstep] at henters
    obtain ⟨hheld, hsp⟩ := henters.2.holdsReturn
    exact returns_from_entry hheld hsp hkeeps hat
  · intro hbrk hkeeps hat
    obtain ⟨hheld, hsp⟩ := hbrk.holdsReturn hstep
    exact returns_from_entry hheld hsp hkeeps hat
  · intro hcall hkeeps hat
    obtain ⟨hheld, hsp⟩ := hcall.holdsCall hstep
    obtain ⟨n', m₃, hok, hreturned⟩ := step_returnFromCall hat (hheld.of_keepsStack hkeeps)
    rw [hkeeps.1, hsp, BitVec.sub_add_cancel, BitVec.add_assoc] at hreturned
    exact ⟨n', m₃, hok, hreturned⟩

end Exec

/-! ## A stack that wraps around -/

namespace Machine

/-- RTI, BRK, JSR $3000 and RTS lie in the picture registers, and the stack pointer is close to the
    end of its page. -/
def cornered (pc : Word) (nmi : Bool) : Machine Nrom where
  cpu := { pc, sp := 1, status := Status.set {} .carry true, nmiPending := nmi }
  bus :=
    { picture := (((PictureRegisters.zero.setCell 0 0x40).setCell 2 0x20).setCell 4 0x30).setCell
        5 0x60
      board := some (Nrom.ofImage #[0xEA] 0) }

/-- The machine some time later, with another accumulator. -/
def later (m : Machine Nrom) (pc : Word) : Machine Nrom :=
  { m with cpu := { m.cpu with a := 9, pc } }

/-- The pushes of an NMI, of BRK and of JSR wrap around, and the returns find the way back. -/
theorem cornered_returns :
    (∃ n m₁ n' m₃, Exec.step (cornered 0x1234 true) = .ok n m₁ ∧
      Exec.step (later m₁ 0x2000) = .ok n' m₃ ∧
      (later m₁ 0x2000).ReturnedTo m₃ 0x1234 1 0x21) ∧
    (∃ n m₁ n' m₃, Exec.step (cornered 0x2001 false) = .ok n m₁ ∧
      Exec.step (later m₁ 0x2000) = .ok n' m₃ ∧
      (later m₁ 0x2000).ReturnedTo m₃ 0x2003 1 0x21) ∧
    ∃ n m₁ n' m₃, Exec.step (cornered 0x2002 false) = .ok n m₁ ∧
      Exec.step (later m₁ 0x2005) = .ok n' m₃ ∧
      (later m₁ 0x2005).ReturnedTo m₃ 0x2005 1 0x21 := by
  refine ⟨?_, ?_, ?_⟩
  · obtain ⟨hentry, -, -⟩ := Exec.return_transparency (cornered 0x1234 true) _
      (later (stateAfter Exec.step (cornered 0x1234 true)) 0x2000) 7 rfl
    obtain ⟨n', m₃, hok, hreturned⟩ := hentry .nmi (enters_iff.mpr rfl) ⟨rfl, fun _ _ => rfl⟩
      ⟨rfl, _, rfl, rfl⟩
    exact ⟨7, _, n', m₃, rfl, hok, hreturned⟩
  · obtain ⟨-, hbrk, -⟩ := Exec.return_transparency (cornered 0x2001 false) _
      (later (stateAfter Exec.step (cornered 0x2001 false)) 0x2000) 7 rfl
    obtain ⟨n', m₃, hok, hreturned⟩ := hbrk ⟨rfl, _, rfl, rfl⟩ ⟨rfl, fun _ _ => rfl⟩
      ⟨rfl, _, rfl, rfl⟩
    exact ⟨7, _, n', m₃, rfl, hok, hreturned⟩
  · obtain ⟨-, -, hcall⟩ := Exec.return_transparency (cornered 0x2002 false) _
      (later (stateAfter Exec.step (cornered 0x2002 false)) 0x2005) 6 rfl
    obtain ⟨n', m₃, hok, hreturned⟩ := hcall ⟨rfl, _, rfl, rfl⟩ ⟨rfl, fun _ _ => rfl⟩
      ⟨rfl, _, rfl, rfl⟩
    exact ⟨6, _, n', m₃, rfl, hok, hreturned⟩

end Machine

end Console6502
