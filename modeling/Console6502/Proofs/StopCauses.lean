/-
  Why a step stops.

  The processor reaches the stack, page zero and the windows with addresses of its own making, and
  these are never refused.  So a step can stop at the cartridge only: at a byte that it cannot read
  or write there, at a byte of the vector table, or at an opcode that is not official.
  `Machine.Stops` lists these causes with all that is known about each of them, and
  `Exec.step_stops` says that there is no other.
-/
import Console6502.Proofs.AccessTrace
import Console6502.Proofs.BusCells
import Console6502.Proofs.ReturnTransparency

namespace Console6502

/-! ## Refusals come from the cartridge -/

theorem AddressRegion.le_of_cartridge {a : Word} (h : AddressRegion.of a = .cartridge) :
    0x4020 ≤ a := by
  unfold AddressRegion.of at h
  split at h
  · cases h
  split at h
  · cases h
  split at h
  · cases h
  split at h
  · cases h
  · bv_omega

variable {β : Type} [Board β]

namespace Bus

variable {b : Bus β} {a : Word}

/-- A read is refused by the cartridge, and the error names the address. -/
theorem refuses_read {e : BusFault} (h : b.read a = .error e) : 0x4020 ≤ a ∧ e = .read a := by
  refine ⟨?_, eq_read_of_error h⟩
  cases hr : AddressRegion.of a with
  | cartridge => exact AddressRegion.le_of_cartridge hr
  | ram | picture | sound | testMode =>
    rw [read, hr] at h
    cases h

theorem read_of_refused {r : Request} (hr : r.isWrite = false) (h : b.answer r = none) :
    0x4020 ≤ r.address ∧ b.read r.address = .error (.read r.address) := by
  cases hread : b.read r.address with
  | ok v =>
    rw [answer_of_read_ok hr hread] at h
    cases h
  | error e =>
    obtain ⟨ha, rfl⟩ := refuses_read hread
    exact ⟨ha, rfl⟩

/-- A write is refused by the board, or by an empty slot. -/
theorem board_refuses {v : Byte} (h : b.answer (.write a v) = none) :
    0x4020 ≤ a ∧ b.board.bind (Board.write? · a v) = none := by
  have ha := AddressRegion.le_of_cartridge (region_of_refused h)
  refine ⟨ha, ?_⟩
  cases hboard : b.board.bind (Board.write? · a v) with
  | none => rfl
  | some board =>
    have hwrite := write_cartridge (b := b) (a := a) (by bv_omega) v
    rw [hboard, Option.elim_some] at hwrite
    rw [answer_of_write_ok hwrite] at h
    cases h

end Bus

/-- Before a read there are only reads. -/
theorem Request.ReadsFirst.before {before after : List Request} {r : Request}
    (h : ReadsFirst (before ++ r :: after)) (hr : r.isWrite = false) :
    ∀ s ∈ before, s.isWrite = false := by
  intro s hs
  have hpair := (List.pairwise_append.mp h).2.2 s hs r (List.mem_cons_self ..)
  rw [hr] at hpair
  exact Bool.eq_false_iff.mpr fun hwrite => Bool.false_ne_true (hpair hwrite)

/-! ## Requests to the vector table -/

namespace Machine

/-- What is reached through a vector by the step from here: an NMI if one is pending; an IRQ if the
    line is asserted and not masked, or else by BRK.  The reset sequence is no step. -/
def GoesThrough (m : Machine β) : InterruptVector → Prop
  | .nmi => m.cpu.nmiPending = true
  | .irq =>
    (m.cpu.nmiPending = false ∧ m.cpu.irqLine = true ∧ m.cpu.status.interruptDisable = false) ∨
      m.IsAt .brk
  | .reset => False

end Machine

theorem Request.vector_of_bytes {v : InterruptVector} {a : Word} (a' : Word) (n : Nat) :
    .vector v a ∉ Request.bytes a' n := by
  induction n generalizing a' with
  | zero => exact List.not_mem_nil
  | succ n ih =>
    intro h
    rcases List.mem_cons.mp h with h | h
    · cases h
    · exact ih (a' + 1) h

theorem AddressingMode.vector_of_pointer {v : InterruptVector} {a : Word} (mode : AddressingMode)
    (c : Cpu) (b : Bus β) : .vector v a ∉ mode.pointer c b := by
  cases mode <;> simp [AddressingMode.pointer]

theorem Request.mem_vectorWord {v w : InterruptVector} {a : Word}
    (h : .vector v a ∈ Request.vectorWord w) : v = w ∧ (a = v.address ∨ a = v.address + 1) := by
  simp only [Request.vectorWord, List.mem_cons, Request.vector.injEq, List.not_mem_nil,
    or_false] at h
  rcases h with ⟨rfl, ha⟩ | ⟨rfl, ha⟩
  · exact ⟨rfl, .inl ha⟩
  · exact ⟨rfl, .inr ha⟩

/-- No operation but BRK reads the vector table. -/
theorem Operation.vector_of_reads {operation : Operation} {operand : Operand} {c : Cpu}
    {v : InterruptVector} {a : Word} (h : .vector v a ∈ operation.reads operand c) :
    operation = .brk ∧ .vector v a ∈ Request.vectorWord .irq := by
  have hoperand : .vector v a ∉ operand.reads := by
    cases operand <;> simp [Operand.reads]
  cases operation with
  | brk => exact ⟨rfl, h⟩
  | load | logic | add | subtract | compare | bitTest | modify => exact absurd h hoperand
  | pullA | pullStatus | returnFromCall | returnFromInterrupt =>
    simp [Operation.reads, Request.pullWord] at h
  | _ => cases h

/-- The plan of a step asks for a byte of the vector table only in an entry through that vector. -/
theorem Machine.goesThrough_of_plan {m : Machine β} {v : InterruptVector} {a : Word}
    (h : .vector v a ∈ m.cpu.plan m.bus) :
    m.GoesThrough v ∧ (a = v.address ∨ a = v.address + 1) := by
  unfold Cpu.plan at h
  cases hq : m.cpu.dueInterrupt with
  | some w =>
    rw [hq] at h
    have hword : .vector v a ∈ Request.vectorWord w := by
      simpa [Request.entry, Request.pushWord] using h
    obtain ⟨rfl, ha⟩ := Request.mem_vectorWord hword
    refine ⟨?_, ha⟩
    cases v with
    | nmi => exact m.cpu.dueInterrupt_eq_nmi_iff.mp hq
    | irq => exact .inl (m.cpu.dueInterrupt_eq_irq_iff.mp hq)
    | reset => exact absurd hq m.cpu.dueInterrupt_ne_reset
  | none =>
    rw [hq] at h
    cases hi : m.bus.instruction? m.cpu.pc with
    | none =>
      rw [hi] at h
      cases List.mem_singleton.mp h
    | some i =>
      rw [hi] at h
      have hreads : .vector v a ∈ i.operation.reads (i.operand m.cpu m.bus)
          (i.taken m.cpu m.bus) := by
        rcases List.mem_append.mp h with hbytes | h
        · exact absurd hbytes (Request.vector_of_bytes _ _)
        rcases List.mem_append.mp h with hpointer | h
        · exact absurd hpointer (i.mode.vector_of_pointer _ m.bus)
        rcases List.mem_append.mp h with hreads | hwrites
        · exact hreads
        · cases i.operation.writes_are_writes _ _ m.bus _ hwrites
      obtain ⟨hop, hirq⟩ := Operation.vector_of_reads hreads
      obtain ⟨rfl, ha⟩ := Request.mem_vectorWord hirq
      exact ⟨.inr ⟨hq, i, hi, hop⟩, ha⟩

/-! ## The causes -/

namespace Machine

/-- This access is the last of those that lead from `m` to `m'`. -/
def LastAccess (m m' : Machine β) (access : Access) : Prop :=
  ∃ before, m'.journal.accesses = m.journal.accesses ++ (before ++ [access])

/-- The causes for which the step from `m` stops with an error, `m'` being the machine that it
    leaves. -/
inductive Stops (m m' : Machine β) : CpuFault → Prop
  /-- The cartridge refuses a read, on the bus as it was before the step. -/
  | read {a : Word} (mapped : 0x4020 ≤ a) (refused : m.bus.read a = .error (.read a))
    (last : m.LastAccess m' (.read a none)) : Stops m m' (.read a)
  /-- The board refuses a write, or there is none. -/
  | write {a : Word} {v : Byte} (mapped : 0x4020 ≤ a)
    (refused : m'.bus.board.bind (Board.write? · a v) = none)
    (last : m.LastAccess m' (.write a v false)) : Stops m m' (.write a)
  /-- A byte of the vector that the step goes through cannot be read. -/
  | vector {v : InterruptVector} {a : Word} (through : m.GoesThrough v)
    (byte : a = v.address ∨ a = v.address + 1) (refused : m.bus.read a = .error (.read a))
    (last : m.LastAccess m' (.read a none)) : Stops m m' (.vector v a)
  /-- The byte at the program counter is no official opcode. -/
  | illegalOpcode {opcode : Byte} (quiet : m.cpu.dueInterrupt = none)
    (fetched : m.bus.read m.cpu.pc = .ok opcode) (illegal : Instruction.decode? opcode = none)
    (last : m.LastAccess m' (.read m.cpu.pc (some opcode))) :
    Stops m m' (.illegalOpcode opcode m.cpu.pc)

end Machine

/-- A step stops for one of these causes. -/
theorem Exec.step_stops {m m' : Machine β} {e : CpuFault} (h : step m = .error e m') :
    m.Stops m' e := by
  rcases accesses_of_error h with ⟨opcode, hq, hr, hd, rfl, -, hlast⟩ |
    ⟨before, r, after, hplan, hgrant, hrefused, rfl, hlast⟩
  · exact .illegalOpcode hq hr hd ⟨[], hlast⟩
  · have hfirst := m.cpu.readsFirst_plan m.bus
    rw [hplan] at hfirst
    -- a refused read comes before every write, so the bus is still the one from before the step
    have hbus : r.isWrite = false → m'.bus = m.bus := fun hread =>
      Bus.grant_of_reads (hfirst.before hread) hgrant
    cases r with
    | read a =>
      rw [hbus rfl] at hrefused
      obtain ⟨ha, hread⟩ := Bus.read_of_refused rfl hrefused
      exact .read ha hread ⟨_, hlast⟩
    | vector v a =>
      rw [hbus rfl] at hrefused
      obtain ⟨-, hread⟩ := Bus.read_of_refused rfl hrefused
      have hmem : .vector v a ∈ m.cpu.plan m.bus := by
        rw [hplan]
        exact List.mem_append_right before (List.mem_cons_self ..)
      obtain ⟨hthrough, hbyte⟩ := Machine.goesThrough_of_plan hmem
      exact .vector hthrough hbyte hread ⟨_, hlast⟩
    | write a v =>
      obtain ⟨ha, hboard⟩ := Bus.board_refuses hrefused
      exact .write ha hboard ⟨_, hlast⟩

end Console6502
