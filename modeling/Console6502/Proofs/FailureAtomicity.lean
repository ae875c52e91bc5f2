/-
  What a failed step leaves behind.

  Reads change nothing, and they come first.  What is then written to the stack is RAM, which
  refuses nothing.  So a step can only have changed the bus when it fails at the second write of a
  modification, and it changes registers and flags only behind its last request.
-/
import Console6502.Proofs.AccessTrace

namespace Console6502

/-! ## What reached the board -/

/-- What an access gave to the board to store, if it did. -/
def Access.store? : Access → Option (Word × Byte)
  | .write a v true => if AddressRegion.of a = .cartridge then some (a, v) else none
  | _ => none

/-- What the board was given to store, oldest first. -/
def Journal.stores (j : Journal) : List (Word × Byte) := j.accesses.filterMap Access.store?

theorem Journal.stores_of_accesses {j j' : Journal} {l : List Access}
    (h : j'.accesses = j.accesses ++ l) : j'.stores = j.stores ++ l.filterMap Access.store? := by
  rw [Journal.stores, h, List.filterMap_append]
  rfl

theorem Request.store?_refused (r : Request) : r.refused.store? = none := by
  cases r <;> rfl

theorem Request.fault_ne_illegalOpcode (r : Request) (opcode : Byte) (a : Word) :
    r.fault ≠ .illegalOpcode opcode a := by
  intro h
  cases r <;> cases h

variable {β : Type} [Board β]

theorem Request.store?_granted {r : Request} (h : r.isWrite = false) (b : Bus β) :
    (r.granted b).store? = none := by
  cases r with
  | write a v => cases h
  | read a | vector v a => rfl

namespace Bus

/-- How many of this many bytes, one behind the other, can be read before the first refusal. -/
def readable (b : Bus β) (a : Word) : Nat → Nat
  | 0 => 0
  | n + 1 =>
    match b.read a with
    | .ok _ => b.readable (a + 1) n + 1
    | .error _ => 0

/-- Only the board refuses a write. -/
theorem region_of_refused {b : Bus β} {a : Word} {v : Byte} (h : b.answer (.write a v) = none) :
    AddressRegion.of a = .cartridge := by
  cases hr : AddressRegion.of a with
  | cartridge => rfl
  | ram | picture | sound | testMode =>
    rw [answer, Bus.write, hr] at h
    cases h

/-- A write to the board is none to RAM or to the registers. -/
theorem write_of_cartridge {b b' : Bus β} {a : Word} {v : Byte}
    (ha : AddressRegion.of a = .cartridge) (h : b.write a v = .ok b') :
    b'.ram = b.ram ∧ b'.picture = b.picture ∧ b'.sound = b.sound := by
  simp only [Bus.write, ha] at h
  split at h
  · cases h
    exact ⟨rfl, rfl, rfl⟩
  · cases h

theorem serve_refused_mem {b : Bus β} {p : List Attempt} {t : Attempt}
    (h : (b.serve p).refused = some t) : t ∈ p := by
  obtain ⟨before, after, rfl, -⟩ := serve_refused h
  exact List.mem_append_right before (List.mem_cons_self ..)

/-- All refusals of a row may leave the same processor behind. -/
theorem serve_refused_left {b : Bus β} {p : List Request} {c : Cpu} {t : Attempt}
    (h : (b.serve (Attempt.all p c)).refused = some t) : t.left = c := by
  obtain ⟨r, -, rfl⟩ := List.mem_map.mp (serve_refused_mem h)
  rfl

/-- RAM refuses nothing. -/
theorem serve_of_ram {b : Bus β} {p : List Attempt}
    (h : ∀ t ∈ p, AddressRegion.of t.request.address = .ram) : (b.serve p).refused = none := by
  induction p generalizing b with
  | nil => rfl
  | cons t p ih =>
    obtain ⟨ht, hp⟩ := List.forall_mem_cons.mp h
    obtain ⟨b', hb⟩ := answer_of_ram (b := b) ht
    rw [serve_cons_of_some hb]
    exact ih hp

/-- Reads give the board nothing to store. -/
theorem serve_stores_of_reads {b : Bus β} {p : List Attempt}
    (h : ∀ t ∈ p, t.request.isWrite = false) :
    (b.serve p).accesses.filterMap Access.store? = [] := by
  induction p with
  | nil => rfl
  | cons t p ih =>
    obtain ⟨ht, hp⟩ := List.forall_mem_cons.mp h
    cases ha : b.answer t.request with
    | none =>
      rw [serve_cons_of_none ha, List.filterMap_cons, Request.store?_refused]
      rfl
    | some b' =>
      obtain rfl := answer_read_bus ht ha
      rw [serve_cons_of_some ha, List.filterMap_cons, Request.store?_granted ht]
      exact ih hp

/-- A refusal behind reads: it is one of them, or the rest is served as if they had not been. -/
theorem serve_refused_behind_reads {b : Bus β} {p q : List Attempt} {t : Attempt}
    (hp : ∀ t ∈ p, t.request.isWrite = false) (h : (b.serve (p ++ q)).refused = some t) :
    ((b.serve p).refused = some t ∧ (b.serve (p ++ q)).bus = b ∧
      (b.serve (p ++ q)).accesses.filterMap Access.store? = []) ∨
    ((b.serve p).refused = none ∧ (b.serve q).refused = some t ∧
      (b.serve (p ++ q)).bus = (b.serve q).bus ∧
      (b.serve (p ++ q)).accesses.filterMap Access.store? =
        (b.serve q).accesses.filterMap Access.store?) := by
  cases hs : (b.serve p).refused with
  | some u =>
    rw [serve_append_of_some hs] at h ⊢
    rw [hs] at h
    exact .inl ⟨h, serve_bus_of_reads hp, serve_stores_of_reads hp⟩
  | none =>
    have hb := serve_bus_of_reads (b := b) hp
    rw [serve_append_of_none hs, hb] at h ⊢
    refine .inr ⟨rfl, h, rfl, ?_⟩
    rw [List.filterMap_append, serve_stores_of_reads hp, List.nil_append]

/-- A refusal of the first attempt. -/
theorem serve_of_none {b : Bus β} {t : Attempt} (h : b.answer t.request = none)
    (rest : List Attempt) :
    (b.serve (t :: rest)).refused = some t ∧ (b.serve (t :: rest)).bus = b ∧
      (b.serve (t :: rest)).accesses.filterMap Access.store? = [] := by
  rw [serve_cons_of_none h]
  refine ⟨rfl, rfl, ?_⟩
  rw [List.filterMap_cons, Request.store?_refused]
  rfl

/-- A single write that is refused changes nothing. -/
theorem serve_write_refused {b : Bus β} {a : Word} {v : Byte} {c : Cpu} {t : Attempt}
    (h : (b.serve [⟨.write a v, c⟩]).refused = some t) :
    (b.serve [⟨.write a v, c⟩]).bus = b ∧
      (b.serve [⟨.write a v, c⟩]).accesses.filterMap Access.store? = [] := by
  cases ha : b.answer (.write a v) with
  | none => exact (serve_of_none (t := ⟨.write a v, c⟩) ha []).2
  | some b' =>
    rw [serve_cons_of_some (t := ⟨.write a v, c⟩) ha] at h
    cases h

/-- Two writes at one address, of which one is refused: the board has nothing or the first byte. -/
theorem serve_writes_refused {b : Bus β} {a : Word} {v w : Byte} {c : Cpu} {t : Attempt}
    (h : (b.serve [⟨.write a v, c⟩, ⟨.write a w, c⟩]).refused = some t) :
    let served := b.serve [⟨.write a v, c⟩, ⟨.write a w, c⟩]
    (served.bus = b ∧ served.accesses.filterMap Access.store? = []) ∨
    (AddressRegion.of a = .cartridge ∧ t.request.fault = .write a ∧
      b.write a v = .ok served.bus ∧ served.bus.answer (.write a w) = none ∧
      served.accesses.filterMap Access.store? = [(a, v)]) := by
  cases ha : b.answer (.write a v) with
  | none => exact .inl (serve_of_none (t := ⟨.write a v, c⟩) ha _).2
  | some b' =>
    rw [serve_cons_of_some (t := ⟨.write a v, c⟩) ha] at h ⊢
    cases ha' : b'.answer (.write a w) with
    | some b'' =>
      rw [serve_cons_of_some (t := ⟨.write a w, c⟩) ha'] at h
      cases h
    | none =>
      rw [serve_cons_of_none (t := ⟨.write a w, c⟩) ha'] at h ⊢
      have hregion := region_of_refused ha'
      have hstore : (Request.granted b (.write a v)).store? = some (a, v) := by
        rw [Request.granted, Access.store?, if_pos hregion]
      obtain rfl := Option.some.inj h
      refine .inr ⟨hregion, rfl, write_of_answer ha, ha', ?_⟩
      rw [List.filterMap_cons, hstore, List.filterMap_cons, Request.store?_refused]
      rfl

end Bus

namespace Operation

variable {operation : Operation} {operand : Operand} {c : Cpu} {b : Bus β}

/-- All writes go to the stack, but for those of a store and of a modification. -/
theorem writes_in_ram (hstore : ∀ r, operation ≠ store r) (hmodify : ∀ how, operation ≠ modify how) :
    ∀ r ∈ operation.writes operand c b, AddressRegion.of r.address = .ram := by
  unfold writes
  split
  · exact absurd rfl (hstore _)
  · exact absurd rfl (hmodify _)
  all_goals simp [Request.pushWord, Request.address, AddressRegion.of_stackCell]

/-- A refusal among the writes of an operation.  Nothing was written before it, unless it is the
    second write of a modification. -/
theorem writes_refused {left : Cpu} {t : Attempt}
    (h : (b.serve (Attempt.all (operation.writes operand c b) left)).refused = some t) :
    let served := b.serve (Attempt.all (operation.writes operand c b) left)
    (served.bus = b ∧ served.accesses.filterMap Access.store? = []) ∨
    ∃ how a crossed, operation = modify how ∧ operand = .memory a crossed ∧
      AddressRegion.of a = .cartridge ∧ t.request.fault = .write a ∧
      b.write a (b.peek a) = .ok served.bus ∧
      served.bus.answer (.write a (how.outcome c.status.carry (b.peek a)).1) = none ∧
      served.accesses.filterMap Access.store? = [(a, b.peek a)] := by
  by_cases hstore : ∃ r, operation = store r
  · obtain ⟨r, rfl⟩ := hstore
    cases operand with
    | implied | accumulator | immediate v => cases h
    | memory a crossed => exact .inl (Bus.serve_write_refused h)
  by_cases hmodify : ∃ how, operation = modify how
  · obtain ⟨how, rfl⟩ := hmodify
    cases operand with
    | implied | accumulator | immediate v => cases h
    | memory a crossed =>
      rcases Bus.serve_writes_refused h with hnothing | hback
      · exact .inl hnothing
      · exact .inr ⟨how, a, crossed, rfl, rfl, hback⟩
  · have hram : ∀ r ∈ operation.writes operand c b, AddressRegion.of r.address = .ram :=
      writes_in_ram (not_exists.mp hstore) (not_exists.mp hmodify)
    have hnone := Bus.serve_of_ram (b := b) (Attempt.forall_all hram left)
    rw [hnone] at h
    cases h

end Operation

/-! ## The operand bytes -/

theorem AddressingMode.operandBytes_le (mode : AddressingMode) : mode.operandBytes ≤ 2 := by
  cases mode <;> decide

theorem Bus.readable_le (b : Bus β) (a : Word) (n : Nat) : b.readable a n ≤ n := by
  induction n generalizing a with
  | zero => exact Nat.le_refl 0
  | succ n ih =>
    rw [readable]
    split
    · have := ih (a + 1)
      omega
    · omega

theorem Cpu.pc_taking (c : Cpu) (b : Bus β) {n : Nat} (hn : n ≤ 2) :
    (c.taking b n).pc = c.pc + BitVec.ofNat 16 n := by
  rcases n with - | - | n
  · exact (BitVec.add_zero c.pc).symm
  · rfl
  · obtain rfl : n = 0 := by omega
    rfl

/-- Operand bytes are taken up to the first that cannot be read. -/
theorem Bus.serve_fetches (b : Bus β) (c : Cpu) {n : Nat} (hn : n ≤ 2) :
    match (b.serve (c.fetches b n)).refused with
    | some t => t.left = c.taking b (b.readable c.pc n)
    | none => b.readable c.pc n = n := by
  rcases n with - | - | n
  · rfl
  · cases hr : b.read c.pc <;> simp only [Cpu.fetches, serve, answer, readable, hr]
    rfl
  · obtain rfl : n = 0 := by omega
    cases hr : b.read c.pc with
    | error e =>
      simp only [Cpu.fetches, serve, answer, readable, hr]
      rfl
    | ok v =>
      cases hr' : b.read (c.pc + 1) <;> simp only [Cpu.fetches, serve, answer, readable, hr, hr']

/-! ## Failed instructions -/

namespace Instruction

variable {i : Instruction} {c : Cpu} {b : Bus β} {t : Attempt}

/-- BRK has no operand bytes: it skips its padding byte on its own. -/
theorem mode_of_brk {opcode : Byte} (h : decode? opcode = some i) :
    i.operation = .brk → i.mode = .implied :=
  of_decode? (P := fun i => i.operation = .brk → i.mode = .implied) (by decide +kernel) h

/-- The processor that a failed instruction leaves: the opcode and the operand bytes up to the first
    that cannot be read are taken.  BRK has skipped its padding byte. -/
def stalled (i : Instruction) (c : Cpu) (b : Bus β) : Cpu :=
  if i.operation = .brk then (c.begin i.opcode).skip 1
  else (c.begin i.opcode).taking b (b.readable (c.pc + 1) i.mode.operandBytes)

theorem refused_left (hi : b.instruction? c.pc = some i)
    (h : (b.serve (⟨.read c.pc, c⟩ :: i.attempts c b)).refused = some t) :
    t.left = i.stalled c b := by
  obtain ⟨hr, hd⟩ := Bus.read_of_instruction? hi
  have ha : b.answer (.read c.pc) = some b := Bus.answer_of_read_ok rfl hr
  rw [Bus.serve_cons_of_some (t := ⟨.read c.pc, c⟩) ha] at h
  unfold Instruction.attempts Operation.attempts at h
  unfold stalled
  by_cases hbrk : i.operation = .brk
  · -- all attempts of BRK come behind its padding byte, so it does not matter which is refused
    have hmode := mode_of_brk hd hbrk
    rw [if_pos hbrk]
    rw [taken, hmode, hbrk] at h
    exact Bus.serve_refused_left h
  · have hleft : ∀ d, i.operation.left d = d := by
      intro d
      unfold Operation.left
      split
      · contradiction
      · rfl
    rw [if_neg hbrk]
    rw [hleft, AddressingMode.attempts, List.append_assoc] at h
    -- behind the operand bytes nothing moves the program counter before the last request
    have hfetches := b.serve_fetches (c.begin i.opcode) i.mode.operandBytes_le
    cases hf : (b.serve ((c.begin i.opcode).fetches b i.mode.operandBytes)).refused with
    | some u =>
      rw [Bus.serve_append_of_some hf, hf] at h
      rw [hf] at hfetches
      obtain rfl := Option.some.inj h
      exact hfetches
    | none =>
      rw [hf] at hfetches
      rw [Bus.serve_append_of_none hf, Attempt.all, taken, Attempt.all, ← List.map_append] at h
      rw [Bus.serve_refused_left h]
      exact congrArg _ hfetches.symm

/-- What a failed instruction did to the bus: nothing, or it wrote a byte of the board back. -/
theorem refused_bus (h : (b.serve (⟨.read c.pc, c⟩ :: i.attempts c b)).refused = some t) :
    let served := b.serve (⟨.read c.pc, c⟩ :: i.attempts c b)
    (served.bus = b ∧ served.accesses.filterMap Access.store? = []) ∨
    ∃ how a crossed, i.operation = .modify how ∧ i.operand c b = .memory a crossed ∧
      AddressRegion.of a = .cartridge ∧ t.request.fault = .write a ∧
      b.write a (b.peek a) = .ok served.bus ∧
      served.bus.answer (.write a (how.outcome c.status.carry (b.peek a)).1) = none ∧
      served.accesses.filterMap Access.store? = [(a, b.peek a)] := by
  obtain ⟨reads, hreads, hsplit⟩ := i.attempts_split c b
  rw [hsplit] at h ⊢
  rcases Bus.serve_refused_behind_reads hreads h with ⟨-, hbus, hstores⟩ | ⟨-, hw, hbus, hstores⟩
  · exact .inl ⟨hbus, hstores⟩
  · have hstatus : (i.taken c b).status = c.status := Cpu.status_taking _ b _
    simp only
    rw [hbus, hstores, ← hstatus]
    exact Operation.writes_refused hw

theorem stalled_frame (i : Instruction) (c : Cpu) (b : Bus β) :
    i.stalled c b =
      { c with
        pc := (i.stalled c b).pc, opcode := (i.stalled c b).opcode
        low := (i.stalled c b).low, high := (i.stalled c b).high } := by
  unfold stalled
  split
  · rfl
  · unfold Cpu.taking
    split <;> rfl

theorem stalled_pc (i : Instruction) (c : Cpu) (b : Bus β) :
    (i.stalled c b).pc = if i.operation = .brk then c.pc + 2 else
      c.pc + 1 + BitVec.ofNat 16 (b.readable (c.pc + 1) i.mode.operandBytes) := by
  unfold stalled
  split
  · exact Word.add_one_add_one c.pc
  · have hle := Nat.le_trans (b.readable_le (c.pc + 1) _) i.mode.operandBytes_le
    exact (c.begin i.opcode).pc_taking b hle

end Instruction

/-! ## Failed entries and failed steps -/

/-- An interrupt that cannot be entered has not begun: what fails is the read of its vector. -/
theorem Request.entry_refused {b : Bus β} {c : Cpu} {v : InterruptVector} {t : Attempt}
    (h : (b.serve (Attempt.all (entry c v false) c)).refused = some t) :
    let served := b.serve (Attempt.all (entry c v false) c)
    t.left = c ∧ (∃ a, t.request.fault = .vector v a) ∧ served.bus = b ∧
      served.accesses.filterMap Access.store? = [] := by
  have hleft := Bus.serve_refused_left h
  have hreads := Attempt.forall_all (vectorWord_are_reads v) c
  rw [entry, Attempt.all, List.map_append] at h ⊢
  rcases Bus.serve_refused_behind_reads hreads h with ⟨hs, hbus, hstores⟩ | ⟨-, hs, -⟩
  · refine ⟨hleft, ?_, hbus, hstores⟩
    obtain ⟨r, hr, rfl⟩ := List.mem_map.mp (Bus.serve_refused_mem hs)
    rcases List.mem_cons.mp hr with rfl | hr
    · exact ⟨_, rfl⟩
    · rw [List.mem_singleton.mp hr]
      exact ⟨_, rfl⟩
  · rw [Bus.serve_of_ram] at hs
    · cases hs
    · simp [pushWord, address, AddressRegion.of_stackCell]

namespace Machine

/-- The step failed before it began anything: the vector of an interrupt could not be read, or the
    opcode could not, or it is no instruction. -/
inductive FailsEarly (m : Machine β) : CpuFault → Prop
  | entry {v : InterruptVector} (a : Word) (h : m.cpu.dueInterrupt = some v) :
    FailsEarly m (.vector v a)
  | fetch {e : BusFault} (h : m.cpu.dueInterrupt = none) (hr : m.bus.read m.cpu.pc = .error e) :
    FailsEarly m (.read m.cpu.pc)
  | illegal (opcode : Byte) (a : Word) : FailsEarly m (.illegalOpcode opcode a)

/-- The step has written a byte of the board back, and was refused the write of the modified one. -/
def WroteBack (m : Machine β) (i : Instruction) (e : CpuFault) (m' : Machine β) : Prop :=
  ∃ how a crossed, i.operation = .modify how ∧ i.operand m.cpu m.bus = .memory a crossed ∧
    AddressRegion.of a = .cartridge ∧ e = .write a ∧
    m.bus.write a (m.bus.peek a) = .ok m'.bus ∧
    m'.bus.answer (.write a (how.outcome m.cpu.status.carry (m.bus.peek a)).1) = none ∧
    m'.journal.stores = m.journal.stores ++ [(a, m.bus.peek a)]

end Machine

namespace Exec

/-- Work that only reads leaves the bus alone where it fails. -/
theorem Follows.error_of_reads {α : Type} {x : Exec β α} {m m' : Machine β} {p : List Attempt}
    {v : α} {c : Cpu} {e : CpuFault} (h : Follows x m p v c)
    (hp : ∀ t ∈ p, t.request.isWrite = false) (hx : x m = .error e m') :
    ∃ t ∈ p, e = t.request.fault ∧ m'.cpu = t.left ∧ m'.bus = m.bus ∧
      m'.journal.stores = m.journal.stores := by
  obtain ⟨t, ht, he, hcpu, hbus, hj⟩ := h.error hx
  have hstores := Journal.stores_of_accesses hj
  rw [Bus.serve_stores_of_reads hp, List.append_nil] at hstores
  rw [Bus.serve_bus_of_reads hp] at hbus
  exact ⟨t, Bus.serve_refused_mem ht, he, hcpu, hbus, hstores⟩

/-- The reset sequence reads its vector and then sets the processor up. -/
theorem Follows.reset {m : Machine β} (sp : Byte) :
    Follows (Exec.reset sp) m (Attempt.all (Request.vectorWord .reset) m.cpu) ()
      (m.cpu.restart (m.bus.vectorWord .reset) sp) := by
  rw [← List.append_nil (Attempt.all _ _)]
  refine bind_of_reads (vectorTarget .reset)
    (Attempt.forall_all (Request.vectorWord_are_reads .reset) m.cpu) fun j => ?_
  exact bind (p := []) (update (·.restart (m.bus.vectorWord .reset) sp)) fun j => note _

/-- A step that fails early leaves the processor and the bus alone. -/
theorem step_error_early {m m' : Machine β} {e : CpuFault} (h : step m = .error e m')
    (hi : m.cpu.dueInterrupt = none → m.bus.instruction? m.cpu.pc = none) :
    m.FailsEarly e ∧ m'.cpu = m.cpu ∧ m'.bus = m.bus ∧ m'.journal.stores = m.journal.stores := by
  cases hq : m.cpu.dueInterrupt with
  | some v =>
    obtain ⟨t, ht, rfl, hcpu, hbus, hj⟩ := (step_entry hq).error h
    obtain ⟨hleft, ⟨a, ha⟩, hbus', hstores⟩ := Request.entry_refused ht
    have hjournal := Journal.stores_of_accesses hj
    rw [hstores, List.append_nil] at hjournal
    rw [ha, hcpu, hbus]
    exact ⟨.entry a hq, hleft, hbus', hjournal⟩
  | none =>
    cases hr : m.bus.read m.cpu.pc with
    | error f =>
      obtain ⟨t, ht, rfl, hcpu, hbus, hstores⟩ :=
        (step_unreadable hq hr 0 m.cpu).error_of_reads (by simp [Request.isWrite]) h
      obtain rfl := List.mem_singleton.mp ht
      exact ⟨.fetch hq hr, hcpu, hbus, hstores⟩
    | ok opcode =>
      have hd : Instruction.decode? opcode = none := by
        rw [← Bus.instruction?_of_read hr]
        exact hi hq
      obtain ⟨j, herr, hj⟩ := step_illegal hq hr hd
      rw [herr] at h
      cases h
      have hjournal := Journal.stores_of_accesses hj
      exact ⟨.illegal _ _, rfl, rfl, hjournal.trans (List.append_nil _)⟩

/-- A step that fails at an instruction has taken what it could of its bytes, and nothing else has
    happened but for the write-back of a modification. -/
theorem step_error_late {m m' : Machine β} {e : CpuFault} {i : Instruction}
    (h : step m = .error e m') (hq : m.cpu.dueInterrupt = none)
    (hi : m.bus.instruction? m.cpu.pc = some i) :
    ¬ m.FailsEarly e ∧ m'.cpu = i.stalled m.cpu m.bus ∧
      ((m'.bus = m.bus ∧ m'.journal.stores = m.journal.stores) ∨ m.WroteBack i e m') := by
  obtain ⟨t, ht, rfl, hcpu, hbus, hj⟩ := (step_instruction hq hi).error h
  have hjournal := Journal.stores_of_accesses hj
  refine ⟨?_, hcpu.trans (Instruction.refused_left hi ht), ?_⟩
  · intro hearly
    generalize hf : t.request.fault = f at hearly
    cases hearly with
    | entry a hdue =>
      rw [hq] at hdue
      cases hdue
    | fetch _ hr =>
      rw [(Bus.read_of_instruction? hi).1] at hr
      cases hr
    | illegal opcode a =>
      exact t.request.fault_ne_illegalOpcode opcode a hf
  · rcases Instruction.refused_bus ht with ⟨hb, hs⟩ | ⟨how, a, crossed, hop, hopd, ha, hf, hw, hn, hs⟩
    · rw [hs, List.append_nil] at hjournal
      exact .inl ⟨hbus.trans hb, hjournal⟩
    · rw [hs] at hjournal
      rw [← hbus] at hw hn
      exact .inr ⟨how, a, crossed, hop, hopd, ha, hf, hw, hn, hjournal⟩

/-- A step fails early or at an instruction. -/
theorem step_error_cases {m m' : Machine β} {e : CpuFault} (h : step m = .error e m') :
    (m.FailsEarly e ∧ m'.cpu = m.cpu ∧ m'.bus = m.bus ∧
      m'.journal.stores = m.journal.stores) ∨
    ∃ i, m.cpu.dueInterrupt = none ∧ m.bus.instruction? m.cpu.pc = some i ∧
      ¬ m.FailsEarly e ∧ m'.cpu = i.stalled m.cpu m.bus ∧
      ((m'.bus = m.bus ∧ m'.journal.stores = m.journal.stores) ∨ m.WroteBack i e m') := by
  rcases Classical.em (∃ i, m.cpu.dueInterrupt = none ∧ m.bus.instruction? m.cpu.pc = some i)
    with ⟨i, hq, hi⟩ | hn
  · exact .inr ⟨i, hq, hi, step_error_late h hq hi⟩
  · refine .inl (step_error_early h ?_)
    intro hq
    cases hi : m.bus.instruction? m.cpu.pc with
    | none => rfl
    | some i => exact absurd ⟨i, hq, hi⟩ hn

/-- Whatever a step fails at, only the program counter and the bytes of the instruction change. -/
theorem step_error_cpu {m m' : Machine β} {e : CpuFault} (h : step m = .error e m') :
    m'.cpu = { m.cpu with
      pc := m'.cpu.pc, opcode := m'.cpu.opcode, low := m'.cpu.low, high := m'.cpu.high } := by
  rcases step_error_cases h with ⟨-, hcpu, -⟩ | ⟨i, -, -, -, hcpu, -⟩
  · rw [hcpu]
  · rw [hcpu]
    exact i.stalled_frame m.cpu m.bus

/-- A failed step leaves registers, status, counters and interrupt inputs alone, and so RAM and the
    register windows.  If it fails early, nothing has changed at all.  Otherwise the program counter
    is behind the opcode and the operand bytes that could be read, or behind the padding byte of
    BRK, and the board was given nothing to store except for the old byte of a modification whose
    second write it refused.  A reset sequence that fails changes nothing. -/
theorem failure_atomicity (m m' : Machine β) (e : CpuFault) :
    (step m = .error e m' →
      m'.cpu = { m.cpu with
        pc := m'.cpu.pc, opcode := m'.cpu.opcode, low := m'.cpu.low, high := m'.cpu.high } ∧
      m'.bus.ram = m.bus.ram ∧ m'.bus.picture = m.bus.picture ∧ m'.bus.sound = m.bus.sound ∧
      (m.FailsEarly e →
        m'.cpu = m.cpu ∧ m'.bus = m.bus ∧ m'.journal.stores = m.journal.stores) ∧
      (¬ m.FailsEarly e → ∃ i, m.bus.instruction? m.cpu.pc = some i ∧
        (m'.cpu.pc = if i.operation = .brk then m.cpu.pc + 2 else
          m.cpu.pc + 1 +
            BitVec.ofNat 16 (m.bus.readable (m.cpu.pc + 1) i.mode.operandBytes)) ∧
        ((m'.bus = m.bus ∧ m'.journal.stores = m.journal.stores) ∨ m.WroteBack i e m'))) ∧
    (∀ sp, reset sp m = .error e m' →
      m'.cpu = m.cpu ∧ m'.bus = m.bus ∧ m'.journal.stores = m.journal.stores) := by
  constructor
  · intro h
    refine ⟨step_error_cpu h, ?_⟩
    rcases step_error_cases h with ⟨hearly, hcpu, hbus, hstores⟩ | ⟨i, hq, hi, hlate, hcpu, hbus⟩
    · rw [hbus]
      exact ⟨rfl, rfl, rfl, fun _ => ⟨hcpu, rfl, hstores⟩, fun hn => absurd hearly hn⟩
    · have hregions : m'.bus.ram = m.bus.ram ∧ m'.bus.picture = m.bus.picture ∧
          m'.bus.sound = m.bus.sound := by
        rcases hbus with ⟨hb, -⟩ | ⟨_, a, _, -, -, ha, -, hw, -, -⟩
        · rw [hb]
          exact ⟨rfl, rfl, rfl⟩
        · exact Bus.write_of_cartridge ha hw
      refine ⟨hregions.1, hregions.2.1, hregions.2.2, fun hearly => absurd hearly hlate,
        fun _ => ⟨i, hi, ?_, hbus⟩⟩
      rw [hcpu]
      exact i.stalled_pc m.cpu m.bus
  · intro sp h
    have hreads := Attempt.forall_all (Request.vectorWord_are_reads .reset) m.cpu
    obtain ⟨t, ht, -, hcpu, hbus, hstores⟩ := (Follows.reset sp).error_of_reads hreads h
    obtain ⟨r, -, rfl⟩ := List.mem_map.mp ht
    exact ⟨hcpu, hbus, hstores⟩

end Exec

/-! ## A board that gives up halfway -/

/-- A board of one byte that accepts only so many stores. -/
structure Quota where
  left : Nat
  cell : Byte
deriving DecidableEq, Repr

instance : Board Quota where
  number _ := 255
  readTarget? _ _ := some (.ram 0)
  writeTarget? b _ := if b.left = 0 then none else some (.ram 0)
  load b _ := b.cell
  store b _ v := ⟨b.left - 1, v⟩
  reset b := b
  notice? _ _ _ := none

/-- INC $6000 lies in the picture registers, before a board that accepts one store. -/
def Quota.machine : Machine Quota where
  cpu := { pc := 0x2000 }
  bus :=
    { picture := (PictureRegisters.zero.write 0x2000 0xEE).write 0x2002 0x60
      board := some ⟨1, 7⟩ }

/-- A program counter where nothing answers. -/
def Quota.unmapped : Machine Quota := { cpu := { pc := 0x8000 } }

/-- The old byte has gone back to the board and nothing else has happened; without a board neither
    a step nor a reset changes anything. -/
theorem Quota.failures :
    (∃ m', Exec.step machine = .error (.write 0x6000) m' ∧ m'.cpu.pc = 0x2003 ∧
      machine.WroteBack ⟨0xEE, .modify .increment, .absolute⟩ (.write 0x6000) m') ∧
    (∃ m', Exec.step unmapped = .error (.read 0x8000) m' ∧ m'.cpu = unmapped.cpu) ∧
    (∃ m', Exec.reset 0xFD unmapped = .error (.vector .reset 0xFFFC) m' ∧
      m'.cpu = unmapped.cpu) := by
  refine ⟨?_, ?_, ?_⟩
  · obtain ⟨m', h, hs⟩ : ∃ m', Exec.step machine = .error (.write 0x6000) m' ∧
        m'.journal.stores = [(0x6000, 7)] := ⟨_, rfl, rfl⟩
    have hlate : ¬ machine.FailsEarly (.write 0x6000) := by
      intro hearly
      cases hearly
    obtain ⟨-, -, -, -, -, hfail⟩ := (Exec.failure_atomicity machine m' _).1 h
    obtain ⟨i, hi, hpc, hbus⟩ := hfail hlate
    have hinc : machine.bus.instruction? machine.cpu.pc =
        some ⟨0xEE, .modify .increment, .absolute⟩ := rfl
    obtain rfl := Option.some.inj (hinc.symm.trans hi)
    refine ⟨m', h, hpc, ?_⟩
    rcases hbus with ⟨-, hnone⟩ | hwrote
    · rw [hs] at hnone
      cases hnone
    · exact hwrote
  · obtain ⟨m', h⟩ : ∃ m', Exec.step unmapped = .error (.read 0x8000) m' := ⟨_, rfl⟩
    obtain ⟨-, -, -, -, hfail, -⟩ := (Exec.failure_atomicity unmapped m' _).1 h
    have hread : unmapped.bus.read unmapped.cpu.pc = .error (.read 0x8000) := rfl
    exact ⟨m', h, (hfail (.fetch rfl hread)).1⟩
  · obtain ⟨m', h⟩ : ∃ m', Exec.reset 0xFD unmapped = .error (.vector .reset 0xFFFC) m' :=
      ⟨_, rfl⟩
    exact ⟨m', h, ((Exec.failure_atomicity unmapped m' _).2 0xFD h).1⟩

end Console6502
