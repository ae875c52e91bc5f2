/-
  The decimal flag.

  The processor has a decimal flag and no decimal arithmetic.  Instructions set the flag, clear it
  and replace it, and that is all that becomes of it: no operation looks at it, no branch tests it,
  and no interrupt depends on it.  So two processors that differ in it alone go in lockstep on equal
  buses.

  One way out is left.  PHP, BRK and an interrupt put the status onto the stack, and there the flag
  is bit 3 of a byte in RAM.  Behind such a step the buses differ in this bit at most
  (`Machine.decimal_step`), and as long as there is none the two runs are the same but for the flag.
-/
import Console6502.Proofs.Lockstep
import Console6502.Proofs.StatusByte

namespace Console6502

variable {β : Type} [Board β]

/-! ## What differs -/

namespace Status

/-- The register with this decimal flag and all other bits as they are. -/
def withDecimal (s : Status) (on : Bool) : Status :=
  if on then ⟨s.toByte ||| Flag.decimal.mask⟩ else ⟨s.toByte &&& ~~~Flag.decimal.mask⟩

theorem get_withDecimal (s : Status) (on : Bool) (f : Flag) :
    (s.withDecimal on).get f = if f = .decimal then on else s.get f := by
  cases on with
  | true =>
    rw [withDecimal, if_pos rfl, get_mk, BitVec.getLsbD_or, getLsbD_toByte, Flag.getLsbD_mask]
    by_cases h : f = .decimal <;> simp [h, Ne.symm]
  | false =>
    rw [withDecimal, if_neg Bool.false_ne_true, get_mk, BitVec.getLsbD_and, BitVec.getLsbD_not,
      getLsbD_toByte, Flag.getLsbD_mask, decide_eq_true f.bit_lt, Bool.true_and]
    by_cases h : f = .decimal <;> simp [h, Ne.symm]

theorem withDecimal_self (s : Status) : s.withDecimal s.decimal = s := by
  refine ext_get fun f => ?_
  rw [get_withDecimal]
  split
  · next h => rw [h]
  · rfl

theorem withDecimal_withDecimal (s : Status) (on on' : Bool) :
    (s.withDecimal on).withDecimal on' = s.withDecimal on' := by
  refine ext_get fun f => ?_
  rw [get_withDecimal, get_withDecimal, get_withDecimal]
  split <;> rfl

/-- Switching another flag commutes with the decimal flag. -/
theorem set_withDecimal (s : Status) (on : Bool) {f : Flag} (h : f ≠ .decimal) (v : Bool) :
    (s.withDecimal on).set f v = (s.set f v).withDecimal on := by
  have hf : (f == Flag.decimal) = false := beq_eq_false_iff_ne.mpr h
  refine ext_get fun g => ?_
  rw [get_withDecimal]
  cases v with
  | true =>
    rw [get_set_true, get_withDecimal, get_set_true]
    by_cases hg : g = .decimal <;> simp [hg, hf]
  | false =>
    rw [get_set_false, get_withDecimal, get_set_false]
    by_cases hg : g = .decimal <;> simp [hg, hf]

/-- Switching the decimal flag forgets what it was. -/
theorem set_decimal_withDecimal (s : Status) (on v : Bool) :
    (s.withDecimal on).set .decimal v = s.set .decimal v := by
  refine ext_get fun g => ?_
  cases v with
  | true =>
    rw [get_set_true, get_withDecimal, get_set_true]
    by_cases hg : g = .decimal <;> simp [hg]
  | false =>
    rw [get_set_false, get_withDecimal, get_set_false]
    by_cases hg : g = .decimal <;> simp [hg]

theorem judge_withDecimal (s : Status) (on : Bool) (v : Byte) :
    (s.withDecimal on).judge v = (s.judge v).withDecimal on := by
  rw [judge, judge, set_withDecimal _ _ (by decide), set_withDecimal _ _ (by decide)]

end Status

namespace Cpu

/-- The processor with this decimal flag. -/
def withDecimal (c : Cpu) (on : Bool) : Cpu := { c with status := c.status.withDecimal on }

/-- Processors that differ in the decimal flag at most. -/
def SameButDecimal (c d : Cpu) : Prop := ∃ on, d = c.withDecimal on

theorem withDecimal_self (c : Cpu) : c.withDecimal c.status.decimal = c := by
  rw [withDecimal, Status.withDecimal_self]

theorem dueInterrupt_withDecimal (c : Cpu) (on : Bool) :
    (c.withDecimal on).dueInterrupt = c.dueInterrupt := by
  have hmask : (c.withDecimal on).status.interruptDisable = c.status.interruptDisable :=
    c.status.get_withDecimal on .interruptDisable
  rw [dueInterrupt, hmask]
  rfl

theorem sameButDecimal_withDecimal (c : Cpu) (on on' : Bool) :
    (c.withDecimal on).SameButDecimal (c.withDecimal on') := by
  refine ⟨on', ?_⟩
  rw [withDecimal, withDecimal, withDecimal, Status.withDecimal_withDecimal]

theorem taking_withDecimal (c : Cpu) (on : Bool) (b : Bus β) (n : Nat) :
    (c.withDecimal on).taking b n = (c.taking b n).withDecimal on := by
  unfold taking
  split <;> rfl

end Cpu

/-- The decimal flag is bit 3 of the byte that is pushed. -/
theorem Status.getLsbD_stackByte_decimal (s : Status) (on brk : Bool) {k : Nat} (hk : k ≠ 3) :
    ((s.withDecimal on).stackByte brk).getLsbD k = (s.stackByte brk).getLsbD k := by
  by_cases hlt : k < 8
  · obtain ⟨flag, rfl⟩ := Flag.exists_bit hlt
    have hflag : flag ≠ .decimal := by rintro rfl; exact hk rfl
    rw [stackByte, stackByte, set_withDecimal s on (by decide), getLsbD_toByte, getLsbD_toByte,
      get_withDecimal, if_neg hflag]
  · rw [BitVec.getLsbD_of_ge _ k (Nat.not_lt.mp hlt), BitVec.getLsbD_of_ge _ k (Nat.not_lt.mp hlt)]

/-- Buses that differ in one byte of RAM, and in one bit of it, at most. -/
def Bus.SameButBit (k : Nat) (a : Word) (b b' : Bus β) : Prop :=
  ∃ v, b' = { b with ram := b.ram.write a v } ∧
    ∀ j, j ≠ k → v.getLsbD j = (b.ram.read a).getLsbD j

omit [Board β] in
theorem Bus.sameButBit_write (b : Bus β) (a : Word) {v v' : Byte} {k : Nat}
    (h : ∀ j, j ≠ k → v'.getLsbD j = v.getLsbD j) :
    SameButBit k a { b with ram := b.ram.write a v } { b with ram := b.ram.write a v' } := by
  refine ⟨v', ?_, fun j hj => ?_⟩
  · rw [Window.write_write]
  · rw [Window.read_write, if_pos rfl, h j hj]

/-! ## Operations -/

/-- Whether an operation jumps by the decimal flag. -/
def Operation.testsDecimal : Operation → Bool
  | branch .decimal _ => true
  | _ => false

/-- No instruction does. -/
theorem Instruction.testsDecimal_of_decode? {opcode : Byte} {i : Instruction}
    (h : decode? opcode = some i) : i.operation.testsDecimal = false :=
  of_decode? (P := fun i => i.operation.testsDecimal = false) (by decide +kernel) h

namespace Operation

variable {operation : Operation}

theorem get_withDecimal {flag : Flag} {value : Bool} (h : (branch flag value).testsDecimal = false)
    (c : Cpu) (on : Bool) : (c.withDecimal on).status.get flag = c.status.get flag := by
  have hflag : flag ≠ .decimal := by
    rintro rfl
    cases h
  exact (c.status.get_withDecimal on flag).trans (if_neg hflag)

theorem outcome_withDecimal (h : operation.testsDecimal = false) (operand : Operand) (c : Cpu)
    (on : Bool) (b : Bus β) :
    (operation.outcome operand c b).SameButDecimal
      (operation.outcome operand (c.withDecimal on) b) := by
  have hbyte : operand.byteOf (c.withDecimal on) b = operand.byteOf c b := by
    cases operand <;> rfl
  have hget : ∀ r, (c.withDecimal on).get r = c.get r := by
    intro r
    cases r <;> rfl
  have hcarry : (c.withDecimal on).status.carry = c.status.carry :=
    c.status.get_withDecimal on .carry
  -- what is written to the status commutes with the flag, and all else is equal
  have hstatus : ∀ {d d' : Cpu}, d'.status = d.status.withDecimal on →
      { d' with status := d.status } = d → d.SameButDecimal d' := by
    intro d d' hs hrest
    refine ⟨on, ?_⟩
    rw [Cpu.withDecimal, ← hs, ← hrest]
  have hload : ∀ (d : Cpu) (r : Register) (v : Byte),
      (d.loaded r v).SameButDecimal ((d.withDecimal on).loaded r v) := by
    intro d r v
    cases r <;> exact hstatus (d.status.judge_withDecimal on v) rfl
  have hgo : ∀ d : Cpu, (d.goingTo operand).SameButDecimal ((d.withDecimal on).goingTo operand) := by
    intro d
    cases operand <;> exact ⟨on, rfl⟩
  have hset : ∀ {s s' : Status} (f : Flag) {v : Bool}, f ≠ .decimal → s' = s.withDecimal on →
      s'.set f v = (s.set f v).withDecimal on := by
    rintro s _ f v hf rfl
    exact s.set_withDecimal on hf v
  have hjudge : ∀ {s s' : Status} (v : Byte), s' = s.withDecimal on →
      s'.judge v = (s.judge v).withDecimal on := by
    rintro s _ v rfl
    exact s.judge_withDecimal on v
  unfold outcome
  simp only [hbyte]
  cases operation with
  | load r => exact hload c r _
  | logic how => cases how <;> exact hload c .a _
  | add | subtract =>
    simp only [hcarry]
    exact hstatus (hjudge _ (hset .overflow (by decide) (hset .carry (by decide) rfl))) rfl
  | modify how =>
    simp only [hcarry]
    cases operand with
    | implied | immediate v => exact ⟨on, rfl⟩
    | accumulator | memory a crossed =>
      exact hstatus (hjudge _ (hset .carry (by decide) rfl)) rfl
  | bitTest =>
    exact hstatus (hset .overflow (by decide)
      (hset .negative (by decide) (hset .zero (by decide) rfl))) rfl
  | compare r =>
    simp only [hget]
    exact hstatus (hjudge _ (hset .carry (by decide) rfl)) rfl
  | increment r | decrement r =>
    simp only [hget]
    exact hload c r _
  | transfer source target =>
    simp only [hget]
    exact hload c target _
  | stackToX => exact hload c .x _
  | pullA => exact hload { c with sp := c.sp + 1 } .a _
  | jump => exact hgo c
  | call => exact hgo { c with sp := c.sp - 2 }
  | branch flag value =>
    simp only [get_withDecimal h]
    split
    · exact hgo c
    · exact ⟨on, rfl⟩
  | setFlag flag value =>
    by_cases hflag : flag = .decimal
    · -- SED and CLD make the flags equal again
      subst hflag
      have hequal : (c.withDecimal on).status.set .decimal value = c.status.set .decimal value :=
        c.status.set_decimal_withDecimal on value
      exact ⟨_, (congrArg (fun s => { c with status := s }) hequal).trans
        (Cpu.withDecimal_self _).symm⟩
    · exact hstatus (hset flag hflag rfl) rfl
  | pullStatus | returnFromInterrupt =>
    exact ⟨_, (Cpu.withDecimal_self _).symm⟩
  | brk =>
    have hmasked : (c.status.withDecimal on).set .interruptDisable true =
        (c.status.set .interruptDisable true).withDecimal on :=
      c.status.set_withDecimal on (by decide) true
    exact ⟨on, congrArg (fun s => { (c.skip 1).entered (b.vectorWord .irq) with status := s })
      hmasked⟩
  | store r | xToStack | pushA | pushStatus | returnFromCall | nop => exact ⟨on, rfl⟩

theorem requests_withDecimal (hphp : operation ≠ .pushStatus) (hbrk : operation ≠ .brk)
    (operand : Operand) (c : Cpu) (on : Bool) (b : Bus β) :
    operation.reads operand (c.withDecimal on) ++ operation.writes operand (c.withDecimal on) b =
      operation.reads operand c ++ operation.writes operand c b := by
  cases operation with
  | pushStatus => exact absurd rfl hphp
  | brk => exact absurd rfl hbrk
  | store r => cases operand <;> cases r <;> rfl
  | modify how =>
    have hcarry : (c.withDecimal on).status.carry = c.status.carry :=
      c.status.get_withDecimal on .carry
    rw [writes, hcarry]
    rfl
  | _ => rfl

/-- PHP and BRK push the status last. -/
theorem requests_of_push (h : operation = .pushStatus ∨ operation = .brk) (operand : Operand)
    (c : Cpu) (b : Bus β) :
    ∃ front, ∀ on, operation.reads operand (c.withDecimal on) ++
        operation.writes operand (c.withDecimal on) b =
      front ++ [.write (Cpu.stackCell ((operation.outcome operand c b).sp + 1))
        ((c.withDecimal on).status.stackByte true)] := by
  rcases h with rfl | rfl
  · refine ⟨[], fun on => ?_⟩
    have hsp : (pushStatus.outcome operand c b).sp + 1 = c.sp := BitVec.sub_add_cancel c.sp 1
    rw [hsp]
    rfl
  · refine ⟨Request.vectorWord .irq ++ Request.pushWord c.sp (c.pc + 1), fun on => ?_⟩
    have hsp : (brk.outcome operand c b).sp + 1 = c.sp - 2 := by
      show c.sp - 3 + 1 = c.sp - 2
      bv_omega
    rw [hsp, List.append_assoc]
    rfl

theorem left_withDecimal (operation : Operation) (c : Cpu) (on : Bool) :
    operation.left (c.withDecimal on) = (operation.left c).withDecimal on := by
  cases operation <;> rfl

end Operation

/-! ## Instructions -/

namespace Instruction

variable {i : Instruction} {c : Cpu} {b : Bus β}

theorem taken_withDecimal (on : Bool) :
    i.taken (c.withDecimal on) b = (i.taken c b).withDecimal on :=
  Cpu.taking_withDecimal (c.begin i.opcode) on b _

theorem operand_withDecimal (on : Bool) : i.operand (c.withDecimal on) b = i.operand c b := by
  unfold operand
  cases i.mode <;> rfl

theorem cycles_withDecimal (h : i.operation.testsDecimal = false) (on : Bool) :
    i.cycles (c.withDecimal on) b = i.cycles c b := by
  unfold cycles
  rw [operand_withDecimal]
  cases hop : i.operation with
  | branch flag value =>
    rw [hop] at h
    rw [Operation.extraCycles, Operation.extraCycles]
    show Timing.ofOpcode _ + (if (c.withDecimal on).status.get flag = value then _ else _) = _
    rw [Operation.get_withDecimal h]
  | _ => rfl

theorem after_withDecimal (h : i.operation.testsDecimal = false) (on : Bool) :
    (i.after c b).SameButDecimal (i.after (c.withDecimal on) b) := by
  unfold after
  rw [operand_withDecimal, taken_withDecimal, cycles_withDecimal h]
  obtain ⟨on', hon'⟩ := Operation.outcome_withDecimal h (i.operand c b) (i.taken c b) on b
  rw [hon']
  exact ⟨on', rfl⟩

theorem mode_attempts_withDecimal (on : Bool) :
    Attempt.Matched Cpu.SameButDecimal (i.mode.attempts (c.begin i.opcode) b)
      (i.mode.attempts ((c.withDecimal on).begin i.opcode) b) :=
  AddressingMode.matched_attempts rfl rfl fun n =>
    ⟨on, Cpu.taking_withDecimal (c.begin i.opcode) on b n⟩

/-- All instructions but PHP and BRK make the same attempts. -/
theorem attempts_withDecimal (hphp : i.operation ≠ .pushStatus) (hbrk : i.operation ≠ .brk)
    (on : Bool) :
    Attempt.Matched Cpu.SameButDecimal (i.attempts c b) (i.attempts (c.withDecimal on) b) := by
  refine (mode_attempts_withDecimal on).append ?_
  rw [operand_withDecimal, taken_withDecimal]
  exact Attempt.matched_all (Operation.requests_withDecimal hphp hbrk _ _ on b)
    ⟨on, Operation.left_withDecimal _ _ on⟩

/-- PHP and BRK make the same attempts but for the last one, which pushes the status. -/
theorem attempts_of_push (h : i.operation = .pushStatus ∨ i.operation = .brk) :
    ∃ front : Bool → List Attempt,
      (∀ on, Attempt.Matched Cpu.SameButDecimal (front c.status.decimal) (front on)) ∧
      ∀ on, ∃ left, i.attempts (c.withDecimal on) b =
        front on ++ [⟨.write (Cpu.stackCell ((i.after c b).sp + 1))
          ((c.withDecimal on).status.stackByte true), left⟩] := by
  obtain ⟨front, hfront⟩ := Operation.requests_of_push h (i.operand c b) (i.taken c b) b
  refine ⟨fun on => i.mode.attempts ((c.withDecimal on).begin i.opcode) b ++
    Attempt.all front (i.operation.left ((i.taken c b).withDecimal on)), fun on => ?_, fun on => ?_⟩
  · have hmode : Attempt.Matched Cpu.SameButDecimal
        (i.mode.attempts ((c.withDecimal c.status.decimal).begin i.opcode) b)
        (i.mode.attempts ((c.withDecimal on).begin i.opcode) b) := by
      rw [Cpu.withDecimal_self c]
      exact mode_attempts_withDecimal on
    refine hmode.append (Attempt.matched_all rfl ?_)
    rw [Operation.left_withDecimal, Operation.left_withDecimal]
    exact Cpu.sameButDecimal_withDecimal _ _ on
  · have hstatus : ((i.taken c b).withDecimal on).status = (c.withDecimal on).status := by
      rw [← taken_withDecimal]
      exact Cpu.status_taking _ _ _
    refine ⟨i.operation.left ((i.taken c b).withDecimal on), ?_⟩
    rw [attempts, operand_withDecimal, taken_withDecimal, Operation.attempts, hfront, hstatus,
      Attempt.all, List.map_append, List.append_assoc]
    rfl

end Instruction

/-! ## Steps -/

namespace Machine

/-- The step from here puts the status onto the stack: it is an entry, PHP or BRK, and it
    succeeds. -/
def StoresStatus (m : Machine β) : Prop :=
  (∃ n m', Exec.step m = .ok n m') ∧
    ((∃ v, m.Enters v) ∨ m.IsAt .pushStatus ∨ m.IsAt .brk)

/-- Behind the step from `m`: the processors differ in the decimal flag at most, and the buses in
    bit 3 of the status that the step pushed, if it did. -/
structure SameButStatus (m n n' : Machine β) : Prop where
  cpu : n.cpu.SameButDecimal n'.cpu
  bus : n'.bus = n.bus ∨
    m.StoresStatus ∧ n.bus.SameButBit 3 (Cpu.stackCell (n.cpu.sp + 1)) n'.bus

theorem InStep.sameButStatus {m n n' : Machine β} (h : n.InStep Cpu.SameButDecimal n') :
    m.SameButStatus n n' := ⟨h.cpu, .inl h.bus⟩

end Machine

namespace Exec

variable {α : Type} {x : Exec β α} {m m' : Machine β} {v : α} {c d : Cpu}

theorem Follows.of_refused {p q : List Attempt} {t : Attempt} (h : Follows x m (p ++ q) v c)
    (hp : (m.bus.serve p).refused = some t) : Follows x m p v c := by
  have hserve := Bus.serve_append_of_some hp q
  constructor
  · rw [← hserve]
    exact h.granted
  · rw [← hserve]
    exact h.refused

/-- The stack takes every push. -/
theorem Follows.ok_of_push {p : List Attempt} {s y : Byte} {left : Cpu}
    (h : Follows x m (p ++ [⟨.write (Cpu.stackCell s) y, left⟩]) v c)
    (hp : (m.bus.serve p).refused = none) :
    ∃ j, x m = .ok v ⟨c, { (m.bus.serve p).bus with
      ram := (m.bus.serve p).bus.ram.write (Cpu.stackCell s) y }, j⟩ := by
  have hwrite := Bus.answer_of_write_ok
    (Bus.write_of_ram (b := (m.bus.serve p).bus) (AddressRegion.of_stackCell s) y)
  have hgranted := h.granted
  rw [Bus.serve_append_of_none hp, Bus.serve_cons_of_some hwrite] at hgranted
  obtain ⟨j, hok, -⟩ := hgranted rfl
  exact ⟨j, hok⟩

/-- Different bytes pushed behind matched attempts. -/
theorem Follows.agree_push {S : Cpu → Cpu → Prop} {front front' : List Attempt} {s y y' : Byte}
    {left left' : Cpu} {k : Nat}
    (hx : Follows x m (front ++ [⟨.write (Cpu.stackCell s) y, left⟩]) v c)
    (hx' : Follows x m' (front' ++ [⟨.write (Cpu.stackCell s) y', left'⟩]) v d)
    (hbus : m'.bus = m.bus) (hfront : Attempt.Matched S front front') (hS : S c d)
    (hbits : ∀ j, j ≠ k → y'.getLsbD j = y.getLsbD j) :
    Agree (fun n n' => n.InStep S n' ∨ x m = .ok v n ∧ n.cpu = c ∧ n'.cpu = d ∧
      n.bus.SameButBit k (Cpu.stackCell s) n'.bus) (x m) (x m') := by
  obtain ⟨hafter, ⟨hp, hp'⟩ | ⟨t, u, hp, hp', -⟩⟩ := Bus.serve_matched (b := m.bus) hfront
  · obtain ⟨j, hok⟩ := hx.ok_of_push hp
    obtain ⟨j', hok'⟩ := hx'.ok_of_push (hbus ▸ hp')
    rw [hbus, hafter] at hok'
    rw [hok, hok']
    exact .ok (.inr ⟨rfl, rfl, rfl, Bus.sameButBit_write _ _ hbits⟩)
  · exact ((hx.of_refused hp).agree (hx'.of_refused (hbus ▸ hp')) hbus hfront hS).mono
      fun _ _ h => .inl h

end Exec

theorem Attempt.all_entry (c : Cpu) (v : InterruptVector) (brk : Bool) :
    all (Request.entry c v brk) c =
      all (Request.vectorWord v ++ Request.pushWord c.sp c.pc) c ++
        [⟨.write (Cpu.stackCell (c.sp - 2)) (c.status.stackByte brk), c⟩] := by
  rw [Request.entry, ← List.append_assoc, all, List.map_append]
  rfl

namespace Machine

variable {m m' n n' : Machine β}

/-- What comes of a step that pushes the status last. -/
theorem sameButStatus_of_push {k : Nat} {c d : Cpu} {s : Byte}
    (hpush : (∃ v, m.Enters v) ∨ m.IsAt .pushStatus ∨ m.IsAt .brk)
    (hcd : c.SameButDecimal d) (hs : c.sp + 1 = s)
    (h : n.InStep Cpu.SameButDecimal n' ∨ Exec.step m = .ok k n ∧ n.cpu = c ∧ n'.cpu = d ∧
      n.bus.SameButBit 3 (Cpu.stackCell s) n'.bus) : m.SameButStatus n n' := by
  rcases h with h | ⟨hok, rfl, rfl, hbus⟩
  · exact h.sameButStatus
  · exact ⟨hcd, .inr ⟨⟨⟨k, n, hok⟩, hpush⟩, hs ▸ hbus⟩⟩

/-- An entry. -/
theorem decimal_entry {v : InterruptVector} (hv : m.cpu.dueInterrupt = some v) (on : Bool)
    (j : Journal) :
    Agree m.SameButStatus (Exec.step m) (Exec.step ⟨m.cpu.withDecimal on, m.bus, j⟩) := by
  have hx := Exec.step_entry hv
  have hx' := Exec.step_entry (m := ⟨m.cpu.withDecimal on, m.bus, j⟩)
    ((m.cpu.dueInterrupt_withDecimal on).trans hv)
  rw [Attempt.all_entry] at hx hx'
  have hcpu : ∀ c : Cpu, (((c.entered (m.bus.vectorWord v)).acknowledge v).charge
      Timing.interruptEntry).SameButDecimal ((((c.withDecimal on).entered
        (m.bus.vectorWord v)).acknowledge v).charge Timing.interruptEntry) := by
    intro c
    refine ⟨on, ?_⟩
    have hmasked := c.status.set_withDecimal on (f := .interruptDisable) (by decide) true
    cases v <;> exact congrArg (fun s => Cpu.charge (Cpu.acknowledge { c with
      sp := c.sp - 3, status := s, pc := m.bus.vectorWord _ } _) _) hmasked
  have hsp : (((m.cpu.entered (m.bus.vectorWord v)).acknowledge v).charge
      Timing.interruptEntry).sp + 1 = m.cpu.sp - 2 := by
    cases v <;> exact (by bv_omega : m.cpu.sp - 3 + 1 = m.cpu.sp - 2)
  have hfront := Attempt.matched_all (S := Cpu.SameButDecimal) (c := m.cpu)
    (d := m.cpu.withDecimal on) (rfl : Request.vectorWord v ++ Request.pushWord m.cpu.sp m.cpu.pc = _)
    ⟨on, rfl⟩
  refine (hx.agree_push hx' rfl hfront (hcpu _) fun j hj => ?_).mono fun n n' h =>
    sameButStatus_of_push (.inl ⟨v, enters_of_due hv⟩) (hcpu _) hsp h
  exact m.cpu.status.getLsbD_stackByte_decimal on false hj

/-- An instruction. -/
theorem decimal_instruction {i : Instruction} (hq : m.cpu.dueInterrupt = none)
    (hi : m.bus.instruction? m.cpu.pc = some i) (on : Bool) (j : Journal) :
    Agree m.SameButStatus (Exec.step m) (Exec.step ⟨m.cpu.withDecimal on, m.bus, j⟩) := by
  have htests := Instruction.testsDecimal_of_decode? (Bus.read_of_instruction? hi).2
  have hx := Exec.step_instruction hq hi
  have hx' := Exec.step_instruction (m := ⟨m.cpu.withDecimal on, m.bus, j⟩)
    ((m.cpu.dueInterrupt_withDecimal on).trans hq) hi
  have hafter := Instruction.after_withDecimal (c := m.cpu) (b := m.bus) htests on
  have hread : Attempt.Matches Cpu.SameButDecimal ⟨.read m.cpu.pc, m.cpu⟩
      ⟨.read m.cpu.pc, m.cpu.withDecimal on⟩ := ⟨rfl, on, rfl⟩
  rw [Instruction.cycles_withDecimal htests] at hx'
  by_cases hpush : i.operation = .pushStatus ∨ i.operation = .brk
  · obtain ⟨front, hfront, hattempts⟩ :=
      Instruction.attempts_of_push (c := m.cpu) (b := m.bus) hpush
    obtain ⟨left, hleft⟩ := hattempts m.cpu.status.decimal
    obtain ⟨left', hleft'⟩ := hattempts on
    rw [Cpu.withDecimal_self] at hleft
    rw [hleft, ← List.cons_append] at hx
    rw [hleft', ← List.cons_append] at hx'
    have hat : m.IsAt .pushStatus ∨ m.IsAt .brk :=
      hpush.imp (fun h => ⟨hq, i, hi, h⟩) fun h => ⟨hq, i, hi, h⟩
    refine (hx.agree_push hx' rfl (.cons hread (hfront on)) hafter fun j hj => ?_).mono
      fun n n' h => sameButStatus_of_push (.inr hat) hafter rfl h
    exact m.cpu.status.getLsbD_stackByte_decimal on true hj
  · rw [not_or] at hpush
    exact (hx.agree hx' rfl
      (.cons hread (Instruction.attempts_withDecimal hpush.1 hpush.2 on)) hafter).mono
        fun _ _ h => h.sameButStatus

/-- The flag makes no difference to a step but in the status that it pushes. -/
theorem decimal_step (h : m.InStep Cpu.SameButDecimal m') :
    Agree m.SameButStatus (Exec.step m) (Exec.step m') := by
  obtain ⟨c', b', j⟩ := m'
  obtain ⟨⟨on, hcpu⟩, hbus⟩ := h
  obtain rfl : c' = m.cpu.withDecimal on := hcpu
  obtain rfl : b' = m.bus := hbus
  exact Exec.step_agree (fun _ _ h => h.sameButStatus) ⟨⟨on, rfl⟩, rfl⟩
    (m.cpu.dueInterrupt_withDecimal on) rfl
    (fun v hv => decimal_entry hv on j) fun i hq hi => decimal_instruction hq hi on j

/-- Where no step pushes the status, two runs differ in the flag at most. -/
theorem decimal_run (h : m.InStep Cpu.SameButDecimal m') {l : List Stimulus}
    (hl : ∀ before after, l = before ++ .step :: after → ¬ (m.run before).StoresStatus) :
    m'.results l = m.results l ∧ (m.run l).InStep Cpu.SameButDecimal (m'.run l) := by
  refine lockstep (P := fun m => ¬ m.StoresStatus) ?_ ?_ ?_ h hl
  · intro m m' h hm
    exact (decimal_step h).mono fun n n' hn => ⟨hn.cpu, hn.bus.resolve_right fun hs => hm hs.1⟩
  · rintro c d ⟨on, rfl⟩
    exact ⟨on, rfl⟩
  · rintro c d asserted ⟨on, rfl⟩
    exact ⟨on, rfl⟩

/-- Whatever the decimal flag is, and on any board: a step returns the same or stops with the same
    error, and leaves processors that differ in the flag at most, and equal buses.  Only a step
    that has pushed the status, an entry, PHP or BRK, may leave buses that differ in bit 3 of the
    pushed byte, which lies above the stack pointer.  As long as there is no such step, all steps
    of a run return the same, and the runs leave the same machine but for the flag. -/
theorem decimal_inert (m : Machine β) (on : Bool) (journal : Journal) :
    let m' : Machine β :=
      ⟨{ m.cpu with status := m.cpu.status.withDecimal on }, m.bus, journal⟩
    Agree m.SameButStatus (Exec.step m) (Exec.step m') ∧
      ∀ l, (∀ before after, l = before ++ .step :: after → ¬ (m.run before).StoresStatus) →
        m'.results l = m.results l ∧ (m'.run l).bus = (m.run l).bus ∧
          (m.run l).cpu.SameButDecimal (m'.run l).cpu := by
  intro m'
  have hstart : m.InStep Cpu.SameButDecimal m' := ⟨⟨on, rfl⟩, rfl⟩
  refine ⟨decimal_step hstart, fun l hl => ?_⟩
  obtain ⟨hresults, hrun⟩ := decimal_run hstart hl
  exact ⟨hresults, hrun.bus, hrun.cpu⟩

/-- ADC #$38 lies in the picture registers, with $27 in the accumulator. -/
def summing (decimal : Bool) : Machine Cartridge where
  cpu := { a := 0x27, pc := 0x2000, status := Status.withDecimal {} decimal }
  bus := { picture := (PictureRegisters.zero.write 0x2000 0x69).write 0x2001 0x38 }

/-- With the decimal flag the sum is $5F too, and not $65. -/
theorem summing_in_decimal :
    (summing true).results [.step] = [.ok 2] ∧ ((summing true).run [.step]).cpu.a = 0x5F := by
  obtain ⟨-, hruns⟩ := (summing false).decimal_inert true []
  have hinstruction : (summing false).bus.instruction? (summing false).cpu.pc =
      some ⟨0x69, .add, .immediate⟩ := rfl
  have hquiet : ¬ (summing false).StoresStatus := by
    rintro ⟨-, ⟨v, hv⟩ | ⟨-, i, hi, hop⟩ | ⟨-, i, hi, hop⟩⟩
    · cases enters_iff.mp hv
    · cases hinstruction.symm.trans hi
      cases hop
    · cases hinstruction.symm.trans hi
      cases hop
  obtain ⟨hresults, -, on, hcpu⟩ := hruns [.step] fun before after hl => by
    cases before with
    | nil => exact hquiet
    | cons s before => cases before <;> cases hl
  have ha : (((summing false).run [.step]).cpu.withDecimal on).a = 0x5F := rfl
  exact ⟨hresults.trans rfl, (congrArg Cpu.a hcpu).trans ha⟩

end Machine

end Console6502
