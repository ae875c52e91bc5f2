/-
  The reference semantics of the instruction set.

  The registers are numbers and the flags truth values (`Registers`).  What an instruction makes of
  them is written down mnemonic by mnemonic, as a data sheet does (`Mnemonic.effect`): from the byte
  `m` that its operand denotes, its effective address `ea`, the bytes above the stack pointer and the
  word of the vector table.  No function of the executor or of the decoder occurs there.

  `Exec.step_reference` says that a step at an official opcode does just this, and that the bus has
  taken the writes of the plan and nothing else.
-/
import Console6502.Proofs.AccessPlan
import Console6502.Proofs.StatusFlags

namespace Console6502

variable {β : Type} [Board β]

/-! ## Registers in numbers -/

/-- The flags. -/
structure Flags where
  n : Bool
  v : Bool
  b : Bool
  d : Bool
  i : Bool
  z : Bool
  c : Bool
deriving DecidableEq, Repr

/-- The flags in a byte; bit 5 is none. -/
def Flags.ofByte (p : Nat) : Flags where
  n := p.testBit 7
  v := p.testBit 6
  b := p.testBit 4
  d := p.testBit 3
  i := p.testBit 2
  z := p.testBit 1
  c := p.testBit 0

/-- The flags behind a pull of a byte: bit 4 is dropped. -/
def Flags.pulled (p : Nat) : Flags := { ofByte p with b := false }

/-- The registers. -/
structure Registers where
  a : Nat
  x : Nat
  y : Nat
  s : Nat
  pc : Nat
  p : Flags
deriving DecidableEq, Repr

/-- The registers of the processor. -/
def Cpu.registers (c : Cpu) : Registers where
  a := c.a.toNat
  x := c.x.toNat
  y := c.y.toNat
  s := c.sp.toNat
  pc := c.pc.toNat
  p := Flags.ofByte c.status.toByte.toNat

namespace Registers

/-- Zero and negative by a value. -/
def judged (r : Registers) (v : Nat) : Registers :=
  { r with p.n := decide (128 ≤ v), p.z := decide (v = 0) }

/-- The flags of a comparison. -/
def compared (r : Registers) (v m : Nat) : Registers :=
  { r with p.c := decide (m ≤ v) }.judged ((v + 256 - m) % 256)

/-- A jump to this address, if a flag has this value. -/
def branched (r : Registers) (flag value : Bool) (ea : Nat) : Registers :=
  if flag = value then { r with pc := ea } else r

end Registers

/-- What an instruction makes of the registers, whose program counter is behind the instruction.
    `pulled k` is the byte that lies `k` cells above the stack pointer. -/
def Mnemonic.effect (what : Mnemonic) (mode : AddressingMode) (r : Registers) (m ea : Nat)
    (pulled : Nat → Nat) (vector : Nat) : Registers :=
  match what with
  | lda => { r with a := m }.judged m
  | ldx => { r with x := m }.judged m
  | ldy => { r with y := m }.judged m
  | sta | stx | sty => r
  | ora => { r with a := r.a ||| m }.judged (r.a ||| m)
  | and => { r with a := r.a &&& m }.judged (r.a &&& m)
  | eor => { r with a := r.a ^^^ m }.judged (r.a ^^^ m)
  | adc =>
    let sum := r.a + m + r.p.c.toNat
    let signed := signedByte r.a + signedByte m + r.p.c.toNat
    { r with a := sum % 256, p.c := decide (255 < sum), p.v := outOfByte signed }.judged (sum % 256)
  | sbc =>
    let difference : Int := r.a - m - (1 - r.p.c.toNat)
    let signed := signedByte r.a - signedByte m - (1 - r.p.c.toNat)
    { r with
      a := (difference % 256).toNat, p.c := decide (0 ≤ difference),
      p.v := outOfByte signed }.judged (difference % 256).toNat
  | cmp => r.compared r.a m
  | cpx => r.compared r.x m
  | cpy => r.compared r.y m
  | bit => { r with p.z := decide (r.a &&& m = 0), p.n := m.testBit 7, p.v := m.testBit 6 }
  | asl | rol | lsr | ror | inc | dec =>
    let (v, carry) := what.modified r.p.c m
    { r with a := if mode = AddressingMode.accumulator then v else r.a, p.c := carry }.judged v
  | inx => { r with x := (r.x + 1) % 256 }.judged ((r.x + 1) % 256)
  | iny => { r with y := (r.y + 1) % 256 }.judged ((r.y + 1) % 256)
  | dex => { r with x := (r.x + 255) % 256 }.judged ((r.x + 255) % 256)
  | dey => { r with y := (r.y + 255) % 256 }.judged ((r.y + 255) % 256)
  | tax => { r with x := r.a }.judged r.a
  | tay => { r with y := r.a }.judged r.a
  | txa => { r with a := r.x }.judged r.x
  | tya => { r with a := r.y }.judged r.y
  | tsx => { r with x := r.s }.judged r.s
  | txs => { r with s := r.x }
  | pha | php => { r with s := (r.s + 255) % 256 }
  | pla => { r with s := (r.s + 1) % 256, a := pulled 1 }.judged (pulled 1)
  | plp => { r with s := (r.s + 1) % 256, p := Flags.pulled (pulled 1) }
  | jmp => { r with pc := ea }
  | jsr => { r with s := (r.s + 254) % 256, pc := ea }
  | rts => { r with s := (r.s + 2) % 256, pc := (pulled 1 + 256 * pulled 2 + 1) % 65536 }
  | rti =>
    { r with
      s := (r.s + 3) % 256, pc := pulled 2 + 256 * pulled 3, p := Flags.pulled (pulled 1) }
  | brk => { r with s := (r.s + 253) % 256, pc := vector, p.i := true }
  | bpl => r.branched r.p.n false ea
  | bmi => r.branched r.p.n true ea
  | bvc => r.branched r.p.v false ea
  | bvs => r.branched r.p.v true ea
  | bcc => r.branched r.p.c false ea
  | bcs => r.branched r.p.c true ea
  | bne => r.branched r.p.z false ea
  | beq => r.branched r.p.z true ea
  | clc => { r with p.c := false }
  | sec => { r with p.c := true }
  | cli => { r with p.i := false }
  | sei => { r with p.i := true }
  | clv => { r with p.v := false }
  | cld => { r with p.d := false }
  | sed => { r with p.d := true }
  | nop => r

/-- The byte that the operand of a mode denotes: the accumulator, the byte behind the opcode, or the
    byte at the effective address. -/
def AddressingMode.byte (mode : AddressingMode) (c : Cpu) (b : Bus β) : Nat :=
  match mode with
  | accumulator => c.a.toNat
  | immediate => b.byteAt (c.pc.toNat + 1)
  | _ => ((mode.place? c b).map b.byteAt).getD 0

/-- The registers behind an instruction, for a processor whose program counter is at the opcode. -/
def Mnemonic.after (what : Mnemonic) (mode : AddressingMode) (c : Cpu) (b : Bus β) : Registers :=
  what.effect mode
    { c.registers with pc := (c.pc.toNat + 1 + mode.operandBytes) % 65536 }
    (mode.byte c b) ((mode.place? c b).getD 0)
    (fun k => b.byteAt (0x0100 + (c.sp.toNat + k) % 256)) (b.pairAt 0xFFFE 0xFFFF)

/-! ## Flags -/

namespace Status

/-- The flags of the register. -/
def flags (s : Status) : Flags := Flags.ofByte s.toByte.toNat

theorem flags_eq (s : Status) :
    s.flags = ⟨s.negative, s.overflow, s.brk, s.decimal, s.interruptDisable, s.zero, s.carry⟩ := by
  unfold negative overflow brk decimal interruptDisable zero carry
  rw [← getLsbD_toByte, ← getLsbD_toByte, ← getLsbD_toByte, ← getLsbD_toByte, ← getLsbD_toByte,
    ← getLsbD_toByte, ← getLsbD_toByte]
  rfl

/-- Switching a flag, one flag after the other. -/
theorem flags_set (s : Status) (f : Flag) (on : Bool) :
    (s.set f on).flags =
      match f with
      | .carry => { s.flags with c := on }
      | .zero => { s.flags with z := on }
      | .interruptDisable => { s.flags with i := on }
      | .decimal => { s.flags with d := on }
      | .brk => { s.flags with b := on }
      | .alwaysOn => s.flags
      | .overflow => { s.flags with v := on }
      | .negative => { s.flags with n := on } := by
  rw [flags_eq, flags_eq]
  cases f <;> simp

theorem flags_judge (s : Status) (v : Byte) :
    (s.judge v).flags =
      { s.flags with n := decide (128 ≤ v.toNat), z := decide (v.toNat = 0) } := by
  rw [judge, flags_set, flags_set]

theorem flags_ofStackByte (v : Byte) : (ofStackByte v).flags = Flags.pulled v.toNat := by
  have hbit : ∀ f, f ≠ .alwaysOn → (ofByte v).get f = v.getLsbD f.bit := by
    intro f hf
    rw [get_ofByte, beq_eq_false_iff_ne.mpr hf, Bool.or_false]
  have hbits : (ofByte v).flags = Flags.ofByte v.toNat := by
    rw [flags_eq]
    unfold negative overflow brk decimal interruptDisable zero carry
    rw [hbit _ (by decide), hbit _ (by decide), hbit _ (by decide), hbit _ (by decide),
      hbit _ (by decide), hbit _ (by decide), hbit _ (by decide)]
    rfl
  rw [ofStackByte, flags_set, hbits]
  rfl

end Status

/-! ## Operands -/

theorem Byte.toNat_sub_ofNat (v : Byte) (k : Nat) :
    (v - BitVec.ofNat 8 k).toNat = (v.toNat + (256 - k % 256)) % 256 := by
  rw [BitVec.toNat_sub, BitVec.toNat_ofNat, Nat.add_comm]

theorem Byte.toNat_add_ofNat (v : Byte) (k : Nat) :
    (v + BitVec.ofNat 8 k).toNat = (v.toNat + k) % 256 := by
  rw [BitVec.toNat_add, BitVec.toNat_ofNat, Nat.add_mod_mod]

theorem Byte.toNat_ofNat_mod (n : Nat) : (BitVec.ofNat 8 (n % 256)).toNat = n % 256 := by
  rw [BitVec.toNat_ofNat]
  exact Nat.mod_mod n 256

theorem Byte.toNat_pred (v : Byte) :
    (BitVec.ofInt 8 (v.toNat - 1)).toNat = (v.toNat + 255) % 256 := by
  rw [BitVec.toNat_ofInt]
  omega

namespace AddressingMode

variable {mode : AddressingMode} {c : Cpu} {b : Bus β}

theorem place?_lt {ea : Nat} (h : mode.place? c b = some ea) : ea < 65536 := by
  have hbyte : ∀ a, b.byteAt a < 256 := fun a => (b.peek _).isLt
  have hpair : ∀ low high, b.pairAt low high < 65536 := by
    intro low high
    have hlow := hbyte low
    have hhigh := hbyte high
    unfold Bus.pairAt
    omega
  unfold place? at h
  cases mode with
  | implied | accumulator | immediate => cases h
  | zeroPage =>
    obtain rfl := Option.some.inj h
    have hlow := hbyte (c.pc.toNat + 1)
    omega
  | absolute | indirect | indexedIndirect =>
    obtain rfl := Option.some.inj h
    exact hpair _ _
  | zeroPageX | zeroPageY | absoluteX | absoluteY | indirectIndexed | relative =>
    obtain rfl := Option.some.inj h
    omega

theorem exists_place (himplied : mode ≠ .implied) (haccumulator : mode ≠ .accumulator)
    (himmediate : mode ≠ .immediate) (c : Cpu) (b : Bus β) : ∃ ea, mode.place? c b = some ea := by
  cases mode with
  | implied => exact absurd rfl himplied
  | accumulator => exact absurd rfl haccumulator
  | immediate => exact absurd rfl himmediate
  | _ => exact ⟨_, rfl⟩

/-- An operand that has an effective address lies in memory. -/
theorem operandOf_of_place {ea : Nat} (h : mode.place? c b = some ea) (opcode : Byte) :
    ∃ crossed, mode.operandOf (c.begin opcode) b = .memory (BitVec.ofNat 16 ea) crossed := by
  have hplace := mode.address?_operandOf opcode c b
  rw [h] at hplace
  cases hoperand : mode.operandOf (c.begin opcode) b with
  | memory a crossed =>
    rw [hoperand] at hplace
    obtain rfl := Option.some.inj hplace
    exact ⟨crossed, rfl⟩
  | implied | accumulator | immediate v =>
    rw [hoperand] at hplace
    cases hplace

/-- The byte that an operand denotes, for a processor that still has the accumulator. -/
theorem toNat_byteOf (mode : AddressingMode) (opcode : Byte) {c d : Cpu} (hd : d.a = c.a)
    (b : Bus β) :
    ((mode.operandOf (c.begin opcode) b).byteOf d b).toNat = mode.byte c b := by
  have hmemory : ∀ ea, mode.place? c b = some ea →
      ((mode.operandOf (c.begin opcode) b).byteOf d b).toNat =
        ((mode.place? c b).map b.byteAt).getD 0 := by
    intro ea hea
    obtain ⟨crossed, hoperand⟩ := operandOf_of_place hea opcode
    rw [hoperand, hea]
    rfl
  cases mode with
  | implied => rfl
  | accumulator => exact congrArg BitVec.toNat hd
  | immediate => exact (b.byteAt_operand c).symm
  | _ => exact hmemory _ rfl

/-- A jump to the effective address. -/
theorem registers_goingTo {ea : Nat} (h : mode.place? c b = some ea) (opcode : Byte) (d : Cpu) :
    (d.goingTo (mode.operandOf (c.begin opcode) b)).registers = { d.registers with pc := ea } := by
  have htarget : (BitVec.ofNat 16 ea).toNat = ea := by
    rw [BitVec.toNat_ofNat]
    exact Nat.mod_eq_of_lt (place?_lt h)
  rw [Cpu.goingTo, address?_operandOf, h]
  exact congrArg (fun n => { d.registers with pc := n }) htarget

end AddressingMode

/-! ## The outcome of an operation, in numbers -/

namespace Cpu

theorem registers_eq {c : Cpu} {r : Registers} (ha : c.a.toNat = r.a) (hx : c.x.toNat = r.x)
    (hy : c.y.toNat = r.y) (hs : c.sp.toNat = r.s) (hpc : c.pc.toNat = r.pc)
    (hp : c.status.flags = r.p) : c.registers = r := by
  obtain ⟨a, x, y, s, pc, p⟩ := r
  exact Registers.mk.injEq .. ▸ ⟨ha, hx, hy, hs, hpc, hp⟩

theorem registers_loaded (c : Cpu) (r : Register) {v : Byte} {n : Nat} (hv : v.toNat = n) :
    (c.loaded r v).registers =
      (match r with
      | .a => { c.registers with a := n }
      | .x => { c.registers with x := n }
      | .y => { c.registers with y := n } : Registers).judged n := by
  subst hv
  cases r <;> exact registers_eq rfl rfl rfl rfl rfl (c.status.flags_judge v)

theorem registers_summed (c : Cpu) {total : Int} (carry : Bool) (signed : Int) {n : Nat}
    (hn : (total % 256).toNat = n) :
    (c.summed total carry signed).registers =
      { c.registers with a := n, p.c := carry, p.v := outOfByte signed }.judged n := by
  have hvalue : (BitVec.ofInt 8 total).toNat = n := by
    rw [BitVec.toNat_ofInt]
    exact hn
  refine registers_eq hvalue rfl rfl rfl rfl ?_
  unfold summed
  rw [Status.flags_judge, Status.flags_set, Status.flags_set, hvalue]
  rfl

/-- The flags of a comparison. -/
theorem registers_compared (c : Cpu) (r v : Byte) :
    ({ c with
      status := (c.status.set .carry (decide (v.toNat ≤ r.toNat))).judge
        (BitVec.ofInt 8 (r.toNat - v.toNat)) } : Cpu).registers =
      c.registers.compared r.toNat v.toNat := by
  have hr := r.isLt
  have hv := v.isLt
  have hvalue : (BitVec.ofInt 8 (r.toNat - v.toNat)).toNat = (r.toNat + 256 - v.toNat) % 256 := by
    rw [BitVec.toNat_ofInt]
    omega
  refine registers_eq rfl rfl rfl rfl rfl ?_
  rw [Status.flags_judge, Status.flags_set, hvalue]
  rfl

/-- The flags of a modification, and its byte where that goes into the accumulator. -/
theorem registers_modified (c : Cpu) (a v : Byte) (carry : Bool) :
    ({ c with a := a, status := (c.status.set .carry carry).judge v } : Cpu).registers =
      { c.registers with a := a.toNat, p.c := carry }.judged v.toNat := by
  refine registers_eq rfl rfl rfl rfl rfl ?_
  rw [Status.flags_judge, Status.flags_set]
  rfl

theorem registers_bitTest (c : Cpu) (v : Byte) :
    ({ c with
      status := ((c.status.set .zero (decide ((c.a &&& v).toNat = 0))).set .negative
        (decide (128 ≤ v.toNat))).set .overflow (v.getLsbD 6) } : Cpu).registers =
      { c.registers with
        p.z := decide (c.a.toNat &&& v.toNat = 0), p.n := v.toNat.testBit 7,
        p.v := v.toNat.testBit 6 } := by
  have hsign : decide (128 ≤ v.toNat) = v.toNat.testBit 7 := by
    rw [← Byte.msb_eq]
    exact BitVec.msb_eq_getLsbD_last v
  refine registers_eq rfl rfl rfl rfl rfl ?_
  rw [Status.flags_set, Status.flags_set, Status.flags_set, hsign, BitVec.toNat_and]
  rfl

end Cpu

namespace Mnemonic

variable {what : Mnemonic} {mode : AddressingMode} {opcode : Byte}

/-- The modes of a modification. -/
theorem mode_of_modify {how : Modifier} (hhow : what.operation = .modify how)
    (h : (opcode, mode) ∈ what.encodings) :
    mode = .accumulator ∨ mode ≠ .implied ∧ mode ≠ .accumulator ∧ mode ≠ .immediate := by
  have hall : ∀ entry ∈ what.encodings, entry.2 = .accumulator ∨
      entry.2 ≠ .implied ∧ entry.2 ≠ .accumulator ∧ entry.2 ≠ .immediate := by
    cases what <;> first | decide | cases hhow
  exact hall _ h

/-- A modification, in the accumulator or at the effective address. -/
theorem registers_modify {how : Modifier} (hhow : what.operation = .modify how)
    (h : (opcode, mode) ∈ what.encodings) (c d : Cpu) (b : Bus β) {m : Nat}
    (hm : ((mode.operandOf (c.begin opcode) b).byteOf d b).toNat = m) :
    ((Operation.modify how).outcome (mode.operandOf (c.begin opcode) b) d b).registers =
      { d.registers with
        a := if mode = AddressingMode.accumulator then (what.modified d.registers.p.c m).1
          else d.registers.a,
        p.c := (what.modified d.registers.p.c m).2 }.judged (what.modified d.registers.p.c m).1 := by
  have hcarry : d.registers.p.c = d.status.carry := d.status.getLsbD_toByte .carry
  rw [hcarry, ← hm, modified_eq hhow]
  rcases mode_of_modify hhow h with rfl | ⟨himplied, haccumulator, himmediate⟩
  · exact d.registers_modified _ _ _
  · obtain ⟨ea, hea⟩ := AddressingMode.exists_place himplied haccumulator himmediate c b
    obtain ⟨crossed, hmemory⟩ := AddressingMode.operandOf_of_place hea opcode
    rw [if_neg haccumulator, hmemory]
    exact d.registers_modified d.a _ _

/-- Jumps and branches have an effective address. -/
theorem exists_place (h : (opcode, mode) ∈ what.encodings)
    (hwhat : ∀ entry ∈ what.encodings,
      entry.2 ≠ .implied ∧ entry.2 ≠ .accumulator ∧ entry.2 ≠ .immediate) (c : Cpu) (b : Bus β) :
    ∃ ea, mode.place? c b = some ea := by
  obtain ⟨himplied, haccumulator, himmediate⟩ := hwhat _ h
  exact AddressingMode.exists_place himplied haccumulator himmediate c b

theorem registers_branch {c d : Cpu} {b : Bus β} {ea : Nat} (hea : mode.place? c b = some ea)
    {flag : Flag} {on : Bool} (hon : d.status.get flag = on) (value : Bool) (opcode : Byte) :
    ((Operation.branch flag value).outcome (mode.operandOf (c.begin opcode) b) d b).registers =
      d.registers.branched on value ea := by
  subst hon
  unfold Registers.branched
  by_cases h : d.status.get flag = value
  · rw [if_pos h, Operation.outcome]
    simp only [if_pos h]
    exact AddressingMode.registers_goingTo hea opcode d
  · rw [if_neg h, Operation.outcome]
    simp only [if_neg h]

end Mnemonic

/-- What an operation makes of the registers is what the data sheet says. -/
theorem Mnemonic.registers_outcome {what : Mnemonic} {mode : AddressingMode} {opcode : Byte}
    (h : (opcode, mode) ∈ what.encodings) (c : Cpu) (b : Bus β) :
    (what.operation.outcome (mode.operandOf (c.begin opcode) b)
      ((c.begin opcode).taking b mode.operandBytes) b).registers = what.after mode c b := by
  -- `d` is the processor behind the fetch of the operand, of which every case needs a few fields only
  obtain ⟨d, hd⟩ : ∃ d, (c.begin opcode).taking b mode.operandBytes = d := ⟨_, rfl⟩
  have hframe := (c.begin opcode).taking_frame b mode.operandBytes
  have hpc := (c.begin opcode).pc_taking b mode.operandBytes_le
  rw [hd] at hframe hpc ⊢
  have ha : d.a = c.a := by
    rw [hframe]
    rfl
  have hsp : d.sp = c.sp := by
    rw [hframe]
    rfl
  have hregisters : d.registers =
      { c.registers with pc := (c.pc.toNat + 1 + mode.operandBytes) % 65536 } := by
    have hcounter : d.pc.toNat = (c.pc.toNat + 1 + mode.operandBytes) % 65536 := by
      rw [hpc]
      show (c.pc + BitVec.ofNat 16 1 + BitVec.ofNat 16 mode.operandBytes).toNat = _
      rw [BitVec.toNat_add, BitVec.toNat_add, BitVec.toNat_ofNat, BitVec.toNat_ofNat]
      omega
    refine Cpu.registers_eq ?_ ?_ ?_ ?_ hcounter ?_ <;> rw [hframe] <;> rfl
  have hm := mode.toNat_byteOf opcode ha b
  have hpulled : ∀ k : Byte,
      (b.stackByte d k).toNat = b.byteAt (0x0100 + (c.sp.toNat + k.toNat) % 256) := by
    intro k
    rw [Bus.stackByte, Cpu.stackCell_eq, hsp, BitVec.toNat_add]
    rfl
  have hvector : (b.vectorWord .irq).toNat = b.pairAt 0xFFFE 0xFFFF :=
    Word.toNat_ofBytes _ _
  unfold after
  rw [← hregisters]
  generalize mode.byte c b = m at hm
  have hsigned : ∀ v : Byte, v.toInt = signedByte v.toNat := fun v => v.signedByte_toNat.symm
  have hcarry : d.status.carry = d.registers.p.c := (d.status.getLsbD_toByte .carry).symm
  cases what with
  | lda => exact d.registers_loaded .a hm
  | ldx => exact d.registers_loaded .x hm
  | ldy => exact d.registers_loaded .y hm
  | ora => exact d.registers_loaded .a ((BitVec.toNat_or ..).trans (congrArg _ hm))
  | and => exact d.registers_loaded .a ((BitVec.toNat_and ..).trans (congrArg _ hm))
  | eor => exact d.registers_loaded .a ((BitVec.toNat_xor ..).trans (congrArg _ hm))
  | adc =>
    have hsum : (((d.a.toNat : Int) + m + d.registers.p.c.toNat) % 256).toNat =
        (d.a.toNat + m + d.registers.p.c.toNat) % 256 := by
      omega
    simp only [operation, Operation.outcome, hsigned, hm, hcarry]
    exact d.registers_summed _ _ hsum
  | sbc =>
    simp only [operation, Operation.outcome, hsigned, hm, hcarry]
    exact d.registers_summed _ _ rfl
  | cmp => exact hm ▸ d.registers_compared d.a _
  | cpx => exact hm ▸ d.registers_compared d.x _
  | cpy => exact hm ▸ d.registers_compared d.y _
  | bit => exact hm ▸ d.registers_bitTest _
  | asl | rol | lsr | ror | inc | dec => exact registers_modify rfl h c d b hm
  | inx => exact d.registers_loaded .x (Byte.toNat_ofNat_mod _)
  | iny => exact d.registers_loaded .y (Byte.toNat_ofNat_mod _)
  | dex => exact d.registers_loaded .x (Byte.toNat_pred _)
  | dey => exact d.registers_loaded .y (Byte.toNat_pred _)
  | tax | tay | txa | tya => exact d.registers_loaded _ rfl
  | tsx => exact d.registers_loaded .x rfl
  | pha | php => exact Cpu.registers_eq rfl rfl rfl (d.sp.toNat_sub_ofNat 1) rfl rfl
  | pla =>
    have hpull := Cpu.registers_loaded { d with sp := d.sp + 1 } .a (hpulled 1)
    exact hpull.trans (congrArg
      (fun s => ({ d.registers with s := s, a := _ } : Registers).judged _)
      (d.sp.toNat_add_ofNat 1))
  | plp =>
    have hflags := Status.flags_ofStackByte (b.stackByte d 1)
    rw [hpulled 1] at hflags
    exact Cpu.registers_eq rfl rfl rfl (d.sp.toNat_add_ofNat 1) rfl hflags
  | jmp =>
    obtain ⟨ea, hea⟩ := exists_place h (by decide) c b
    rw [hea]
    exact AddressingMode.registers_goingTo hea opcode d
  | jsr =>
    obtain ⟨ea, hea⟩ := exists_place h (by decide) c b
    rw [hea]
    have hgo := AddressingMode.registers_goingTo hea opcode { d with sp := d.sp - 2 }
    exact hgo.trans (congrArg (fun s => { d.registers with s := s, pc := ea })
      (d.sp.toNat_sub_ofNat 2))
  | rts =>
    have htarget : (Word.ofBytes (b.stackByte d 1) (b.stackByte d 2) + 1).toNat = _ :=
      (BitVec.toNat_add ..).trans (congrArg (fun n => (n + 1) % 65536) (Word.toNat_ofBytes ..))
    rw [hpulled 1, hpulled 2] at htarget
    exact Cpu.registers_eq rfl rfl rfl (d.sp.toNat_add_ofNat 2) htarget rfl
  | rti =>
    have hflags := Status.flags_ofStackByte (b.stackByte d 1)
    have htarget := Word.toNat_ofBytes (b.stackByte d 2) (b.stackByte d 3)
    rw [hpulled 1] at hflags
    rw [hpulled 2, hpulled 3] at htarget
    exact Cpu.registers_eq rfl rfl rfl (d.sp.toNat_add_ofNat 3) htarget hflags
  | brk =>
    exact Cpu.registers_eq rfl rfl rfl (d.sp.toNat_sub_ofNat 3) hvector
      (d.status.flags_set .interruptDisable true)
  | bpl | bmi | bvc | bvs | bcc | bcs | bne | beq =>
    obtain ⟨ea, hea⟩ := exists_place h (by decide) c b
    rw [hea]
    exact registers_branch hea (d.status.getLsbD_toByte _).symm _ opcode
  | clc | sec | cli | sei | clv | cld | sed =>
    exact Cpu.registers_eq rfl rfl rfl rfl rfl (d.status.flags_set _ _)
  | sta | stx | sty | txs | nop => rfl

/-! ## A step -/

/-- What a step at an entry of the opcode table leaves of the processor: the registers of the data
    sheet, and the bytes of the instruction.  The inputs stay, and bit 5 of the status stays on. -/
structure Mnemonic.Leaves (what : Mnemonic) (mode : AddressingMode) (opcode : Byte) (m : Machine β)
    (c : Cpu) : Prop where
  registers : c.registers = what.after mode m.cpu m.bus
  alwaysOn : m.cpu.status.toByte.getLsbD 5 = true → c.status.toByte.getLsbD 5 = true
  opcode : c.opcode = opcode
  low : c.low.toNat = if 0 < mode.operandBytes then m.bus.byteAt (m.cpu.pc.toNat + 1) else 0
  high : c.high.toNat = if 1 < mode.operandBytes then m.bus.byteAt (m.cpu.pc.toNat + 2) else 0
  nmiPending : c.nmiPending = m.cpu.nmiPending
  irqLine : c.irqLine = m.cpu.irqLine

theorem Mnemonic.leaves_after {what : Mnemonic} {mode : AddressingMode} {opcode : Byte}
    (h : (opcode, mode) ∈ what.encodings) (m : Machine β) :
    what.Leaves mode opcode m
      ((⟨opcode, what.operation, mode⟩ : Instruction).after m.cpu m.bus) := by
  have hframe := what.operation.outcome_frame (mode.operandOf (m.cpu.begin opcode) m.bus)
    ((m.cpu.begin opcode).taking m.bus mode.operandBytes) m.bus
  have hinputs := Instruction.inputs_after ⟨opcode, what.operation, mode⟩ m.cpu m.bus
  have hbytes : ((m.cpu.begin opcode).taking m.bus mode.operandBytes).opcode = opcode ∧
      ((m.cpu.begin opcode).taking m.bus mode.operandBytes).low.toNat =
        (if 0 < mode.operandBytes then m.bus.byteAt (m.cpu.pc.toNat + 1) else 0) ∧
      ((m.cpu.begin opcode).taking m.bus mode.operandBytes).high.toNat =
        (if 1 < mode.operandBytes then m.bus.byteAt (m.cpu.pc.toNat + 2) else 0) := by
    have hsecond : m.bus.byteAt (m.cpu.pc.toNat + 2) = (m.bus.peek (m.cpu.pc + 1 + 1)).toNat := by
      rw [Bus.byteAt, Word.ofNat_toNat_add, Word.add_one_add_one]
      rfl
    rw [m.bus.byteAt_operand, hsecond]
    cases mode <;> exact ⟨rfl, rfl, rfl⟩
  refine ⟨registers_outcome h m.cpu m.bus, fun hon => ?_, ?_, ?_, ?_, hinputs.1, hinputs.2⟩
  · have hstart : ((m.cpu.begin opcode).taking m.bus mode.operandBytes).status.get .alwaysOn =
        true := by
      rw [Cpu.status_taking]
      exact (m.cpu.status.getLsbD_toByte .alwaysOn).symm.trans hon
    exact (Status.getLsbD_toByte _ .alwaysOn).trans
      (what.operation.alwaysOn_outcome (mode.operandOf (m.cpu.begin opcode) m.bus) hstart m.bus)
  · exact (congrArg Cpu.opcode hframe).trans hbytes.1
  · exact (congrArg (·.low.toNat) hframe).trans hbytes.2.1
  · exact (congrArg (·.high.toNat) hframe).trans hbytes.2.2

/-- A step that is due no interrupt, at an opcode of the table, and granted all that the instruction
    asks for, leaves the processor that the data sheet says, with its cycles charged, and the bus
    with the writes of the instruction made. -/
theorem Exec.step_reference (m : Machine β) (opcode : Byte) (what : Mnemonic)
    (mode : AddressingMode) (b' : Bus β) (hnmi : m.cpu.nmiPending = false)
    (hirq : m.cpu.irqLine = true → m.cpu.status.toByte.getLsbD 2 = true)
    (hread : m.bus.read m.cpu.pc = .ok opcode) (hwhat : (opcode, mode) ∈ what.encodings)
    (hb : m.bus.grant (what.requests mode m.cpu m.bus) = some b') :
    m.bus.grant (what.writes mode m.cpu m.bus) = some b' ∧
    ∃ n c j, Exec.step m = .ok n ⟨c, b', j⟩ ∧ what.Leaves mode opcode m c ∧
      c.cycle = m.cpu.cycle + n := by
  have hmask : m.cpu.status.toByte.getLsbD 2 = m.cpu.status.interruptDisable :=
    m.cpu.status.getLsbD_toByte .interruptDisable
  rw [hmask] at hirq
  have hq : m.cpu.dueInterrupt = none := m.cpu.dueInterrupt_eq_none_iff.mpr ⟨hnmi, hirq⟩
  have hi : m.bus.instruction? m.cpu.pc = some ⟨opcode, what.operation, mode⟩ := by
    rw [Bus.instruction?_of_read hread, Instruction.decode?_of_mem hwhat]
  rw [Mnemonic.requests_eq hwhat] at hb
  constructor
  · rw [Mnemonic.writes_eq hwhat]
    exact Instruction.grant_writes hb
  · rw [← Instruction.map_request_attempts] at hb
    obtain ⟨hnone, rfl⟩ := Bus.grant_eq_some_iff.mp hb
    obtain ⟨j, hok, -⟩ := (step_instruction hq hi).granted hnone
    exact ⟨_, _, j, hok, Mnemonic.leaves_after hwhat m, Instruction.cycle_after _ _ _⟩

/-- ADC #$50 lies in the picture registers, with $50 in the accumulator. -/
def Exec.overflowing : Machine Nrom where
  cpu := { a := 0x50, pc := 0x2000 }
  bus := { picture := (PictureRegisters.zero.write 0x2000 0x69).write 0x2001 0x50 }

/-- Two positive numbers have a negative sum, without a carry. -/
theorem Exec.step_overflowing :
    ∃ n c j, Exec.step overflowing = .ok n ⟨c, overflowing.bus, j⟩ ∧ c.registers =
      { a := 0xA0, x := 0, y := 0, s := 0xFD, pc := 0x2002
        p :=
          { n := true, v := true, b := false, d := false, i := false, z := false, c := false } } := by
  obtain ⟨-, n, c, j, hstep, hleaves, -⟩ := Exec.step_reference overflowing 0x69 .adc .immediate
    overflowing.bus rfl nofun rfl (by decide) rfl
  exact ⟨n, c, j, hstep, hleaves.registers.trans (by decide +kernel)⟩

end Console6502
