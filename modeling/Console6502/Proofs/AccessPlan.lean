/-
  The accesses of a step, written out.

  Which addresses a step comes to, in which order and with which values is told here in numbers,
  from the registers and the bytes on the bus before the step: the vector table at $FFFA and $FFFE,
  the stack from $0100 on, the bytes behind the program counter, the pointers, the effective address
  (`AddressingMode.place?`).  An opcode means what the opcode table says.

  The plan of a step (`Cpu.accessPlan`) is the one that the step follows, so its entries in the
  journal are this plan, answered (`Exec.step_accesses`).
-/
import Console6502.Board.Nrom
import Console6502.Proofs.EffectiveAddress
import Console6502.Proofs.OpcodeTable

namespace Console6502

variable {β : Type} [Board β]

/-! ## Addresses by number -/

/-- The number of the byte at an address, which is taken modulo 2^16; zero where the bus refuses to
    read it. -/
def Bus.byteAt (b : Bus β) (a : Nat) : Nat := (b.peek (BitVec.ofNat 16 a)).toNat

/-- The number of the word whose bytes are at these addresses. -/
def Bus.pairAt (b : Bus β) (low high : Nat) : Nat := b.byteAt low + 256 * b.byteAt high

namespace Request

/-- The read at an address. -/
def readAt (a : Nat) : Request := .read (BitVec.ofNat 16 a)

/-- The write of a byte to an address. -/
def writeAt (a v : Nat) : Request := .write (BitVec.ofNat 16 a) (BitVec.ofNat 8 v)

end Request

/-- The signed number of a byte. -/
def signedByte (v : Nat) : Int := if v < 128 then v else v - 256

namespace AddressingMode

/-- The cells of the pointer that a mode goes through, low byte first, for a processor whose program
    counter is at the opcode. -/
def pointers (mode : AddressingMode) (c : Cpu) (b : Bus β) : List Nat :=
  let low := b.byteAt (c.pc.toNat + 1)
  let word := b.pairAt (c.pc.toNat + 1) (c.pc.toNat + 2)
  match mode with
  | indirect => [word, word / 256 * 256 + (word + 1) % 256]
  | indexedIndirect => [(low + c.x.toNat) % 256, (low + c.x.toNat + 1) % 256]
  | indirectIndexed => [low, (low + 1) % 256]
  | _ => []

/-- The effective address of a mode, if it has one. -/
def place? (mode : AddressingMode) (c : Cpu) (b : Bus β) : Option Nat :=
  let low := b.byteAt (c.pc.toNat + 1)
  let word := b.pairAt (c.pc.toNat + 1) (c.pc.toNat + 2)
  match mode with
  | implied | accumulator | immediate => none
  | zeroPage => some low
  | zeroPageX => some ((low + c.x.toNat) % 256)
  | zeroPageY => some ((low + c.y.toNat) % 256)
  | absolute => some word
  | absoluteX => some ((word + c.x.toNat) % 65536)
  | absoluteY => some ((word + c.y.toNat) % 65536)
  | indirect => some (b.pairAt word (word / 256 * 256 + (word + 1) % 256))
  | indexedIndirect =>
    some (b.pairAt ((low + c.x.toNat) % 256) ((low + c.x.toNat + 1) % 256))
  | indirectIndexed => some ((b.pairAt low ((low + 1) % 256) + c.y.toNat) % 65536)
  | relative => some (((c.pc.toNat + 2 + signedByte low) % 65536).toNat)

end AddressingMode

/-! ## The plan -/

namespace Mnemonic

/-- The byte that a modification puts in the place of another one, and the carry behind it. -/
def modified (what : Mnemonic) (carry : Bool) (v : Nat) : Nat × Bool :=
  match what with
  | asl => (2 * v % 256, decide (128 ≤ v))
  | rol => (2 * v % 256 + carry.toNat, decide (128 ≤ v))
  | lsr => (v / 2, decide (v % 2 = 1))
  | ror => (v / 2 + 128 * carry.toNat, decide (v % 2 = 1))
  | inc => ((v + 1) % 256, carry)
  | dec => ((v + 255) % 256, carry)
  | _ => (v, carry)

/-- What an instruction reads behind its own bytes and its pointer. -/
def reads (what : Mnemonic) (mode : AddressingMode) (c : Cpu) (b : Bus β) : List Request :=
  let sp := c.sp.toNat
  match what with
  | lda | ldx | ldy | ora | and | eor | adc | sbc | cmp | cpx | cpy | bit
  | asl | rol | lsr | ror | inc | dec => (mode.place? c b).toList.map .readAt
  | pla | plp => [.readAt (0x0100 + (sp + 1) % 256)]
  | rts => [.readAt (0x0100 + (sp + 1) % 256), .readAt (0x0100 + (sp + 2) % 256)]
  | rti => [.readAt (0x0100 + (sp + 1) % 256), .readAt (0x0100 + (sp + 2) % 256),
      .readAt (0x0100 + (sp + 3) % 256)]
  | brk => [.vector .irq 0xFFFE, .vector .irq 0xFFFF]
  | _ => []

/-- What an instruction writes in the end.  PHP and BRK push the status with bit 4 on. -/
def writes (what : Mnemonic) (mode : AddressingMode) (c : Cpu) (b : Bus β) : List Request :=
  let sp := c.sp.toNat
  let places := (mode.place? c b).toList
  let back := (c.pc.toNat + 2) % 65536
  match what with
  | sta => places.map (.writeAt · c.a.toNat)
  | stx => places.map (.writeAt · c.x.toNat)
  | sty => places.map (.writeAt · c.y.toNat)
  | asl | rol | lsr | ror | inc | dec => places.flatMap fun a =>
      [.writeAt a (b.byteAt a),
       .writeAt a (what.modified (c.status.toByte.getLsbD 0) (b.byteAt a)).1]
  | pha => [.writeAt (0x0100 + sp) c.a.toNat]
  | php => [.writeAt (0x0100 + sp) (c.status.toByte.toNat ||| 0x10)]
  | jsr => [.writeAt (0x0100 + sp) (back / 256), .writeAt (0x0100 + (sp + 255) % 256) (back % 256)]
  | brk => [.writeAt (0x0100 + sp) (back / 256), .writeAt (0x0100 + (sp + 255) % 256) (back % 256),
      .writeAt (0x0100 + (sp + 254) % 256) (c.status.toByte.toNat ||| 0x10)]
  | _ => []

/-- All that an instruction asks of the bus, in order. -/
def requests (what : Mnemonic) (mode : AddressingMode) (c : Cpu) (b : Bus β) : List Request :=
  (List.range (1 + mode.operandBytes)).map (fun k => .readAt (c.pc.toNat + k)) ++
    ((mode.pointers c b).map .readAt ++ (what.reads mode c b ++ what.writes mode c b))

end Mnemonic

namespace Cpu

/-- What the entry of a hardware interrupt asks of the bus, its vector at this address.  The status
    is pushed with bit 4 off and bit 5 on. -/
def entryRequests (c : Cpu) (v : InterruptVector) (a : Nat) : List Request :=
  let sp := c.sp.toNat
  let pc := c.pc.toNat
  [.vector v (BitVec.ofNat 16 a), .vector v (BitVec.ofNat 16 (a + 1)),
   .writeAt (0x0100 + sp) (pc / 256), .writeAt (0x0100 + (sp + 255) % 256) (pc % 256),
   .writeAt (0x0100 + (sp + 254) % 256) (c.status.toByte.toNat &&& 0xEF ||| 0x20)]

/-- What a step asks of the bus: a latched NMI comes first, then the IRQ line unless bit 2 of the
    status masks it, then the instruction at the program counter.  At a byte that is no opcode the
    step stops behind the read of it. -/
def accessPlan (c : Cpu) (b : Bus β) : List Request :=
  if c.nmiPending then c.entryRequests .nmi 0xFFFA
  else if c.irqLine ∧ c.status.toByte.getLsbD 2 = false then c.entryRequests .irq 0xFFFE
  else
    match b.read c.pc with
    | .ok opcode =>
      match Mnemonic.ofOpcode? opcode with
      | some (what, mode) => what.requests mode c b
      | none => [.readAt c.pc.toNat]
    | .error _ => [.readAt c.pc.toNat]

end Cpu

/-! ## Numbers and words -/

theorem Word.ofNat_toNat_add (w : Word) (k : Nat) :
    BitVec.ofNat 16 (w.toNat + k) = w + BitVec.ofNat 16 k := by
  rw [BitVec.ofNat_add, Word.ofNat_toNat]

theorem Byte.ofNat_toNat (v : Byte) : BitVec.ofNat 8 v.toNat = v := by
  rw [BitVec.ofNat_toNat, BitVec.setWidth_eq]

theorem Byte.signedByte_toNat (v : Byte) : signedByte v.toNat = v.toInt := (Byte.toInt_eq v).symm

theorem Request.readAt_toNat (a : Word) : readAt a.toNat = .read a := by
  rw [readAt, Word.ofNat_toNat]

/-- A cell of the stack this far above the stack pointer. -/
theorem Request.readAt_stack (sp : Byte) (k : Nat) :
    readAt (0x0100 + (sp.toNat + k) % 256) = .read (Cpu.stackCell (sp + BitVec.ofNat 8 k)) := by
  rw [readAt, Cpu.stackCell_eq, BitVec.toNat_add, BitVec.toNat_ofNat, Nat.add_mod_mod]

namespace Bus

variable {b : Bus β}

theorem byteAt_toNat (b : Bus β) (a : Word) : b.byteAt a.toNat = (b.peek a).toNat := by
  rw [byteAt, Word.ofNat_toNat]

theorem byteAt_operand (b : Bus β) (c : Cpu) :
    b.byteAt (c.pc.toNat + 1) = (b.peek (c.pc + 1)).toNat := by
  rw [byteAt, Word.ofNat_toNat_add]
  rfl

theorem pairAt_operand (b : Bus β) (c : Cpu) :
    b.pairAt (c.pc.toNat + 1) (c.pc.toNat + 2) = (b.wordAt (c.pc + 1)).toNat := by
  rw [wordAt, Word.toNat_ofBytes, pairAt, byteAt_operand, byteAt, Word.ofNat_toNat_add,
    Word.add_one_add_one]
  rfl

theorem pairAt_page (b : Bus β) (a : Word) :
    b.pairAt a.toNat (a.toNat / 256 * 256 + (a.toNat + 1) % 256) = (b.pageWord a).toNat := by
  rw [pageWord, Word.toNat_ofBytes, pairAt, byteAt_toNat, byteAt, Word.ofNat_next_in_page]

theorem pairAt_zeroPage (b : Bus β) (p : Byte) :
    b.pairAt p.toNat ((p.toNat + 1) % 256) = (b.zeroPageWord p).toNat := by
  rw [zeroPageWord, Word.toNat_ofBytes, pairAt, ← Byte.toNat_add_one, byteAt, byteAt,
    ← Word.ofByte_eq, ← Word.ofByte_eq]

end Bus

namespace AddressingMode

variable {mode : AddressingMode} {c : Cpu} {b : Bus β}

theorem map_readAt_pointers (mode : AddressingMode) (opcode : Byte) (c : Cpu) (b : Bus β) :
    (mode.pointers c b).map .readAt = mode.pointer (c.begin opcode) b := by
  have hpage : ∀ p : Byte, [Request.readAt p.toNat, .readAt ((p.toNat + 1) % 256)] =
      [.read (Word.ofByte p), .read (Word.ofByte (p + 1))] := by
    intro p
    rw [← Byte.toNat_add_one, Request.readAt, Request.readAt, ← Word.ofByte_eq, ← Word.ofByte_eq]
  unfold pointers
  rw [Bus.byteAt_operand, Bus.pairAt_operand]
  cases mode with
  | indirect =>
    show [Request.readAt _, .readAt _] = _
    rw [Request.readAt_toNat, Request.readAt, Word.ofNat_next_in_page]
    rfl
  | indexedIndirect =>
    show [Request.readAt _, .readAt _] = _
    rw [Byte.add_add_one_mod, ← BitVec.toNat_add]
    exact hpage _
  | indirectIndexed => exact hpage _
  | _ => rfl

/-- The effective address is where locating the operand leads to. -/
theorem address?_operandOf (mode : AddressingMode) (opcode : Byte) (c : Cpu) (b : Bus β) :
    (mode.operandOf (c.begin opcode) b).address? = (mode.place? c b).map (BitVec.ofNat 16) := by
  have hindexed : ∀ (w : Word) (v : Byte),
      BitVec.ofNat 16 ((w.toNat + v.toNat) % 65536) = w + Word.ofByte v := by
    intro w v
    apply BitVec.eq_of_toNat_eq
    rw [BitVec.toNat_ofNat, BitVec.toNat_add, Word.ofByte, BitVec.toNat_setWidth]
    have hv := v.isLt
    omega
  have hsum : ∀ v w : Byte, (v.toNat + w.toNat) % 256 = (v + w).toNat :=
    fun v w => (BitVec.toNat_add v w).symm
  unfold place?
  rw [Bus.byteAt_operand, Bus.pairAt_operand]
  cases mode with
  | implied | accumulator | immediate => rfl
  | zeroPage => exact congrArg some (Word.ofByte_eq _)
  | zeroPageX | zeroPageY =>
    simp only [hsum]
    exact congrArg some (Word.ofByte_eq _)
  | absolute => exact congrArg some (Word.ofNat_toNat _).symm
  | absoluteX | absoluteY => exact congrArg some (hindexed _ _).symm
  | indirect =>
    simp only [Bus.pairAt_page]
    exact congrArg some (Word.ofNat_toNat _).symm
  | indexedIndirect =>
    simp only [Byte.add_add_one_mod, hsum, Bus.pairAt_zeroPage]
    exact congrArg some (Word.ofNat_toNat _).symm
  | indirectIndexed =>
    simp only [Bus.pairAt_zeroPage]
    exact congrArg some (hindexed _ _).symm
  | relative =>
    refine congrArg some (BitVec.eq_of_toNat_eq ?_)
    have hnext : (c.pc + 1 + 1).toNat = (c.pc.toNat + 2) % 65536 := by
      rw [Word.add_one_add_one]
      exact BitVec.toNat_add c.pc 2
    show (c.pc + 1 + 1 + Word.ofSigned (b.peek (c.pc + 1))).toNat = _
    rw [Word.add_ofSigned, hnext, Byte.signedByte_toNat, BitVec.toNat_ofInt, BitVec.toNat_ofNat]
    omega

/-- The read at the effective address. -/
theorem map_readAt_place (mode : AddressingMode) (opcode : Byte) (c : Cpu) (b : Bus β) :
    (mode.place? c b).toList.map .readAt = (mode.operandOf (c.begin opcode) b).reads := by
  have hreads : ∀ operand : Operand, operand.reads = operand.address?.toList.map .read := by
    intro operand
    cases operand <;> rfl
  rw [hreads, address?_operandOf]
  cases mode.place? c b <;> rfl

end AddressingMode

namespace Request

/-- The operand bytes of an instruction follow its opcode. -/
theorem bytes_eq (a : Word) (n : Nat) :
    bytes a n = (List.range n).map fun k => readAt (a.toNat + k) := by
  induction n generalizing a with
  | zero => rfl
  | succ n ih =>
    rw [bytes, ih, List.range_succ_eq_map, List.map_cons, List.map_map, Nat.add_zero, readAt_toNat]
    congr 1
    refine List.map_congr_left fun k _ => ?_
    rw [Function.comp_apply, readAt, readAt, Word.ofNat_toNat_add, Word.ofNat_toNat_add,
      Nat.succ_eq_one_add, BitVec.ofNat_add, BitVec.add_assoc]
    rfl

/-- A cell of the stack this far below the stack pointer. -/
theorem writeAt_stack (sp v : Byte) (k : Nat) :
    writeAt (0x0100 + (sp.toNat + k) % 256) v.toNat =
      .write (Cpu.stackCell (sp + BitVec.ofNat 8 k)) v := by
  rw [writeAt, Byte.ofNat_toNat, Cpu.stackCell_eq, BitVec.toNat_add, BitVec.toNat_ofNat,
    Nat.add_mod_mod]

theorem writeAt_top (sp v : Byte) :
    writeAt (0x0100 + sp.toNat) v.toNat = .write (Cpu.stackCell sp) v := by
  rw [writeAt, Byte.ofNat_toNat, Cpu.stackCell_eq]

theorem pushWord_eq (sp : Byte) {w : Word} {n : Nat} (hw : w.toNat = n) :
    pushWord sp w =
      [.writeAt (0x0100 + sp.toNat) (n / 256),
       .writeAt (0x0100 + (sp.toNat + 255) % 256) (n % 256)] := by
  have hnext : sp - 1 = sp + 255 := BitVec.sub_eq_add_neg sp 1
  rw [pushWord, ← hw, ← Word.toNat_high, ← Word.toNat_low, writeAt_top, writeAt_stack, hnext]
  rfl

end Request

namespace Status

theorem toNat_stackByte_true (s : Status) : (s.stackByte true).toNat = s.toByte.toNat ||| 0x10 :=
  BitVec.toNat_or s.toByte Flag.brk.mask

theorem toNat_stackByte_false (s : Status) :
    (s.stackByte false).toNat = s.toByte.toNat &&& 0xEF ||| 0x20 := by
  show (s.toByte &&& ~~~Flag.brk.mask ||| Flag.alwaysOn.mask).toNat = _
  rw [BitVec.toNat_or, BitVec.toNat_and]
  rfl

end Status

/-! ## The plan of the step -/

namespace Mnemonic

theorem modified_eq {what : Mnemonic} {how : Modifier} (h : what.operation = .modify how)
    (carry : Bool) (v : Byte) :
    what.modified carry v.toNat =
      ((how.outcome carry v).1.toNat, (how.outcome carry v).2) := by
  have hv := v.isLt
  have hcarry := carry.toNat_le
  cases what with
  | asl | rol | lsr | ror | inc =>
    cases h
    refine Prod.ext ?_ rfl
    show _ = (BitVec.ofNat 8 _).toNat
    rw [BitVec.toNat_ofNat, modified]
    omega
  | dec =>
    cases h
    refine Prod.ext ?_ rfl
    show _ = (BitVec.ofInt 8 _).toNat
    rw [BitVec.toNat_ofInt, modified]
    omega
  | _ => cases h

variable {what : Mnemonic} {mode : AddressingMode} {opcode : Byte}

theorem reads_eq (what : Mnemonic) (mode : AddressingMode) (opcode : Byte) (c : Cpu) (b : Bus β) :
    what.reads mode c b =
      what.operation.reads (mode.operandOf (c.begin opcode) b)
        ((c.begin opcode).taking b mode.operandBytes) := by
  have hsp : ((c.begin opcode).taking b mode.operandBytes).sp = c.sp := by
    rw [Cpu.taking_frame]
    rfl
  cases what with
  | lda | ldx | ldy | ora | and | eor | adc | sbc | cmp | cpx | cpy | bit
  | asl | rol | lsr | ror | inc | dec => exact mode.map_readAt_place opcode c b
  | pla | plp =>
    simp only [reads, operation, Operation.reads, Request.readAt_stack, hsp]
    rfl
  | rts =>
    simp only [reads, operation, Operation.reads, Request.readAt_stack, Request.pullWord, hsp]
    rfl
  | rti =>
    simp only [reads, operation, Operation.reads, Request.readAt_stack, Request.pullWord, hsp,
      Byte.add_one_add_one, Byte.add_one_add_two]
    rfl
  | _ => rfl

/-- A store to the effective address. -/
theorem map_writeAt_place {c d : Cpu} (r : Register) {v : Byte} (hv : d.get r = v) (b : Bus β) :
    (mode.place? c b).toList.map (Request.writeAt · v.toNat) =
      (Operation.store r).writes (mode.operandOf (c.begin opcode) b) d b := by
  rw [Operation.writes, mode.address?_operandOf, hv]
  cases mode.place? c b with
  | none => rfl
  | some a => exact congrArg (fun v => [Request.write _ v]) (Byte.ofNat_toNat v)

/-- A modification writes back what it found, and then the new byte. -/
theorem flatMap_writeAt_place {how : Modifier} (h : what.operation = .modify how) {c d : Cpu}
    (hcarry : d.status = c.status) (b : Bus β) :
    ((mode.place? c b).toList.flatMap fun a => [Request.writeAt a (b.byteAt a),
        .writeAt a (what.modified (c.status.toByte.getLsbD 0) (b.byteAt a)).1]) =
      (Operation.modify how).writes (mode.operandOf (c.begin opcode) b) d b := by
  have hbit : c.status.toByte.getLsbD 0 = c.status.carry := c.status.getLsbD_toByte .carry
  rw [Operation.writes, mode.address?_operandOf, hcarry, hbit]
  cases mode.place? c b with
  | none => rfl
  | some a =>
    show [Request.writeAt a _, .writeAt a _] = _
    rw [Bus.byteAt, modified_eq h, Request.writeAt, Request.writeAt, Byte.ofNat_toNat,
      Byte.ofNat_toNat]
    rfl

theorem writes_eq (h : (opcode, mode) ∈ what.encodings) (c : Cpu) (b : Bus β) :
    what.writes mode c b =
      what.operation.writes (mode.operandOf (c.begin opcode) b)
        ((c.begin opcode).taking b mode.operandBytes) b := by
  obtain ⟨d, hd⟩ : ∃ d, (c.begin opcode).taking b mode.operandBytes = d := ⟨_, rfl⟩
  have hframe := (c.begin opcode).taking_frame b mode.operandBytes
  have hpc := (c.begin opcode).pc_taking b mode.operandBytes_le
  rw [hd] at hframe hpc ⊢
  have hget : ∀ r, d.get r = c.get r := by
    intro r
    rw [hframe]
    cases r <;> rfl
  have hsp : d.sp = c.sp := by
    rw [hframe]
    rfl
  have hstatus : d.status = c.status := by
    rw [hframe]
    rfl
  cases what with
  | sta => exact map_writeAt_place .a (hget .a) b
  | stx => exact map_writeAt_place .x (hget .x) b
  | sty => exact map_writeAt_place .y (hget .y) b
  | asl | rol | lsr | ror | inc | dec => exact flatMap_writeAt_place rfl hstatus b
  | pha =>
    have ha : d.a = c.a := hget .a
    rw [writes, operation, Operation.writes, hsp, ha, ← Request.writeAt_top]
  | php =>
    rw [writes, operation, Operation.writes, hsp, hstatus, ← Request.writeAt_top,
      Status.toNat_stackByte_true]
  | jsr =>
    -- the counter is behind both operand bytes, and the word that is pushed is one less
    obtain ⟨-, rfl⟩ : opcode = 0x20 ∧ mode = .absolute := by simpa [encodings] using h
    have hback : (d.pc - 1).toNat = (c.pc.toNat + 2) % 65536 := by
      rw [hpc]
      show (c.pc + 1 + 2 - 1).toNat = _
      bv_omega
    rw [writes, operation, Operation.writes, hsp, Request.pushWord_eq c.sp hback]
  | brk =>
    -- no operand byte was fetched, and the word that is pushed skips one
    obtain ⟨-, rfl⟩ : opcode = 0x00 ∧ mode = .implied := by simpa [encodings] using h
    have hback : (d.pc + 1).toNat = (c.pc.toNat + 2) % 65536 := by
      rw [hpc]
      show (c.pc + 1 + 0 + 1).toNat = _
      bv_omega
    have hlast : c.sp - 2 = c.sp + 254 := BitVec.sub_eq_add_neg c.sp 2
    rw [writes, operation, Operation.writes, hsp, hstatus, Request.pushWord_eq c.sp hback, hlast,
      ← Status.toNat_stackByte_true, Request.writeAt_stack]
    rfl
  | _ => rfl

theorem requests_eq (h : (opcode, mode) ∈ what.encodings) (c : Cpu) (b : Bus β) :
    what.requests mode c b = (⟨opcode, what.operation, mode⟩ : Instruction).requests c b := by
  rw [requests, Instruction.requests, Request.bytes_eq, mode.map_readAt_pointers opcode,
    what.reads_eq mode opcode, writes_eq h]
  rfl

end Mnemonic

namespace Cpu

theorem entryRequests_eq (c : Cpu) (v : InterruptVector) {a : Nat}
    (ha : BitVec.ofNat 16 a = v.address) : c.entryRequests v a = Request.entry c v false := by
  have hnext : BitVec.ofNat 16 (a + 1) = v.address + 1 := by
    rw [BitVec.ofNat_add, ha]
    rfl
  have hlast : c.sp - 2 = c.sp + 254 := BitVec.sub_eq_add_neg c.sp 2
  rw [entryRequests, ha, hnext, Request.entry, Request.pushWord_eq c.sp rfl, hlast,
    ← Status.toNat_stackByte_false, Request.writeAt_stack]
  rfl

/-- The plan written out is the one that a step follows. -/
theorem accessPlan_eq (c : Cpu) (b : Bus β) : c.accessPlan b = c.plan b := by
  have hmask : c.status.toByte.getLsbD 2 = c.status.interruptDisable :=
    c.status.getLsbD_toByte .interruptDisable
  unfold accessPlan plan dueInterrupt Bus.instruction?
  rw [hmask]
  by_cases hnmi : c.nmiPending = true
  · rw [if_pos hnmi, if_pos hnmi]
    exact c.entryRequests_eq .nmi rfl
  · rw [if_neg hnmi, if_neg hnmi]
    by_cases hirq : c.irqLine = true ∧ c.status.interruptDisable = false
    · have hdue : (c.irqLine && !c.status.interruptDisable) = true := by
        rw [hirq.1, hirq.2]
        rfl
      rw [if_pos hirq, if_pos hdue]
      exact c.entryRequests_eq .irq rfl
    · have hdue : ¬ (c.irqLine && !c.status.interruptDisable) = true := by
        simpa using hirq
      rw [if_neg hirq, if_neg hdue, Request.readAt_toNat]
      cases b.read c.pc with
      | error e => rfl
      | ok opcode =>
        dsimp only
        cases hentry : Mnemonic.ofOpcode? opcode with
        | none => rw [Instruction.decode?_eq_none_iff.mpr hentry]
        | some entry =>
          obtain ⟨what, mode⟩ := entry
          have hmem := Mnemonic.ofOpcode?_eq_some_iff.mp hentry
          rw [Instruction.decode?_of_mem hmem]
          exact Mnemonic.requests_eq hmem c b

theorem accessPlan_of_illegal {c : Cpu} {b : Bus β} {opcode : Byte} (hq : c.dueInterrupt = none)
    (hr : b.read c.pc = .ok opcode) (hd : Instruction.decode? opcode = none) :
    c.accessPlan b = [.readAt c.pc.toNat] := by
  rw [accessPlan_eq, plan, hq, Bus.instruction?_of_read hr, hd, Request.readAt_toNat]

end Cpu

/-- A step asks the bus for its plan, all reads before the first write, and for nothing else.  A
    step that succeeds was granted the whole plan.  A step that fails has come to an opcode that is
    not official, and has asked for nothing but that, or to the first request of its plan that the
    bus refuses, and asks for nothing more. -/
theorem Exec.step_accesses (m : Machine β) :
    Request.ReadsFirst (m.cpu.accessPlan m.bus) ∧
    match Exec.step m with
    | .ok _ m' =>
      m.bus.grant (m.cpu.accessPlan m.bus) = some m'.bus ∧
      m'.journal.accesses =
        m.journal.accesses ++ (m.cpu.accessPlan m.bus).map (·.granted m.bus)
    | .error e m' =>
      (∃ opcode, m.cpu.accessPlan m.bus = [.readAt m.cpu.pc.toNat] ∧
        m.bus.read m.cpu.pc = .ok opcode ∧ Mnemonic.ofOpcode? opcode = none ∧
        Instruction.decode? opcode = none ∧ e = .illegalOpcode opcode m.cpu.pc ∧
        m'.bus = m.bus ∧
        m'.journal.accesses = m.journal.accesses ++ [.read m.cpu.pc (some opcode)]) ∨
      ∃ before r after, m.cpu.accessPlan m.bus = before ++ r :: after ∧
        m.bus.grant before = some m'.bus ∧ m'.bus.answer r = none ∧ e = r.fault ∧
        m'.journal.accesses =
          m.journal.accesses ++ (before.map (·.granted m.bus) ++ [r.refused]) := by
  constructor
  · rw [Cpu.accessPlan_eq]
    exact m.cpu.readsFirst_plan m.bus
  · cases h : Exec.step m with
    | ok n m' =>
      rw [Cpu.accessPlan_eq]
      exact accesses_of_ok h
    | error e m' =>
      obtain ⟨opcode, hq, hr, hd, he, hbus, hj⟩ | hrefused := accesses_of_error h
      · exact .inl ⟨opcode, Cpu.accessPlan_of_illegal hq hr hd, hr,
          Instruction.decode?_eq_none_iff.mp hd, hd, he, hbus, hj⟩
      · rw [← Cpu.accessPlan_eq] at hrefused
        exact .inr hrefused

namespace Machine

/-- An NMI is latched, and the stack pointer is at the bottom of page one. -/
def nudged : Machine Nrom where
  cpu := { pc := 0x1234, sp := 0, nmiPending := true }
  bus := { board := some (Nrom.ofImage #[0x4C, 0x00, 0x80] 0) }

/-- INC $2003 lies in the picture registers, and the byte there is $7F. -/
def counting : Machine Nrom where
  cpu := { pc := 0x2000 }
  bus :=
    { picture := (((PictureRegisters.zero.write 0x2000 0xEE).write 0x2001 0x03).write 0x2002
        0x20).write 0x2003 0x7F }

/-- The pushes of the entry wrap around in page one, and INC writes the old byte before the new
    one. -/
theorem traced_steps :
    (∃ n m', Exec.step nudged = .ok n m' ∧ m'.journal.accesses =
      [.read 0xFFFA (some 0x80), .read 0xFFFB (some 0x4C),
       .write 0x0100 0x12 true, .write 0x01FF 0x34 true, .write 0x01FE 0x20 true]) ∧
    ∃ n m', Exec.step counting = .ok n m' ∧ m'.journal.accesses =
      [.read 0x2000 (some 0xEE), .read 0x2001 (some 0x03), .read 0x2002 (some 0x20),
       .read 0x2003 (some 0x7F), .write 0x2003 0x7F true, .write 0x2003 0x80 true] := by
  have hnudged := (Exec.step_accesses nudged).2
  have hcounting := (Exec.step_accesses counting).2
  obtain ⟨n, m', hn⟩ : ∃ n m', Exec.step nudged = .ok n m' := ⟨_, _, rfl⟩
  obtain ⟨k, m'', hk⟩ : ∃ n m', Exec.step counting = .ok n m' := ⟨_, _, rfl⟩
  rw [hn] at hnudged
  rw [hk] at hcounting
  have hentry : (nudged.cpu.accessPlan nudged.bus).map (·.granted nudged.bus) =
      [.read 0xFFFA (some 0x80), .read 0xFFFB (some 0x4C),
       .write 0x0100 0x12 true, .write 0x01FF 0x34 true, .write 0x01FE 0x20 true] := by
    decide +kernel
  have hinstruction : (counting.cpu.accessPlan counting.bus).map (·.granted counting.bus) =
      [.read 0x2000 (some 0xEE), .read 0x2001 (some 0x03), .read 0x2002 (some 0x20),
       .read 0x2003 (some 0x7F), .write 0x2003 0x7F true, .write 0x2003 0x80 true] := by
    decide +kernel
  exact ⟨⟨n, m', hn, hnudged.2.trans hentry⟩, k, m'', hk, hcounting.2.trans hinstruction⟩

end Machine

end Console6502
