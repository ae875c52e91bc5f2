/-
  Effective addresses, in numbers.

  `Bus.Denotes` is the rule book of the addressing modes, one constructor for each mode: which bytes
  it needs, each of which has to be on the bus, and the number of the place that it comes to.
  Numbers of places count modulo 2^16 and those of cells in page zero modulo 2^8.

  `Bus.denotes_iff` says that a mode denotes something exactly if every byte that it needs can be
  read, and then one operand only, which is the one that locating it returns
  (`Exec.effective_address`).
-/
import Console6502.Proofs.CycleAccounting
import Mathlib.Data.List.Basic

namespace Console6502

/-! ## Bytes and words as numbers -/

theorem Word.ofByte_eq (v : Byte) : Word.ofByte v = BitVec.ofNat 16 v.toNat := by
  apply BitVec.eq_of_toNat_eq
  rw [Word.ofByte, BitVec.toNat_setWidth, BitVec.toNat_ofNat]

theorem Word.toNat_ofBytes (low high : Byte) :
    (Word.ofBytes low high).toNat = low.toNat + 256 * high.toNat := by
  have hlow := low.isLt
  rw [Word.ofBytes, BitVec.toNat_append, ← Nat.shiftLeft_add_eq_or_of_lt hlow, Nat.shiftLeft_eq]
  omega

theorem Word.ofNat_toNat (w : Word) : BitVec.ofNat 16 w.toNat = w := by
  rw [BitVec.ofNat_toNat, BitVec.setWidth_eq]

theorem Word.ofNat_toNat_add_one (w : Word) : BitVec.ofNat 16 (w.toNat + 1) = w + 1 := by
  rw [BitVec.ofNat_add, Word.ofNat_toNat]
  rfl

/-- The address behind another one in the same page. -/
theorem Word.ofNat_next_in_page (w : Word) :
    BitVec.ofNat 16 (w.toNat / 256 * 256 + (w.toNat + 1) % 256) =
      Word.ofBytes (Word.low w + 1) (Word.high w) := by
  have hw := w.isLt
  apply BitVec.eq_of_toNat_eq
  rw [Word.toNat_ofBytes, BitVec.toNat_add, Word.toNat_low, Word.toNat_high, BitVec.toNat_ofNat]
  change _ = (w.toNat % 256 + 1) % 256 + 256 * (w.toNat / 256)
  omega

theorem Byte.toNat_add_one (v : Byte) : (v + 1).toNat = (v.toNat + 1) % 256 :=
  BitVec.toNat_add v 1

theorem Byte.add_add_one_mod (v w : Byte) :
    (v.toNat + w.toNat + 1) % 256 = ((v + w).toNat + 1) % 256 := by
  rw [BitVec.toNat_add, Nat.mod_add_mod]

theorem Word.add_ofSigned (w : Word) (distance : Byte) :
    w + Word.ofSigned distance = BitVec.ofInt 16 (w.toNat + distance.toInt) := by
  apply BitVec.eq_of_toInt_eq
  rw [BitVec.toInt_add, BitVec.toInt_ofInt, Word.ofSigned,
    BitVec.toInt_signExtend_of_le (by decide), BitVec.toInt_eq_toNat_bmod, Int.bmod_add_bmod]

variable {β : Type} [Board β]

/-! ## What is on the bus -/

/-- A read at this address is answered. -/
def Bus.Answers (b : Bus β) (a : Word) : Prop := ∃ v, b.read a = .ok v

/-- The byte at this address, taken modulo 2^16. -/
def Bus.HasByte (b : Bus β) (a : Nat) (v : Byte) : Prop := b.read (BitVec.ofNat 16 a) = .ok v

/-- The number of the word whose low and high bytes are at these addresses. -/
def Bus.HasWord (b : Bus β) (low high n : Nat) : Prop :=
  ∃ l h, b.HasByte low l ∧ b.HasByte high h ∧ n = l.toNat + 256 * h.toNat

namespace Bus

variable {b : Bus β} {a : Word} {v : Byte} {n : Nat}

theorem read_of_answers (h : b.Answers a) : b.read a = .ok (b.peek a) := by
  obtain ⟨v, hv⟩ := h
  rw [peek_of_read hv, hv]

theorem hasByte_iff_of_ofNat (ha : BitVec.ofNat 16 n = a) :
    b.HasByte n v ↔ b.Answers a ∧ v = b.peek a := by
  rw [HasByte, ha]
  constructor
  · intro h
    exact ⟨⟨v, h⟩, (peek_of_read h).symm⟩
  · rintro ⟨h, rfl⟩
    exact read_of_answers h

theorem hasWord_iff_of_ofNat {low high : Nat} {l h : Word} (hlow : BitVec.ofNat 16 low = l)
    (hhigh : BitVec.ofNat 16 high = h) :
    b.HasWord low high n ↔
      (b.Answers l ∧ b.Answers h) ∧ n = (Word.ofBytes (b.peek l) (b.peek h)).toNat := by
  simp only [HasWord, hasByte_iff_of_ofNat hlow, hasByte_iff_of_ofNat hhigh, Word.toNat_ofBytes]
  constructor
  · rintro ⟨_, _, ⟨hl, rfl⟩, ⟨hh, rfl⟩, rfl⟩
    exact ⟨⟨hl, hh⟩, rfl⟩
  · rintro ⟨⟨hl, hh⟩, rfl⟩
    exact ⟨_, _, ⟨hl, rfl⟩, ⟨hh, rfl⟩, rfl⟩

end Bus

/-- The place with this number, modulo 2^16. -/
def Operand.numbered (n : Int) (crossed : Bool) : Operand := .memory (BitVec.ofInt 16 n) crossed

/-- What a mode denotes, for a processor whose program counter is at the first operand byte. -/
inductive Bus.Denotes (b : Bus β) (c : Cpu) : AddressingMode → Operand → Prop
  | implied : b.Denotes c .implied .implied
  | accumulator : b.Denotes c .accumulator .accumulator
  | immediate {v : Byte} (hv : b.HasByte c.pc.toNat v) : b.Denotes c .immediate (.immediate v)
  | zeroPage {v : Byte} (hv : b.HasByte c.pc.toNat v) :
    b.Denotes c .zeroPage (.numbered v.toNat false)
  | zeroPageX {v : Byte} (hv : b.HasByte c.pc.toNat v) :
    b.Denotes c .zeroPageX (.numbered ((v.toNat + c.x.toNat) % 256 : Nat) false)
  | zeroPageY {v : Byte} (hv : b.HasByte c.pc.toNat v) :
    b.Denotes c .zeroPageY (.numbered ((v.toNat + c.y.toNat) % 256 : Nat) false)
  | absolute {w : Nat} (hw : b.HasWord c.pc.toNat (c.pc.toNat + 1) w) :
    b.Denotes c .absolute (.numbered w false)
  | absoluteX {w : Nat} (hw : b.HasWord c.pc.toNat (c.pc.toNat + 1) w) :
    b.Denotes c .absoluteX (.numbered (w + c.x.toNat) (decide (255 < w % 256 + c.x.toNat)))
  | absoluteY {w : Nat} (hw : b.HasWord c.pc.toNat (c.pc.toNat + 1) w) :
    b.Denotes c .absoluteY (.numbered (w + c.y.toNat) (decide (255 < w % 256 + c.y.toNat)))
  /-- The high byte of the target is in the page of the low byte. -/
  | indirect {w target : Nat} (hw : b.HasWord c.pc.toNat (c.pc.toNat + 1) w)
    (htarget : b.HasWord w (w / 256 * 256 + (w + 1) % 256) target) :
    b.Denotes c .indirect (.numbered target false)
  | indexedIndirect {v : Byte} {target : Nat} (hv : b.HasByte c.pc.toNat v)
    (htarget : b.HasWord ((v.toNat + c.x.toNat) % 256) ((v.toNat + c.x.toNat + 1) % 256)
      target) :
    b.Denotes c .indexedIndirect (.numbered target false)
  | indirectIndexed {v : Byte} {base : Nat} (hv : b.HasByte c.pc.toNat v)
    (hbase : b.HasWord v.toNat ((v.toNat + 1) % 256) base) :
    b.Denotes c .indirectIndexed
      (.numbered (base + c.y.toNat) (decide (255 < base % 256 + c.y.toNat)))
  /-- The distance is signed and counts from behind the operand byte. -/
  | relative {v : Byte} {next target : Int} (hv : b.HasByte c.pc.toNat v)
    (hnext : next = (c.pc.toNat + 1) % 65536) (htarget : target = (next + v.toInt) % 65536) :
    b.Denotes c .relative (.numbered target (decide (next / 256 ≠ target / 256)))

/-- The reads that a mode makes, in order: the operand bytes, then the bytes of its pointer. -/
def AddressingMode.requests (mode : AddressingMode) (c : Cpu) (b : Bus β) : List Request :=
  Request.bytes c.pc mode.operandBytes ++ mode.pointer c b

/-! ## The rule book and the operands -/

namespace Operand

theorem place_eq (a : Word) : place a = numbered a.toNat false := by
  rw [numbered, place, BitVec.ofInt_natCast, Word.ofNat_toNat]

theorem indexed_eq (base : Word) (index : Byte) :
    indexed base index =
      numbered (base.toNat + index.toNat) (decide (255 < base.toNat % 256 + index.toNat)) := by
  have hplace : base + Word.ofByte index = BitVec.ofInt 16 (base.toNat + index.toNat) := by
    rw [← Int.natCast_add, BitVec.ofInt_natCast, BitVec.ofNat_add, Word.ofNat_toNat,
      Word.ofByte_eq]
  rw [indexed, reached, numbered, Word.leavesPage_add_ofByte, Word.toNat_low, hplace]

theorem relative_eq (pc : Word) (distance : Byte) :
    let next : Int := (pc.toNat + 1) % 65536
    let target : Int := (next + distance.toInt) % 65536
    relative (pc + 1) distance = numbered target (decide (next / 256 ≠ target / 256)) := by
  intro next target
  have hnext : ((pc + 1).toNat : Int) = next := by
    rw [BitVec.toNat_add]
    change ((pc.toNat + 1) % 65536 : Nat) = next
    omega
  have hplace : pc + 1 + Word.ofSigned distance = BitVec.ofInt 16 target := by
    apply BitVec.eq_of_toNat_eq
    rw [Word.add_ofSigned, BitVec.toNat_ofInt, BitVec.toNat_ofInt, hnext]
    omega
  have htarget : ((pc + 1 + Word.ofSigned distance).toNat : Int) = target := by
    rw [hplace, BitVec.toNat_ofInt]
    omega
  have hcrossed : Word.leavesPage (pc + 1) (pc + 1 + Word.ofSigned distance) =
      decide (next / 256 ≠ target / 256) := by
    rw [Bool.eq_iff_iff, Word.leavesPage, bne_iff_ne, decide_eq_true_eq, ne_eq,
      ← BitVec.toNat_inj, Word.toNat_high, Word.toNat_high]
    omega
  rw [relative, reached, numbered, hcrossed, hplace]

/-- The place of a byte in page zero. -/
theorem place_ofByte (v : Byte) : place (Word.ofByte v) = numbered v.toNat false := by
  rw [numbered, place, BitVec.ofInt_natCast, Word.ofByte_eq]

end Operand

namespace Bus

variable {b : Bus β} {c : Cpu} {mode : AddressingMode} {o : Operand}

theorem hasByte_iff {a : Word} {v : Byte} :
    b.HasByte a.toNat v ↔ b.Answers a ∧ v = b.peek a :=
  hasByte_iff_of_ofNat (Word.ofNat_toNat a)

theorem hasWord_iff {a : Word} {n : Nat} :
    b.HasWord a.toNat (a.toNat + 1) n ↔
      (b.Answers a ∧ b.Answers (a + 1)) ∧ n = (b.wordAt a).toNat :=
  hasWord_iff_of_ofNat (Word.ofNat_toNat a) (Word.ofNat_toNat_add_one a)

theorem hasWord_page_iff {a : Word} {n : Nat} :
    b.HasWord a.toNat (a.toNat / 256 * 256 + (a.toNat + 1) % 256) n ↔
      (b.Answers a ∧ b.Answers (Word.ofBytes (Word.low a + 1) (Word.high a))) ∧
        n = (b.pageWord a).toNat :=
  hasWord_iff_of_ofNat (Word.ofNat_toNat a) (Word.ofNat_next_in_page a)

theorem hasWord_zeroPage_iff {p : Byte} {n : Nat} :
    b.HasWord p.toNat ((p.toNat + 1) % 256) n ↔
      (b.Answers (Word.ofByte p) ∧ b.Answers (Word.ofByte (p + 1))) ∧
        n = (b.zeroPageWord p).toNat := by
  refine hasWord_iff_of_ofNat (Word.ofByte_eq p).symm ?_
  rw [Word.ofByte_eq, Byte.toNat_add_one]

/-- What a mode denotes is what locating its operand comes to, and all its reads are answered. -/
theorem Denotes.eq_operandOf (h : b.Denotes c mode o) :
    (mode.requests c b).Forall (fun r => b.Answers r.address) ∧ o = mode.operandOf c b := by
  cases h with
  | implied | accumulator => exact ⟨trivial, rfl⟩
  | immediate hv =>
    obtain ⟨h, rfl⟩ := hasByte_iff.mp hv
    exact ⟨h, rfl⟩
  | zeroPage hv =>
    obtain ⟨h, rfl⟩ := hasByte_iff.mp hv
    exact ⟨h, (Operand.place_ofByte _).symm⟩
  | zeroPageX hv | zeroPageY hv =>
    obtain ⟨h, rfl⟩ := hasByte_iff.mp hv
    rw [← BitVec.toNat_add]
    exact ⟨h, (Operand.place_ofByte _).symm⟩
  | absolute hw =>
    obtain ⟨h, rfl⟩ := hasWord_iff.mp hw
    exact ⟨h, (Operand.place_eq _).symm⟩
  | absoluteX hw | absoluteY hw =>
    obtain ⟨h, rfl⟩ := hasWord_iff.mp hw
    exact ⟨h, (Operand.indexed_eq _ _).symm⟩
  | indirect hw htarget =>
    obtain ⟨⟨hlow, hhigh⟩, rfl⟩ := hasWord_iff.mp hw
    obtain ⟨hpointer, rfl⟩ := hasWord_page_iff.mp htarget
    exact ⟨⟨hlow, hhigh, hpointer⟩, (Operand.place_eq _).symm⟩
  | indexedIndirect hv htarget =>
    obtain ⟨h, rfl⟩ := hasByte_iff.mp hv
    rw [← BitVec.toNat_add, Byte.add_add_one_mod] at htarget
    obtain ⟨hpointer, rfl⟩ := hasWord_zeroPage_iff.mp htarget
    exact ⟨⟨h, hpointer⟩, (Operand.place_eq _).symm⟩
  | indirectIndexed hv hbase =>
    obtain ⟨h, rfl⟩ := hasByte_iff.mp hv
    obtain ⟨hpointer, rfl⟩ := hasWord_zeroPage_iff.mp hbase
    exact ⟨⟨h, hpointer⟩, (Operand.indexed_eq _ _).symm⟩
  | relative hv hnext htarget =>
    obtain ⟨h, rfl⟩ := hasByte_iff.mp hv
    subst hnext htarget
    exact ⟨h, (Operand.relative_eq _ _).symm⟩

/-- Where all reads of a mode are answered, it denotes an operand. -/
theorem denotes_operandOf (h : (mode.requests c b).Forall fun r => b.Answers r.address) :
    b.Denotes c mode (mode.operandOf c b) := by
  cases mode with
  | implied => exact .implied
  | accumulator => exact .accumulator
  | immediate => exact .immediate (hasByte_iff.mpr ⟨h, rfl⟩)
  | zeroPage =>
    rw [AddressingMode.operandOf, Operand.place_ofByte]
    exact .zeroPage (hasByte_iff.mpr ⟨h, rfl⟩)
  | zeroPageX =>
    rw [AddressingMode.operandOf, Operand.place_ofByte, BitVec.toNat_add]
    exact .zeroPageX (hasByte_iff.mpr ⟨h, rfl⟩)
  | zeroPageY =>
    rw [AddressingMode.operandOf, Operand.place_ofByte, BitVec.toNat_add]
    exact .zeroPageY (hasByte_iff.mpr ⟨h, rfl⟩)
  | absolute =>
    rw [AddressingMode.operandOf, Operand.place_eq]
    exact .absolute (hasWord_iff.mpr ⟨h, rfl⟩)
  | absoluteX =>
    rw [AddressingMode.operandOf, Operand.indexed_eq]
    exact .absoluteX (hasWord_iff.mpr ⟨h, rfl⟩)
  | absoluteY =>
    rw [AddressingMode.operandOf, Operand.indexed_eq]
    exact .absoluteY (hasWord_iff.mpr ⟨h, rfl⟩)
  | indirect =>
    obtain ⟨hlow, hhigh, hpointer⟩ := h
    rw [AddressingMode.operandOf, Operand.place_eq]
    exact .indirect (hasWord_iff.mpr ⟨⟨hlow, hhigh⟩, rfl⟩)
      (hasWord_page_iff.mpr ⟨hpointer, rfl⟩)
  | indexedIndirect =>
    obtain ⟨hbyte, hpointer⟩ := h
    rw [AddressingMode.operandOf, Operand.place_eq]
    refine .indexedIndirect (hasByte_iff.mpr ⟨hbyte, rfl⟩) ?_
    rw [← BitVec.toNat_add, Byte.add_add_one_mod]
    exact hasWord_zeroPage_iff.mpr ⟨hpointer, rfl⟩
  | indirectIndexed =>
    obtain ⟨hbyte, hpointer⟩ := h
    rw [AddressingMode.operandOf, Operand.indexed_eq]
    exact .indirectIndexed (hasByte_iff.mpr ⟨hbyte, rfl⟩)
      (hasWord_zeroPage_iff.mpr ⟨hpointer, rfl⟩)
  | relative =>
    rw [AddressingMode.operandOf, Operand.relative_eq]
    exact .relative (hasByte_iff.mpr ⟨h, rfl⟩) rfl rfl

/-- A mode denotes an operand exactly if the bus answers all reads that it makes, and then one
    only. -/
theorem denotes_iff :
    b.Denotes c mode o ↔
      (∀ r ∈ mode.requests c b, b.Answers r.address) ∧ o = mode.operandOf c b := by
  rw [← List.forall_iff_forall_mem]
  constructor
  · exact Denotes.eq_operandOf
  · rintro ⟨h, rfl⟩
    exact denotes_operandOf h

end Bus

/-! ## Reads that are answered -/

theorem Request.take_bytes (a : Word) (n k : Nat) :
    (Request.bytes a n).take k = Request.bytes a (min k n) := by
  induction n generalizing a k with
  | zero => rw [Nat.min_zero, Request.bytes, List.take_nil]
  | succ n ih =>
    cases k with
    | zero => rw [Nat.zero_min, List.take_zero, Request.bytes]
    | succ k =>
      rw [Request.bytes, List.take_succ_cons, ih, Nat.succ_min_succ]
      rfl

namespace Bus

variable {b : Bus β} {r : Request}

theorem answer_of_answers (hr : r.isWrite = false) (h : b.Answers r.address) :
    b.answer r = some b := by
  obtain ⟨v, hv⟩ := h
  exact answer_of_read_ok hr hv

theorem answers_of_answer {b' : Bus β} (hr : r.isWrite = false) (h : b.answer r = some b') :
    b.Answers r.address := by
  cases hread : b.read r.address with
  | ok v => exact ⟨v, hread⟩
  | error e =>
    rw [answer_of_read_error hr hread] at h
    cases h

/-- A row of reads is granted exactly if each of them is answered. -/
theorem serve_reads_iff {p : List Attempt} (hp : ∀ t ∈ p, t.request.isWrite = false) :
    (b.serve p).refused = none ↔ ∀ t ∈ p, b.Answers t.request.address := by
  induction p with
  | nil => simp [serve_nil]
  | cons t p ih =>
    obtain ⟨ht, hp⟩ := List.forall_mem_cons.mp hp
    rw [List.forall_mem_cons, ← ih hp]
    cases ha : b.answer t.request with
    | none =>
      have hnot : ¬ b.Answers t.request.address := by
        intro h
        rw [answer_of_answers ht h] at ha
        cases ha
      simp [serve_cons_of_none ha, hnot]
    | some b' =>
      have hyes := answers_of_answer ht ha
      obtain rfl := answer_read_bus ht ha
      rw [serve_cons_of_some ha]
      exact ⟨fun h => ⟨hyes, h⟩, fun h => h.2⟩

/-- The refusal in a row of reads is the first that is not answered. -/
theorem serve_reads_refused {p : List Attempt} {t : Attempt}
    (hp : ∀ t ∈ p, t.request.isWrite = false) (h : (b.serve p).refused = some t) :
    ∃ before after, p = before ++ t :: after ∧
      (∀ u ∈ before, b.Answers u.request.address) ∧ ¬ b.Answers t.request.address := by
  obtain ⟨before, after, rfl, hbefore, hrefused, -⟩ := serve_refused h
  have hreads : ∀ u ∈ before, u.request.isWrite = false := fun u hu =>
    hp u (List.mem_append_left _ hu)
  have hread : t.request.isWrite = false :=
    hp t (List.mem_append_right before (List.mem_cons_self ..))
  refine ⟨before, after, rfl, (serve_reads_iff hreads).mp hbefore, fun hanswers => ?_⟩
  rw [serve_bus_of_reads hreads, answer_of_answers hread hanswers] at hrefused
  cases hrefused

end Bus

/-! ## The operand bytes -/

/-- The processor `c'` is `c` behind this many operand bytes, of which there are at most two: the
    program counter is behind them, the bytes are kept, and all else is as it was. -/
structure Cpu.HasTaken (c : Cpu) (b : Bus β) (n : Nat) (c' : Cpu) : Prop where
  pc : c'.pc.toNat = (c.pc.toNat + n) % 65536
  low : if 0 < n then b.HasByte c.pc.toNat c'.low else c'.low = c.low
  high : if 1 < n then b.HasByte (c.pc.toNat + 1) c'.high else c'.high = c.high
  rest : c' = { c with pc := c'.pc, low := c'.low, high := c'.high }

theorem Cpu.hasTaken_taking {c : Cpu} {b : Bus β} {n : Nat} (hn : n ≤ 2)
    (h : ∀ r ∈ Request.bytes c.pc n, b.Answers r.address) : c.HasTaken b n (c.taking b n) := by
  have hpc : (c.taking b n).pc.toNat = (c.pc.toNat + n) % 65536 := by
    rw [Cpu.pc_taking c b hn, BitVec.toNat_add, BitVec.toNat_ofNat]
    omega
  rw [← List.forall_iff_forall_mem] at h
  obtain rfl | rfl | rfl : n = 0 ∨ n = 1 ∨ n = 2 := by omega
  · exact ⟨hpc, rfl, rfl, rfl⟩
  · exact ⟨hpc, Bus.hasByte_iff.mpr ⟨h, rfl⟩, rfl, rfl⟩
  · have hhigh : b.HasByte (c.pc.toNat + 1) (b.peek (c.pc + 1)) :=
      (Bus.hasByte_iff_of_ofNat (Word.ofNat_toNat_add_one c.pc)).mpr ⟨h.2, rfl⟩
    exact ⟨hpc, Bus.hasByte_iff.mpr ⟨h.1, rfl⟩, hhigh, rfl⟩

namespace AddressingMode

variable {mode : AddressingMode} {c : Cpu} {b : Bus β}

theorem map_request_attempts (mode : AddressingMode) (c : Cpu) (b : Bus β) :
    (mode.attempts c b).map Attempt.request = mode.requests c b := by
  cases mode <;> rfl

/-- A refused read leaves behind what was taken before it. -/
theorem left_of_attempts {before after : List Attempt} {t : Attempt}
    (h : mode.attempts c b = before ++ t :: after) :
    t.left = c.taking b (min before.length mode.operandBytes) := by
  have hleft : (mode.attempts c b).map Attempt.left =
      (List.range (mode.attempts c b).length).map fun i =>
        c.taking b (min i mode.operandBytes) := by
    cases mode <;> rfl
  have hlength : before.length < (mode.attempts c b).length := by
    rw [h, List.length_append, List.length_cons]
    omega
  have hat := congrArg (fun l => l[before.length]?) hleft
  simp only [List.getElem?_map, List.getElem?_range hlength, Option.map_some] at hat
  rw [h, List.getElem?_append_right (Nat.le_refl _), Nat.sub_self] at hat
  exact Option.some.inj hat

theorem eq_read_of_requests {r : Request} (h : r ∈ mode.requests c b) : r = .read r.address := by
  have hall : (mode.requests c b).Forall fun r => r = .read r.address := by
    cases mode <;> simp [requests, pointer, operandBytes, Request.bytes, Request.address]
  exact List.forall_iff_forall_mem.mp hall r h

/-- The operand bytes before a refused read are answered. -/
theorem bytes_before {before after : List Request} {r : Request}
    (h : mode.requests c b = before ++ r :: after) :
    ∀ q ∈ Request.bytes c.pc (min before.length mode.operandBytes), q ∈ before := by
  have hbefore : before = (mode.requests c b).take before.length := by
    rw [h, List.take_left]
  rw [← Request.take_bytes]
  intro q hq
  rw [hbefore, requests, List.take_append]
  exact List.mem_append_left _ hq

end AddressingMode

/-- Locating an operand returns the one operand that the rule book gives to the mode, takes the
    operand bytes of the mode, and changes nothing else.  It fails exactly where one of the reads
    that the mode makes is not answered, with the error of the first of them; by then the operand
    bytes before it are taken, and the mode denotes nothing. -/
theorem Exec.effective_address (m : Machine β) (mode : AddressingMode) :
    match Exec.locate mode m with
    | .ok operand m' =>
      (∀ o, m.bus.Denotes m.cpu mode o ↔ o = operand) ∧
      (∀ r ∈ mode.requests m.cpu m.bus, m.bus.Answers r.address) ∧
      m.cpu.HasTaken m.bus mode.operandBytes m'.cpu ∧ m'.bus = m.bus
    | .error e m' =>
      (∀ o, ¬ m.bus.Denotes m.cpu mode o) ∧
      ∃ before r after, mode.requests m.cpu m.bus = before ++ r :: after ∧
        (∀ q ∈ before, m.bus.Answers q.address) ∧ ¬ m.bus.Answers r.address ∧
        e = .read r.address ∧
        m.cpu.HasTaken m.bus (min before.length mode.operandBytes) m'.cpu ∧ m'.bus = m.bus := by
  have hfollows := Follows.locate (m := m) mode
  have hreads := mode.attempts_are_reads m.cpu m.bus
  have hrequests := mode.map_request_attempts m.cpu m.bus
  cases h : Exec.locate mode m with
  | ok operand m' =>
    obtain ⟨hnone, rfl, hcpu, hbus, -⟩ := hfollows.ok h
    have hanswered : ∀ r ∈ mode.requests m.cpu m.bus, m.bus.Answers r.address := by
      rw [← hrequests, List.forall_mem_map]
      exact (Bus.serve_reads_iff hreads).mp hnone
    rw [Bus.serve_bus_of_reads hreads] at hbus
    refine ⟨fun o => ?_, hanswered, ?_, hbus⟩
    · rw [Bus.denotes_iff]
      exact and_iff_right hanswered
    · rw [hcpu]
      refine Cpu.hasTaken_taking mode.operandBytes_le fun r hr => hanswered r ?_
      exact List.mem_append_left _ hr
  | error e m' =>
    obtain ⟨t, ht, rfl, hcpu, hbus, -⟩ := hfollows.error h
    obtain ⟨before, after, hsplit, hanswered, hnot⟩ := Bus.serve_reads_refused hreads ht
    have hplan : mode.requests m.cpu m.bus =
        before.map Attempt.request ++ t.request :: after.map Attempt.request := by
      rw [← hrequests, hsplit, List.map_append, List.map_cons]
    have hmem : t.request ∈ mode.requests m.cpu m.bus :=
      hplan ▸ List.mem_append_right _ (List.mem_cons_self ..)
    have hbefore : ∀ q ∈ before.map Attempt.request, m.bus.Answers q.address :=
      List.forall_mem_map.mpr hanswered
    have hbytes := AddressingMode.bytes_before hplan
    rw [List.length_map] at hbytes
    rw [Bus.serve_bus_of_reads hreads] at hbus
    refine ⟨fun o ho => hnot ((Bus.denotes_iff.mp ho).1 _ hmem), _, _, _, hplan, hbefore, hnot,
      ?_, ?_, hbus⟩
    · rw [AddressingMode.eq_read_of_requests hmem]
      rfl
    · rw [hcpu, AddressingMode.left_of_attempts hsplit, List.length_map]
      refine Cpu.hasTaken_taking ?_ fun q hq => hbefore q (hbytes q hq)
      exact Nat.le_trans (Nat.min_le_right _ _) mode.operandBytes_le

end Console6502
