/-
  Shifts of numbers in memory.

  A number of many bytes is shifted byte by byte, and the carry takes the bit that drops out of one
  byte into the next.  Such a pass is exact (`Modifier.rotateLeft_pass`, `Modifier.rotateRight_pass`):
  no bit is lost between the carry at the start, the bytes, and the carry at the end.  Doubling,
  halving and the way back of a rotation follow.

  In memory the bytes are cells of RAM, each modified by a step of the processor.  The cells may lie
  anywhere as long as no two are the same, so a row of such steps is a pass over their bytes
  (`Ram.modifyAll_map`), and leaves the rest of the bus as it is (`Machine.run_modifies`).
-/
import Console6502.Proofs.BusCells
import Console6502.Proofs.EffectiveAddress
import Console6502.Proofs.MultiPrecision
import Console6502.Proofs.StatusFlags

namespace Console6502

/-! ## Passes over bytes -/

namespace Bytes

theorem toNat_concat (l : List Byte) (x : Byte) :
    toNat (l ++ [x]) = toNat l + 256 ^ l.length * x.toNat := by
  rw [toNat, List.map_append, Nat.ofDigits_append, List.length_map, List.map_singleton,
    Nat.ofDigits_singleton]
  rfl

/-- Bytes of the same number are the same, if they are as many. -/
theorem eq_of_toNat {l l' : List Byte} (hlength : l.length = l'.length)
    (h : toNat l = toNat l') : l = l' := by
  have hmap := Nat.ofDigits_inj_of_len_eq (by decide : 1 < 256)
    (by rw [List.length_map, List.length_map, hlength]) (digits_lt l) (digits_lt l') h
  exact List.map_injective_iff.mpr (fun _ _ => BitVec.eq_of_toNat_eq) hmap

/-- The top bit of a number of many bytes drops out when the number is doubled. -/
theorem testBit_top {k n : Nat} (hk : 0 < k) (hn : n < 256 ^ k) :
    n.testBit (8 * k - 1) = decide (256 ^ k ≤ 2 * n) := by
  have hpow : 256 ^ k = 2 * 2 ^ (8 * k - 1) := by
    rw [← Nat.pow_add_one', show 8 * k - 1 + 1 = 8 * k by omega, Nat.pow_mul]
  rw [hpow] at hn ⊢
  rw [Nat.testBit_eq_decide_div_mod_eq, decide_eq_decide]
  generalize 2 ^ (8 * k - 1) = top at hn ⊢
  by_cases h : top ≤ n
  · have hone : n / top = 1 := Nat.div_eq_of_lt_le (by omega) (by omega)
    rw [hone]
    omega
  · rw [Nat.div_eq_of_lt (Nat.not_le.mp h)]
    omega

end Bytes

namespace Modifier

/-- Modifies bytes in turn, each with the carry that the one before it left. -/
def pass (how : Modifier) : Bool → List Byte → List Byte × Bool
  | carry, [] => ([], carry)
  | carry, v :: rest =>
    let (v', linked) := how.apply carry v
    let (rest', last) := pass how linked rest
    (v' :: rest', last)

theorem pass_cons (how : Modifier) (carry : Bool) (v : Byte) (l : List Byte) :
    how.pass carry (v :: l) =
      ((how.apply carry v).1 :: (how.pass (how.apply carry v).2 l).1,
        (how.pass (how.apply carry v).2 l).2) := rfl

theorem length_pass (how : Modifier) (carry : Bool) (l : List Byte) :
    (how.pass carry l).1.length = l.length := by
  induction l generalizing carry with
  | nil => rfl
  | cons v l ih => exact congrArg (· + 1) (ih _)

/-- A byte rotated to the left and the bit that drops out of it are its double and the carry. -/
theorem rotateLeft_exact (carry : Bool) (v : Byte) :
    (rotateLeft.apply carry v).1.toNat + 256 * (rotateLeft.apply carry v).2.toNat =
      2 * v.toNat + carry.toNat := by
  have hv := v.isLt
  have hc := carry.toNat_le
  rw [apply_eq, outcome, BitVec.toNat_ofNat]
  by_cases h : 128 ≤ v.toNat
  · rw [decide_eq_true h, Bool.toNat_true]
    omega
  · rw [decide_eq_false h, Bool.toNat_false]
    omega

/-- A byte rotated to the right and the bit that drops out of it make up the byte, with the carry
    above it. -/
theorem rotateRight_exact (carry : Bool) (v : Byte) :
    2 * (rotateRight.apply carry v).1.toNat + (rotateRight.apply carry v).2.toNat =
      v.toNat + 256 * carry.toNat := by
  have hv := v.isLt
  have hc := carry.toNat_le
  rw [apply_eq, outcome, BitVec.toNat_ofNat]
  by_cases h : v.toNat % 2 = 1
  · rw [decide_eq_true h, Bool.toNat_true]
    omega
  · rw [decide_eq_false h, Bool.toNat_false]
    omega

/-- A pass of rotations to the left, the lowest byte first. -/
theorem rotateLeft_pass (carry : Bool) (l : List Byte) :
    Bytes.toNat (rotateLeft.pass carry l).1 +
        256 ^ l.length * (rotateLeft.pass carry l).2.toNat =
      2 * Bytes.toNat l + carry.toNat := by
  induction l generalizing carry with
  | nil => simp [pass, Bytes.toNat]
  | cons v l ih =>
    have hbyte := rotateLeft_exact carry v
    have hrest := ih (rotateLeft.apply carry v).2
    rw [pass_cons, Bytes.toNat_cons, Bytes.toNat_cons, List.length_cons, Nat.pow_succ',
      Nat.mul_assoc]
    dsimp only
    omega

/-- A pass of rotations to the right, the highest byte first. -/
theorem rotateRight_pass (carry : Bool) (l : List Byte) :
    2 * Bytes.toNat (rotateRight.pass carry l).1.reverse + (rotateRight.pass carry l).2.toNat =
      Bytes.toNat l.reverse + 256 ^ l.length * carry.toNat := by
  induction l generalizing carry with
  | nil => simp [pass, Bytes.toNat]
  | cons v l ih =>
    have hbyte := congrArg (256 ^ l.length * ·) (rotateRight_exact carry v)
    have hrest := ih (rotateRight.apply carry v).2
    simp only [Nat.mul_add] at hbyte
    rw [pass_cons, List.reverse_cons, List.reverse_cons, Bytes.toNat_concat, Bytes.toNat_concat,
      List.length_reverse, List.length_reverse, length_pass, List.length_cons, Nat.pow_succ,
      Nat.mul_add, Nat.mul_assoc, Nat.mul_left_comm 2]
    dsimp only
    omega

/-- A pass to the left that starts with no carry doubles the number. -/
theorem doubled {l : List Byte} (hl : 0 < l.length) :
    Bytes.toNat (rotateLeft.pass false l).1 = 2 * Bytes.toNat l % 256 ^ l.length ∧
      (rotateLeft.pass false l).2 = (Bytes.toNat l).testBit (8 * l.length - 1) := by
  have hlt := Bytes.toNat_lt (rotateLeft.pass false l).1
  have hexact := rotateLeft_pass false l
  rw [length_pass] at hlt
  rw [Bool.toNat_false, Nat.add_zero] at hexact
  obtain ⟨hvalue, hcarry⟩ := remainder_of_exact hlt hexact
  exact ⟨hvalue, hcarry.trans (Bytes.testBit_top hl (Bytes.toNat_lt l)).symm⟩

/-- A pass to the right that starts with no carry halves the number. -/
theorem halved (l : List Byte) :
    Bytes.toNat (rotateRight.pass false l.reverse).1.reverse = Bytes.toNat l / 2 ∧
      (rotateRight.pass false l.reverse).2.toNat = Bytes.toNat l % 2 := by
  have hexact := rotateRight_pass false l.reverse
  have hcarry := (rotateRight.pass false l.reverse).2.toNat_le
  rw [List.reverse_reverse, Bool.toNat_false, Nat.mul_zero, Nat.add_zero] at hexact
  omega

/-- A pass to the left and a pass back to the right change nothing. -/
theorem rotated_back (carry : Bool) (l : List Byte) :
    rotateRight.pass (rotateLeft.pass carry l).2 (rotateLeft.pass carry l).1.reverse =
      (l.reverse, carry) := by
  have hleft := rotateLeft_pass carry l
  have hright := rotateRight_pass (rotateLeft.pass carry l).2 (rotateLeft.pass carry l).1.reverse
  rw [List.reverse_reverse, List.length_reverse, length_pass, hleft] at hright
  generalize hback : rotateRight.pass (rotateLeft.pass carry l).2
    (rotateLeft.pass carry l).1.reverse = back at hright
  have hlength : back.1.reverse.length = l.length := by
    rw [← hback, List.length_reverse, length_pass, List.length_reverse, length_pass]
  have hcarry := carry.toNat_le
  have hcarry' := back.2.toNat_le
  have hbytes : back.1.reverse = l := Bytes.eq_of_toNat hlength (by omega)
  have hlast : back.2 = carry := by
    have hnumber : back.2.toNat = carry.toNat := by omega
    rw [← Bool.ofNat_toNat back.2, hnumber, Bool.ofNat_toNat]
  rw [← hbytes, List.reverse_reverse, ← hlast]

end Modifier

/-! ## Rows of cells -/

namespace Ram

/-- The bytes in a row of cells. -/
def bytes (ram : Ram) (cells : List (Fin 0x0800)) : List Byte :=
  cells.map fun x : Fin 0x0800 => ram.cell x

theorem length_bytes (ram : Ram) (cells : List (Fin 0x0800)) :
    (ram.bytes cells).length = cells.length := List.length_map _

theorem bytes_reverse (ram : Ram) (cells : List (Fin 0x0800)) :
    ram.bytes cells.reverse = (ram.bytes cells).reverse := List.map_reverse

theorem bytes_cons (ram : Ram) (x : Fin 0x0800) (cells : List (Fin 0x0800)) :
    ram.bytes (x :: cells) = ram.cell x :: ram.bytes cells := rfl

/-- RAM and carry after a cell was modified. -/
def modify (s : Ram × Bool) (how : Modifier) (x : Fin 0x0800) : Ram × Bool :=
  (s.1.setCell x (how.apply s.2 (s.1.cell x)).1, (how.apply s.2 (s.1.cell x)).2)

/-- RAM and carry after cells were modified in turn. -/
def modifyAll (s : Ram × Bool) (row : List (Modifier × Fin 0x0800)) : Ram × Bool :=
  row.foldl (fun s p => modify s p.1 p.2) s

theorem modifyAll_cons (s : Ram × Bool) (how : Modifier) (x : Fin 0x0800)
    (row : List (Modifier × Fin 0x0800)) :
    modifyAll s ((how, x) :: row) = modifyAll (modify s how x) row := rfl

theorem modifyAll_append (s : Ram × Bool) (row row' : List (Modifier × Fin 0x0800)) :
    modifyAll s (row ++ row') = modifyAll (modifyAll s row) row' := List.foldl_append

theorem cell_modify (s : Ram × Bool) (how : Modifier) (x y : Fin 0x0800) :
    (modify s how x).1.cell y = if x = y then (how.apply s.2 (s.1.cell x)).1 else s.1.cell y := by
  rw [modify, Window.cell_setCell _ x.isLt]
  simp only [Fin.ext_iff]

/-- Modifying cells that are all different is a pass over their bytes, and leaves the others. -/
theorem modifyAll_map (how : Modifier) {cells : List (Fin 0x0800)} (h : cells.Nodup)
    (s : Ram × Bool) :
    ((modifyAll s (cells.map (Prod.mk how))).1.bytes cells,
        (modifyAll s (cells.map (Prod.mk how))).2) = how.pass s.2 (s.1.bytes cells) ∧
      ∀ y, y ∉ cells → (modifyAll s (cells.map (Prod.mk how))).1.cell y = s.1.cell y := by
  induction cells generalizing s with
  | nil => exact ⟨rfl, fun _ _ => rfl⟩
  | cons x cells ih =>
    obtain ⟨hx, hcells⟩ := List.nodup_cons.mp h
    obtain ⟨hpass, hrest⟩ := ih hcells (modify s how x)
    -- the first cell is none of the others, so that its byte stays as it is from then on
    have hbytes : (modify s how x).1.bytes cells = s.1.bytes cells := by
      refine List.map_congr_left fun y hy => ?_
      rw [cell_modify, if_neg]
      rintro rfl
      exact hx hy
    have hfirst : (modifyAll (modify s how x) (cells.map (Prod.mk how))).1.cell x =
        (how.apply s.2 (s.1.cell x)).1 := by
      rw [hrest x hx, cell_modify, if_pos rfl]
    rw [hbytes] at hpass
    rw [List.map_cons, modifyAll_cons]
    refine ⟨?_, fun y hy => ?_⟩
    · obtain ⟨hbytes', hcarry⟩ := Prod.mk.inj hpass
      rw [bytes_cons, hfirst, bytes_cons, Modifier.pass_cons, hbytes', hcarry]
      rfl
    · obtain ⟨hne, hy⟩ := List.ne_and_not_mem_of_not_mem_cons hy
      rw [hrest y hy, cell_modify, if_neg hne.symm]

/-- Cells that were rotated to the left in turn, and then to the right on the way back, are as they
    were, and so is the carry. -/
theorem modifyAll_back {cells : List (Fin 0x0800)} (h : cells.Nodup) (s : Ram × Bool) :
    modifyAll s (cells.map (Prod.mk .rotateLeft) ++ cells.reverse.map (Prod.mk .rotateRight)) =
      s := by
  obtain ⟨hleft, hrest⟩ := modifyAll_map .rotateLeft h s
  rw [modifyAll_append]
  generalize modifyAll s (cells.map (Prod.mk .rotateLeft)) = t at hleft hrest
  obtain ⟨hright, hrest'⟩ := modifyAll_map .rotateRight (List.nodup_reverse.mpr h) t
  generalize modifyAll t (cells.reverse.map (Prod.mk .rotateRight)) = u at hright hrest'
  obtain ⟨hbytes, hcarry⟩ := Prod.mk.inj hleft
  rw [bytes_reverse, bytes_reverse, hbytes, hcarry, Modifier.rotated_back] at hright
  obtain ⟨hback, hcarry'⟩ := Prod.mk.inj hright
  refine Prod.ext (Window.ext_cell fun i => ?_) hcarry'
  by_cases hi : i ∈ cells
  · exact List.map_inj_left.mp (List.reverse_inj.mp hback) i hi
  · rw [hrest' i (by rwa [List.mem_reverse]), hrest i hi]

/-- A row that modifies the first cell in one way and the cells behind it in another. -/
def rowOf (first next : Modifier) : List (Fin 0x0800) → List (Modifier × Fin 0x0800)
  | [] => []
  | x :: cells => (first, x) :: cells.map (Prod.mk next)

theorem length_rowOf (first next : Modifier) (cells : List (Fin 0x0800)) :
    (rowOf first next cells).length = cells.length := by
  cases cells with
  | nil => rfl
  | cons x cells => exact congrArg (· + 1) (List.length_map _)

/-- A shift is a rotation with no carry, so a row that starts with one is a pass with none. -/
theorem modifyAll_rowOf {first next : Modifier}
    (hshift : ∀ carry v, first.apply carry v = next.apply false v) {cells : List (Fin 0x0800)}
    (hne : cells ≠ []) (s : Ram × Bool) :
    modifyAll s (rowOf first next cells) = modifyAll (s.1, false) (cells.map (Prod.mk next)) := by
  cases cells with
  | nil => exact absurd rfl hne
  | cons x cells =>
    have hfirst : modify s first x = modify (s.1, false) next x := by
      rw [modify, modify, hshift]
    rw [rowOf, modifyAll_cons, hfirst]
    rfl

end Ram

/-! ## Steps -/

namespace Bus

variable {β : Type} [Board β] {b : Bus β} {a : Word}

/-- Reads that are all answered are granted, and leave the bus as it is. -/
theorem grant_of_answers {p : List Request}
    (h : ∀ r ∈ p, r.isWrite = false ∧ b.Answers r.address) : b.grant p = some b := by
  have hreads := Attempt.forall_all (fun r hr => (h r hr).1) {}
  have hanswers := Attempt.forall_all (fun r hr => (h r hr).2) {}
  rw [← Attempt.map_request_all p {}, grant_eq_some_iff]
  exact ⟨(serve_reads_iff hreads).mpr hanswers, serve_bus_of_reads hreads⟩

theorem peek_of_ram (ha : a.toNat < 0x2000) : b.peek a = b.ram.cell (a.toNat % 0x0800) := by
  rw [peek_of_read (read_of_ram (AddressRegion.of_eq_ram ha)), Window.read_eq_cell, Ram.index_eq]

/-- RAM takes the old byte back and then the new one, which stays. -/
theorem grant_both_writes (ha : a.toNat < 0x2000) (v v' : Byte) :
    b.grant [.write a v, .write a v'] =
      some { b with ram := b.ram.setCell (a.toNat % 0x0800) v' } := by
  have hregion := AddressRegion.of_eq_ram ha
  rw [grant, answer_of_write_ok (write_of_ram hregion v), Option.bind_some, grant,
    answer_of_write_ok (write_of_ram hregion v'), Option.bind_some, grant, Window.write_write,
    Window.write_eq_setCell, Ram.index_eq]

end Bus

namespace Machine

variable {β : Type} [Board β] {m m' : Machine β} {how : Modifier} {x : Fin 0x0800}

/-- The step from here is an instruction that modifies this cell of RAM.  It may name the cell by
    any of its addresses and in any mode. -/
def WillModify (m : Machine β) (how : Modifier) (x : Fin 0x0800) : Prop :=
  m.cpu.dueInterrupt = none ∧ ∃ i a crossed, m.bus.instruction? m.cpu.pc = some i ∧
    i.operation = .modify how ∧
    m.bus.Denotes (m.cpu.begin i.opcode) i.mode (.memory a crossed) ∧
    a.toNat < 0x2000 ∧ a.toNat % 0x0800 = x

/-- The steps from here modify these cells in turn. -/
def WillModifyAll (m : Machine β) : List (Modifier × Fin 0x0800) → Prop
  | [] => True
  | (how, x) :: row => m.WillModify how x ∧ m.afterStep.WillModifyAll row

/-- RAM and carry. -/
def linked (m : Machine β) : Ram × Bool := (m.bus.ram, m.cpu.status.carry)

/-- From `m` to `m'` RAM and carry have become this, and nothing else has changed on the bus and in
    the flags but zero and negative. -/
structure Links (m m' : Machine β) (s : Ram × Bool) : Prop where
  bus : m'.bus = { m.bus with ram := s.1 }
  carry : m'.cpu.status.carry = s.2
  flags : ∀ flag, flag ∉ [.carry, .zero, .negative, .alwaysOn] →
    m'.cpu.status.get flag = m.cpu.status.get flag
  alwaysOn : m.cpu.status.get .alwaysOn = true → m'.cpu.status.get .alwaysOn = true

omit [Board β] in
theorem Links.linked_eq {s : Ram × Bool} (h : m.Links m' s) : m'.linked = s := by
  rw [linked, h.bus, h.carry]

omit [Board β] in
theorem Links.trans {m'' : Machine β} {s s' : Ram × Bool} (h : m.Links m' s)
    (h' : m'.Links m'' s') : m.Links m'' s' where
  bus := by rw [h'.bus, h.bus]
  carry := h'.carry
  flags flag hflag := (h'.flags flag hflag).trans (h.flags flag hflag)
  alwaysOn hm := h'.alwaysOn (h.alwaysOn hm)

/-- All that a modification reads lies before its two writes, and is answered. -/
theorem grant_modify {i : Instruction} {a : Word} {crossed : Bool}
    (hi : m.bus.instruction? m.cpu.pc = some i) (hop : i.operation = .modify how)
    (hdenotes : m.bus.Denotes (m.cpu.begin i.opcode) i.mode (.memory a crossed))
    (ha : a.toNat < 0x2000) (hx : a.toNat % 0x0800 = x) :
    m.bus.grant (i.requests m.cpu m.bus) =
      some { m.bus with ram := (Ram.modify m.linked how x).1 } := by
  obtain ⟨hanswers, hoperand⟩ := Bus.denotes_iff.mp hdenotes
  have hoperand : i.operand m.cpu m.bus = .memory a crossed := hoperand.symm
  have hstatus : (i.taken m.cpu m.bus).status = m.cpu.status := Cpu.status_taking _ _ _
  have hpeek := Bus.peek_of_ram (b := m.bus) ha
  have hrequests : i.requests m.cpu m.bus =
      (.read m.cpu.pc :: i.mode.requests (m.cpu.begin i.opcode) m.bus ++ [.read a]) ++
        [.write a (m.bus.peek a),
          .write a (how.apply m.cpu.status.carry (m.bus.peek a)).1] := by
    rw [Instruction.requests, hop, hoperand, Nat.add_comm 1, Request.bytes, Operation.writes,
      hstatus, Modifier.apply_eq]
    simp only [AddressingMode.requests, List.cons_append, List.append_assoc]
    rfl
  have hreads : ∀ r ∈ .read m.cpu.pc :: i.mode.requests (m.cpu.begin i.opcode) m.bus ++ [.read a],
      r.isWrite = false ∧ m.bus.Answers r.address := by
    refine List.forall_mem_append.mpr ⟨List.forall_mem_cons.mpr ⟨?_, fun r hr => ?_⟩, ?_⟩
    · exact ⟨rfl, _, (Bus.read_of_instruction? hi).1⟩
    · refine ⟨?_, hanswers r hr⟩
      rw [AddressingMode.eq_read_of_requests hr]
      rfl
    · exact List.forall_mem_singleton.mpr
        ⟨rfl, _, Bus.read_of_ram (AddressRegion.of_eq_ram ha)⟩
  rw [hrequests, Bus.grant_append, Bus.grant_of_answers hreads, Option.bind_some,
    Bus.grant_both_writes ha, hpeek, hx]
  rfl

/-- The step succeeds, and modifies the cell and the carry. -/
theorem step_modifies (h : m.WillModify how x) :
    ∃ n m', Exec.step m = .ok n m' ∧ m.Links m' (Ram.modify m.linked how x) := by
  obtain ⟨hquiet, i, a, crossed, hi, hop, hdenotes, ha, hx⟩ := h
  have hgrant := grant_modify hi hop hdenotes ha hx
  have hoperand : i.operand m.cpu m.bus = .memory a crossed := (Bus.denotes_iff.mp hdenotes).2.symm
  have hstatus : (i.taken m.cpu m.bus).status = m.cpu.status := Cpu.status_taking _ _ _
  obtain ⟨j, hok⟩ := Exec.step_granted hquiet hi hgrant
  refine ⟨_, _, hok, rfl, ?_, fun flag hflag => ?_, fun hm => ?_⟩
  · have hcarry : (i.after m.cpu m.bus).status.carry =
        (how.outcome (i.taken m.cpu m.bus).status.carry (m.bus.peek a)).2 := by
      rw [Instruction.after, hop, hoperand]
      simp [Operation.outcome, Operand.byteOf, Cpu.charge]
    show (i.after m.cpu m.bus).status.carry = _
    rw [hcarry, hstatus, Bus.peek_of_ram ha, hx, ← Modifier.apply_eq]
    rfl
  · obtain ⟨hon, hkept⟩ : flag ≠ .alwaysOn ∧ flag ∉ i.operation.affects := by
      rw [hop]
      simp at hflag
      simp [Operation.affects, hflag]
    show ((i.operation.outcome _ (i.taken m.cpu m.bus) m.bus).status).get flag = _
    rw [Operation.get_status_outcome hkept hon, hstatus]
  · show (i.operation.outcome _ (i.taken m.cpu m.bus) m.bus).status.get .alwaysOn = true
    refine i.operation.alwaysOn_outcome _ ?_ _
    rw [hstatus]
    exact hm

/-! ## Runs -/

/-- A row of steps succeeds, and modifies the cells in turn. -/
theorem run_modifies {row : List (Modifier × Fin 0x0800)} (h : m.WillModifyAll row) :
    m.AllSucceed (List.replicate row.length .step) ∧
      m.Links (m.run (List.replicate row.length .step)) (Ram.modifyAll m.linked row) := by
  induction row generalizing m with
  | nil => exact ⟨trivial, rfl, rfl, fun _ _ => rfl, id⟩
  | cons p row ih =>
    obtain ⟨how, x⟩ := p
    obtain ⟨n, m', hstep, hlinks⟩ := step_modifies h.1
    have hafter : m.react .step = m' := afterStep_of_ok hstep
    have hrest : (m.react .step).WillModifyAll row := h.2
    obtain ⟨hsucceed, hrun⟩ := ih hrest
    rw [hafter, hlinks.linked_eq] at hrun
    refine ⟨⟨fun _ => ⟨n, m', hstep⟩, hsucceed⟩, ?_⟩
    show m.Links ((m.react .step).run (List.replicate row.length .step)) _
    rw [hafter]
    exact hlinks.trans hrun

/-- From `m` to `m'` nothing has changed on the bus but these cells of RAM, and no flag but carry,
    zero and negative; bit 5 of the status stays on. -/
structure ChangesOnly (m m' : Machine β) (cells : List (Fin 0x0800)) : Prop where
  bus : m'.bus = { m.bus with ram := m'.bus.ram }
  ram : ∀ y : Fin 0x0800, y ∉ cells → m'.bus.ram.cell y = m.bus.ram.cell y
  flags : ∀ flag, flag ∉ [.carry, .zero, .negative, .alwaysOn] →
    m'.cpu.status.get flag = m.cpu.status.get flag
  alwaysOn : m.cpu.status.get .alwaysOn = true → m'.cpu.status.get .alwaysOn = true

omit [Board β] in
theorem ChangesOnly.mono {cells cells' : List (Fin 0x0800)} (h : m.ChangesOnly m' cells)
    (hsub : cells ⊆ cells') : m.ChangesOnly m' cells' :=
  ⟨h.bus, fun y hy => h.ram y (mt (@hsub y) hy), h.flags, h.alwaysOn⟩

/-- A row that starts with a shift is a pass with no carry over the bytes in the cells. -/
theorem run_shifts {first next : Modifier}
    (hshift : ∀ carry v, first.apply carry v = next.apply false v) {cells : List (Fin 0x0800)}
    (hne : cells ≠ []) (hcells : cells.Nodup) (h : m.WillModifyAll (Ram.rowOf first next cells)) :
    m.AllSucceed (List.replicate cells.length .step) ∧
      m.ChangesOnly (m.run (List.replicate cells.length .step)) cells ∧
      ((m.run (List.replicate cells.length .step)).bus.ram.bytes cells,
        (m.run (List.replicate cells.length .step)).cpu.status.carry) =
          next.pass false (m.bus.ram.bytes cells) := by
  obtain ⟨hsucceed, hlinks⟩ := run_modifies h
  rw [Ram.length_rowOf] at hsucceed hlinks
  rw [Ram.modifyAll_rowOf hshift hne] at hlinks
  obtain ⟨hpass, hrest⟩ := Ram.modifyAll_map next hcells (m.bus.ram, false)
  have hram := congrArg Bus.ram hlinks.bus
  refine ⟨hsucceed, ⟨?_, fun y hy => ?_, hlinks.flags, hlinks.alwaysOn⟩, ?_⟩
  · rw [hram]
    exact hlinks.bus
  · rw [hram]
    exact hrest y hy
  · rw [hram, hlinks.carry]
    exact hpass

/-- The number that lies in cells of RAM, the lowest byte first. -/
def number (m : Machine β) (cells : List (Fin 0x0800)) : Nat := Bytes.toNat (m.bus.ram.bytes cells)

/-- Any number in RAM, of one byte or more, whose cells are all different and are named in any mode
    and by any of their addresses.  ASL of the lowest byte and ROL of the others, upwards, double
    the number, modulo the power of 256, and the carry is its top bit.  LSR of the highest byte and
    ROR of the others, downwards, halve it, and the carry is the remainder.  Both change no other
    cell and no flag but carry, zero and negative.  From any carry, ROL of all the bytes upwards and
    then ROR of all of them downwards leave the bus and the carry as they were. -/
theorem memory_shifts (m : Machine β) {cells : List (Fin 0x0800)} (hne : cells ≠ [])
    (hcells : cells.Nodup) :
    let pass := List.replicate cells.length Stimulus.step
    (m.WillModifyAll (Ram.rowOf .shiftLeft .rotateLeft cells) →
      m.AllSucceed pass ∧
      (m.run pass).number cells = 2 * m.number cells % 256 ^ cells.length ∧
      (m.run pass).cpu.status.carry = (m.number cells).testBit (8 * cells.length - 1) ∧
      m.ChangesOnly (m.run pass) cells) ∧
    (m.WillModifyAll (Ram.rowOf .shiftRight .rotateRight cells.reverse) →
      m.AllSucceed pass ∧
      (m.run pass).number cells = m.number cells / 2 ∧
      (m.run pass).cpu.status.carry.toNat = m.number cells % 2 ∧
      m.ChangesOnly (m.run pass) cells) ∧
    (m.WillModifyAll
        (cells.map (Prod.mk .rotateLeft) ++ cells.reverse.map (Prod.mk .rotateRight)) →
      m.AllSucceed (pass ++ pass) ∧
      (m.run (pass ++ pass)).bus = m.bus ∧
      (m.run (pass ++ pass)).cpu.status.carry = m.cpu.status.carry ∧
      (∀ flag, flag ∉ [.carry, .zero, .negative, .alwaysOn] →
        (m.run (pass ++ pass)).cpu.status.get flag = m.cpu.status.get flag) ∧
      (m.cpu.status.get .alwaysOn = true →
        (m.run (pass ++ pass)).cpu.status.get .alwaysOn = true)) := by
  intro pass
  refine ⟨fun h => ?_, fun h => ?_, fun h => ?_⟩
  · obtain ⟨hsucceed, honly, hpass⟩ := run_shifts (fun _ _ => rfl) hne hcells h
    obtain ⟨hbytes, hcarry⟩ := Prod.mk.inj hpass
    have hdoubled := Modifier.doubled (l := m.bus.ram.bytes cells)
      (by rw [Ram.length_bytes]; exact List.length_pos_iff.mpr hne)
    rw [← hbytes, ← hcarry, Ram.length_bytes] at hdoubled
    exact ⟨hsucceed, hdoubled.1, hdoubled.2, honly⟩
  · have hne' : cells.reverse ≠ [] := mt List.reverse_eq_nil_iff.mp hne
    obtain ⟨hsucceed, honly, hpass⟩ :=
      run_shifts (fun _ _ => rfl) hne' (List.nodup_reverse.mpr hcells) h
    rw [List.length_reverse] at hsucceed honly hpass
    rw [Ram.bytes_reverse, Ram.bytes_reverse] at hpass
    obtain ⟨hbytes, hcarry⟩ := Prod.mk.inj hpass
    have hhalved := Modifier.halved (m.bus.ram.bytes cells)
    rw [← hbytes, ← hcarry, List.reverse_reverse] at hhalved
    exact ⟨hsucceed, hhalved.1, hhalved.2, honly.mono fun _ => List.mem_reverse.mp⟩
  · obtain ⟨hsucceed, hlinks⟩ := run_modifies h
    rw [List.length_append, List.length_map, List.length_map, List.length_reverse,
      ← List.replicate_append_replicate] at hsucceed hlinks
    rw [Ram.modifyAll_back hcells] at hlinks
    exact ⟨hsucceed, hlinks.bus, hlinks.carry, hlinks.flags, hlinks.alwaysOn⟩

/-- An instruction in the zero-page mode modifies the cell that its operand byte names. -/
theorem willModify_zeroPage {opcode v : Byte} (hquiet : m.cpu.dueInterrupt = none)
    (hi : m.bus.instruction? m.cpu.pc = some ⟨opcode, .modify how, .zeroPage⟩)
    (hv : m.bus.read (m.cpu.pc + 1) = .ok v) (hx : v.toNat = x) : m.WillModify how x := by
  have hbyte : m.bus.HasByte (m.cpu.begin opcode).pc.toNat v := by
    rw [Bus.HasByte, Word.ofNat_toNat]
    exact hv
  have hlt := v.isLt
  have haddress : (BitVec.ofInt 16 v.toNat).toNat = v.toNat := by
    rw [BitVec.ofInt_natCast, BitVec.toNat_ofNat]
    omega
  refine ⟨hquiet, _, _, _, hi, rfl, .zeroPage hbyte, ?_, ?_⟩
  · omega
  · omega

/-- A program in ROM, $C081 in the cells $10 and $20, and the carry set. -/
def shifting (program : Array Byte) : Machine Nrom where
  cpu := { pc := 0x8000, status := Status.set {} .carry true }
  bus :=
    { ram := (Ram.zero.write 0x10 0x81).write 0x20 0xC0
      board := some (Nrom.ofImage program 0) }

theorem number_shifting (program : Array Byte) :
    (shifting program).number [0x10, 0x20] = 0xC081 := by
  have hbytes : Ram.bytes ((Ram.zero.write 0x10 0x81).write 0x20 0xC0) [0x10, 0x20] =
      [0x81, 0xC0] := by decide +kernel
  exact congrArg Bytes.toNat hbytes

/-- ASL $10 and ROL $20 -/
def doubling : Machine Nrom := shifting #[0x06, 0x10, 0x26, 0x20]

/-- LSR $20 and ROR $10 -/
def halving : Machine Nrom := shifting #[0x46, 0x20, 0x66, 0x10]

/-- ROL $10, ROL $20, ROR $20 and ROR $10 -/
def rotating : Machine Nrom := shifting #[0x26, 0x10, 0x26, 0x20, 0x66, 0x20, 0x66, 0x10]

theorem shifted_in_two_cells :
    ((doubling.run [.step, .step]).number [0x10, 0x20] = 0x8102 ∧
      (doubling.run [.step, .step]).cpu.status.carry = true) ∧
    ((halving.run [.step, .step]).number [0x10, 0x20] = 0x6040 ∧
      (halving.run [.step, .step]).cpu.status.carry.toNat = 1) ∧
    (rotating.run [.step, .step, .step, .step]).bus = rotating.bus := by
  have hne : ([0x10, 0x20] : List (Fin 0x0800)) ≠ [] := by decide
  have hcells : ([0x10, 0x20] : List (Fin 0x0800)).Nodup := by decide
  obtain ⟨hdouble, -, -⟩ := doubling.memory_shifts hne hcells
  obtain ⟨-, hhalve, -⟩ := halving.memory_shifts hne hcells
  obtain ⟨-, -, hrotate⟩ := rotating.memory_shifts hne hcells
  obtain ⟨-, hvalue, hcarry, -⟩ := hdouble
    ⟨willModify_zeroPage rfl rfl rfl rfl, willModify_zeroPage rfl rfl rfl rfl, trivial⟩
  obtain ⟨-, hvalue', hcarry', -⟩ := hhalve
    ⟨willModify_zeroPage rfl rfl rfl rfl, willModify_zeroPage rfl rfl rfl rfl, trivial⟩
  obtain ⟨-, hbus, -⟩ := hrotate
    ⟨willModify_zeroPage rfl rfl rfl rfl, willModify_zeroPage rfl rfl rfl rfl,
      willModify_zeroPage rfl rfl rfl rfl, willModify_zeroPage rfl rfl rfl rfl, trivial⟩
  rw [doubling, number_shifting] at hvalue hcarry
  rw [halving, number_shifting] at hvalue' hcarry'
  exact ⟨⟨hvalue, hcarry⟩, ⟨hvalue', hcarry'⟩, hbus⟩

end Machine

end Console6502
