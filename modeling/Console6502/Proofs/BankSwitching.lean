/-
  The law of bank switching.

  Behind any row of events the board has the byte last written from $8000 on in its register, taken
  modulo the number of banks in use (`Bus.board_run`).  What a read yields follows: the selected
  bank shows at $8000, the last bank in use at $C000, and below $8000 nothing answers.

  The banks in use are those of the image, but no more than 255.  An image of 256 banks or more has
  banks that never show, its last one among them (`Bus.last_bank_hidden`).
-/
import Console6502.Board.Uxrom
import Console6502.Proofs.BusCells
import Mathlib.Data.List.Induction

namespace Console6502

/-! ## The byte in the register -/

/-- The byte that an event writes to the bank register, if it does. -/
def BusEvent.selects? : BusEvent → Option Byte
  | write a v => if 0x8000 ≤ a then some v else none
  | _ => none

/-- The byte last written to the bank register since the last reset, zero if there was none. -/
def lastSelected (past : List BusEvent) : Byte :=
  ((past.reverse.takeWhile (· ≠ .reset)).findSome? BusEvent.selects?).getD 0

theorem lastSelected_append_reset (past : List BusEvent) : lastSelected (past ++ [.reset]) = 0 := by
  rw [lastSelected, List.reverse_concat]
  rfl

theorem lastSelected_append_of_ne (past : List BusEvent) {event : BusEvent} (h : event ≠ .reset) :
    lastSelected (past ++ [event]) = event.selects?.getD (lastSelected past) := by
  rw [lastSelected, List.reverse_concat, List.takeWhile_cons, decide_eq_true h, if_pos rfl,
    List.findSome?_cons]
  cases event.selects? <;> rfl

/-! ## The banked board -/

namespace Uxrom

variable {u : Uxrom} {a : Word} {n : Nat}

/-- An image is accepted if it is one or more whole banks. -/
theorem ofImage_eq_ok_iff {rom : Array Byte} :
    ofImage rom = .ok u ↔ u = ⟨rom, 0⟩ ∧ ∃ n, 1 ≤ n ∧ rom.size = n * bankSize := by
  have hwhole : (rom.size % bankSize = 0 ∧ ¬ rom.isEmpty) ↔
      ∃ n, 1 ≤ n ∧ rom.size = n * bankSize := by
    rw [Bool.not_eq_true, Array.isEmpty_eq_false_iff, ne_eq, ← Array.size_eq_zero_iff, bankSize]
    constructor
    · rintro ⟨hrest, hsize⟩
      exact ⟨rom.size / 16384, by omega, by omega⟩
    · rintro ⟨n, hn, hsize⟩
      omega
  unfold ofImage
  split
  · next h =>
    rw [Except.ok.injEq, and_iff_left (hwhole.mp h)]
    exact eq_comm
  · next h => exact iff_of_false (fun hok => nomatch hok) fun ⟨_, hn⟩ => h (hwhole.mpr hn)

/-- Eight bits count the banks of the image up to 255. -/
theorem banks_eq (hn : 1 ≤ n) (hsize : u.rom.size = n * bankSize) : u.banks = min n 255 := by
  rw [banks, hsize, Nat.mul_div_cancel n (by decide : 0 < bankSize)]
  omega

theorem selected_zero (u : Uxrom) : u.selected 0 = 0 := Nat.zero_mod u.banks

theorem read?_below (h : a < 0x8000) : Board.read? u a = none := by
  change (u.readTarget? a).map u.load = none
  rw [readTarget?, if_pos h]
  rfl

theorem read?_switched (h : ¬ a < 0x8000) (h' : a < 0xC000) :
    Board.read? u a = some (u.rom.getD (offset u.bank a) 0) := by
  change (u.readTarget? a).map u.load = _
  rw [readTarget?, if_neg h, if_pos h']
  rfl

theorem read?_fixed (h : ¬ a < 0x8000) (h' : ¬ a < 0xC000) :
    Board.read? u a = some (u.rom.getD (offset (u.banks - 1) a) 0) := by
  change (u.readTarget? a).map u.load = _
  rw [readTarget?, if_neg h, if_neg h']
  rfl

theorem write?_below (h : a < 0x8000) (v : Byte) : Board.write? u a v = none := by
  change (u.writeTarget? a).map (u.store · v) = none
  rw [writeTarget?, if_pos h]
  rfl

theorem write?_register (h : ¬ a < 0x8000) (v : Byte) :
    Board.write? u a v = some { u with bank := u.selected v } := by
  change (u.writeTarget? a).map (u.store · v) = _
  rw [writeTarget?, if_neg h]
  rfl

/-- A bank in use lies within the image. -/
theorem getElem?_offset {rom : Array Byte} {bank : Nat} (hsize : rom.size = n * bankSize)
    (hbank : bank < n) :
    rom[bank * bankSize + a.toNat % bankSize]? = some (rom.getD (offset bank a) 0) := by
  have hrest : a.toNat % bankSize < bankSize := Nat.mod_lt _ (by decide)
  have hnext : (bank + 1) * bankSize ≤ n * bankSize := Nat.mul_le_mul_right bankSize hbank
  have hlt : bank * bankSize + a.toNat % bankSize < rom.size := by
    rw [Nat.add_mul, Nat.one_mul] at hnext
    omega
  rw [Array.getD_eq_getD_getElem?, offset, Array.getElem?_eq_getElem hlt, Option.getD_some]

end Uxrom

/-! ## The board behind a row of events -/

namespace Bus

variable {b : Bus Uxrom} {u : Uxrom} {a : Word}

/-- An event changes the bank register of the board, or nothing on it. -/
theorem board_react (h : b.board = some u) (event : BusEvent) :
    (b.react event).board = some
      (if event = .reset then { u with bank := 0 }
      else match event.selects? with
        | some v => { u with bank := u.selected v }
        | none => u) := by
  cases event with
  | reset =>
    rw [if_pos rfl]
    show b.board.map Board.reset = _
    rw [h]
    rfl
  | setPicture i v | setSound i v => exact h
  | write a v =>
    rw [if_neg BusEvent.noConfusion, BusEvent.selects?]
    by_cases ha : a < 0x8000
    · rw [if_neg (by bv_omega)]
      rcases b.board_react_write a v with hsame | ⟨board, hwrite, -⟩
      · rw [hsame, h]
      · rw [h, Option.bind_some, Uxrom.write?_below ha] at hwrite
        cases hwrite
    · rw [if_pos (by bv_omega), react, write_cartridge (by bv_omega), h, Option.bind_some,
        Uxrom.write?_register ha]
      rfl

/-- The register holds the byte last selected, as a number below the banks in use. -/
theorem board_run {rom : Array Byte} (h : b.board = some ⟨rom, 0⟩) (past : List BusEvent) :
    (b.run past).board = some ⟨rom, (⟨rom, 0⟩ : Uxrom).selected (lastSelected past)⟩ := by
  induction past using List.reverseRecOn with
  | nil =>
    have hnone : lastSelected [] = 0 := rfl
    rw [hnone, Uxrom.selected_zero]
    exact h
  | append_singleton past event ih =>
    rw [run_append_singleton, board_react ih]
    by_cases hreset : event = .reset
    · rw [if_pos hreset, hreset, lastSelected_append_reset, Uxrom.selected_zero]
    · rw [if_neg hreset, lastSelected_append_of_ne past hreset]
      cases event.selects? <;> rfl

/-! ## Reads and writes on a banked bus -/

theorem read_switched {n i : Nat} (h : b.board = some u) (hsize : u.rom.size = n * Uxrom.bankSize)
    (hbank : u.bank < n) (hi : i < 16384) :
    ∃ v, u.rom[u.bank * 16384 + i]? = some v ∧ b.read (0x8000 + BitVec.ofNat 16 i) = .ok v := by
  have hoffset := Uxrom.getElem?_offset (a := 0x8000 + BitVec.ofNat 16 i) hsize hbank
  have hrest : (0x8000 + BitVec.ofNat 16 i).toNat % Uxrom.bankSize = i := by
    rw [Uxrom.bankSize]
    bv_omega
  rw [hrest] at hoffset
  refine ⟨_, hoffset, ?_⟩
  rw [read_cartridge (by bv_omega), h, Option.bind_some,
    Uxrom.read?_switched (by bv_omega) (by bv_omega), Option.elim_some]

theorem read_fixed {n i : Nat} (h : b.board = some u) (hsize : u.rom.size = n * Uxrom.bankSize)
    (hbanks : u.banks ≤ n) (hi : i < 16384) :
    ∃ v, u.rom[(u.banks - 1) * 16384 + i]? = some v ∧
      b.read (0xC000 + BitVec.ofNat 16 i) = .ok v := by
  have hpos : 1 ≤ u.banks := Nat.le_max_left _ _
  have hbank : u.banks - 1 < n := by omega
  have hoffset := Uxrom.getElem?_offset (a := 0xC000 + BitVec.ofNat 16 i) hsize hbank
  have hrest : (0xC000 + BitVec.ofNat 16 i).toNat % Uxrom.bankSize = i := by
    rw [Uxrom.bankSize]
    bv_omega
  rw [hrest] at hoffset
  refine ⟨_, hoffset, ?_⟩
  rw [read_cartridge (by bv_omega), h, Option.bind_some,
    Uxrom.read?_fixed (by bv_omega) (by bv_omega), Option.elim_some]

theorem read_below_rom (h : b.board = some u) (ha : 0x4020 ≤ a) (ha' : a < 0x8000) :
    b.read a = .error (.read a) := by
  rw [read_cartridge (by bv_omega), h, Option.bind_some, Uxrom.read?_below ha', Option.elim_none]

theorem write_below_rom (h : b.board = some u) (ha : 0x4020 ≤ a) (ha' : a < 0x8000) (v : Byte) :
    b.write a v = .error (.write a) := by
  rw [write_cartridge (by bv_omega), h, Option.bind_some, Uxrom.write?_below ha',
    Option.elim_none]

theorem react_write_below_rom (h : b.board = some u) (ha : 0x4020 ≤ a) (ha' : a < 0x8000)
    (v : Byte) : b.react (.write a v) = b := by
  rw [react, write_below_rom h ha ha']

/-- The law of bank switching, for any image that makes a board, and behind any events:

    * the image is one or more whole banks, and of them those up to number 255 are in use;
    * at $8000-$BFFF shows the bank that was last selected, modulo the banks in use, and at
      $C000-$FFFF the last bank in use;
    * below, in the cartridge part, reads and writes are refused and writes change nothing. -/
theorem banking_law (slot : Bus Uxrom) (rom : Array Byte) (board : Uxrom)
    (h : Uxrom.ofImage rom = .ok board) (past : List BusEvent) :
    let b := Bus.run { slot with board := some board } past
    ∃ n, 1 ≤ n ∧ rom.size = n * 16384 ∧
      (∀ i, i < 16384 → ∃ v,
        rom[(lastSelected past).toNat % min n 255 * 16384 + i]? = some v ∧
          b.read (0x8000 + BitVec.ofNat 16 i) = .ok v) ∧
      (∀ i, i < 16384 → ∃ v, rom[(min n 255 - 1) * 16384 + i]? = some v ∧
        b.read (0xC000 + BitVec.ofNat 16 i) = .ok v) ∧
      ∀ a, 0x4020 ≤ a → a < 0x8000 → b.read a = .error (.read a) ∧
        ∀ v, b.write a v = .error (.write a) ∧ b.react (.write a v) = b := by
  intro b
  obtain ⟨rfl, n, hn, hsize⟩ := Uxrom.ofImage_eq_ok_iff.mp h
  have hbanks := Uxrom.banks_eq (u := ⟨rom, 0⟩) hn hsize
  have hboard : b.board = some ⟨rom, (lastSelected past).toNat % min n 255⟩ := by
    rw [← hbanks]
    exact board_run rfl past
  refine ⟨n, hn, hsize, fun i hi => ?_, fun i hi => ?_, fun a ha ha' => ⟨?_, fun v => ⟨?_, ?_⟩⟩⟩
  · have hmod : (lastSelected past).toNat % min n 255 < min n 255 := Nat.mod_lt _ (by omega)
    have hread := read_switched hboard hsize (Nat.lt_of_lt_of_le hmod (Nat.min_le_left n 255)) hi
    exact hread
  · have hfixed := read_fixed hboard hsize (hbanks ▸ Nat.min_le_left n 255) hi
    rw [← hbanks]
    exact hfixed
  · exact read_below_rom hboard ha ha'
  · exact write_below_rom hboard ha ha' v
  · exact react_write_below_rom hboard ha ha' v

end Bus

/-! ## An image with more banks than are in use -/

/-- An image of this many banks, each byte of it the number of its bank.  Only its size and its
    bytes are ever asked for: to compute it would take megabytes. -/
@[irreducible]
def Uxrom.numberedImage (banks : Nat) : Array Byte :=
  Array.ofFn fun i : Fin (banks * 16384) => BitVec.ofNat 8 (i / 16384)

namespace Uxrom

theorem size_numberedImage (banks : Nat) : (numberedImage banks).size = banks * bankSize := by
  rw [numberedImage]
  exact Array.size_ofFn

theorem ofImage_numberedImage {banks : Nat} (h : 1 ≤ banks) :
    ofImage (numberedImage banks) = .ok ⟨numberedImage banks, 0⟩ :=
  ofImage_eq_ok_iff.mpr ⟨rfl, banks, h, size_numberedImage banks⟩

theorem getElem?_numberedImage {banks k i : Nat} (hk : k < banks) (hi : i < 16384) :
    (numberedImage banks)[k * 16384 + i]? = some (BitVec.ofNat 8 k) := by
  have hdiv : (k * 16384 + i) / 16384 = k := by omega
  rw [numberedImage, Array.getElem?_ofFn, dif_pos (by omega)]
  show some (BitVec.ofNat 8 ((k * 16384 + i) / 16384)) = _
  rw [hdiv]

end Uxrom

namespace Bus

/-- Three banks: behind a reset a five selects the last one, which shows at $C000 in any case. -/
theorem three_banks_switch :
    let b : Bus Uxrom := Bus.run { board := some ⟨Uxrom.numberedImage 3, 0⟩ }
      [.write 0x8000 1, .reset, .write 0xFFFF 5, .write 0x6000 1]
    b.read 0x8000 = .ok 2 ∧ b.read 0xC000 = .ok 2 ∧ b.read 0x6000 = .error (.read 0x6000) := by
  intro b
  obtain ⟨n, -, hsize, hswitched, hfixed, hbelow⟩ :=
    banking_law {} (Uxrom.numberedImage 3) _ (Uxrom.ofImage_numberedImage (by decide))
      [.write 0x8000 1, .reset, .write 0xFFFF 5, .write 0x6000 1]
  obtain rfl : n = 3 := by
    rw [Uxrom.size_numberedImage, Uxrom.bankSize] at hsize
    omega
  have hshown : (Uxrom.numberedImage 3)[2 * 16384 + 0]? = some 2 :=
    Uxrom.getElem?_numberedImage (by decide) (by decide)
  obtain ⟨v, hv, hread⟩ := hswitched 0 (by decide)
  obtain ⟨w, hw, hread'⟩ := hfixed 0 (by decide)
  obtain rfl : 2 = v := Option.some.inj (hshown.symm.trans hv)
  obtain rfl : 2 = w := Option.some.inj (hshown.symm.trans hw)
  exact ⟨hread, hread', (hbelow 0x6000 (by decide) (by decide)).1⟩

/-- Of 256 banks the last one is never seen: in its place shows the one before it, and a write of
    255 selects the first. -/
theorem last_bank_hidden :
    let rom := Uxrom.numberedImage 256
    let b : Bus Uxrom := { board := some ⟨rom, 0⟩ }
    Uxrom.ofImage rom = .ok ⟨rom, 0⟩ ∧ rom.size = 256 * 16384 ∧
      rom[(256 - 1) * 16384 + 0]? = some 255 ∧ b.read 0xC000 = .ok 254 ∧
      lastSelected [.write 0x8000 255] = 255 ∧ rom[255 % 256 * 16384 + 0]? = some 255 ∧
      (b.run [.write 0x8000 255]).read 0x8000 = .ok 0 := by
  intro rom b
  have hsize : rom.size = 256 * Uxrom.bankSize := Uxrom.size_numberedImage 256
  have hbyte : ∀ k, k < 256 → rom[k * 16384 + 0]? = some (BitVec.ofNat 8 k) := fun k hk =>
    Uxrom.getElem?_numberedImage hk (by decide)
  have hbanks : (⟨rom, 0⟩ : Uxrom).banks = 255 := Uxrom.banks_eq (n := 256) (by decide) hsize
  have hboard : (b.run [.write 0x8000 255]).board = some ⟨rom, 0⟩ := by
    have hslot : b.board = some ⟨rom, 0⟩ := rfl
    rw [board_run hslot, Uxrom.selected, hbanks]
    rfl
  obtain ⟨v, hv, hfixed⟩ :=
    read_fixed (b := b) (u := ⟨rom, 0⟩) (i := 0) rfl hsize (by rw [hbanks]; decide) (by decide)
  obtain ⟨w, hw, hswitched⟩ := read_switched (i := 0) hboard hsize (by decide) (by decide)
  rw [hbanks] at hv
  obtain rfl : 254 = v := Option.some.inj ((hbyte 254 (by decide)).symm.trans hv)
  obtain rfl : 0 = w := Option.some.inj ((hbyte 0 (by decide)).symm.trans hw)
  exact ⟨Uxrom.ofImage_numberedImage (by decide), hsize.trans (by decide),
    hbyte 255 (by decide), hfixed, rfl, hbyte 255 (by decide), hswitched⟩

end Bus

end Console6502
