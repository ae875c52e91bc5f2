/-
  Offsets into the memories of a cartridge.

  A load takes zero where an offset lies outside of its memory, and a store is lost there.  Neither
  happens: whatever was stored behind whatever target before, the offsets that a board translates
  addresses to lie within its image or its RAM (`Cartridge.SafeOffsets`).  For the plain board that
  is so because offsets are taken modulo the size, for the banked one because its register always
  holds the number of a bank in use.

  The arithmetic on the way is exact.  `Checked` has the subtractions and remainders of a processor,
  which fail below zero and at a zero divisor; with them in place of those of natural numbers the
  boards translate and store just the same, so that none of them ever fails.
-/
import Console6502.Proofs.BoardFaults

namespace Console6502

/-! ## Arithmetic that can fail -/

/-- What is wrong with an operation on unsigned numbers. -/
inductive ArithmeticFault where
  | underflow
  | zeroDivisor
deriving DecidableEq, Repr

namespace Checked

/-- The difference of unsigned numbers, if there is one. -/
def sub (m n : Nat) : Except ArithmeticFault Nat :=
  if n ≤ m then .ok (m - n) else .error .underflow

/-- The remainder of a division, if there is one. -/
def mod (m n : Nat) : Except ArithmeticFault Nat :=
  if n = 0 then .error .zeroDivisor else .ok (m % n)

/-- The offset into a memory that an offset into its window selects. -/
def wrap (size offset : Nat) : Except ArithmeticFault Nat := do
  if isPowerOfTwo size then
    let mask ← sub size 1
    return offset &&& mask
  else mod offset size

theorem sub_eq_ok {m n : Nat} (h : n ≤ m) : sub m n = .ok (m - n) := if_pos h

theorem mod_eq_ok {n : Nat} (h : n ≠ 0) (m : Nat) : mod m n = .ok (m % n) := if_neg h

/-- A memory that is not empty can be repeated. -/
theorem wrap_eq_ok {size : Nat} (h : size ≠ 0) (offset : Nat) :
    wrap size offset = .ok (Console6502.wrap size offset) := by
  unfold wrap Console6502.wrap
  split
  · rw [sub_eq_ok (Nat.pos_of_ne_zero h)]
    rfl
  · exact mod_eq_ok h offset

/-- The offset that an address selects in a memory whose window begins at `base`. -/
def windowOffset (size base : Nat) (a : Word) : Except ArithmeticFault Nat := do
  let offset ← sub a.toNat base
  wrap size offset

theorem windowOffset_eq_ok {size base : Nat} {a : Word} (hsize : size ≠ 0) (ha : base ≤ a.toNat) :
    windowOffset size base a = .ok (Console6502.wrap size (a.toNat - base)) := by
  unfold windowOffset
  rw [sub_eq_ok ha]
  exact wrap_eq_ok hsize _

end Checked

/-! ## The plain board -/

namespace Nrom

variable {n : Nrom} {a : Word} {t : Target}

/-- What an address of the RAM window reaches, in checked arithmetic. -/
def checkedRamTarget? (b : Nrom) (a : Word) : Except ArithmeticFault (Option Target) := do
  if b.hasRam then
    let i ← Checked.windowOffset b.ram.size 0x6000 a
    return some (.ram i)
  else return none

/-- What an address of the ROM window reaches, in checked arithmetic. -/
def checkedRomTarget? (b : Nrom) (a : Word) : Except ArithmeticFault (Option Target) := do
  if b.rom.isEmpty then return none
  else
    let i ← Checked.windowOffset b.rom.size 0x8000 a
    return some (.rom i)

/-- What a read reaches, in checked arithmetic. -/
def checkedReadTarget? (b : Nrom) (a : Word) : Except ArithmeticFault (Option Target) :=
  if a < 0x6000 then .ok none
  else if a < 0x8000 then b.checkedRamTarget? a
  else b.checkedRomTarget? a

/-- What a write reaches, in checked arithmetic. -/
def checkedWriteTarget? (b : Nrom) (a : Word) : Except ArithmeticFault (Option Target) :=
  if a < 0x6000 then .ok none
  else if a < 0x8000 then b.checkedRamTarget? a
  else .ok none

theorem size_ram_ne_zero (h : n.hasRam = true) : n.ram.size ≠ 0 := by
  intro hsize
  rw [(Cartridge.hasRam_iff n).mpr hsize] at h
  cases h

theorem size_rom_ne_zero (h : ¬ n.rom.isEmpty = true) : n.rom.size ≠ 0 := by
  rwa [Array.isEmpty_iff, ← Array.size_eq_zero_iff] at h

theorem checkedRamTarget?_eq (h : 0x6000 ≤ a.toNat) :
    n.checkedRamTarget? a = .ok (n.ramTarget? a) := by
  unfold checkedRamTarget? ramTarget?
  split
  · next hram =>
    rw [Checked.windowOffset_eq_ok (size_ram_ne_zero hram) h]
    rfl
  · rfl

theorem checkedRomTarget?_eq (h : 0x8000 ≤ a.toNat) :
    n.checkedRomTarget? a = .ok (n.romTarget? a) := by
  unfold checkedRomTarget? romTarget?
  split
  · rfl
  · next hrom =>
    rw [Checked.windowOffset_eq_ok (size_rom_ne_zero hrom) h]
    rfl

/-- Translating an address, no arithmetic fails. -/
theorem checked_eq (n : Nrom) (a : Word) :
    n.checkedReadTarget? a = .ok (n.readTarget? a) ∧
      n.checkedWriteTarget? a = .ok (n.writeTarget? a) := by
  unfold checkedReadTarget? readTarget? checkedWriteTarget? writeTarget?
  by_cases hlow : a < 0x6000
  · simp only [if_pos hlow, and_self]
  by_cases hhigh : a < 0x8000
  · simp only [if_neg hlow, if_pos hhigh, checkedRamTarget?_eq (n := n) (a := a) (by bv_omega),
      and_self]
  · simp only [if_neg hlow, if_neg hhigh, checkedRomTarget?_eq (n := n) (a := a) (by bv_omega),
      and_self]

theorem ramTarget?_eq_some (h : n.ramTarget? a = some t) :
    n.ram.size ≠ 0 ∧ t = .ram ((a.toNat - 0x6000) % n.ram.size) := by
  unfold ramTarget? at h
  split at h
  · next hram =>
    rw [wrap_eq_mod] at h
    exact ⟨size_ram_ne_zero hram, (Option.some.inj h).symm⟩
  · cases h

theorem romTarget?_eq_some (h : n.romTarget? a = some t) :
    n.rom.size ≠ 0 ∧ t = .rom ((a.toNat - 0x8000) % n.rom.size) := by
  unfold romTarget? at h
  split at h
  · cases h
  · next hrom =>
    rw [wrap_eq_mod] at h
    exact ⟨size_rom_ne_zero hrom, (Option.some.inj h).symm⟩

/-- A read reaches a byte of the RAM or of the ROM. -/
theorem readTarget?_eq_some (h : n.readTarget? a = some t) :
    n.ramTarget? a = some t ∨ n.romTarget? a = some t := by
  unfold readTarget? at h
  split at h
  · cases h
  split at h
  · exact .inl h
  · exact .inr h

/-- A write reaches a byte of the RAM. -/
theorem writeTarget?_eq_some (h : n.writeTarget? a = some t) :
    ¬ a < 0x6000 ∧ a < 0x8000 ∧ n.ramTarget? a = some t := by
  unfold writeTarget? at h
  split at h
  · cases h
  · next hlow =>
    split at h
    · next hhigh => exact ⟨hlow, hhigh, h⟩
    · cases h

end Nrom

/-! ## The banked board -/

namespace Uxrom

variable {u : Uxrom} {a : Word} {t : Target}

/-- The offset of an address in this bank, in checked arithmetic. -/
def checkedOffset (bank : Nat) (a : Word) : Except ArithmeticFault Nat := do
  let rest ← Checked.mod a.toNat bankSize
  return bank * bankSize + rest

/-- What a read reaches, in checked arithmetic. -/
def checkedReadTarget? (b : Uxrom) (a : Word) : Except ArithmeticFault (Option Target) := do
  if a < 0x8000 then return none
  else if a < 0xC000 then
    let i ← checkedOffset b.bank a
    return some (.rom i)
  else
    let last ← Checked.sub b.banks 1
    let i ← checkedOffset last a
    return some (.rom i)

/-- The board after a store, in checked arithmetic. -/
def checkedStore (b : Uxrom) (t : Target) (v : Byte) : Except ArithmeticFault Uxrom := do
  match t with
  | .register _ =>
    let bank ← Checked.mod v.toNat b.banks
    return { b with bank }
  | _ => return b

theorem banks_pos (u : Uxrom) : 1 ≤ u.banks := Nat.le_max_left _ _

theorem checkedReadTarget?_eq (u : Uxrom) (a : Word) :
    u.checkedReadTarget? a = .ok (u.readTarget? a) := by
  unfold checkedReadTarget? readTarget?
  split
  · rfl
  split
  · rfl
  · rw [Checked.sub_eq_ok u.banks_pos]
    rfl

theorem checkedStore_eq (u : Uxrom) (t : Target) (v : Byte) :
    u.checkedStore t v = .ok (u.store t v) := by
  cases t with
  | register a =>
    unfold checkedStore store
    simp only
    rw [Checked.mod_eq_ok (Nat.ne_of_gt u.banks_pos)]
    rfl
  | rom i | ram i => rfl

theorem selected_lt (u : Uxrom) (v : Byte) : u.selected v < u.banks := Nat.mod_lt _ u.banks_pos

/-- A read reaches a byte of a bank in use. -/
theorem readTarget?_eq_some (hbank : u.bank < u.banks) (h : u.readTarget? a = some t) :
    ∃ bank, bank < u.banks ∧ t = .rom (offset bank a) := by
  unfold readTarget? at h
  split at h
  · cases h
  split at h
  · exact ⟨u.bank, hbank, (Option.some.inj h).symm⟩
  · exact ⟨u.banks - 1, Nat.sub_one_lt_of_lt u.banks_pos, (Option.some.inj h).symm⟩

end Uxrom

/-! ## What can happen to a board -/

/-- A store behind any target, or a reset. -/
inductive BoardEvent where
  | store (target : Target) (value : Byte)
  | reset
deriving DecidableEq, Repr

namespace Board

variable {β : Type} [Board β]

/-- The board after an event. -/
def react (b : β) : BoardEvent → β
  | .store t v => store b t v
  | .reset => reset b

/-- The board after a row of events. -/
def run (b : β) (l : List BoardEvent) : β := l.foldl react b

theorem run_append (b : β) (l l' : List BoardEvent) : run b (l ++ l') = run (run b l) l' := by
  unfold run
  exact List.foldl_append

end Board

namespace Cartridge

/-- The image of a cartridge. -/
def rom : Cartridge → Array Byte
  | nrom b => b.rom
  | uxrom b => b.rom

/-- The byte behind a target, if there is one. -/
def cell? (c : Cartridge) : Target → Option Byte
  | .rom i => c.rom[i]?
  | .ram i => c.ram[i]?
  | .register _ => none

/-- An offset below the size of its memory; a register has none. -/
def InRange (c : Cartridge) : Target → Prop
  | .rom i => i < c.rom.size
  | .ram i => i < c.ram.size
  | .register _ => True

/-- What a read reaches, in checked arithmetic. -/
def checkedReadTarget? : Cartridge → Word → Except ArithmeticFault (Option Target)
  | nrom b, a => b.checkedReadTarget? a
  | uxrom b, a => b.checkedReadTarget? a

/-- What a write reaches, in checked arithmetic; a banked board computes nothing. -/
def checkedWriteTarget? : Cartridge → Word → Except ArithmeticFault (Option Target)
  | nrom b, a => b.checkedWriteTarget? a
  | uxrom b, a => .ok (b.writeTarget? a)

/-- The cartridge after a store, in checked arithmetic; a plain board computes nothing. -/
def checkedStore : Cartridge → Target → Byte → Except ArithmeticFault Cartridge
  | nrom b, t, v => .ok (nrom (b.store t v))
  | uxrom b, t, v => uxrom <$> b.checkedStore t v

/-- A cartridge as it is built, a plain one from any image, a banked one from whole banks. -/
inductive Assembled : Cartridge → Prop
  | nrom (rom : Array Byte) (ramSize : Nat) : Assembled (.nrom (Nrom.ofImage rom ramSize))
  | uxrom {rom : Array Byte} {board : Uxrom} (h : Uxrom.ofImage rom = .ok board) :
    Assembled (.uxrom board)

/-- In `c`, which was `start` once, no offset is out of range and no arithmetic fails:

    * the image is the one from the start, and the selected bank is in use;
    * what an address reaches lies in its memory, so that a load finds a byte there and a byte
      that is stored in RAM is there;
    * translations and stores come to the same in checked arithmetic. -/
structure SafeOffsets (start c : Cartridge) : Prop where
  rom : c.rom = start.rom
  bank : ∀ u, c = .uxrom u → u.bank < u.banks
  inRange : ∀ a t, Board.readTarget? c a = some t ∨ Board.writeTarget? c a = some t → c.InRange t
  load : ∀ a t, Board.readTarget? c a = some t → c.cell? t = some (Board.load c t)
  store : ∀ a i v, Board.writeTarget? c a = some (.ram i) →
    (Board.store c (.ram i) v).cell? (.ram i) = some v
  checkedRead : ∀ a, c.checkedReadTarget? a = .ok (Board.readTarget? c a)
  checkedWrite : ∀ a, c.checkedWriteTarget? a = .ok (Board.writeTarget? c a)
  checkedStore : ∀ t v, c.checkedStore t v = .ok (Board.store c t v)

/-! ## Cartridges in use -/

/-- What can become of `start` in use: image and size of the RAM are kept, and the register holds
    the number of a bank in use, all of which are banks of the image. -/
structure InUse (start c : Cartridge) : Prop where
  evolves : start.Evolves c
  bank : ∀ u, c = .uxrom u → u.bank < u.banks ∧ ∃ n, u.banks ≤ n ∧ u.rom.size = n * Uxrom.bankSize

variable {start c : Cartridge} {a : Word} {t : Target}

theorem Assembled.inUse (h : start.Assembled) : start.InUse start := by
  cases h with
  | nrom rom ramSize => exact ⟨⟨rfl, rfl⟩, nofun⟩
  | @uxrom rom board hboard =>
    obtain ⟨rfl, n, hn, hsize⟩ := Uxrom.ofImage_eq_ok_iff.mp hboard
    refine ⟨⟨rfl, rfl⟩, ?_⟩
    rintro _ ⟨⟩
    have hbanks := Uxrom.banks_eq (u := ⟨rom, 0⟩) hn hsize
    exact ⟨Uxrom.banks_pos _, n, hbanks ▸ Nat.min_le_left n 255, hsize⟩

theorem InUse.react (h : start.InUse c) (event : BoardEvent) :
    start.InUse (Board.react c event) := by
  cases event with
  | store t v =>
    refine ⟨h.evolves.store t v, ?_⟩
    cases c with
    | nrom n => exact nofun
    | uxrom u =>
      obtain ⟨hbank, hsize⟩ := h.bank u rfl
      rintro _ ⟨⟩
      cases t with
      | register a => exact ⟨u.selected_lt v, hsize⟩
      | rom i | ram i => exact ⟨hbank, hsize⟩
  | reset =>
    refine ⟨h.evolves.reset, ?_⟩
    cases c with
    | nrom n => exact nofun
    | uxrom u =>
      obtain ⟨-, hsize⟩ := h.bank u rfl
      rintro _ ⟨⟩
      exact ⟨u.banks_pos, hsize⟩

theorem InUse.run (h : start.InUse c) (l : List BoardEvent) : start.InUse (Board.run c l) := by
  induction l generalizing c with
  | nil => exact h
  | cons event l ih => exact ih (h.react event)

theorem Renews.rom (h : start.Renews c) : c.rom = start.rom := by
  have hreset : c.rom = (Board.reset c).rom := by cases c <;> rfl
  have hwith : (start.withRam c.ram).rom = start.rom := by cases start <;> rfl
  rw [hreset, h, hwith]

theorem getElem?_eq_getD {xs : Array Byte} {i : Nat} (h : i < xs.size) :
    xs[i]? = some (xs.getD i 0) := by
  rw [Array.getD_eq_getD_getElem?, Array.getElem?_eq_getElem h, Option.getD_some]

/-- A load finds a byte behind every target in range, unless it is a register. -/
theorem cell?_of_inRange (h : c.InRange t) (ht : ∀ a, t ≠ .register a) :
    c.cell? t = some (Board.load c t) := by
  cases t with
  | register a => exact absurd rfl (ht a)
  | rom i => cases c <;> exact getElem?_eq_getD h
  | ram i =>
    cases c with
    | nrom n => exact getElem?_eq_getD h
    | uxrom u => exact absurd h (Nat.not_lt_zero i)

theorem inRange_of_ramTarget? {n : Nrom} (h : n.ramTarget? a = some t) :
    (nrom n).InRange t ∧ ∀ a, t ≠ .register a := by
  obtain ⟨hsize, rfl⟩ := Nrom.ramTarget?_eq_some h
  exact ⟨Nat.mod_lt _ (Nat.pos_of_ne_zero hsize), nofun⟩

theorem inRange_of_romTarget? {n : Nrom} (h : n.romTarget? a = some t) :
    (nrom n).InRange t ∧ ∀ a, t ≠ .register a := by
  obtain ⟨hsize, rfl⟩ := Nrom.romTarget?_eq_some h
  exact ⟨Nat.mod_lt _ (Nat.pos_of_ne_zero hsize), nofun⟩

/-- What a read reaches is a byte of the image or of the RAM. -/
theorem InUse.inRange_read (h : start.InUse c) (ht : Board.readTarget? c a = some t) :
    c.InRange t ∧ ∀ a, t ≠ .register a := by
  cases c with
  | nrom n =>
    rcases Nrom.readTarget?_eq_some ht with hram | hrom
    · exact inRange_of_ramTarget? hram
    · exact inRange_of_romTarget? hrom
  | uxrom u =>
    obtain ⟨hbank, banks, hbanks, hsize⟩ := h.bank u rfl
    obtain ⟨bank, hlt, rfl⟩ := Uxrom.readTarget?_eq_some hbank ht
    have hoffset := Uxrom.getElem?_offset (a := a) hsize (Nat.lt_of_lt_of_le hlt hbanks)
    exact ⟨(Array.getElem?_eq_some_iff.mp hoffset).1, nofun⟩

/-- What a write reaches is a byte of the RAM or the register. -/
theorem inRange_write (ht : Board.writeTarget? c a = some t) : c.InRange t := by
  cases c with
  | nrom n => exact (inRange_of_ramTarget? (Nrom.writeTarget?_eq_some ht).2.2).1
  | uxrom u =>
    have hregister : u.writeTarget? a = some t := ht
    unfold Uxrom.writeTarget? at hregister
    split at hregister
    · cases hregister
    · obtain rfl := Option.some.inj hregister
      trivial

/-- A byte stored in RAM is there. -/
theorem cell?_store {i : Nat} (h : i < c.ram.size) (v : Byte) :
    (Board.store c (.ram i) v).cell? (.ram i) = some v := by
  cases c with
  | nrom n => exact Array.getElem?_setIfInBounds_self_of_lt h
  | uxrom u => exact absurd h (Nat.not_lt_zero i)

theorem InUse.safeOffsets (h : start.InUse c) : start.SafeOffsets c where
  rom := h.evolves.renews.rom
  bank u hu := (h.bank u hu).1
  inRange a t ht := by
    rcases ht with hread | hwrite
    · exact (h.inRange_read hread).1
    · exact inRange_write hwrite
  load a t ht := by
    obtain ⟨hrange, hregister⟩ := h.inRange_read ht
    exact cell?_of_inRange hrange hregister
  store a i v ht := cell?_store (inRange_write ht) v
  checkedRead a := by
    cases c with
    | nrom n => exact (n.checked_eq a).1
    | uxrom u => exact u.checkedReadTarget?_eq a
  checkedWrite a := by
    cases c with
    | nrom n => exact (n.checked_eq a).2
    | uxrom u => rfl
  checkedStore t v := by
    cases c with
    | nrom n => rfl
    | uxrom u =>
      show uxrom <$> u.checkedStore t v = _
      rw [u.checkedStore_eq]
      rfl

/-! ## The RAM -/

/-- A byte of the RAM stays until it is stored again. -/
theorem cell?_run {i : Nat} {v : Byte} (h : c.cell? (.ram i) = some v) {l : List BoardEvent}
    (hl : ∀ w, .store (.ram i) w ∉ l) : (Board.run c l).cell? (.ram i) = some v := by
  induction l generalizing c with
  | nil => exact h
  | cons event l ih =>
    have hevent : (Board.react c event).cell? (.ram i) = some v := by
      cases c with
      | uxrom u => cases h
      | nrom n =>
        cases event with
        | reset => exact h
        | store t w =>
          cases t with
          | rom j | register a => exact h
          | ram j =>
            have hij : j ≠ i := by
              rintro rfl
              exact hl w (List.mem_cons_self ..)
            exact (Array.getElem?_setIfInBounds_ne hij).trans h
    exact ih hevent fun w hw => hl w (List.mem_cons_of_mem event hw)

/-- Where there is RAM, it shows all through its window. -/
theorem read?_window (hram : c.ram.size ≠ 0) (hlow : 0x6000 ≤ a) (hhigh : a < 0x8000) :
    Board.read? c a = c.cell? (.ram ((a.toNat - 0x6000) % c.ram.size)) := by
  cases c with
  | nrom n => exact Nrom.read?_ram (BitVec.not_lt.mpr hlow) hhigh
  | uxrom u => exact absurd rfl hram

/-- A write that reaches RAM does so at the offset in the window. -/
theorem ram_of_writeTarget? {i : Nat} (h : Board.writeTarget? c a = some (.ram i)) :
    i < c.ram.size ∧ i = (a.toNat - 0x6000) % c.ram.size := by
  refine ⟨inRange_write h, ?_⟩
  cases c with
  | nrom n =>
    obtain ⟨-, hi⟩ := Nrom.ramTarget?_eq_some (Nrom.writeTarget?_eq_some h).2.2
    exact Target.ram.inj hi
  | uxrom u =>
    have hregister : u.writeTarget? a = some (.ram i) := h
    unfold Uxrom.writeTarget? at hregister
    split at hregister <;> cases hregister

/-- Plain boards with any image and any RAM and banked boards with whole banks, behind stores of any
    bytes behind any targets and resets: no offset is out of range and no arithmetic fails
    (`SafeOffsets`).  And a byte that was stored where a write reaches RAM is what a read yields at
    every address of the window that repeats this one, until a byte is stored there again. -/
theorem offsets_in_range {start : Cartridge} (h : start.Assembled) :
    (∀ past, start.SafeOffsets (Board.run start past)) ∧
    ∀ past a i v later a', Board.writeTarget? (Board.run start past) a = some (.ram i) →
      (∀ w, .store (.ram i) w ∉ later) → 0x6000 ≤ a' → a' < 0x8000 →
      (a'.toNat - 0x6000) % start.ram.size = (a.toNat - 0x6000) % start.ram.size →
      Board.read? (Board.run start (past ++ .store (.ram i) v :: later)) a' = some v := by
  refine ⟨fun past => (h.inUse.run past).safeOffsets, ?_⟩
  intro past a i v later a' hwrite hlater hlow hhigh hmirror
  have hsize : ∀ l, (Board.run start l).ram.size = start.ram.size :=
    fun l => (h.inUse.run l).evolves.size
  obtain ⟨hlt, hi⟩ := ram_of_writeTarget? hwrite
  have hstored := cell?_run (cell?_store hlt v) hlater
  have hrun : Board.run (Board.store (Board.run start past) (.ram i) v) later =
      Board.run start (past ++ .store (.ram i) v :: later) := by
    rw [Board.run_append]
    rfl
  rw [hrun] at hstored
  rw [hsize] at hlt hi
  rw [read?_window (by rw [hsize]; omega) hlow hhigh, hsize, hmirror, ← hi]
  exact hstored

/-- A plain board with three bytes of ROM and 24 of RAM. -/
def odd : Cartridge := .nrom (Nrom.ofImage #[1, 2, 3] 24)

/-- A byte stored at $6001 is read at $6019, and three banks are enough for a write of five. -/
theorem odd_mirrors :
    Board.read? (Board.run odd [.store (.ram 1) 7, .reset, .store (.ram 2) 9]) 0x6019 = some 7 ∧
      (uxrom ⟨Uxrom.numberedImage 3, 0⟩).SafeOffsets
        (Board.run (uxrom ⟨Uxrom.numberedImage 3, 0⟩) [.store (.register 0x8000) 5]) := by
  obtain ⟨-, hmirrors⟩ := offsets_in_range (.nrom #[1, 2, 3] 24)
  have himage : Uxrom.ofImage (Uxrom.numberedImage 3) = .ok ⟨Uxrom.numberedImage 3, 0⟩ :=
    Uxrom.ofImage_numberedImage (by decide)
  obtain ⟨hbanked, -⟩ := offsets_in_range (.uxrom himage)
  exact ⟨hmirrors [] 0x6001 1 7 [.reset, .store (.ram 2) 9] 0x6019 (by decide) (by simp)
    (by decide) (by decide) (by decide), hbanked _⟩

end Cartridge

end Console6502
