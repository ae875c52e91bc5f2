/-
  The readers of words.

  A word lies in memory as two bytes, the low one first.  Four readers take words from there: one
  for the bus as such, one for the vector table, one for the pointer of an indirect jump, and one
  for pointers in page zero.  They differ in the place of the high byte and in the error that a
  refused read comes to.

  `WordReading` says all that reading a word can come to, given the places of its two bytes.
  `SameReading` compares a reader of the processor with one of the bus.  Every reader does what
  `Machine.wordFrom` does at two places of its own, so that only the places are left to compare
  (`Exec.word_readers`).
-/
import Console6502.Board.Nrom
import Console6502.Proofs.EffectiveAddress

namespace Console6502

variable {β : Type} [Board β]

/-! ## The place behind another one -/

/-- Inside of a page, the next place of the page is the next place. -/
theorem Word.next_in_page {w : Word} (h : Word.low w ≠ 0xFF) :
    Word.ofBytes (Word.low w + 1) (Word.high w) = w + 1 := by
  have hlow : w.toNat % 256 ≠ 255 := by
    rw [← Word.toNat_low]
    exact fun hlow => h (BitVec.eq_of_toNat_eq hlow)
  have hw := w.isLt
  rw [← Word.ofNat_next_in_page, ← Word.ofNat_toNat_add_one]
  congr 1
  omega

/-- The place behind the last one of a page, taken in the page, is its first. -/
theorem Word.first_in_page {w : Word} (h : Word.low w = 0xFF) :
    Word.ofBytes (Word.low w + 1) (Word.high w) = Word.ofBytes 0x00 (Word.high w) := by
  rw [h]
  rfl

theorem Word.ofByte_add_one {p : Byte} (h : p ≠ 0xFF) :
    Word.ofByte (p + 1) = Word.ofByte p + 1 := by
  have hp : p.toNat ≠ 255 := fun hp => h (BitVec.eq_of_toNat_eq hp)
  have hlt := p.isLt
  rw [Word.ofByte_eq, Word.ofByte_eq, Byte.toNat_add_one, Nat.mod_eq_of_lt (by omega),
    BitVec.ofNat_add]
  rfl

theorem AddressRegion.of_ofByte (p : Byte) : AddressRegion.of (Word.ofByte p) = .ram := by
  revert p
  decide

/-- Page zero answers every read. -/
theorem Bus.answers_ofByte (b : Bus β) (p : Byte) : b.Answers (Word.ofByte p) :=
  ⟨_, Bus.read_of_ram (AddressRegion.of_ofByte p)⟩

theorem Bus.not_answers_of_error {b : Bus β} {a : Word} {e : BusFault} (h : b.read a = .error e) :
    ¬ b.Answers a := by
  rintro ⟨v, hv⟩
  rw [h] at hv
  cases hv

/-! ## What reading a word comes to -/

/-- The outcome of reading, on `m`, the word with its low byte at `low` and its high byte at `high`.
    The error of a refused read names the address through `fault`.  Nothing changes but the journal,
    which gets the reads that were made. -/
inductive WordReading {ε : Type} (m : Machine β) (fault : Word → ε) (low high : Word) :
    EStateM.Result ε (Machine β) Word → Prop
  | word {l h : Byte} {w : Word} {j : Journal} (hlow : m.bus.read low = .ok l)
    (hhigh : m.bus.read high = .ok h) (hw : w.toNat = l.toNat + 256 * h.toNat)
    (hj : j.accesses = m.journal.accesses ++ [.read low (some l), .read high (some h)]) :
    WordReading m fault low high (.ok w { m with journal := j })
  /-- The high byte is not asked for. -/
  | lowRefused {j : Journal} (hlow : ¬ m.bus.Answers low)
    (hj : j.accesses = m.journal.accesses ++ [.read low none]) :
    WordReading m fault low high (.error (fault low) { m with journal := j })
  | highRefused {l : Byte} {j : Journal} (hlow : m.bus.read low = .ok l)
    (hhigh : ¬ m.bus.Answers high)
    (hj : j.accesses = m.journal.accesses ++ [.read low (some l), .read high none]) :
    WordReading m fault low high (.error (fault high) { m with journal := j })

/-- Where both bytes are answered the word is read. -/
theorem WordReading.exists_word {ε : Type} {m : Machine β} {fault : Word → ε} {low high : Word}
    {r : EStateM.Result ε (Machine β) Word} (h : WordReading m fault low high r)
    (hlow : m.bus.Answers low) (hhigh : m.bus.Answers high) : ∃ w m', r = .ok w m' := by
  cases h with
  | word => exact ⟨_, _, rfl⟩
  | lowRefused hrefused => exact absurd hlow hrefused
  | highRefused _ hrefused => exact absurd hhigh hrefused

namespace Machine

/-- Reads the byte at `low` and then the one at `high`, as one word. -/
def wordFrom (low high : Word) : EStateM BusFault (Machine β) Word := do
  let l ← read low
  let h ← read high
  return Word.ofBytes l h

theorem wordFrom_reads (m : Machine β) (low high : Word) :
    WordReading m BusFault.read low high (wordFrom low high m) := by
  unfold wordFrom
  cases hlow : m.bus.read low with
  | error e =>
    obtain ⟨j, hread, hj⟩ := read_of_error hlow
    rw [bind_of_error hread]
    exact .lowRefused (Bus.not_answers_of_error hlow) hj
  | ok l =>
    obtain ⟨j, hread, hj⟩ := read_of_ok hlow
    rw [bind_of_ok hread]
    -- the bus is still the one of `m`, so what it says of the high byte can be asked beforehand
    cases hhigh : m.bus.read high with
    | error e =>
      obtain ⟨j', hread', hj'⟩ := read_of_error (m := { m with journal := j }) hhigh
      rw [bind_of_error hread']
      refine .highRefused hlow (Bus.not_answers_of_error hhigh) ?_
      rw [hj', hj, List.append_assoc]
      rfl
    | ok h =>
      obtain ⟨j', hread', hj'⟩ := read_of_ok (m := { m with journal := j }) hhigh
      rw [bind_of_ok hread']
      refine .word hlow hhigh (Word.toNat_ofBytes l h) ?_
      rw [hj', hj, List.append_assoc]
      rfl

end Machine

/-! ## Readers of the processor and of the bus -/

/-- The outcomes of a reader of the processor and of one of the bus, if these do the same: they come
    to one value, or the same address is refused, which the error of the processor names through
    `fault`.  The machines behind them are equal, the journals included. -/
inductive SameReading {α : Type} (fault : Word → CpuFault) :
    EStateM.Result CpuFault (Machine β) α → EStateM.Result BusFault (Machine β) α → Prop
  | value (v : α) (m : Machine β) : SameReading fault (.ok v m) (.ok v m)
  | refusal (a : Word) (m : Machine β) : SameReading fault (.error (fault a) m) (.error (.read a) m)

namespace SameReading

variable {α γ : Type} {fault : Word → CpuFault} {m : Machine β} {low high : Word}

theorem adapted_read {a : Word} {f : BusFault → CpuFault} (hf : f (.read a) = fault a)
    (m : Machine β) :
    SameReading fault ((Machine.read a).adaptExcept f m) (Machine.read a m) := by
  cases h : m.bus.read a with
  | ok v =>
    obtain ⟨j, hread, -⟩ := Machine.read_of_ok h
    rw [EStateM.adaptExcept, hread]
    exact .value v _
  | error e =>
    obtain ⟨j, hread, -⟩ := Machine.read_of_error h
    rw [EStateM.adaptExcept, hread]
    simp only [hf]
    exact .refusal a _

omit [Board β] in
theorem bind {x : Exec β α} {y : EStateM BusFault (Machine β) α} {f : α → Exec β γ}
    {g : α → EStateM BusFault (Machine β) γ} (hx : SameReading fault (x m) (y m))
    (hf : ∀ v m', SameReading fault (f v m') (g v m')) :
    SameReading fault ((x >>= f) m) ((y >>= g) m) := by
  generalize hr : x m = r at hx
  generalize hr' : y m = r' at hx
  cases hx with
  | value v m' =>
    rw [bind_of_ok hr, bind_of_ok hr']
    exact hf v m'
  | refusal a m' =>
    rw [bind_of_error hr, bind_of_error hr']
    exact .refusal a m'

/-- A word whose bytes are read alike is read alike. -/
theorem wordFrom {x y : Exec β Byte}
    (hx : ∀ m, SameReading fault (x m) (Machine.read low m))
    (hy : ∀ m, SameReading fault (y m) (Machine.read high m)) (m : Machine β) :
    SameReading fault ((do let l ← x; let h ← y; return Word.ofBytes l h : Exec β Word) m)
      (Machine.wordFrom low high m) :=
  (hx m).bind fun _ m' => (hy m').bind fun _ _ => .value _ _

theorem vectorTarget (v : InterruptVector) (m : Machine β) :
    SameReading (.vector v) (Exec.vectorTarget v m)
      (Machine.wordFrom v.address (v.address + 1) m) :=
  wordFrom (adapted_read rfl) (adapted_read rfl) m

theorem jumpTarget (p : Word) (m : Machine β) :
    SameReading .read (Exec.jumpTarget p m)
      (Machine.wordFrom p (Word.ofBytes (Word.low p + 1) (Word.high p)) m) :=
  wordFrom (adapted_read rfl) (adapted_read rfl) m

theorem pointerAt (p : Byte) (m : Machine β) :
    SameReading .read (Exec.pointerAt p m)
      (Machine.wordFrom (Word.ofByte p) (Word.ofByte (p + 1)) m) :=
  wordFrom (adapted_read rfl) (adapted_read rfl) m

/-- What a reader of the bus comes to, the reader of the processor comes to. -/
theorem wordReading {r : EStateM.Result CpuFault (Machine β) Word}
    {r' : EStateM.Result BusFault (Machine β) Word} (h : SameReading fault r r')
    (hr : WordReading m BusFault.read low high r') : WordReading m fault low high r := by
  cases h with
  | value w m' =>
    cases hr with
    | word hlow hhigh hw hj => exact .word hlow hhigh hw hj
  | refusal a m' =>
    cases hr with
    | lowRefused hlow hj => exact .lowRefused hlow hj
    | highRefused hlow hhigh hj => exact .highRefused hlow hhigh hj

end SameReading

namespace Exec

/-- The pointer in page zero is read as the word of its two cells, which are RAM. -/
theorem pointerAt_reads (m : Machine β) (p : Byte) :
    WordReading m CpuFault.read (Word.ofByte p) (Word.ofByte (p + 1)) (pointerAt p m) :=
  (SameReading.pointerAt p m).wordReading (Machine.wordFrom_reads m _ _)

/-- The pointer of an indirect jump is read as the word of two cells in one page. -/
theorem jumpTarget_reads (m : Machine β) (p : Word) :
    WordReading m CpuFault.read p (Word.ofBytes (Word.low p + 1) (Word.high p)) (jumpTarget p m) :=
  (SameReading.jumpTarget p m).wordReading (Machine.wordFrom_reads m _ _)

/-- The word on the bus has its high byte behind the low one, at $0000 behind $FFFF.  With that,

    * a vector is read as the word at its address, but for the error, which names the vector;
    * the pointer of an indirect jump is read as the word at its address, unless this is the last of
      a page: then the high byte is the first of this page, such as $FF00 for $FFFF;
    * a pointer in page zero can always be read, and is read as the word at its address, unless this
      is $FF: then the high byte is at $0000. -/
theorem word_readers (m : Machine β) :
    (∀ a, WordReading m BusFault.read a (a + 1) (Machine.wordAt a m)) ∧
    WordReading m BusFault.read 0xFFFF 0x0000 (Machine.wordAt 0xFFFF m) ∧
    (∀ v, SameReading (.vector v) (vectorTarget v m) (Machine.wordAt v.address m)) ∧
    (∀ p, Word.low p ≠ 0xFF → SameReading .read (jumpTarget p m) (Machine.wordAt p m)) ∧
    (∀ p, Word.low p = 0xFF →
      WordReading m CpuFault.read p (Word.ofBytes 0x00 (Word.high p)) (jumpTarget p m)) ∧
    WordReading m CpuFault.read 0xFFFF 0xFF00 (jumpTarget 0xFFFF m) ∧
    (∀ p, ∃ w m', pointerAt p m = .ok w m') ∧
    (∀ p, p ≠ 0xFF → SameReading .read (pointerAt p m) (Machine.wordAt (Word.ofByte p) m)) ∧
    WordReading m CpuFault.read 0x00FF 0x0000 (pointerAt 0xFF m) := by
  refine ⟨fun a => Machine.wordFrom_reads m a _, Machine.wordFrom_reads m 0xFFFF _,
    fun v => .vectorTarget v m, fun p hp => ?_, fun p hp => ?_, jumpTarget_reads m 0xFFFF,
    fun p => ?_, fun p hp => ?_, pointerAt_reads m 0xFF⟩
  · have h := SameReading.jumpTarget p m
    rwa [Word.next_in_page hp] at h
  · have h := jumpTarget_reads m p
    rwa [Word.first_in_page hp] at h
  · exact (pointerAt_reads m p).exists_word (m.bus.answers_ofByte p) (m.bus.answers_ofByte _)
  · have h := SameReading.pointerAt p m
    rwa [Word.ofByte_add_one hp] at h

end Exec

/-- A machine whose board has a byte of RAM and no ROM, so that nothing answers from $8000 on. -/
def Machine.romless : Machine Nrom where
  bus := { board := some ⟨#[], #[7]⟩ }

/-- The word at $7FFF has its high byte refused at $8000, where an indirect jump takes it from $7F00.
    At $8000, and in page zero before its last cell, the readers agree. -/
theorem Machine.romless_readers :
    (∃ m', wordAt 0x7FFF romless = .error (.read 0x8000) m') ∧
    WordReading romless CpuFault.read 0x7FFF 0x7F00 (Exec.jumpTarget 0x7FFF romless) ∧
    (∃ m', Exec.jumpTarget 0x7FFF romless = .ok 0x0707 m') ∧
    SameReading .read (Exec.jumpTarget 0x8000 romless) (wordAt 0x8000 romless) ∧
    SameReading .read (Exec.pointerAt 0xFE romless) (wordAt 0x00FE romless) := by
  obtain ⟨-, -, -, hjump, hlast, -, -, hpointer, -⟩ := Exec.word_readers romless
  exact ⟨⟨_, rfl⟩, hlast 0x7FFF (by decide), ⟨_, rfl⟩, hjump 0x8000 (by decide),
    hpointer 0xFE (by decide)⟩

end Console6502
