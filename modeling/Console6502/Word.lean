/-
  Bytes and words of the machine, and the pages that addresses fall into.

  A word is kept in memory as two bytes, the low one first.  `Word.ofBytes` joins them and
  `Word.low`, `Word.high` take them apart; the three lemmas say that nothing is lost on the way.
  The high byte of an address is the number of its 256-byte page.
-/

namespace Console6502

/-- Eight bits: what one address holds. -/
abbrev Byte := BitVec 8

/-- Sixteen bits: an address, or two bytes read as one number. -/
abbrev Word := BitVec 16

/-- The word with the given low and high byte. -/
def Word.ofBytes (low high : Byte) : Word := high ++ low

/-- The lower half of a word. -/
def Word.low (w : Word) : Byte := w.setWidth 8

/-- The upper half of a word: the page of an address. -/
def Word.high (w : Word) : Byte := w.extractLsb' 8 8

/-- The address of a byte in the first page. -/
def Word.ofByte (b : Byte) : Word := b.setWidth 16

/-- The signed distance that a byte stands for, as an offset to add to an address. -/
def Word.ofSigned (b : Byte) : Word := b.signExtend 16

theorem Word.low_ofBytes (low high : Byte) : Word.low (Word.ofBytes low high) = low := by
  unfold Word.low Word.ofBytes
  exact BitVec.setWidth_append_eq_right

theorem Word.high_ofBytes (low high : Byte) : Word.high (Word.ofBytes low high) = high := by
  unfold Word.high Word.ofBytes
  exact BitVec.extractLsb'_append_eq_left

theorem Word.ofBytes_low_high (w : Word) : Word.ofBytes (Word.low w) (Word.high w) = w := by
  apply BitVec.eq_of_getLsbD_eq
  intro i hi
  simp only [Word.ofBytes, Word.low, Word.high, BitVec.getLsbD_append, BitVec.getLsbD_setWidth,
    BitVec.getLsbD_extractLsb']
  by_cases h : i < 8
  · simp [h]
  · simp [h, show i - 8 < 8 by omega, show 8 + (i - 8) = i by omega]

/-- Whether the way from one address to another leaves the page. -/
def Word.leavesPage (source target : Word) : Bool := Word.high source != Word.high target

end Console6502
