/-
  Storage that repeats through the address space.

  A window has `size` cells, the first one at `base`.  Any address selects a cell: the distance
  from the base, taken around the address space, modulo the size.  Work RAM and the two register
  files are windows.
-/
import Console6502.Word

namespace Console6502

/-- Storage of `size` bytes, at least one, that begins at `base` and repeats. -/
structure Window (base : Word) (size : Nat) where
  cells : Vector Byte size
  nonempty : 0 < size
deriving DecidableEq, Repr

namespace Window

variable {base : Word} {size : Nat}

/-- A window of zeros. -/
def zero (nonempty : 0 < size) : Window base size := ⟨Vector.replicate size 0, nonempty⟩

/-- The cell that an address selects. -/
def index (w : Window base size) (a : Word) : Fin size :=
  ⟨(a - base).toNat % size, Nat.mod_lt _ w.nonempty⟩

/-- The byte at an address. -/
def read (w : Window base size) (a : Word) : Byte := w.cells[w.index a]

/-- The window with a byte stored at an address. -/
def write (w : Window base size) (a : Word) (v : Byte) : Window base size :=
  { w with cells := w.cells.set (w.index a).val v (w.index a).isLt }

/-- The window with its cell `i` set from outside the bus; there is no cell beyond the size. -/
def setCell (w : Window base size) (i : Nat) (v : Byte) : Window base size :=
  { w with cells := w.cells.setIfInBounds i v }

theorem read_zero (nonempty : 0 < size) (a : Word) :
    (zero nonempty : Window base size).read a = 0 := by
  simp [read, zero]

theorem read_write (w : Window base size) (a b : Word) (v : Byte) :
    (w.write a v).read b = if w.index a = w.index b then v else w.read b := by
  change (w.cells.set (w.index a).val v (w.index a).isLt)[(w.index b).val] = _
  rw [Vector.getElem_set]
  simp only [read, Fin.getElem_fin, Fin.ext_iff]

theorem write_write (w : Window base size) (a : Word) (v v' : Byte) :
    (w.write a v).write a v' = w.write a v' := by
  simp only [write, index, Vector.set_set]

end Window

/-- Work RAM. -/
abbrev Ram := Window 0x0000 0x0800

/-- The registers of the picture unit. -/
abbrev PictureRegisters := Window 0x2000 8

/-- The registers of the sound unit and of the controllers. -/
abbrev SoundRegisters := Window 0x4000 24

/-- Work RAM, cleared. -/
def Ram.zero : Ram := Window.zero (by decide)

/-- The registers of the picture unit, cleared. -/
def PictureRegisters.zero : PictureRegisters := Window.zero (by decide)

/-- The registers of the sound unit and of the controllers, cleared. -/
def SoundRegisters.zero : SoundRegisters := Window.zero (by decide)

end Console6502
