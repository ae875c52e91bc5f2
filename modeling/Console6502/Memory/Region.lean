/-
  The memory map: which part of the machine an address belongs to.
-/
import Console6502.Word

namespace Console6502

/-- The parts of the address space. -/
inductive AddressRegion where
  /-- Work RAM at $0000-$1FFF: two kilobytes, four times over. -/
  | ram
  /-- Picture registers at $2000-$3FFF: eight of them, over and over. -/
  | picture
  /-- Sound and input registers at $4000-$4017. -/
  | sound
  /-- Registers of a disabled test mode at $4018-$401F. -/
  | testMode
  /-- The cartridge, from $4020 on. -/
  | cartridge
deriving DecidableEq, Repr

/-- The region of an address; every address has one. -/
def AddressRegion.of (a : Word) : AddressRegion :=
  if a < 0x2000 then .ram
  else if a < 0x4000 then .picture
  else if a < 0x4018 then .sound
  else if a < 0x4020 then .testMode
  else .cartridge

end Console6502
