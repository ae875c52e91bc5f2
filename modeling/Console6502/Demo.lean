/-
  The demonstration: a short program on a plain cartridge, run until it stops itself.

  The program adds two numbers, stores the sum at $0200, counts X up to zero and calls the software
  interrupt, whose handler counts Y and then meets an opcode that is no instruction.
-/
import Console6502.Board.Nrom
import Console6502.Console

namespace Console6502.Demo

/-- The program at $8000 and, from its offset 16 on, the interrupt handler. -/
def program : List Byte := [
  0xA9, 0x10,             -- LDA #$10
  0x69, 0x05,             -- ADC #$05
  0x8D, 0x00, 0x02,       -- STA $0200
  0xE8,                   -- INX
  0xD0, 0xFD,             -- BNE back to INX
  0x00, 0x00,             -- BRK
  0xEA, 0xEA, 0xEA, 0xEA, -- NOP
  0xC8,                   -- INY
  0x02]                   -- no instruction

/-- The vector table: NMI and reset at the program, IRQ at the handler. -/
def vectors : List Byte := [0x00, 0x80, 0x00, 0x80, 0x10, 0x80]

/-- A bank of 16 kilobytes with the program at its start, the vectors at its end, and NOPs between
    them. -/
def image : Array Byte :=
  let filler := List.replicate (16384 - program.length - vectors.length) 0xEA
  (program ++ filler ++ vectors).toArray

/-- The instructions after which the demonstration gives up. -/
def stepLimit : Nat := 1000000

/-- A console with the program in its slot and a handler that says why the processor stopped. -/
def console : Console Nrom :=
  (Console.ofBoard (some (Nrom.ofImage image 8192)) {}).setHandler "CPU stopped"

/-- What a run leaves behind: exit status, output and error output, as lines. -/
structure Report where
  status : UInt32
  output : List String
  errors : List String

/-- The registers and the sum, one a line. -/
def summary (m : Machine Nrom) : List String := [
  s!"A: 0x{Hex.byte m.cpu.a}",
  s!"X: 0x{Hex.byte m.cpu.x}",
  s!"Y: 0x{Hex.byte m.cpu.y}",
  s!"SP: 0x{Hex.byte m.cpu.sp}",
  s!"PC: 0x{Hex.word m.cpu.pc}",
  s!"P (flags): {m.cpu.status.text}",
  s!"cycles: {m.cpu.cycle}",
  s!"mem[0x0200]: 0x{Hex.byte (m.bus.ram.read 0x0200)}"]

/-- The report on a run with this first line. -/
def reportOn (c : Console Nrom) (first : String) : Report where
  status := 0
  output := first :: summary c.machine
  errors := c.machine.journal.reports

/-- Runs the demonstration. -/
def report : Report :=
  match Console.switchOn console with
  | .error _ c => { status := 1, output := [], errors := c.machine.journal.reports }
  | .ok _ c =>
    match Console.steps stepLimit c with
    | .ok cycles c => reportOn c s!"instruction cap reached after {cycles} cycles"
    | .error e c => reportOn c s!"halted after {c.machine.cpu.cycle} cycles: {e.message}"

end Console6502.Demo
