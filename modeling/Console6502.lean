import Console6502.Word
import Console6502.Hex
import Console6502.Status
import Console6502.Arithmetic
import Console6502.InterruptVector
import Console6502.Fault
import Console6502.Settings
import Console6502.Journal
import Console6502.Memory.Region
import Console6502.Memory.Window
import Console6502.Board.Basic
import Console6502.Board.Wrap
import Console6502.Board.Nrom
import Console6502.Board.Uxrom
import Console6502.Board.Cartridge
import Console6502.Bus
import Console6502.Cpu
import Console6502.Instruction.Operation
import Console6502.Instruction.Decode
import Console6502.Instruction.Timing
import Console6502.Machine
import Console6502.Operand
import Console6502.Interrupt
import Console6502.Effect
import Console6502.Step
import Console6502.Clock
import Console6502.Console
import Console6502.Demo
import Console6502.Main
import Console6502.Proofs.Primitives
import Console6502.Proofs.Follows
import Console6502.Proofs.Addressing
import Console6502.Proofs.IntegerLaws
import Console6502.Proofs.Meaning
import Console6502.Proofs.StepPlan
import Console6502.Proofs.AccessTrace
import Console6502.Proofs.FailureAtomicity
import Console6502.Proofs.Run
import Console6502.Proofs.CycleAccounting
import Console6502.Proofs.CycleCounter
import Console6502.Proofs.JournalGrowth
import Console6502.Proofs.InterruptLatch
import Console6502.Proofs.ReturnTransparency
import Console6502.Proofs.TimedRuns
import Console6502.Proofs.HaltProtocol
import Console6502.Proofs.RunComposition
import Console6502.Proofs.CycleBudgets
import Console6502.Proofs.BusRun
import Console6502.Proofs.BusCells
import Console6502.Proofs.FlatMemory
import Console6502.Proofs.BankSwitching
import Console6502.Proofs.TwoRuns
import Console6502.Proofs.Congruences
import Console6502.Proofs.Interventions
import Console6502.Proofs.Acts
import Console6502.Proofs.BoardSimulation
import Console6502.Proofs.RomMirroring
import Console6502.Proofs.StopCauses
import Console6502.Proofs.FaultBounds
import Console6502.Proofs.CartridgeMemory
import Console6502.Proofs.ResetForgets
import Console6502.Proofs.BoardFaults
import Console6502.Proofs.StatusFlags
import Console6502.Proofs.InterruptMask
import Console6502.Proofs.StatusByte
import Console6502.Proofs.EffectiveAddress
import Console6502.Proofs.OpcodeTable
import Console6502.Proofs.AccessPlan
import Console6502.Proofs.ReferenceSemantics
import Console6502.Proofs.InstructionLength
import Console6502.Proofs.StackDiscipline
import Console6502.Proofs.MultiPrecision
import Console6502.Proofs.Lockstep
import Console6502.Proofs.ScratchFields
import Console6502.Proofs.DecimalFlag
import Console6502.Proofs.MemoryShifts
import Console6502.Proofs.OffsetRanges
import Console6502.Proofs.WordReaders
import Console6502.Proofs.Repetition
