/-
  The console: a machine that is switched on, clocked, and stopped by the first fatal error.

  A console that was never switched on goes through the reset sequence before its first step.  A
  failure of the reset sequence or of a step is fatal: it is noted, the handler is told, and the
  console halts.  A halted console answers every step with the error that halted it and does nothing
  else, until it is switched on again or reset.
-/
import Console6502.Step

namespace Console6502

/-- A machine with its settings and with the state of its power switch. -/
structure Console (β : Type) where
  machine : Machine β := {}
  settings : Settings := {}
  /-- The label of the handler that is told of fatal errors, if there is one. -/
  handler : Option String := none
  /-- The error that halted the console, if it is halted. -/
  halted : Option CpuFault := none
  powered : Bool := false
deriving DecidableEq, Inhabited

/-- Work on a console that may fail; a failure keeps what was done. -/
abbrev ConsoleM (β : Type) := EStateM CpuFault (Console β)

namespace Console

variable {β : Type} [Board β]

/-- A console that was never switched on, with this board or with an empty slot. -/
def ofBoard (board : Option β) (settings : Settings) : Console β :=
  { machine := .ofBoard board, settings }

/-- Changes the machine. -/
def modifyMachine (c : Console β) (f : Machine β → Machine β) : Console β :=
  { c with machine := f c.machine }

/-- Changes the processor. -/
def modifyCpu (c : Console β) (f : Cpu → Cpu) : Console β :=
  c.modifyMachine fun m => { m with cpu := f m.cpu }

/-- Installs a handler in place of the one before. -/
def setHandler (c : Console β) (label : String) : Console β := { c with handler := some label }

/-- Halts the console: the error is noted, the handler is told, and the error is kept. -/
def halt (c : Console β) (e : CpuFault) : Console β :=
  let m := c.machine.note (.fatal e c.machine.cpu.pc)
  { c with machine := { m with journal := .fatal c.handler e :: m.journal }, halted := some e }

/-- Work of the processor; an error in it halts the console. -/
def attempt {α : Type} (work : Exec β α) : ConsoleM β α := fun c =>
  match work c.machine with
  | .ok v machine => .ok v { c with machine }
  | .error e machine => .error e ({ c with machine }.halt e)

/-- Switches the console on: clears a halt and runs the reset sequence. -/
def switchOn : ConsoleM β Unit := do
  modify fun c => { c with halted := none, powered := true }
  attempt (Exec.reset (← get).settings.resetStack)

/-- Presses the reset button: clears the bus and switches on again. -/
def reset : ConsoleM β Unit := do
  modify fun c => c.modifyMachine Machine.resetBus
  switchOn

/-- One step of the processor: returns its cycles. -/
def step : ConsoleM β Nat := do
  unless (← get).powered do switchOn
  match (← get).halted with
  | some e => throw e
  | none => attempt Exec.step

/-- A number of steps: returns their cycles. -/
def steps (n : Nat) : ConsoleM β Nat := Clock.forSteps step n

/-- Steps through one video frame: returns the cycles, which may exceed the frame by a little. -/
def frame : ConsoleM β Nat := do
  Clock.forCycles step (← get).settings.video.frameCycles

end Console

end Console6502
