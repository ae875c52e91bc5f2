/-
  Repeating timed work.

  A timed action reports the cycles it took, or fails.  It can be repeated a number of times or as
  long as there is time left; both return the cycles in all and stop at the first failure, with the
  effects of what went before.  Nothing in the second loop makes it come to an end: that is up to
  the action.
-/

namespace Console6502.Clock

variable {ε σ : Type}

/-- Repeats `action` a number of times; `spent` cycles have passed before. -/
def repeatFrom (action : EStateM ε σ Nat) (spent : Nat) : Nat → EStateM ε σ Nat
  | 0, s => .ok spent s
  | n + 1, s =>
    match action s with
    | .ok c s => repeatFrom action (spent + c) n s
    | .error e s => .error e s

/-- Repeats `action` a number of times. -/
def forSteps (action : EStateM ε σ Nat) (n : Nat) : EStateM ε σ Nat := repeatFrom action 0 n

/-- A loop has a result to return even where it does not come to an end. -/
instance nonemptyResult [Nonempty σ] : Nonempty (EStateM.Result ε σ Nat) :=
  ‹Nonempty σ›.elim fun s => ⟨.ok 0 s⟩

/-- Timed work to be repeated: what to do, and whether to go on, by the cycles that have passed and
    by the state. -/
structure Loop (ε σ : Type) where
  more : Nat → σ → Bool
  action : EStateM ε σ Nat

/-- Goes round a loop as long as it asks for more; `spent` cycles have passed before. -/
def Loop.runFrom [Nonempty σ] (loop : Loop ε σ) (spent : Nat) (s : σ) : EStateM.Result ε σ Nat :=
  if loop.more spent s then
    match loop.action s with
    | .ok c s => loop |>.runFrom (spent + c) s
    | .error e s => .error e s
  else .ok spent s
partial_fixpoint

/-- Repeats `action` until the cycles that it reports come to `budget`. -/
def forCycles [Nonempty σ] (action : EStateM ε σ Nat) (budget : Nat) : EStateM ε σ Nat :=
  Loop.runFrom { more := fun spent _ => spent < budget, action } 0

end Console6502.Clock
