/-
  Rows of timed actions.

  `Clock.Takes` is a row of actions that all succeed, with the cycles that each of them reports.
  The two ways of repeating an action are described by it: `Clock.Repeats` for a number of actions,
  `Clock.Spends` for a number of cycles.  In both descriptions the row ends with the count that was
  asked for or with the first failure, and what was done before a failure is kept.

  The second loop comes to an end only if the actions take time.  `Clock.spendFrom` counts down what
  is left of the budget instead and comes to an end by itself; where every action that succeeds
  takes at least one cycle, it is the loop (`Clock.Loop.runFrom_eq_spendFrom`), and the row is the
  shortest one that reaches the budget.  Where every action reports from two to seven cycles
  (`Clock.Paced`), the row is at most half as long as the budget, and overshoots by six at most.
-/
import Console6502.Clock
import Console6502.Proofs.Follows
import Mathlib.Algebra.GroupWithZero.Nat
import Mathlib.Data.List.Basic

namespace Console6502.Clock

variable {ε σ : Type} {action : EStateM ε σ Nat} {s s' s'' : σ} {l : List Nat}

/-! ## Unfolding the loops -/

theorem repeatFrom_succ (action : EStateM ε σ Nat) (spent n : Nat) :
    repeatFrom action spent (n + 1) =
      action >>= fun cycles => repeatFrom action (spent + cycles) n := by
  funext s
  rw [repeatFrom]
  cases ha : action s with
  | ok cycles s' =>
    exact (bind_of_ok ha fun cycles => repeatFrom action (spent + cycles) n).symm
  | error e s' => exact (bind_of_error ha _).symm

/-- Repeats `action` for `remaining` cycles; `spent` cycles have passed before.  An action that
    reports no cycles counts as one, so that the work comes to an end. -/
def spendFrom (action : EStateM ε σ Nat) (spent remaining : Nat) (s : σ) :
    EStateM.Result ε σ Nat :=
  if remaining = 0 then .ok spent s
  else
    match action s with
    | .ok c s => spendFrom action (spent + c) (remaining - max 1 c) s
    | .error e s => .error e s
termination_by remaining
decreasing_by omega

theorem spendFrom_of_ne_zero (action : EStateM ε σ Nat) (spent : Nat) {remaining : Nat}
    (h : remaining ≠ 0) :
    spendFrom action spent remaining =
      (action >>= fun cycles => spendFrom action (spent + cycles) (remaining - max 1 cycles) :
        EStateM ε σ Nat) := by
  funext s
  rw [spendFrom, if_neg h]
  cases ha : action s with
  | ok cycles s' =>
    exact (bind_of_ok ha fun cycles =>
      spendFrom action (spent + cycles) (remaining - max 1 cycles)).symm
  | error e s' => exact (bind_of_error ha _).symm

/-- A loop that goes on until its actions have taken a budget of cycles, by what is left of the
    budget.  What the loop asks for may depend on the state, as long as the states that it comes to
    tell the cycles that have passed. -/
theorem Loop.runFrom_eq_spendFrom [Nonempty σ] {loop : Loop ε σ} {budget : Nat}
    {P : Nat → σ → Prop}
    (hmore : ∀ {spent s}, P spent s → loop.more spent s = decide (spent < budget))
    (hpos : ∀ {s cycles s'}, loop.action s = .ok cycles s' → 1 ≤ cycles)
    (hnext : ∀ {spent s cycles s'}, P spent s → loop.action s = .ok cycles s' →
      P (spent + cycles) s')
    {spent : Nat} (hs : P spent s) :
    loop.runFrom spent s = spendFrom loop.action spent (budget - spent) s := by
  -- on what is left of the budget: the loop itself has no measure, and may be done at one go
  obtain ⟨remaining, hremaining⟩ : ∃ remaining, budget - spent = remaining := ⟨_, rfl⟩
  induction remaining using Nat.strongRecOn generalizing spent s with
  | ind remaining ih =>
    rw [runFrom, spendFrom, hmore hs]
    by_cases hzero : budget - spent = 0
    · rw [if_pos hzero, if_neg (by simpa using Nat.le_of_sub_eq_zero hzero)]
    · rw [if_neg hzero, if_pos (by simpa using Nat.lt_of_sub_ne_zero hzero)]
      cases ha : loop.action s with
      | error e s' => rfl
      | ok cycles s' =>
        have htaken := hpos ha
        have hleft : budget - (spent + cycles) = budget - spent - max 1 cycles := by omega
        dsimp only
        rw [ih (budget - (spent + cycles)) (by omega) (hnext hs ha) rfl, hleft]

/-- A loop that goes by the cycles alone. -/
theorem forCycles_eq [Nonempty σ] (hpos : ∀ {s cycles s'}, action s = .ok cycles s' → 1 ≤ cycles)
    (budget : Nat) : forCycles action budget = spendFrom action 0 budget := by
  funext s
  exact Loop.runFrom_eq_spendFrom (P := fun _ _ => True) (fun _ => rfl) hpos
    (fun _ _ => trivial) trivial

/-- The cycles that passed before are added to those of the row. -/
theorem repeatFrom_eq (action : EStateM ε σ Nat) (spent n : Nat) :
    repeatFrom action spent n = (spent + ·) <$> forSteps action n := by
  induction n generalizing spent with
  | zero => rfl
  | succ n ih =>
    rw [forSteps, repeatFrom_succ, repeatFrom_succ, map_bind]
    congr 1
    funext cycles
    rw [ih (spent + cycles), ih (0 + cycles), Functor.map_map]
    congr 1
    funext total
    omega

theorem forSteps_succ (action : EStateM ε σ Nat) (n : Nat) :
    forSteps action (n + 1) =
      action >>= fun cycles => (cycles + ·) <$> forSteps action n := by
  rw [forSteps, repeatFrom_succ]
  congr 1
  funext cycles
  rw [repeatFrom_eq, Nat.zero_add]

/-- A row of `m + n` actions is a row of `m` and then one of `n`. -/
theorem forSteps_add (action : EStateM ε σ Nat) (m n : Nat) :
    forSteps action (m + n) =
      forSteps action m >>= fun total => (total + ·) <$> forSteps action n := by
  induction m with
  | zero =>
    have hzero : (forSteps action 0 : EStateM ε σ Nat) = pure 0 := rfl
    simp [hzero]
  | succ m ih =>
    rw [Nat.succ_add, forSteps_succ, forSteps_succ, ih, bind_assoc]
    congr 1
    funext cycles
    rw [map_bind, bind_map_left]
    congr 1
    funext total
    rw [Functor.map_map]
    congr 1
    funext rest
    exact (Nat.add_assoc cycles total rest).symm

/-! ## Rows of actions that succeed -/

/-- Actions that succeed one behind the other, with the cycles that each of them reports. -/
inductive Takes (action : EStateM ε σ Nat) : σ → List Nat → σ → Prop
  | nil (s : σ) : Takes action s [] s
  | cons {s s' s'' : σ} {cycles : Nat} {l : List Nat} (first : action s = .ok cycles s')
    (rest : Takes action s' l s'') : Takes action s (cycles :: l) s''

namespace Takes

/-- What every action preserves, a row preserves. -/
theorem preserves {P : σ → Prop} (h : ∀ {s cycles s'}, P s → action s = .ok cycles s' → P s')
    (ht : Takes action s l s') (hs : P s) : P s' := by
  induction ht with
  | nil => exact hs
  | cons first _ ih => exact ih (h hs first)

/-- What every action adds up, a row adds up. -/
theorem advance (count : σ → Nat)
    (h : ∀ {s cycles s'}, action s = .ok cycles s' → count s' = count s + cycles)
    (ht : Takes action s l s') : count s' = count s + l.sum := by
  induction ht with
  | nil => rfl
  | cons first _ ih => rw [ih, h first, List.sum_cons, Nat.add_assoc]

end Takes

/-- What repeating an action `n` times comes to, `l` being the cycles of those that succeed. -/
inductive Repeats (action : EStateM ε σ Nat) (n : Nat) (s : σ) (l : List Nat) :
    EStateM.Result ε σ Nat → Prop
  | done {s' : σ} (takes : Takes action s l s') (count : l.length = n) :
    Repeats action n s l (.ok l.sum s')
  | stopped {s' s'' : σ} {e : ε} (takes : Takes action s l s') (count : l.length < n)
    (failure : action s' = .error e s'') : Repeats action n s l (.error e s'')

theorem repeats_forSteps (action : EStateM ε σ Nat) (n : Nat) (s : σ) :
    ∃ l, Repeats action n s l (forSteps action n s) := by
  induction n generalizing s with
  | zero => exact ⟨[], .done (.nil s) rfl⟩
  | succ n ih =>
    rw [forSteps_succ]
    cases ha : action s with
    | error e s' =>
      rw [bind_of_error ha]
      exact ⟨[], .stopped (.nil s) (Nat.succ_pos n) ha⟩
    | ok cycles s' =>
      rw [bind_of_ok ha]
      obtain ⟨l, hl⟩ := ih s'
      refine ⟨cycles :: l, ?_⟩
      cases hr : forSteps action n s' with
      | ok total s'' =>
        rw [map_of_ok hr]
        rw [hr] at hl
        cases hl with
        | done takes count => exact .done (.cons ha takes) (congrArg Nat.succ count)
      | error e s'' =>
        rw [map_of_error hr]
        rw [hr] at hl
        cases hl with
        | stopped takes count failure =>
          exact .stopped (.cons ha takes) (Nat.succ_lt_succ count) failure

/-! ## Rows that reach a budget -/

/-- What repeating an action until `budget` cycles have passed comes to, `l` being the cycles of
    those that succeed: the row stops where its cycles reach the budget and not before, or it comes
    to a failure short of it. -/
inductive Spends (action : EStateM ε σ Nat) (budget : Nat) (s : σ) (l : List Nat) :
    EStateM.Result ε σ Nat → Prop
  | done {s' : σ} (takes : Takes action s l s') (least : ∀ k < l.length, (l.take k).sum < budget)
    (enough : budget ≤ l.sum) : Spends action budget s l (.ok l.sum s')
  | stopped {s' s'' : σ} {e : ε} (takes : Takes action s l s') (short : l.sum < budget)
    (failure : action s' = .error e s'') : Spends action budget s l (.error e s'')

/-- A row that reaches what is left of a budget behind an action reaches all of it with that
    action in front. -/
theorem least_cons {budget cycles : Nat} (hb : budget ≠ 0)
    (h : ∀ k < l.length, (l.take k).sum < budget - cycles) :
    ∀ k < (cycles :: l).length, ((cycles :: l).take k).sum < budget := by
  intro k hk
  cases k with
  | zero => exact Nat.pos_of_ne_zero hb
  | succ k =>
    have hrest := h k (Nat.lt_of_succ_lt_succ hk)
    rw [List.take_succ_cons, List.sum_cons]
    omega

theorem spendFrom_zero (action : EStateM ε σ Nat) (spent : Nat) (s : σ) :
    spendFrom action spent 0 s = .ok spent s := by
  rw [spendFrom, if_pos rfl]

/-- The cycles that passed before are added to those of the row. -/
theorem spendFrom_eq (action : EStateM ε σ Nat) (spent remaining : Nat) (s : σ) :
    spendFrom action spent remaining s =
      match spendFrom action 0 remaining s with
      | .ok total s' => .ok (spent + total) s'
      | .error e s' => .error e s' := by
  induction remaining using Nat.strongRecOn generalizing spent s with
  | ind remaining ih =>
    by_cases hzero : remaining = 0
    · rw [hzero, spendFrom_zero, spendFrom_zero]
      rfl
    · rw [spendFrom, spendFrom.eq_def action 0, if_neg hzero, if_neg hzero]
      cases ha : action s with
      | error e s' => rfl
      | ok cycles s' =>
        have hless : remaining - max 1 cycles < remaining := by omega
        dsimp only
        rw [ih _ hless (spent + cycles), ih _ hless (0 + cycles)]
        cases spendFrom action 0 (remaining - max 1 cycles) s' with
        | error e s'' => rfl
        | ok total s'' => simp only [Nat.zero_add, Nat.add_assoc]

/-- Where every action takes some time, the guard is never needed. -/
theorem spends_spendFrom (hpos : ∀ {s cycles s'}, action s = .ok cycles s' → 1 ≤ cycles)
    (budget : Nat) (s : σ) : ∃ l, Spends action budget s l (spendFrom action 0 budget s) := by
  -- the induction is on what is left of the budget, and every action takes some of it away
  induction budget using Nat.strongRecOn generalizing s with
  | ind budget ih =>
    by_cases hzero : budget = 0
    · subst hzero
      rw [spendFrom_zero]
      exact ⟨[], .done (.nil s) (fun k hk => absurd hk (Nat.not_lt_zero k)) (Nat.zero_le _)⟩
    · rw [spendFrom, if_neg hzero]
      cases ha : action s with
      | error e s' => exact ⟨[], .stopped (.nil s) (Nat.pos_of_ne_zero hzero) ha⟩
      | ok cycles s' =>
        have hcycles : max 1 cycles = cycles := Nat.max_eq_right (hpos ha)
        have htaken := hpos ha
        obtain ⟨l, hl⟩ := ih (budget - cycles) (by omega) s'
        refine ⟨cycles :: l, ?_⟩
        dsimp only
        rw [hcycles, spendFrom_eq, Nat.zero_add]
        cases hr : spendFrom action 0 (budget - cycles) s' with
        | ok total s'' =>
          rw [hr] at hl
          cases hl with
          | done takes least enough =>
            refine .done (.cons ha takes) (least_cons hzero least) ?_
            rw [List.sum_cons]
            omega
        | error e s'' =>
          rw [hr] at hl
          cases hl with
          | stopped takes short failure =>
            refine .stopped (.cons ha takes) ?_ failure
            rw [List.sum_cons]
            omega

/-! ## Actions with a bounded number of cycles -/

/-- Every action that succeeds reports from two to seven cycles. -/
def Paced (action : EStateM ε σ Nat) : Prop :=
  ∀ {s cycles s'}, action s = .ok cycles s' → 2 ≤ cycles ∧ cycles ≤ 7

namespace Paced

variable {cycles : Nat}

theorem pos (h : Paced action) (ha : action s = .ok cycles s') : 1 ≤ cycles :=
  Nat.le_of_succ_le (h ha).1

theorem spends (h : Paced action) (budget : Nat) (s : σ) :
    ∃ l, Spends action budget s l (spendFrom action 0 budget s) :=
  spends_spendFrom h.pos budget s

theorem mem (h : Paced action) (ht : Takes action s l s') :
    ∀ cycles ∈ l, 2 ≤ cycles ∧ cycles ≤ 7 := by
  induction ht with
  | nil => simp
  | cons first _ ih => exact List.forall_mem_cons.mpr ⟨h first, ih⟩

end Paced

theorem two_mul_length_le (h : ∀ cycles ∈ l, 2 ≤ cycles ∧ cycles ≤ 7) : 2 * l.length ≤ l.sum := by
  induction l with
  | nil => exact Nat.le_refl 0
  | cons cycles l ih =>
    obtain ⟨hcycles, hl⟩ := List.forall_mem_cons.mp h
    have hrest := ih hl
    rw [List.length_cons, List.sum_cons]
    omega

namespace Paced

variable {budget : Nat}

/-- The shortest row that reaches a budget has at most half as many actions, rounded up, and its
    last action starts short of the budget. -/
theorem bounds (h : Paced action) (ht : Takes action s l s')
    (least : ∀ k < l.length, (l.take k).sum < budget) :
    l.length ≤ (budget + 1) / 2 ∧ l.sum ≤ budget + 6 := by
  rcases List.eq_nil_or_concat' l with rfl | ⟨front, last, rfl⟩
  · exact ⟨Nat.zero_le _, Nat.zero_le _⟩
  · obtain ⟨hfront, hlast⟩ := List.forall_mem_append.mp (h.mem ht)
    have hseven := (hlast last (List.mem_singleton_self last)).2
    have hhalf := two_mul_length_le hfront
    have hshort := least front.length (by simp)
    rw [List.take_left] at hshort
    rw [List.length_append, List.length_singleton, List.sum_append, List.sum_singleton]
    omega

/-- A row that comes to a failure short of a budget has, with the one that fails, at most half as
    many actions, rounded up. -/
theorem length_lt (h : Paced action) (ht : Takes action s l s') (short : l.sum < budget) :
    l.length + 1 ≤ (budget + 1) / 2 := by
  have hhalf := two_mul_length_le (h.mem ht)
  omega

/-- Of repeating an action with a bounded number of cycles: the number of actions, and what the
    cycles in all may come to. -/
theorem spendFrom_bounds (h : Paced action) (budget : Nat) (s : σ) :
    ∃ l, Spends action budget s l (spendFrom action 0 budget s) ∧
      match spendFrom action 0 budget s with
      | .ok total _ => l.length ≤ (budget + 1) / 2 ∧ budget ≤ total ∧ total ≤ budget + 6
      | .error _ _ => l.length + 1 ≤ (budget + 1) / 2 := by
  obtain ⟨l, hl⟩ := h.spends budget s
  refine ⟨l, hl, ?_⟩
  generalize spendFrom action 0 budget s = r at hl
  cases hl with
  | done takes least enough =>
    obtain ⟨hlength, hsum⟩ := h.bounds takes least
    exact ⟨hlength, enough, hsum⟩
  | stopped takes short _ => exact h.length_lt takes short

end Paced

end Console6502.Clock
