/-
  Two relations of machines that everything in a console respects.

  The first is that of machines which differ in nothing but their journals (`Machine.Same`).  The
  journal is never read, so such machines go on in the same way, and tell their handlers the same.

  The second is an invariant of the bus.  The processor reaches the bus by single reads and writes,
  so whatever the events of a bus leave true stays true of the bus of a console.
-/
import Console6502.Proofs.FailureAtomicity
import Console6502.Proofs.Lockstep

namespace Console6502

variable {β : Type} [Board β]

/-! ## Machines that differ in their journals -/

/-- Machines that differ in nothing but their journals, which tell of the same calls of the handler
    behind those listed. -/
structure Machine.Same (calls calls' : List (Option String × CpuFault)) (m m' : Machine β) :
    Prop where
  cpu : m.cpu = m'.cpu
  bus : m.bus = m'.bus
  told : ∃ new, m.journal.fatals = calls ++ new ∧ m'.journal.fatals = calls' ++ new

namespace Exec

theorem step_same (c : Cpu) (b : Bus β) (j j' : Journal) :
    Agree (Machine.InStep Eq) (step ⟨c, b, j⟩) (step ⟨c, b, j'⟩) :=
  step_agree (fun _ _ h => h) ⟨rfl, rfl⟩ rfl rfl
    (fun _ hv => (step_entry hv).agree (step_entry hv) rfl (Attempt.matched_self _) rfl)
    fun _ hq hi =>
      (step_instruction hq hi).agree (step_instruction hq hi) rfl (Attempt.matched_self _) rfl

theorem reset_same (sp : Byte) (c : Cpu) (b : Bus β) (j j' : Journal) :
    Agree (Machine.InStep Eq) (reset sp ⟨c, b, j⟩) (reset sp ⟨c, b, j'⟩) :=
  (Follows.reset sp).agree (Follows.reset sp) rfl (Attempt.matched_self _) rfl

/-- Work that adds ordinary events tells no handler. -/
theorem Adds.fatals {α : Type} {x : Exec β α} (h : Adds (Event.Ordinary β) x) (m : Machine β) :
    (stateAfter x m).journal.fatals = m.journal.fatals := by
  obtain ⟨l, hl, hordinary⟩ := h m
  rw [hl, Journal.fatals_of_silent (Journal.fatals_of_ordinary hordinary)]

end Exec

namespace Machine

omit [Board β] in
theorem record_parts (c : Cpu) (b : Bus β) (j j' : Journal) (a : Access) (n : Option Notice) :
    (record ⟨c, b, j⟩ a n).InStep Eq (record ⟨c, b, j'⟩ a n) := by
  cases n <;> exact ⟨rfl, rfl⟩

omit [Board β] in
theorem record_fatals (m : Machine β) (a : Access) (n : Option Notice) :
    (m.record a n).journal.fatals = m.journal.fatals := by
  cases n with
  | none => exact Journal.fatals_of_silent (l := [.access a]) rfl m.journal
  | some n => exact Journal.fatals_of_silent (l := [.notice n, .access a]) rfl m.journal

theorem resetBus_fatals (m : Machine β) : m.resetBus.journal.fatals = m.journal.fatals := by
  unfold resetBus
  cases m.bus.board.isSome with
  | false => rfl
  | true => exact Journal.fatals_of_silent (l := [.boardReset]) rfl m.journal

omit [Board β] in
theorem halt_fatals (c : Console β) (e : CpuFault) :
    (c.halt e).machine.journal.fatals = c.machine.journal.fatals ++ [(c.handler, e)] :=
  Journal.fatals_append [.fatal c.handler e, .notice _] c.machine.journal

namespace Same

variable {calls calls' : List (Option String × CpuFault)} {m m' n n' : Machine β}

omit [Board β] in
/-- Where no handler is told, it is enough that processor and bus stay equal. -/
theorem of_quiet (h : Same calls calls' m m') (hn : n.journal.fatals = m.journal.fatals)
    (hn' : n'.journal.fatals = m'.journal.fatals) (hparts : n.cpu = n'.cpu ∧ n.bus = n'.bus) :
    Same calls calls' n n' where
  cpu := hparts.1
  bus := hparts.2
  told := by
    obtain ⟨new, hm, hm'⟩ := h.told
    exact ⟨new, hn.trans hm, hn'.trans hm'⟩

omit [Board β] in
theorem respects {ε α : Type} {x : EStateM ε (Machine β) α}
    (hfatals : ∀ m, (stateAfter x m).journal.fatals = m.journal.fatals)
    (hagree : ∀ c b j j',
      Agree (Machine.InStep Eq) (x ⟨c, b, j⟩) (x ⟨c, b, j'⟩)) :
    Respects (Same calls calls') x := by
  rintro ⟨c, b, j⟩ ⟨c', b', j'⟩ h
  obtain rfl : c = c' := h.cpu
  obtain rfl : b = b' := h.bus
  exact (hagree c b j j').mono_after fun hsame =>
    h.of_quiet (hfatals _) (hfatals _) ⟨hsame.cpu, hsame.bus.symm⟩

theorem respects_read (a : Word) : Respects (Same calls calls') (Machine.read (β := β) a) := by
  apply respects
  · intro m
    unfold stateAfter Machine.read
    cases m.bus.read a with
    | ok v => exact record_fatals m _ _
    | error e => exact record_fatals m _ _
  · intro c b j j'
    unfold Machine.read
    cases b.read a with
    | ok v => exact .ok (record_parts c b j j' _ _)
    | error e => exact .error (record_parts c b j j' _ _)

theorem respects_write (a : Word) (v : Byte) :
    Respects (Same calls calls') (Machine.write (β := β) a v) := by
  apply respects
  · intro m
    unfold stateAfter Machine.write
    cases m.bus.write a v with
    | ok b => exact record_fatals m _ _
    | error e => exact record_fatals m _ _
  · intro c b j j'
    unfold Machine.write
    cases b.write a v with
    | ok b' => exact .ok ⟨(record_parts c b j j' _ _).cpu, rfl⟩
    | error e => exact .error (record_parts c b j j' _ _)

theorem attach (h : Same calls calls' m m') (board : β) :
    Same calls calls' (m.attach board) (m'.attach board) :=
  h.of_quiet (Journal.fatals_of_silent (l := [.notice _]) rfl m.journal)
    (Journal.fatals_of_silent (l := [.notice _]) rfl m'.journal)
    ⟨h.cpu, congrArg (fun b : Bus β => { b with board := some board }) h.bus⟩

/-- Nothing in a console depends on the journal. -/
theorem congruence (calls calls' : List (Option String × CpuFault)) :
    Congruence (Same (β := β) calls calls') where
  step := respects Exec.Adds.step.fatals Exec.step_same
  reset sp := respects (Exec.Adds.reset sp).fatals (Exec.reset_same sp)
  read := respects_read
  write := respects_write
  update f m m' h := h.of_quiet rfl rfl ⟨congrArg f h.cpu, h.bus⟩
  react event m m' h := h.of_quiet rfl rfl ⟨h.cpu, congrArg (·.react event) h.bus⟩
  resetBus h := h.of_quiet (resetBus_fatals _) (resetBus_fatals _)
    ⟨h.cpu, congrArg Bus.reset h.bus⟩
  halt e c d hhandler h := by
    obtain ⟨new, hm, hm'⟩ := h.told
    refine ⟨h.cpu, h.bus, new ++ [(c.handler, e)], ?_, ?_⟩
    · rw [halt_fatals, hm, List.append_assoc]
    · rw [halt_fatals, hm', hhandler, List.append_assoc]

end Same

end Machine

/-! ## Invariants of the bus -/

section Invariant

variable {P : Bus β → Prop} (hP : ∀ b event, P b → P (b.react event))
include hP

theorem Bus.invariant_serve {b : Bus β} (hb : P b) (p : List Attempt) : P (b.serve p).bus := by
  induction p generalizing b with
  | nil => exact hb
  | cons t p ih =>
    cases ht : b.answer t.request with
    | none => rw [serve_cons_of_none ht]; exact hb
    | some b' =>
      rw [serve_cons_of_some ht]
      refine ih ?_
      cases hr : t.request with
      | write a v =>
        rw [hr] at ht
        exact react_of_write (write_of_answer ht) ▸ hP b (.write a v) hb
      | read a | vector v a =>
        rw [answer_read_bus (by rw [hr]; rfl) ht]
        exact hb

theorem Exec.Follows.invariant {α : Type} {x : Exec β α} {m : Machine β} {p : List Attempt} {v : α}
    {c : Cpu} (h : Follows x m p v c) (hm : P m.bus) : P (stateAfter x m).bus := by
  have hserve := Bus.invariant_serve hP hm p
  cases hx : x m with
  | ok w m' =>
    rw [stateAfter_of_ok hx]
    obtain ⟨-, -, -, hbus, -⟩ := h.ok hx
    rwa [hbus]
  | error e m' =>
    rw [stateAfter_of_error hx]
    obtain ⟨t, -, -, -, hbus, -⟩ := h.error hx
    rwa [hbus]

theorem Exec.step_invariant (m : Machine β) (hm : P m.bus) : P (stateAfter step m).bus := by
  rcases step_plan m with ⟨opcode, hq, hr, hd⟩ | ⟨n, c, hfollows⟩
  · obtain ⟨j, herr, -⟩ := step_illegal hq hr hd
    rw [stateAfter_of_error herr]
    exact hm
  · exact hfollows.invariant hP hm

/-- What the events of a bus leave true, everything in a console leaves true of its bus. -/
theorem Machine.Congruence.of_bus :
    Machine.Congruence fun m m' : Machine β => m = m' ∧ P m.bus where
  step := .of_invariant (Exec.step_invariant hP)
  reset sp := .of_invariant fun m hm => (Exec.Follows.reset sp).invariant hP hm
  read a := .of_invariant fun m hm => by
    unfold stateAfter Machine.read
    cases m.bus.read a with
    | ok v =>
      dsimp only
      rw [record_eq]
      exact hm
    | error e =>
      dsimp only
      rw [record_eq]
      exact hm
  write a v := .of_invariant fun m hm => by
    unfold stateAfter Machine.write
    cases hw : m.bus.write a v with
    | ok b => exact Bus.react_of_write hw ▸ hP m.bus (.write a v) hm
    | error e =>
      dsimp only
      rw [record_eq]
      exact hm
  update f := by
    rintro m _ ⟨rfl, hm⟩
    exact ⟨rfl, hm⟩
  react event := by
    rintro m _ ⟨rfl, hm⟩
    exact ⟨rfl, hP m.bus event hm⟩
  resetBus := by
    rintro m _ ⟨rfl, hm⟩
    exact ⟨rfl, hP m.bus .reset hm⟩
  halt e := by
    rintro c d hhandler ⟨hmachine, hm⟩
    refine ⟨?_, hm⟩
    simp only [Console.halt, hmachine, hhandler]

end Invariant

end Console6502
