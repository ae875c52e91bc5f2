/-
  What work adds to the journal.

  The journal is only ever added to.  `Exec.Adds P x` says so of a piece of work, and that each
  event it adds has the property `P`.  There is one rule for each primitive and one for sequences,
  so whatever the processor does, it adds `Event.Ordinary` events only (`Adds.of_made`).  Entering
  an interrupt makes transactions and nothing else (`Adds.enter`), and an instruction announces
  itself before its first transaction (`execute_announces`).
-/
import Console6502.Proofs.Follows
import Console6502.Proofs.Primitives

namespace Console6502

/-- The state that work leaves, whether it succeeds or fails. -/
def stateAfter {ε σ α : Type} (x : EStateM ε σ α) (s : σ) : σ :=
  match x s with
  | .ok _ s' => s'
  | .error _ s' => s'

theorem stateAfter_of_ok {ε σ α : Type} {x : EStateM ε σ α} {s s' : σ} {v : α}
    (h : x s = .ok v s') : stateAfter x s = s' := by
  rw [stateAfter, h]

theorem stateAfter_of_error {ε σ α : Type} {x : EStateM ε σ α} {s s' : σ} {e : ε}
    (h : x s = .error e s') : stateAfter x s = s' := by
  rw [stateAfter, h]

theorem stateAfter_map {ε σ α γ : Type} (f : α → γ) (x : EStateM ε σ α) (s : σ) :
    stateAfter (f <$> x) s = stateAfter x s := by
  cases h : x s with
  | ok v s' => rw [stateAfter_of_ok (map_of_ok h f), stateAfter_of_ok h]
  | error e s' => rw [stateAfter_of_error (map_of_error h f), stateAfter_of_error h]

/-! ## Notices -/

/-- Whether an event is a transaction on the bus. -/
def Event.IsAccess (e : Event) : Prop := ∃ a, e = .access a

theorem Journal.notices_append (l j : Journal) : (l ++ j).notices = j.notices ++ l.notices := by
  simp [Journal.notices, List.filterMap_append]

theorem Journal.notices_of_isAccess {l : Journal} (h : ∀ e ∈ l, e.IsAccess) : l.notices = [] := by
  unfold Journal.notices
  rw [List.filterMap_eq_nil_iff]
  intro e he
  obtain ⟨a, rfl⟩ := h e (List.mem_reverse.mp he)
  rfl

theorem Journal.mem_notices {j : Journal} {n : Notice} : n ∈ j.notices ↔ .notice n ∈ j := by
  unfold Journal.notices
  rw [List.mem_filterMap]
  constructor
  · rintro ⟨e, he, hn⟩
    cases e with
    | notice n' => exact Option.some.inj hn ▸ List.mem_reverse.mp he
    | access a => cases hn
    | boardReset => cases hn
    | fatal handler error => cases hn
  · intro h
    exact ⟨.notice n, List.mem_reverse.mpr h, rfl⟩

/-- A transaction is entered behind what was there, and its notice behind it. -/
theorem Machine.record_journal {β : Type} (m : Machine β) (a : Access) (n : Option Notice) :
    (m.record a n).journal = n.toList.map Event.notice ++ .access a :: m.journal := by
  cases n <;> rfl

variable {β : Type}

namespace Exec

/-- From every machine on, the work only adds to the journal, and adds only events like these. -/
def Adds {α : Type} (P : Event → Prop) (x : Exec β α) : Prop :=
  ∀ m, ∃ l, (stateAfter x m).journal = l ++ m.journal ∧ ∀ e ∈ l, P e

namespace Adds

variable {α γ : Type} {P : Event → Prop}

/-- Work that leaves the journal alone. -/
theorem quiet {x : Exec β α} (h : ∀ m, (stateAfter x m).journal = m.journal) : Adds P x :=
  fun m => ⟨[], h m, by simp⟩

theorem bind {x : Exec β α} {f : α → Exec β γ} (hx : Adds P x) (hf : ∀ v, Adds P (f v)) :
    Adds P (x >>= f) := by
  intro m
  obtain ⟨l, hl, hP⟩ := hx m
  cases h : x m with
  | error e m' =>
    rw [stateAfter_of_error h] at hl
    rw [stateAfter_of_error (bind_of_error h f)]
    exact ⟨l, hl, hP⟩
  | ok v m' =>
    rw [stateAfter_of_ok h] at hl
    obtain ⟨l', hl', hP'⟩ := hf v m'
    have hstate : stateAfter (x >>= f) m = stateAfter (f v) m' := by
      rw [stateAfter, bind_of_ok h, stateAfter]
    refine ⟨l' ++ l, ?_, ?_⟩
    · rw [hstate, hl', hl, List.append_assoc]
    · intro e he
      rcases List.mem_append.mp he with he | he
      · exact hP' e he
      · exact hP e he

theorem pure (v : α) : Adds P (Pure.pure v : Exec β α) := quiet fun _ => rfl

theorem throw (e : CpuFault) : Adds P (MonadExcept.throw e : Exec β α) := quiet fun _ => rfl

theorem cpu : Adds P (Exec.cpu : Exec β Cpu) := quiet fun _ => rfl

theorem update (g : Cpu → Cpu) : Adds P (Exec.update g : Exec β Unit) := quiet fun _ => rfl

theorem note {n : Notice} (h : P (.notice n)) : Adds P (Exec.note n : Exec β Unit) := by
  intro m
  refine ⟨[.notice n], rfl, ?_⟩
  intro e he
  rw [List.mem_singleton.mp he]
  exact h

/-- A transaction adds an access and what is worth noting about it. -/
theorem of_record {x : Exec β α}
    (h : ∀ m, ∃ a n, (stateAfter x m).journal = (m.record a n).journal ∧
      P (.access a) ∧ ∀ n' ∈ n, P (.notice n')) : Adds P x := by
  intro m
  obtain ⟨a, n, hj, ha, hn⟩ := h m
  refine ⟨n.toList.map Event.notice ++ [.access a], ?_, ?_⟩
  · rw [hj, Machine.record_journal, List.append_assoc]
    rfl
  · intro e he
    rcases List.mem_append.mp he with he | he
    · obtain ⟨n', hn', rfl⟩ := List.mem_map.mp he
      exact hn n' (Option.mem_toList.mp hn')
    · rw [List.mem_singleton.mp he]
      exact ha

end Adds

end Exec

/-! ## Ordinary events -/

variable [Board β]

/-- What the work of the processor may add to the journal: transactions, the notices of the bus and
    of the board, and its own. -/
inductive Event.Ordinary (β : Type) [Board β] : Event → Prop
  | access (a : Access) : Ordinary β (.access a)
  | testRead (a : Word) : Ordinary β (.notice (.testRead a))
  | testWrite (a : Word) (v : Byte) : Ordinary β (.notice (.testWrite a v))
  | board {b : β} {t : Target} {v : Byte} {n : Notice} (h : Board.notice? b t v = some n) :
    Ordinary β (.notice n)
  | executing (line : TraceLine) : Ordinary β (.notice (.executing line))
  | interrupted (v : InterruptVector) (source target : Word) :
    Ordinary β (.notice (.interrupted v source target))
  | broke (target : Word) : Ordinary β (.notice (.broke target))
  | reset (pc : Word) (sp : Byte) : Ordinary β (.notice (.reset pc sp))

theorem Notice.OfCpu.ordinary {n : Notice} (h : n.OfCpu) : Event.Ordinary β (.notice n) := by
  cases h with
  | executing line => exact .executing line
  | interrupted v source target => exact .interrupted v source target
  | broke target => exact .broke target
  | reset pc sp => exact .reset pc sp

/-- Only the test-mode window makes a read worth a notice. -/
theorem Bus.ordinary_of_readNotice? {a : Word} {n : Notice} (h : Bus.readNotice? a = some n) :
    Event.Ordinary β (.notice n) := by
  unfold Bus.readNotice? at h
  split at h
  · obtain rfl := Option.some.inj h
    exact .testRead a
  · cases h

/-- A notice about a write comes from the test-mode window or from the board. -/
theorem Bus.ordinary_of_writeNotice? {b : Bus β} {a : Word} {v : Byte} {n : Notice}
    (h : b.writeNotice? a v = some n) : Event.Ordinary β (.notice n) := by
  unfold Bus.writeNotice? at h
  split at h
  · obtain rfl := Option.some.inj h
    exact .testWrite a v
  · obtain ⟨board, -, h⟩ := Option.bind_eq_some_iff.mp h
    obtain ⟨target, -, h⟩ := Option.bind_eq_some_iff.mp h
    exact .board h
  · cases h

namespace Exec.Adds

variable {P : Event → Prop}

theorem adapted_read {a : Word} (haccess : ∀ v, P (.access (.read a v)))
    (hnotice : ∀ n ∈ Bus.readNotice? a, P (.notice n)) (f : BusFault → CpuFault) :
    Adds P ((Machine.read a).adaptExcept f : Exec β Byte) := by
  refine of_record fun m => ?_
  cases hr : m.bus.read a with
  | ok v =>
    refine ⟨.read a (some v), Bus.readNotice? a, ?_, haccess _, hnotice⟩
    simp only [stateAfter, EStateM.adaptExcept, Machine.read, hr]
  | error e =>
    refine ⟨.read a none, Bus.readNotice? a, ?_, haccess _, hnotice⟩
    simp only [stateAfter, EStateM.adaptExcept, Machine.read, hr]

theorem adapted_write {a : Word} {v : Byte} (haccess : ∀ accepted, P (.access (.write a v accepted)))
    (hnotice : ∀ b : Bus β, ∀ n ∈ b.writeNotice? a v, P (.notice n)) :
    Adds P (Exec.write a v : Exec β Unit) := by
  refine of_record fun m => ?_
  cases hw : m.bus.write a v with
  | ok b =>
    refine ⟨.write a v true, m.bus.writeNotice? a v, ?_, haccess _, hnotice m.bus⟩
    simp only [stateAfter, Exec.write, EStateM.adaptExcept, Machine.write, hw]
  | error e =>
    refine ⟨.write a v false, m.bus.writeNotice? a v, ?_, haccess _, hnotice m.bus⟩
    simp only [stateAfter, Exec.write, EStateM.adaptExcept, Machine.write, hw]

/-! ## The stack and the vector table -/

theorem push (v : Byte) : Adds Event.IsAccess (Exec.push v : Exec β Unit) := by
  refine cpu.bind fun c => bind ?_ fun _ => update _
  refine adapted_write (fun _ => ⟨_, rfl⟩) fun b n hn => ?_
  rw [Cpu.pushAddress, Bus.writeNotice?, AddressRegion.of_stackCell] at hn
  cases hn

theorem pushWord (w : Word) : Adds Event.IsAccess (Exec.pushWord w : Exec β Unit) :=
  (push _).bind fun _ => push _

theorem vectorByte (v : InterruptVector) {a : Word} (h : Bus.readNotice? a = none) :
    Adds Event.IsAccess (Exec.vectorByte v a : Exec β Byte) := by
  refine adapted_read (fun _ => ⟨_, rfl⟩) (fun n hn => ?_) _
  rw [h] at hn
  cases hn

theorem vectorTarget (v : InterruptVector) :
    Adds Event.IsAccess (Exec.vectorTarget v : Exec β Word) := by
  have hlow : Bus.readNotice? v.address = none := by cases v <;> decide
  have hhigh : Bus.readNotice? (v.address + 1) = none := by cases v <;> decide
  exact (vectorByte v hlow).bind fun _ => (vectorByte v hhigh).bind fun _ => pure _

theorem enter (v : InterruptVector) (brk : Bool) :
    Adds Event.IsAccess (Exec.enter v brk : Exec β Unit) :=
  (vectorTarget v).bind fun _ => cpu.bind fun _ => (pushWord _).bind fun _ =>
    cpu.bind fun _ => (push _).bind fun _ => update _

/-! ## Work in general -/

/-- Whatever the processor does, it adds ordinary events. -/
theorem of_made {α : Type} {x : Exec β α} (h : Made x) : Adds (Event.Ordinary β) x := by
  induction h with
  | pure v => exact pure v
  | throw e => exact throw e
  | bind _ _ ihx ihf => exact ihx.bind ihf
  | cpu => exact cpu
  | update g => exact update g
  | note h => exact note h.ordinary
  | adapted_read a f =>
    exact adapted_read (fun _ => .access _) (fun _ hn => Bus.ordinary_of_readNotice? hn) f
  | write a v =>
    exact adapted_write (fun _ => .access _) fun _ _ hn => Bus.ordinary_of_writeNotice? hn

theorem readInstruction :
    Adds (Event.Ordinary β) (Exec.readInstruction : Exec β Instruction) :=
  of_made .readInstruction

/-- A step adds ordinary events to the journal and takes none away. -/
theorem step : Adds (Event.Ordinary β) (Exec.step : Exec β Nat) := of_made .step

theorem reset (sp : Byte) : Adds (Event.Ordinary β) (Exec.reset sp : Exec β Unit) :=
  of_made (.reset sp)

end Exec.Adds

/-- The first thing an instruction does is to announce itself. -/
theorem Exec.execute_announces (i : Instruction) (m : Machine β) :
    ∃ l, (stateAfter (Exec.execute i) m).journal =
      l ++ .notice (.executing (i.traceLine m.cpu)) :: m.journal := by
  obtain ⟨l, hl, -⟩ :=
    Exec.Adds.of_made (Exec.Made.announced i) (m.note (.executing (i.traceLine m.cpu)))
  exact ⟨l, hl⟩

end Console6502
