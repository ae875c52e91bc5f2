/-
  Work that follows a plan.

  `Exec.Follows x m plan v c` says all that there is to say about a piece of work from a given
  machine on: it makes the attempts of `plan` in this order and no other, it comes to `v` and
  leaves the processor `c` if the bus grants them all, and it stops with the error of the first
  attempt that is refused, leaving the processor that this attempt names.  The plan may depend on
  bytes that the bus holds beforehand, never on what the work is in the middle of.

  There is one rule for each primitive and one for sequences (`Follows.bind`).  Page one is RAM,
  which never refuses anything, so the rules for the stack hold with any processor in their
  attempts.
-/
import Console6502.Interrupt
import Console6502.Proofs.Request

namespace Console6502

theorem Journal.accesses_access (a : Access) (j : Journal) :
    Journal.accesses (.access a :: j) = j.accesses ++ [a] := by
  simp [Journal.accesses, List.filterMap_append]

theorem Journal.accesses_notice (n : Notice) (j : Journal) :
    Journal.accesses (.notice n :: j) = j.accesses := by
  simp [Journal.accesses, List.filterMap_append]

theorem Word.add_one_add_one (w : Word) : w + 1 + 1 = w + 2 := BitVec.add_assoc w 1 1

theorem Byte.add_one_add_one (b : Byte) : b + 1 + 1 = b + 2 := BitVec.add_assoc b 1 1

theorem Byte.add_one_add_two (b : Byte) : b + 1 + 2 = b + 3 := BitVec.add_assoc b 1 2

theorem Byte.sub_one_sub_one (b : Byte) : b - 1 - 1 = b - 2 := by bv_omega

theorem Byte.sub_two_sub_one (b : Byte) : b - 2 - 1 = b - 3 := by bv_omega

/-- An entry in the journal changes nothing else. -/
theorem Machine.record_eq {β : Type} (m : Machine β) (a : Access) (n : Option Notice) :
    m.record a n = ⟨m.cpu, m.bus, (m.record a n).journal⟩ := by
  cases n <;> rfl

theorem Machine.record_accesses {β : Type} (m : Machine β) (a : Access) (n : Option Notice) :
    (m.record a n).journal.accesses = m.journal.accesses ++ [a] := by
  cases n with
  | none => exact Journal.accesses_access a m.journal
  | some n =>
    rw [Machine.record, Journal.accesses_notice]
    exact Journal.accesses_access a m.journal

/-- The processor after an entry that goes on at `target`. -/
def Cpu.entered (c : Cpu) (target : Word) : Cpu :=
  { c with
    sp := c.sp - 3, status := c.status.set .interruptDisable true, pc := target }

/-! ## Page one is RAM -/

theorem Cpu.toNat_stackCell (sp : Byte) : (Cpu.stackCell sp).toNat = 256 + sp.toNat := by
  revert sp
  decide

/-- The cells of the stack are those of page one. -/
theorem Cpu.stackCell_eq (sp : Byte) : Cpu.stackCell sp = BitVec.ofNat 16 (0x0100 + sp.toNat) := by
  revert sp
  decide

theorem AddressRegion.of_stackCell (sp : Byte) : AddressRegion.of (Cpu.stackCell sp) = .ram := by
  revert sp
  decide

theorem bind_of_ok {ε σ α γ : Type} {x : EStateM ε σ α} {s s' : σ} {v : α} (h : x s = .ok v s')
    (f : α → EStateM ε σ γ) : (x >>= f) s = f v s' := by
  change EStateM.bind x f s = f v s'
  rw [EStateM.bind, h]

theorem bind_of_error {ε σ α γ : Type} {x : EStateM ε σ α} {s s' : σ} {e : ε}
    (h : x s = .error e s') (f : α → EStateM ε σ γ) : (x >>= f) s = .error e s' := by
  change EStateM.bind x f s = .error e s'
  rw [EStateM.bind, h]

theorem map_of_ok {ε σ α γ : Type} {x : EStateM ε σ α} {s s' : σ} {v : α} (h : x s = .ok v s')
    (f : α → γ) : (f <$> x) s = .ok (f v) s' := by
  change EStateM.map f x s = .ok (f v) s'
  rw [EStateM.map, h]

theorem map_of_error {ε σ α γ : Type} {x : EStateM ε σ α} {s s' : σ} {e : ε}
    (h : x s = .error e s') (f : α → γ) : (f <$> x) s = .error e s' := by
  change EStateM.map f x s = .error e s'
  rw [EStateM.map, h]

variable {β : Type} [Board β]

theorem Bus.read_of_ram {b : Bus β} {a : Word} (h : AddressRegion.of a = .ram) :
    b.read a = .ok (b.ram.read a) := by
  rw [Bus.read, h]

theorem Bus.write_of_ram {b : Bus β} {a : Word} (h : AddressRegion.of a = .ram) (v : Byte) :
    b.write a v = .ok { b with ram := b.ram.write a v } := by
  rw [Bus.write, h]

theorem Bus.eq_read_of_error {b : Bus β} {a : Word} {e : BusFault} (h : b.read a = .error e) :
    e = .read a := by
  unfold Bus.read at h
  split at h <;> try cases h
  split at h <;> cases h
  rfl

theorem Bus.eq_write_of_error {b : Bus β} {a : Word} {v : Byte} {e : BusFault}
    (h : b.write a v = .error e) : e = .write a := by
  unfold Bus.write at h
  split at h <;> try cases h
  split at h <;> cases h
  rfl

theorem Machine.read_of_ok {m : Machine β} {a : Word} {v : Byte} (h : m.bus.read a = .ok v) :
    ∃ j, Machine.read a m = .ok v { m with journal := j } ∧
      j.accesses = m.journal.accesses ++ [.read a (some v)] := by
  refine ⟨_, ?_, m.record_accesses (.read a (some v)) (Bus.readNotice? a)⟩
  simp only [Machine.read, h]
  exact congrArg (EStateM.Result.ok v) (m.record_eq _ _)

theorem Machine.read_of_error {m : Machine β} {a : Word} {e : BusFault}
    (h : m.bus.read a = .error e) :
    ∃ j, Machine.read a m = .error (.read a) { m with journal := j } ∧
      j.accesses = m.journal.accesses ++ [.read a none] := by
  obtain rfl := Bus.eq_read_of_error h
  refine ⟨_, ?_, m.record_accesses (.read a none) (Bus.readNotice? a)⟩
  simp only [Machine.read, h]
  exact congrArg (EStateM.Result.error (BusFault.read a)) (m.record_eq _ _)

/-- RAM grants every request. -/
theorem Bus.answer_of_ram {b : Bus β} {r : Request} (h : AddressRegion.of r.address = .ram) :
    ∃ b', b.answer r = some b' := by
  cases r with
  | read a | vector v a =>
    refine ⟨b, ?_⟩
    rw [Bus.answer, Bus.read_of_ram (a := a) h]
  | write a v =>
    refine ⟨{ b with ram := b.ram.write a v }, ?_⟩
    rw [Bus.answer, Bus.write_of_ram (a := a) h]

namespace Exec

variable {α γ : Type}

/-- From `m` on, the work makes the attempts of the plan and no others.  If all are granted it comes
    to `v` and leaves the processor `c`. -/
structure Follows (x : Exec β α) (m : Machine β) (plan : List Attempt) (v : α) (c : Cpu) :
    Prop where
  granted : (m.bus.serve plan).refused = none →
    ∃ j, x m = .ok v ⟨c, (m.bus.serve plan).bus, j⟩ ∧
      j.accesses = m.journal.accesses ++ (m.bus.serve plan).accesses
  refused : ∀ t, (m.bus.serve plan).refused = some t →
    ∃ j, x m = .error t.request.fault ⟨t.left, (m.bus.serve plan).bus, j⟩ ∧
      j.accesses = m.journal.accesses ++ (m.bus.serve plan).accesses

namespace Follows

variable {m : Machine β} {p q : List Attempt} {c d : Cpu}

/-! ## Sequences and silent work -/

/-- Behind a refusal nothing is done, so it does not matter what would have followed. -/
theorem bind_of_refused {x : Exec β α} {v : α} {t : Attempt} (hx : Follows x m p v c)
    (hp : (m.bus.serve p).refused = some t) (f : α → Exec β γ) (w : γ) (d : Cpu) :
    Follows (x >>= f) m p w d := by
  constructor
  · intro h
    rw [hp] at h
    cases h
  · intro u h
    obtain ⟨j, herr, hj⟩ := hx.refused u h
    exact ⟨j, bind_of_error herr f, hj⟩

theorem bind {x : Exec β α} {f : α → Exec β γ} {v : α} {w : γ} (hx : Follows x m p v c)
    (hf : ∀ j, Follows (f v) ⟨c, (m.bus.serve p).bus, j⟩ q w d) :
    Follows (x >>= f) m (p ++ q) w d := by
  -- either the first part is granted and the second goes on from its bus, or nothing follows
  cases hp : (m.bus.serve p).refused with
  | none =>
    obtain ⟨j, hok, hj⟩ := hx.granted hp
    constructor
    · intro h
      rw [Bus.serve_append_of_none hp] at h ⊢
      obtain ⟨j', hok', hj'⟩ := (hf j).granted h
      refine ⟨j', ?_, ?_⟩
      · rw [bind_of_ok hok, hok']
      · rw [hj', hj, List.append_assoc]
    · intro t h
      rw [Bus.serve_append_of_none hp] at h ⊢
      obtain ⟨j', herr, hj'⟩ := (hf j).refused t h
      refine ⟨j', ?_, ?_⟩
      · rw [bind_of_ok hok, herr]
      · rw [hj', hj, List.append_assoc]
  | some u =>
    have h := hx.bind_of_refused hp f w d
    constructor
    · rw [Bus.serve_append_of_some hp]
      exact h.granted
    · rw [Bus.serve_append_of_some hp]
      exact h.refused

/-- Behind reads the bus is still the one from the start. -/
theorem bind_of_reads {x : Exec β α} {f : α → Exec β γ} {v : α} {w : γ} (hx : Follows x m p v c)
    (hp : ∀ t ∈ p, t.request.isWrite = false)
    (hf : ∀ j, Follows (f v) ⟨c, m.bus, j⟩ q w d) : Follows (x >>= f) m (p ++ q) w d := by
  apply hx.bind
  rw [Bus.serve_bus_of_reads hp]
  exact hf

/-- The processor may be written in another way. -/
theorem congr {x : Exec β α} {v : α} (h : Follows x m p v c) (hc : c = d) : Follows x m p v d :=
  hc ▸ h

theorem pure (v : α) : Follows (Pure.pure v : Exec β α) m [] v m.cpu := by
  constructor
  · intro _
    exact ⟨m.journal, rfl, (List.append_nil _).symm⟩
  · intro t h
    cases h

theorem cpu_bind {f : Cpu → Exec β α} {v : α} (h : Follows (f m.cpu) m p v c) :
    Follows (Exec.cpu >>= f) m p v c := ⟨h.granted, h.refused⟩

theorem update (g : Cpu → Cpu) : Follows (Exec.update g : Exec β Unit) m [] () (g m.cpu) := by
  constructor
  · intro _
    exact ⟨m.journal, rfl, (List.append_nil _).symm⟩
  · intro t h
    cases h

theorem update_pure (g : Cpu → Cpu) (v : α) :
    Follows (Exec.update g >>= fun _ => Pure.pure v : Exec β α) m [] v (g m.cpu) :=
  bind (p := []) (update g) fun _ => pure v

theorem note (n : Notice) : Follows (Exec.note n : Exec β Unit) m [] () m.cpu := by
  constructor
  · intro _
    refine ⟨.notice n :: m.journal, rfl, ?_⟩
    rw [Journal.accesses_notice]
    exact (List.append_nil _).symm
  · intro t h
    cases h

/-- Work that succeeds was granted its plan. -/
theorem ok {x : Exec β α} {v w : α} {m' : Machine β} (h : Follows x m p v c)
    (hx : x m = .ok w m') :
    (m.bus.serve p).refused = none ∧ w = v ∧ m'.cpu = c ∧ m'.bus = (m.bus.serve p).bus ∧
      m'.journal.accesses = m.journal.accesses ++ (m.bus.serve p).accesses := by
  cases hs : (m.bus.serve p).refused with
  | none =>
    obtain ⟨j, hok, hj⟩ := h.granted hs
    rw [hok] at hx
    cases hx
    exact ⟨rfl, rfl, rfl, rfl, hj⟩
  | some t =>
    obtain ⟨j, herr, -⟩ := h.refused t hs
    rw [herr] at hx
    cases hx

/-- Work that fails has come to a refusal in its plan. -/
theorem error {x : Exec β α} {v : α} {e : CpuFault} {m' : Machine β} (h : Follows x m p v c)
    (hx : x m = .error e m') :
    ∃ t, (m.bus.serve p).refused = some t ∧ e = t.request.fault ∧ m'.cpu = t.left ∧
      m'.bus = (m.bus.serve p).bus ∧
      m'.journal.accesses = m.journal.accesses ++ (m.bus.serve p).accesses := by
  cases hs : (m.bus.serve p).refused with
  | none =>
    obtain ⟨j, hok, -⟩ := h.granted hs
    rw [hok] at hx
    cases hx
  | some t =>
    obtain ⟨j, herr, hj⟩ := h.refused t hs
    rw [herr] at hx
    cases hx
    exact ⟨t, rfl, rfl, rfl, rfl, hj⟩

/-! ## Single transactions -/

/-- A read for any purpose: what its refusal comes to is the fault of the request. -/
theorem adapted_read {r : Request} (hread : r.isWrite = false) {f : BusFault → CpuFault}
    (hf : f (.read r.address) = r.fault) :
    Follows ((Machine.read r.address).adaptExcept f) m [⟨r, m.cpu⟩] (m.bus.peek r.address)
      m.cpu := by
  cases hr : m.bus.read r.address with
  | ok v =>
    have hs := Bus.serve_cons_of_some (t := ⟨r, m.cpu⟩) (Bus.answer_of_read_ok hread hr) []
    obtain ⟨j, hok, hj⟩ := Machine.read_of_ok hr
    constructor
    · intro _
      rw [hs, EStateM.adaptExcept, hok, Request.granted_of_read hread, Bus.peek_of_read hr]
      exact ⟨j, rfl, hj⟩
    · intro t h
      rw [hs] at h
      cases h
  | error e =>
    have hs := Bus.serve_cons_of_none (t := ⟨r, m.cpu⟩) (Bus.answer_of_read_error hread hr) []
    obtain ⟨j, herror, hj⟩ := Machine.read_of_error hr
    constructor
    · intro h
      rw [hs] at h
      cases h
    · intro t h
      rw [hs] at h ⊢
      obtain rfl := Option.some.inj h
      rw [EStateM.adaptExcept, herror, Request.refused_of_read hread]
      simp only [hf]
      exact ⟨j, rfl, hj⟩

theorem read (a : Word) :
    Follows (Exec.read a) m [⟨.read a, m.cpu⟩] (m.bus.peek a) m.cpu :=
  adapted_read (r := .read a) rfl rfl

theorem vectorByte (v : InterruptVector) (a : Word) :
    Follows (Exec.vectorByte v a) m [⟨.vector v a, m.cpu⟩] (m.bus.peek a) m.cpu :=
  adapted_read (r := .vector v a) rfl rfl

theorem write (a : Word) (v : Byte) :
    Follows (Exec.write a v) m [⟨.write a v, m.cpu⟩] () m.cpu := by
  cases hw : m.bus.write a v with
  | ok b =>
    have hs := Bus.serve_cons_of_some (t := ⟨.write a v, m.cpu⟩) (Bus.answer_of_write_ok hw) []
    constructor
    · intro _
      rw [hs]
      refine ⟨_, ?_, Machine.record_accesses m _ (m.bus.writeNotice? a v)⟩
      simp only [Exec.write, EStateM.adaptExcept, Machine.write, hw, Request.granted,
        Bus.serve_nil]
      rw [Machine.record_eq m]
    · intro t h
      rw [hs] at h
      cases h
  | error e =>
    have hs := Bus.serve_cons_of_none (t := ⟨.write a v, m.cpu⟩) (Bus.answer_of_write_error hw) []
    constructor
    · intro h
      rw [hs] at h
      cases h
    · intro t h
      rw [hs] at h ⊢
      obtain rfl := Option.some.inj h
      refine ⟨_, ?_, Machine.record_accesses m _ (m.bus.writeNotice? a v)⟩
      simp only [Exec.write, EStateM.adaptExcept, Machine.write, hw, Request.refused,
        Bus.eq_write_of_error hw]
      exact congrArg (EStateM.Result.error _) (Machine.record_eq m _ _)

/-- What a refusal in RAM would leave behind does not matter. -/
theorem of_ram {x : Exec β α} {v : α} {r : Request} {left : Cpu}
    (h : Follows x m [⟨r, left⟩] v c) (hr : AddressRegion.of r.address = .ram) (left' : Cpu) :
    Follows x m [⟨r, left'⟩] v c := by
  obtain ⟨b, hb⟩ := Bus.answer_of_ram (b := m.bus) hr
  have hs : m.bus.serve [⟨r, left'⟩] = m.bus.serve [⟨r, left⟩] := by
    rw [Bus.serve_cons_of_some hb, Bus.serve_cons_of_some hb]
  constructor
  · rw [hs]
    exact h.granted
  · rw [hs]
    exact h.refused

/-! ## The byte at the program counter -/

theorem nextByte :
    Follows Exec.nextByte m [⟨.read m.cpu.pc, m.cpu⟩] (m.bus.peek m.cpu.pc) (m.cpu.skip 1) := by
  refine cpu_bind ?_
  refine bind_of_reads (q := []) (read m.cpu.pc) (by simp [Request.isWrite]) fun j => ?_
  exact update_pure _ _

/-! ## The stack -/

theorem push (v : Byte) (left : Cpu) :
    Follows (Exec.push v) m [⟨.write (Cpu.stackCell m.cpu.sp) v, left⟩] ()
      { m.cpu with sp := m.cpu.sp - 1 } := by
  refine cpu_bind ?_
  have hw := (write (m := m) (Cpu.stackCell m.cpu.sp) v).of_ram
    (AddressRegion.of_stackCell m.cpu.sp) left
  exact bind (q := []) hw fun j => update _

theorem pull (left : Cpu) :
    Follows Exec.pull m [⟨.read (Cpu.stackCell (m.cpu.sp + 1)), left⟩]
      (m.bus.peek (Cpu.stackCell (m.cpu.sp + 1))) { m.cpu with sp := m.cpu.sp + 1 } := by
  refine cpu_bind ?_
  have hr := (read (m := m) (Cpu.stackCell (m.cpu.sp + 1))).of_ram
    (AddressRegion.of_stackCell (m.cpu.sp + 1)) left
  exact bind_of_reads (q := []) hr (by simp [Request.isWrite]) fun j => update_pure _ _

theorem pushWord (w : Word) (left : Cpu) :
    Follows (Exec.pushWord w) m (Attempt.all (Request.pushWord m.cpu.sp w) left) ()
      { m.cpu with sp := m.cpu.sp - 2 } := by
  rw [← Byte.sub_one_sub_one]
  exact bind (p := [_]) (push (Word.high w) left) fun j => push (Word.low w) left

theorem pullWord (left : Cpu) :
    Follows Exec.pullWord m (Attempt.all (Request.pullWord m.cpu.sp) left)
      (Word.ofBytes (m.bus.peek (Cpu.stackCell (m.cpu.sp + 1)))
        (m.bus.peek (Cpu.stackCell (m.cpu.sp + 2))))
      { m.cpu with sp := m.cpu.sp + 2 } := by
  unfold Request.pullWord
  rw [← Byte.add_one_add_one]
  refine bind_of_reads (p := [_]) (pull left) (by simp [Request.isWrite]) fun j => ?_
  exact bind_of_reads (q := []) (pull left) (by simp [Request.isWrite]) fun j => pure _

/-! ## The vector table and interrupt entry -/

theorem vectorTarget (v : InterruptVector) :
    Follows (Exec.vectorTarget v) m (Attempt.all (Request.vectorWord v) m.cpu)
      (m.bus.vectorWord v) m.cpu := by
  refine bind_of_reads (p := [_]) (vectorByte v v.address) (by simp [Request.isWrite]) fun j => ?_
  refine bind_of_reads (q := []) (vectorByte v (v.address + 1)) (by simp [Request.isWrite])
    fun j => ?_
  exact pure _

theorem enter (v : InterruptVector) (brk : Bool) :
    Follows (Exec.enter v brk) m (Attempt.all (Request.entry m.cpu v brk) m.cpu) ()
      (m.cpu.entered (m.bus.vectorWord v)) := by
  unfold Request.entry Cpu.entered
  refine bind_of_reads (p := Attempt.all (Request.vectorWord v) m.cpu) (vectorTarget v)
    (Attempt.forall_all (Request.vectorWord_are_reads v) m.cpu) fun j => ?_
  refine cpu_bind ?_
  refine bind (p := Attempt.all (Request.pushWord m.cpu.sp m.cpu.pc) m.cpu)
    (pushWord m.cpu.pc m.cpu) fun j => ?_
  refine cpu_bind ?_
  rw [← Byte.sub_two_sub_one]
  exact bind (q := []) (push _ m.cpu) fun j => update _

end Follows

end Exec

end Console6502
