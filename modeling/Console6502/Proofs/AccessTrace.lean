/-
  The accesses of a step.

  The plan of a step asks for all its reads before the first write.  So the bytes that answer them
  are those on the bus beforehand, and the entries that a step adds to the journal are its plan,
  answered.  Where a request is refused, they are the plan up to and with that request.
-/
import Console6502.Proofs.StepPlan

namespace Console6502

variable {β : Type} [Board β]

/-! ## Reads come first -/

theorem Request.readsFirst_entry (c : Cpu) (v : InterruptVector) (brk : Bool) :
    ReadsFirst (entry c v brk) := by
  unfold Request.entry
  exact readsFirst_append (vectorWord_are_reads v) (by simp [pushWord, isWrite])

theorem Operation.reads_are_reads (operation : Operation) (operand : Operand) (c : Cpu) :
    ∀ r ∈ operation.reads operand c, r.isWrite = false := by
  have hoperand : ∀ r ∈ operand.reads, r.isWrite = false := by
    cases operand <;> simp [Operand.reads, Request.isWrite]
  unfold Operation.reads
  split
  any_goals exact hoperand
  all_goals simp [Request.pullWord, Request.vectorWord, Request.isWrite]

theorem Operation.writes_are_writes (operation : Operation) (operand : Operand) (c : Cpu)
    (b : Bus β) : ∀ r ∈ operation.writes operand c b, r.isWrite = true := by
  unfold Operation.writes
  split
  any_goals split
  all_goals simp [Request.pushWord, Request.isWrite]

/-- Before its operation writes, an instruction only reads. -/
theorem Instruction.attempts_split (i : Instruction) (c : Cpu) (b : Bus β) :
    ∃ reads, (∀ t ∈ reads, t.request.isWrite = false) ∧
      ⟨.read c.pc, c⟩ :: i.attempts c b =
        reads ++ Attempt.all (i.operation.writes (i.operand c b) (i.taken c b) b)
          (i.operation.left (i.taken c b)) := by
  unfold Instruction.attempts Operation.attempts Attempt.all
  rw [List.map_append, ← List.append_assoc, ← List.cons_append]
  refine ⟨_, ?_, rfl⟩
  intro t ht
  rcases List.mem_cons.mp ht with rfl | ht
  · rfl
  rcases List.mem_append.mp ht with ht | ht
  · exact i.mode.attempts_are_reads _ b t ht
  · exact Attempt.forall_all (i.operation.reads_are_reads _ _) _ t ht

theorem Instruction.requests_split (i : Instruction) (c : Cpu) (b : Bus β) :
    ∃ reads, (∀ r ∈ reads, r.isWrite = false) ∧
      i.requests c b = reads ++ i.operation.writes (i.operand c b) (i.taken c b) b := by
  obtain ⟨reads, hreads, hsplit⟩ := i.attempts_split c b
  refine ⟨reads.map Attempt.request, ?_, ?_⟩
  · intro r hr
    obtain ⟨t, ht, rfl⟩ := List.mem_map.mp hr
    exact hreads t ht
  · rw [← i.map_request_attempts, hsplit, List.map_append, Attempt.map_request_all]

theorem Instruction.readsFirst_requests (i : Instruction) (c : Cpu) (b : Bus β) :
    Request.ReadsFirst (i.requests c b) := by
  obtain ⟨reads, hreads, hsplit⟩ := i.requests_split c b
  rw [hsplit]
  exact Request.readsFirst_append hreads (i.operation.writes_are_writes _ _ b)

theorem Cpu.readsFirst_plan (c : Cpu) (b : Bus β) : Request.ReadsFirst (c.plan b) := by
  unfold Cpu.plan
  split
  · exact Request.readsFirst_entry c _ false
  · split
    · exact Instruction.readsFirst_requests _ c b
    · exact List.pairwise_singleton _ _

/-! ## The journal of a step -/

/-- What work enters into the journal, if its plan asks for all reads first. -/
theorem Exec.Follows.accesses {α : Type} {x : Exec β α} {m : Machine β} {plan : List Attempt}
    {v : α} {c : Cpu} (h : Follows x m plan v c)
    (hplan : Request.ReadsFirst (plan.map Attempt.request)) :
    match x m with
    | .ok _ m' =>
      m.bus.grant (plan.map Attempt.request) = some m'.bus ∧
      m'.journal.accesses =
        m.journal.accesses ++ (plan.map Attempt.request).map (·.granted m.bus)
    | .error e m' =>
      ∃ before r after, plan.map Attempt.request = before ++ r :: after ∧
        m.bus.grant before = some m'.bus ∧ m'.bus.answer r = none ∧ e = r.fault ∧
        m'.journal.accesses =
          m.journal.accesses ++ (before.map (·.granted m.bus) ++ [r.refused]) := by
  cases hs : (m.bus.serve plan).refused with
  | none =>
    obtain ⟨j, hok, hj⟩ := h.granted hs
    rw [hok]
    refine ⟨Bus.grant_eq_some_iff.mpr ⟨hs, rfl⟩, ?_⟩
    show j.accesses = _
    rw [hj, Bus.serve_accesses hplan hs, List.map_map]
    rfl
  | some t =>
    obtain ⟨j, herr, hj⟩ := h.refused t hs
    obtain ⟨before, after, rfl, hbefore, ht, hserve⟩ := Bus.serve_refused hs
    rw [List.map_append, List.map_cons] at hplan ⊢
    have hfirst : Request.ReadsFirst (before.map Attempt.request) :=
      (List.pairwise_append.mp hplan).1
    rw [herr, hserve]
    refine ⟨_, t.request, _, rfl, Bus.grant_eq_some_iff.mpr ⟨hbefore, rfl⟩, ht, rfl, ?_⟩
    show j.accesses = _
    rw [hj, hserve, Bus.serve_accesses hfirst hbefore, List.map_map]
    rfl

/-- A step that succeeds was granted its plan. -/
theorem Exec.accesses_of_ok {m m' : Machine β} {n : Nat} (h : step m = .ok n m') :
    m.bus.grant (m.cpu.plan m.bus) = some m'.bus ∧
    m'.journal.accesses = m.journal.accesses ++ (m.cpu.plan m.bus).map (·.granted m.bus) := by
  rcases step_plan m with ⟨opcode, hq, hr, hd⟩ | ⟨k, c, hstep⟩
  · obtain ⟨j, herr, -⟩ := step_illegal hq hr hd
    rw [h] at herr
    cases herr
  · have haccesses := hstep.accesses
      (by rw [Cpu.map_request_attempts]; exact m.cpu.readsFirst_plan m.bus)
    rw [h, Cpu.map_request_attempts] at haccesses
    exact haccesses

/-- A step that fails stops at an opcode that is not official, or at the first request of its plan
    that the bus refuses. -/
theorem Exec.accesses_of_error {m m' : Machine β} {e : CpuFault} (h : step m = .error e m') :
    (∃ opcode, m.cpu.dueInterrupt = none ∧ m.bus.read m.cpu.pc = .ok opcode ∧
      Instruction.decode? opcode = none ∧ e = .illegalOpcode opcode m.cpu.pc ∧ m'.bus = m.bus ∧
      m'.journal.accesses = m.journal.accesses ++ [.read m.cpu.pc (some opcode)]) ∨
    ∃ before r after, m.cpu.plan m.bus = before ++ r :: after ∧
      m.bus.grant before = some m'.bus ∧ m'.bus.answer r = none ∧ e = r.fault ∧
      m'.journal.accesses =
        m.journal.accesses ++ (before.map (·.granted m.bus) ++ [r.refused]) := by
  rcases step_plan m with ⟨opcode, hq, hr, hd⟩ | ⟨n, c, hstep⟩
  · obtain ⟨j, herr, hj⟩ := step_illegal hq hr hd
    rw [h] at herr
    cases herr
    exact .inl ⟨opcode, hq, hr, hd, rfl, rfl, hj⟩
  · have haccesses := hstep.accesses
      (by rw [Cpu.map_request_attempts]; exact m.cpu.readsFirst_plan m.bus)
    rw [h, Cpu.map_request_attempts] at haccesses
    exact .inr haccesses

/-- What a granted instruction does to the bus is what its operation writes. -/
theorem Instruction.grant_writes {i : Instruction} {c : Cpu} {b b' : Bus β}
    (h : b.grant (i.requests c b) = some b') :
    b.grant (i.operation.writes (i.operand c b) (i.taken c b) b) = some b' := by
  obtain ⟨reads, hreads, hsplit⟩ := i.requests_split c b
  rw [hsplit, Bus.grant_append] at h
  obtain ⟨b'', hr, hw⟩ := Option.bind_eq_some_iff.mp h
  obtain rfl := Bus.grant_of_reads hreads hr
  exact hw

end Console6502
