/-
  The status as a byte, live and pushed.

  Two facts hold of the live status in every run.  Bit 5 is one, because each of the ways in which
  the register is written puts it on or leaves it on (`Status.Written`), those of the instructions
  (`Operation.alwaysOn_outcome`) as those from outside.  Bit 4 is no latch of the processor: it is
  zero behind a reset, and no step sets it, because PLP and RTI drop it from what they pull and no
  instruction names it.  It exists in pushed bytes only, where it tells PHP and BRK from an interrupt
  (`Machine.PushesStatus`).

  What an operation, an entry and a reset keep of the status, every act keeps (`Status.Kept`); the
  two facts are two instances.
-/
import Console6502.Proofs.Acts
import Console6502.Proofs.InterruptMask
import Console6502.Proofs.StopCauses

namespace Console6502

/-- No instruction names the break bit; PLP and RTI replace the whole status. -/
theorem Instruction.brk_of_decode? {opcode : Byte} {i : Instruction} (h : decode? opcode = some i) :
    .brk ∉ i.operation.affects ∨ i.operation = .pullStatus ∨ i.operation = .returnFromInterrupt :=
  of_decode? (P := fun i => .brk ∉ i.operation.affects ∨ i.operation = .pullStatus ∨
    i.operation = .returnFromInterrupt) (by decide +kernel) h

/-! ## Pushed bytes -/

namespace Status

/-- The byte that is pushed for a status: bit 4 tells an instruction from an interrupt, bit 5 is one,
    and the other six are the live bits. -/
structure PushedAs (s : Status) (brk : Bool) (p : Byte) : Prop where
  bit4 : p.getLsbD 4 = brk
  bit5 : p.getLsbD 5 = true
  others : ∀ k, k ≠ 4 → k ≠ 5 → p.getLsbD k = s.toByte.getLsbD k

theorem pushedAs_stackByte {s : Status} (hs : s.get .alwaysOn = true) (brk : Bool) :
    s.PushedAs brk (s.stackByte brk) where
  bit4 := by
    have hget := getLsbD_toByte (s.set .brk brk) .brk
    rw [get_set_self, show (Flag.brk == Flag.alwaysOn) = false from rfl, Bool.or_false] at hget
    exact hget
  bit5 := (getLsbD_toByte (s.set .brk brk) .alwaysOn).trans (s.get_set_alwaysOn hs .brk brk)
  others k h4 h5 := by
    by_cases hk : k < 8
    · obtain ⟨f, rfl⟩ := Flag.exists_bit hk
      have hbrk : Flag.brk ≠ f := by rintro rfl; exact h4 rfl
      have hon : f ≠ .alwaysOn := by rintro rfl; exact h5 rfl
      rw [stackByte, getLsbD_toByte, getLsbD_toByte, s.get_set_of_ne hbrk hon]
    · rw [BitVec.getLsbD_of_ge _ k (Nat.not_lt.mp hk), BitVec.getLsbD_of_ge _ k (Nat.not_lt.mp hk)]

/-! ## Writing the register -/

/-- What the register can be written to from outside: it is loaded with a byte, or set to power-on,
    to a result or to what was pulled, or one flag is switched. -/
inductive Written (s : Status) : Status → Prop
  | kept : s.Written s
  | powerOn : s.Written {}
  | loaded (b : Byte) : s.Written (.ofByte b)
  | pulled (b : Byte) : s.Written (.ofStackByte b)
  | switched (f : Flag) (on : Bool) : s.Written (s.set f on)
  | judged (v : Byte) : s.Written (s.ofResult v)

/-- Every one of these ways keeps bit 5 on. -/
theorem Written.alwaysOn {s t : Status} (h : s.Written t) (hs : s.get .alwaysOn = true) :
    t.get .alwaysOn = true := by
  cases h with
  | kept => exact hs
  | powerOn => rfl
  | loaded b => simp [get_ofByte]
  | pulled b => exact alwaysOn_ofStackByte b
  | switched f on => exact s.get_set_alwaysOn hs f on
  | judged v => exact get_set_alwaysOn _ (s.get_set_alwaysOn hs _ _) _ _

/-- A fact of the status that is true at power-on, and that no entry and no instruction can end. -/
structure Kept (P : Status → Prop) : Prop where
  powerOn : P {}
  entry : ∀ s : Status, P s → P (s.set .interruptDisable true)
  outcome : ∀ {β : Type} [Board β] {opcode : Byte} {i : Instruction},
    Instruction.decode? opcode = some i → ∀ (operand : Operand) (c : Cpu) (b : Bus β),
      P c.status → P (i.operation.outcome operand c b).status

theorem kept_alwaysOn : Kept fun s => s.get .alwaysOn = true where
  powerOn := rfl
  entry s hs := s.get_set_alwaysOn hs _ _
  outcome {_ _ _ i} _ operand _ b hc := i.operation.alwaysOn_outcome operand hc b

/-- The break bit is no latch. -/
theorem kept_brk : Kept fun s => s.brk = false where
  powerOn := rfl
  entry s hs := by simpa using hs
  outcome {_ _ opcode i} h operand c b hc := by
    rcases Instruction.brk_of_decode? h with hflag | hpulls
    · exact (Operation.get_status_outcome hflag (by decide) operand c b).trans hc
    · -- what is pulled comes without its bit 4
      rcases hpulls with hop | hop <;> rw [hop] <;> exact get_set_self _ _ _

end Status

/-! ## Steps, resets and other acts -/

variable {β : Type} [Board β]

namespace Machine

variable {m m' : Machine β} {n : Nat}

theorem cpu_read (m : Machine β) (a : Word) : (stateAfter (read a) m).cpu = m.cpu := by
  unfold stateAfter read
  cases m.bus.read a <;> (dsimp only; rw [record_eq])

theorem cpu_write (m : Machine β) (a : Word) (v : Byte) :
    (stateAfter (write a v) m).cpu = m.cpu := by
  unfold stateAfter write
  cases m.bus.write a v <;> (dsimp only; rw [record_eq])

theorem status_of_reset {sp : Byte} (h : Exec.reset sp m = .ok () m') : m'.cpu.status = {} := by
  obtain ⟨-, -, hcpu, -⟩ := (Exec.Follows.reset sp).ok h
  rw [hcpu]
  rfl

end Machine

namespace Status.Kept

open Machine

variable {P : Status → Prop} (hP : Kept P) {m : Machine β}

include hP

/-- A step keeps the fact, whether it succeeds or fails. -/
theorem step (hm : P m.cpu.status) : P (stateAfter Exec.step m).cpu.status := by
  cases hstep : Exec.step m with
  | error e m' =>
    rw [stateAfter_of_error hstep, Exec.status_of_error hstep]
    exact hm
  | ok n m' =>
    rw [stateAfter_of_ok hstep]
    rcases entered_or_executed hstep with ⟨v, hentered⟩ | ⟨i, hexecuted⟩
    · rw [hentered.status]
      exact hP.entry _ hm
    · obtain ⟨operand, c, hc, hstatus⟩ := hexecuted.status
      rw [hstatus]
      refine hP.outcome (Bus.read_of_instruction? hexecuted.instruction).2 operand c m.bus ?_
      rw [hc]
      exact hm

theorem reset (sp : Byte) (hm : P m.cpu.status) :
    P (stateAfter (Exec.reset sp) m).cpu.status := by
  cases hreset : Exec.reset sp m with
  | ok u m' =>
    rw [stateAfter_of_ok hreset, status_of_reset hreset]
    exact hP.powerOn
  | error e m' =>
    have hreads := Attempt.forall_all (Request.vectorWord_are_reads .reset) m.cpu
    obtain ⟨t, ht, -, hcpu, -⟩ := (Exec.Follows.reset sp).error_of_reads hreads hreset
    obtain ⟨r, -, rfl⟩ := List.mem_map.mp ht
    rw [stateAfter_of_error hreset, hcpu]
    exact hm

/-- An act keeps the fact, if it does so in what it does to the processor from outside. -/
theorem undertake {act : Act} (hact : ∀ f, act = .adjust f → ∀ c, P c.status → P (f c).status)
    (hm : P m.cpu.status) : P (m.undertake act).2.cpu.status := by
  cases act with
  | step =>
    rw [Machine.undertake, respond_state]
    exact hP.step hm
  | runFor budget =>
    rw [Machine.undertake, respond_state]
    exact runFor_invariant (P := fun m => P m.cpu.status) (fun m hm => hP.step hm) budget m hm
  | reset sp =>
    rw [Machine.undertake, respond_state]
    exact hP.reset sp hm
  | adjust f => exact hact f rfl m.cpu hm
  | event event =>
    cases event with
    | write a v =>
      rw [Machine.undertake, hear, respond_state, cpu_write]
      exact hm
    | setPicture i v | setSound i v | reset => exact hm
  | read a =>
    rw [Machine.undertake, respond_state, cpu_read]
    exact hm

end Status.Kept

namespace Machine

variable {m m' : Machine β} {n : Nat}

/-! ## What a step pushes -/

/-- The step from here pushes the status as the last thing that it does on the bus, so that the byte
    lies above the stack pointer.  If it fails it writes nothing. -/
def PushesStatus (m : Machine β) (brk : Bool) : Prop :=
  match Exec.step m with
  | .ok _ m' => ∃ p, m.cpu.status.PushedAs brk p ∧
      m.LastAccess m' (.write (BitVec.ofNat 16 (0x0100 + (m'.cpu.sp + 1).toNat)) p true) ∧
      m'.bus.peek (BitVec.ofNat 16 (0x0100 + (m'.cpu.sp + 1).toNat)) = p
  | .error _ m' => m'.bus = m.bus ∧
      ∃ l, m'.journal.accesses = m.journal.accesses ++ l ∧ ∀ a v accepted, .write a v accepted ∉ l

end Machine

namespace Exec

variable {m m' : Machine β} {n : Nat}

/-- Where the plan of a step ends with a push, that is its last access. -/
theorem last_write (h : step m = .ok n m') {front : List Request} {s p : Byte}
    (hplan : m.cpu.plan m.bus = front ++ [.write (Cpu.stackCell s) p]) :
    m.LastAccess m' (.write (Cpu.stackCell s) p true) ∧ m'.bus.peek (Cpu.stackCell s) = p := by
  obtain ⟨hgrant, hlast⟩ := accesses_of_ok h
  rw [hplan, List.map_append] at hlast
  rw [hplan, Bus.grant_append] at hgrant
  obtain ⟨b, -, hgrant⟩ := Option.bind_eq_some_iff.mp hgrant
  obtain ⟨b', hwrite, hgrant⟩ := Option.bind_eq_some_iff.mp hgrant
  obtain rfl := Option.some.inj hgrant
  refine ⟨⟨_, hlast⟩, ?_⟩
  rw [Bus.peek_of_stack_write hwrite, if_pos rfl]

/-- A step whose plan writes RAM only writes nothing if it fails. -/
theorem writes_nothing {e : CpuFault} (h : step m = .error e m')
    (hram : ∀ r ∈ m.cpu.plan m.bus, r.isWrite = true → AddressRegion.of r.address = .ram) :
    m'.bus = m.bus ∧
      ∃ l, m'.journal.accesses = m.journal.accesses ++ l ∧
        ∀ a v accepted, .write a v accepted ∉ l := by
  rcases accesses_of_error h with ⟨opcode, -, -, -, -, hbus, hlast⟩ |
    ⟨before, r, after, hplan, hgrant, hrefused, -, hlast⟩
  · exact ⟨hbus, _, hlast, by simp⟩
  · have hread : r.isWrite = false := by
      by_contra hwrite
      have hmem : r ∈ m.cpu.plan m.bus := by
        rw [hplan]
        exact List.mem_append_right before (List.mem_cons_self ..)
      obtain ⟨b', hb'⟩ :=
        Bus.answer_of_ram (b := m'.bus) (hram r hmem (by simpa using hwrite))
      rw [hb'] at hrefused
      cases hrefused
    have hfirst := m.cpu.readsFirst_plan m.bus
    rw [hplan] at hfirst
    have hbefore := hfirst.before hread
    refine ⟨Bus.grant_of_reads hbefore hgrant, _, hlast, fun a v accepted hmem => ?_⟩
    rcases List.mem_append.mp hmem with hmem | hmem
    · obtain ⟨s, hs, heq⟩ := List.mem_map.mp hmem
      rw [Request.granted_of_read (hbefore s hs)] at heq
      cases heq
    · rw [Request.refused_of_read hread] at hmem
      cases List.mem_singleton.mp hmem

end Exec

theorem Request.pushWord_in_ram (sp : Byte) (w : Word) :
    ∀ r ∈ pushWord sp w, AddressRegion.of r.address = .ram := by
  simp [pushWord, address, AddressRegion.of_stackCell]

namespace Machine

variable {m m' : Machine β} {n : Nat} {brk : Bool}

/-- A step pushes the status where its plan ends with that push, behind reads and other pushes. -/
theorem pushesStatus_of_plan {reads pushes : List Request} {s : Byte}
    (hon : m.cpu.status.get .alwaysOn = true)
    (hplan : m.cpu.plan m.bus =
      reads ++ (pushes ++ [.write (Cpu.stackCell s) (m.cpu.status.stackByte brk)]))
    (hreads : ∀ r ∈ reads, r.isWrite = false)
    (hpushes : ∀ r ∈ pushes, AddressRegion.of r.address = .ram)
    (hsp : ∀ n m', Exec.step m = .ok n m' → m'.cpu.sp + 1 = s) : m.PushesStatus brk := by
  unfold PushesStatus
  cases hstep : Exec.step m with
  | ok n m' =>
    obtain rfl := hsp n m' hstep
    rw [← List.append_assoc] at hplan
    obtain ⟨hlast, hpeek⟩ := Exec.last_write hstep hplan
    rw [Cpu.stackCell_eq] at hlast hpeek
    exact ⟨_, Status.pushedAs_stackByte hon brk, hlast, hpeek⟩
  | error e m' =>
    refine Exec.writes_nothing hstep fun r hr hwrite => ?_
    rw [hplan] at hr
    rcases List.mem_append.mp hr with hr | hr
    · rw [hreads r hr] at hwrite
      cases hwrite
    rcases List.mem_append.mp hr with hr | hr
    · exact hpushes r hr
    · rw [List.mem_singleton.mp hr]
      exact AddressRegion.of_stackCell s

/-- An entry pushes the status with bit 4 clear. -/
theorem Enters.pushesStatus {v : InterruptVector} (h : m.Enters v)
    (hon : m.cpu.status.get .alwaysOn = true) : m.PushesStatus false := by
  have hdue := enters_iff.mp h
  refine pushesStatus_of_plan (s := m.cpu.sp - 2) hon ?_ (Request.vectorWord_are_reads v)
    (Request.pushWord_in_ram m.cpu.sp m.cpu.pc) fun n m' hstep => ?_
  · rw [Cpu.plan, hdue]
    rfl
  · rw [Enters, hstep] at h
    rw [h.2.holdsReturn.2]
    bv_omega

/-- An instruction pushes the status where its operation writes it last, behind other pushes. -/
theorem IsAt.pushesStatus {operation : Operation} (h : m.IsAt operation)
    (hon : m.cpu.status.get .alwaysOn = true)
    (pushes : Cpu → List Request) {k : Byte}
    (hwrites : ∀ operand c, operation.writes operand c m.bus =
      pushes c ++ [.write (Cpu.stackCell (c.sp - k)) (c.status.stackByte brk)])
    (hpushes : ∀ c, ∀ r ∈ pushes c, AddressRegion.of r.address = .ram)
    (hsp : ∀ operand c, (operation.outcome operand c m.bus).sp + 1 = c.sp - k) :
    m.PushesStatus brk := by
  obtain ⟨hq, i, hi, rfl⟩ := id h
  have htaken : (i.taken m.cpu m.bus).sp = m.cpu.sp ∧
      (i.taken m.cpu m.bus).status = m.cpu.status := by
    rw [Instruction.taken, Cpu.taking_frame]
    exact ⟨rfl, rfl⟩
  obtain ⟨reads, hreads, hrequests⟩ := i.requests_split m.cpu m.bus
  refine pushesStatus_of_plan (s := m.cpu.sp - k) hon ?_ hreads (hpushes (i.taken m.cpu m.bus))
    fun n m' hstep => ?_
  · rw [Cpu.plan, hq, hi]
    simp only
    rw [hrequests, hwrites, htaken.1, htaken.2]
  · obtain ⟨-, ⟨v, hv, -⟩ | ⟨j, -, hj, -, hcpu⟩⟩ := Exec.step_ok_cases hstep
    · rw [hq] at hv
      cases hv
    · obtain rfl := Option.some.inj (hi.symm.trans hj)
      rw [hcpu, ← htaken.1]
      exact hsp _ _

theorem IsAt.pushesStatus_of_php (h : m.IsAt .pushStatus)
    (hon : m.cpu.status.get .alwaysOn = true) : m.PushesStatus true := by
  have hzero : ∀ sp : Byte, sp - 0 = sp := by
    intro sp
    bv_omega
  refine h.pushesStatus hon (fun _ => []) (k := 0) (fun operand c => ?_) (fun c => nofun)
    fun operand c => ?_
  · rw [Operation.writes, hzero]
    rfl
  · change c.sp - 1 + 1 = c.sp - 0
    bv_omega

theorem IsAt.pushesStatus_of_brk (h : m.IsAt .brk)
    (hon : m.cpu.status.get .alwaysOn = true) : m.PushesStatus true := by
  refine h.pushesStatus hon (fun c => Request.pushWord c.sp (c.pc + 1)) (k := 2)
    (fun operand c => rfl) (fun c => Request.pushWord_in_ram c.sp (c.pc + 1)) fun operand c => ?_
  change c.sp - 3 + 1 = c.sp - 2
  bv_omega

/-! ## Runs -/

/-- What a run starts from: a new processor, or what a reset sequence has left. -/
def Fresh (m : Machine β) : Prop := m.cpu = {} ∨ ∃ sp m₀, Exec.reset sp m₀ = .ok () m

theorem Fresh.status (h : m.Fresh) : m.cpu.status = {} := by
  rcases h with hnew | ⟨sp, m₀, hreset⟩
  · rw [hnew]
  · exact status_of_reset hreset

/-- What is kept of the status holds in every run from such a start. -/
theorem Fresh.acts {P : Status → Prop} (h : m.Fresh) (hP : Status.Kept P) {past : List Act}
    (hpast : ∀ act ∈ past, ∀ f, act = .adjust f → ∀ c, P c.status → P (f c).status) :
    P (m.acts past).cpu.status := by
  refine acts_invariant (P := fun m => P m.cpu.status)
    (fun act hact m hm => hP.undertake (hpast act hact) hm) ?_
  rw [h.status]
  exact hP.powerOn

end Machine

/-- An act that does not reach into the status from outside. -/
def Act.LeavesStatus : Act → Prop
  | adjust f => ∀ c, (f c).status = c.status
  | _ => True

/-- An act that writes the status, if it does, in one of the ways that there are to write it. -/
def Act.WritesStatus : Act → Prop
  | adjust f => ∀ c : Cpu, c.status.Written (f c).status
  | _ => True

namespace Machine

variable {m : Machine β}

theorem alwaysOn_acts (h : m.Fresh) {past : List Act} (hpast : ∀ act ∈ past, act.WritesStatus) :
    (m.acts past).cpu.status.get .alwaysOn = true := by
  refine h.acts Status.kept_alwaysOn fun act hact f hf c hc => ?_
  have hwritten := hpast act hact
  rw [hf] at hwritten
  exact (hwritten c).alwaysOn hc

theorem brk_acts (h : m.Fresh) {past : List Act} (hpast : ∀ act ∈ past, act.LeavesStatus) :
    (m.acts past).cpu.status.brk = false := by
  refine h.acts Status.kept_brk fun act hact f hf c hc => ?_
  have hleaves := hpast act hact
  rw [hf] at hleaves
  rw [hleaves c]
  exact hc

/-- In a run of steps, resets, changes of the interrupt inputs and other acts that leave the status
    alone, bit 5 of the live status is one and bit 4 is zero, whatever PLP and RTI pull.

    Bit 5 is one also where the run writes the status from outside, loading it with any byte or
    switching any of its flags.  In such a run, PHP and BRK push the live status with bits 4 and 5
    set, and an entry pushes it with bit 4 clear and bit 5 set; the six other bits are those from
    before the step. -/
theorem status_register (start : Machine β) (hstart : start.Fresh) :
    (∀ past : List Act, (∀ act ∈ past, act.LeavesStatus) →
      (start.acts past).cpu.status.toByte.getLsbD 5 = true ∧
        (start.acts past).cpu.status.toByte.getLsbD 4 = false) ∧
    ∀ past : List Act, (∀ act ∈ past, act.WritesStatus) →
      let m := start.acts past
      m.cpu.status.toByte.getLsbD 5 = true ∧
      (m.IsAt .pushStatus → m.PushesStatus true) ∧ (m.IsAt .brk → m.PushesStatus true) ∧
      ∀ v, m.Enters v → m.PushesStatus false := by
  have hbit5 : ∀ past : List Act, (∀ act ∈ past, act.WritesStatus) →
      (start.acts past).cpu.status.get .alwaysOn = true := fun past => alwaysOn_acts hstart
  refine ⟨fun past hpast => ⟨?_, ?_⟩, fun past hpast => ⟨?_, ?_, ?_, ?_⟩⟩
  · refine (Status.getLsbD_toByte _ .alwaysOn).trans (hbit5 past fun act hact => ?_)
    have hleaves := hpast act hact
    cases act with
    | adjust f =>
      intro c
      rw [hleaves c]
      exact .kept
    | _ => trivial
  · exact (Status.getLsbD_toByte _ .brk).trans (brk_acts hstart hpast)
  · exact (Status.getLsbD_toByte _ .alwaysOn).trans (hbit5 past hpast)
  · exact fun h => h.pushesStatus_of_php (hbit5 past hpast)
  · exact fun h => h.pushesStatus_of_brk (hbit5 past hpast)
  · exact fun v h => h.pushesStatus (hbit5 past hpast)

/-- A machine that is at PHP, PLP and BRK behind its reset, one after the other, and whose vectors
    all lead back there. -/
def pushing : Machine Nrom where
  bus := { board := some (Nrom.ofImage #[0x08, 0x28, 0x00, 0x80, 0x00, 0x80, 0x00, 0x80] 0) }

/-- It pushes its status with bit 4 set, also where that was loaded with zero, pulls that byte with
    bit 4 dropped, and pushes it with bit 4 set again, or clear where an NMI has been requested
    before. -/
theorem pushing_status :
    let load : Act := .adjust fun c => { c with status := .ofByte 0x00 }
    let ready := pushing.acts [.reset 0xFD, load]
    let pulled := pushing.acts [.reset 0xFD, .step, .step]
    pushing.Fresh ∧ ready.PushesStatus true ∧
      (ready.acts [.step]).bus.peek 0x01FD = 0x30 ∧
      pulled.cpu.status.toByte.getLsbD 5 = true ∧ pulled.cpu.status.toByte.getLsbD 4 = false ∧
      pulled.PushesStatus true ∧
      (pushing.acts [.reset 0xFD, .step, .step, .adjust Cpu.latchNmi]).PushesStatus false := by
  obtain ⟨hleaves, hwrites⟩ := pushing.status_register (.inl rfl)
  obtain ⟨h5, h4⟩ := hleaves [.reset 0xFD, .step, .step] (by simp [Act.LeavesStatus])
  obtain ⟨-, hphp, -⟩ := hwrites
    [.reset 0xFD, .adjust fun c => { c with status := .ofByte 0x00 }]
    (by simp [Act.WritesStatus, Status.Written.loaded])
  obtain ⟨-, -, hbrk, -⟩ := hwrites [.reset 0xFD, .step, .step] (by simp [Act.WritesStatus])
  obtain ⟨-, -, -, hentry⟩ := hwrites [.reset 0xFD, .step, .step, .adjust Cpu.latchNmi]
    (by simp [Act.WritesStatus, Cpu.latchNmi, Status.Written.kept])
  exact ⟨.inl rfl, hphp ⟨rfl, _, rfl, rfl⟩, by decide +kernel, h5, h4, hbrk ⟨rfl, _, rfl, rfl⟩,
    hentry .nmi (enters_of_due rfl)⟩

end Machine

end Console6502
