/-
  What the processor asks of the bus, and how the bus answers a row of requests.

  A request is a read, a read of the vector table, or a write.  `Bus.answer` is the bus after one
  request that it grants.  `Bus.serve` goes through a row of attempts, which are requests together
  with the processor that a refusal leaves behind, up to the first refusal.

  Reads leave the bus as it is.  Where every read of a row comes before every write
  (`ReadsFirst`), all its reads are answered from the bus at the start, so the entries that a
  granted row leaves in the journal are known beforehand (`serve_accesses`).
-/
import Console6502.Machine

namespace Console6502

/-- One thing asked of the bus.  A byte of the vector table is read like any other; only the error
    of a refusal tells the two apart. -/
inductive Request where
  | read (address : Word)
  | vector (vector : InterruptVector) (address : Word)
  | write (address : Word) (value : Byte)
deriving DecidableEq, Repr

/-- A request, and the processor that is left behind where it is refused. -/
structure Attempt where
  request : Request
  left : Cpu
deriving DecidableEq, Repr

/-- What came of a row of attempts: the entries in the journal, the bus, and the attempt that was
    refused, if one was. -/
structure Served (β : Type) where
  accesses : List Access
  bus : Bus β
  refused : Option Attempt

/-- Requests that all leave the same processor behind. -/
def Attempt.all (plan : List Request) (left : Cpu) : List Attempt := plan.map fun r => ⟨r, left⟩

theorem Attempt.map_request_all (plan : List Request) (left : Cpu) :
    (Attempt.all plan left).map Attempt.request = plan := by
  rw [Attempt.all, List.map_map]
  exact List.map_id plan

theorem Attempt.forall_all {P : Request → Prop} {plan : List Request} (h : ∀ r ∈ plan, P r)
    (left : Cpu) : ∀ t ∈ Attempt.all plan left, P t.request := by
  intro t ht
  obtain ⟨r, hr, rfl⟩ := List.mem_map.mp ht
  exact h r hr

variable {β : Type} [Board β]

namespace Bus

/-- The byte at an address, zero where the bus refuses to read it. -/
def peek (b : Bus β) (a : Word) : Byte :=
  match b.read a with
  | .ok v => v
  | .error _ => 0

/-- The word that the vector table holds. -/
def vectorWord (b : Bus β) (v : InterruptVector) : Word :=
  Word.ofBytes (b.peek v.address) (b.peek (v.address + 1))

/-- The bus after a request, if it grants it. -/
def answer (b : Bus β) : Request → Option (Bus β)
  | .read a | .vector _ a =>
    match b.read a with
    | .ok _ => some b
    | .error _ => none
  | .write a v =>
    match b.write a v with
    | .ok b' => some b'
    | .error _ => none

/-- The bus after a row of requests, if it grants them one after the other. -/
def grant (b : Bus β) : List Request → Option (Bus β)
  | [] => some b
  | r :: rest => (b.answer r).bind (·.grant rest)

end Bus

namespace Request

/-- The address that a request is about. -/
def address : Request → Word
  | read a | vector _ a | write a _ => a

/-- Whether a request would change something. -/
def isWrite : Request → Bool
  | write .. => true
  | _ => false

/-- The error that a refusal comes to. -/
def fault : Request → CpuFault
  | read a => .read a
  | vector v a => .vector v a
  | write a _ => .write a

/-- The entry of a granted request in the journal, its answer taken from this bus. -/
def granted (b : Bus β) : Request → Access
  | read a | vector _ a => .read a (some (b.peek a))
  | write a v => .write a v true

/-- The entry of a refused request in the journal. -/
def refused : Request → Access
  | read a | vector _ a => .read a none
  | write a v => .write a v false

/-- Both bytes of an entry of the vector table. -/
def vectorWord (v : InterruptVector) : List Request :=
  [.vector v v.address, .vector v (v.address + 1)]

/-- A word pushed with this stack pointer, high byte first. -/
def pushWord (sp : Byte) (w : Word) : List Request :=
  [.write (Cpu.stackCell sp) (Word.high w), .write (Cpu.stackCell (sp - 1)) (Word.low w)]

/-- A word pulled with this stack pointer, low byte first. -/
def pullWord (sp : Byte) : List Request :=
  [.read (Cpu.stackCell (sp + 1)), .read (Cpu.stackCell (sp + 2))]

/-- An entry through the vector table: its word, then the program counter and the status go onto
    the stack. -/
def entry (c : Cpu) (v : InterruptVector) (brk : Bool) : List Request :=
  vectorWord v ++ (pushWord c.sp c.pc ++
    [.write (Cpu.stackCell (c.sp - 2)) (c.status.stackByte brk)])

theorem vectorWord_are_reads (v : InterruptVector) : ∀ r ∈ vectorWord v, r.isWrite = false := by
  simp [vectorWord, isWrite]

theorem pullWord_are_reads (sp : Byte) : ∀ r ∈ pullWord sp, r.isWrite = false := by
  simp [pullWord, isWrite]

/-- No read comes behind a write. -/
def ReadsFirst (plan : List Request) : Prop := plan.Pairwise fun r s => r.isWrite → s.isWrite

theorem readsFirst_append {reads writes : List Request} (hr : ∀ r ∈ reads, r.isWrite = false)
    (hw : ∀ r ∈ writes, r.isWrite = true) : ReadsFirst (reads ++ writes) := by
  rw [ReadsFirst, List.pairwise_append]
  refine ⟨?_, ?_, ?_⟩
  · exact List.pairwise_of_forall_mem_list fun r h _ _ h' => by rw [hr r h] at h'; cases h'
  · exact List.pairwise_of_forall_mem_list fun _ _ s h _ => hw s h
  · intro r _ s h _
    exact hw s h

theorem granted_of_read {r : Request} (h : r.isWrite = false) (b : Bus β) :
    r.granted b = .read r.address (some (b.peek r.address)) := by
  cases r with
  | write a v => cases h
  | read a | vector v a => rfl

theorem refused_of_read {r : Request} (h : r.isWrite = false) :
    r.refused = .read r.address none := by
  cases r with
  | write a v => cases h
  | read a | vector v a => rfl

theorem granted_of_isWrite {r : Request} (h : r.isWrite = true) (b b' : Bus β) :
    r.granted b = r.granted b' := by
  cases r with
  | write a v => rfl
  | read a => cases h
  | vector v a => cases h

end Request

namespace Bus

/-- Goes through a row of attempts up to the first that is refused. -/
def serve (b : Bus β) : List Attempt → Served β
  | [] => ⟨[], b, none⟩
  | t :: rest =>
    match b.answer t.request with
    | some b' =>
      let s := b'.serve rest
      { s with accesses := t.request.granted b :: s.accesses }
    | none => ⟨[t.request.refused], b, some t⟩

theorem answer_of_read_ok {b : Bus β} {r : Request} {v : Byte} (hr : r.isWrite = false)
    (h : b.read r.address = .ok v) : b.answer r = some b := by
  cases r with
  | write a v => cases hr
  | read a | vector v a =>
    rw [Request.address] at h
    rw [answer, h]

theorem answer_of_read_error {b : Bus β} {r : Request} {e : BusFault} (hr : r.isWrite = false)
    (h : b.read r.address = .error e) : b.answer r = none := by
  cases r with
  | write a v => cases hr
  | read a | vector v a =>
    rw [Request.address] at h
    rw [answer, h]

theorem answer_of_write_ok {b b' : Bus β} {a : Word} {v : Byte} (h : b.write a v = .ok b') :
    b.answer (.write a v) = some b' := by
  rw [answer, h]

theorem answer_of_write_error {b : Bus β} {a : Word} {v : Byte} {e : BusFault}
    (h : b.write a v = .error e) : b.answer (.write a v) = none := by
  rw [answer, h]

theorem write_of_answer {b b' : Bus β} {a : Word} {v : Byte}
    (h : b.answer (.write a v) = some b') : b.write a v = .ok b' := by
  cases hw : b.write a v with
  | ok b'' =>
    rw [answer_of_write_ok hw] at h
    rw [Option.some.inj h]
  | error e =>
    rw [answer_of_write_error hw] at h
    cases h

theorem peek_of_read {b : Bus β} {a : Word} {v : Byte} (h : b.read a = .ok v) : b.peek a = v := by
  rw [peek, h]

theorem answer_read_bus {b b' : Bus β} {r : Request} (hr : r.isWrite = false)
    (h : b.answer r = some b') : b' = b := by
  cases r with
  | write a v => cases hr
  | read a | vector v a =>
    simp only [answer] at h
    split at h
    · exact (Option.some.inj h).symm
    · cases h

theorem serve_nil (b : Bus β) : b.serve [] = ⟨[], b, none⟩ := rfl

theorem serve_cons_of_some {b b' : Bus β} {t : Attempt} (h : b.answer t.request = some b')
    (rest : List Attempt) :
    b.serve (t :: rest) =
      ⟨t.request.granted b :: (b'.serve rest).accesses, (b'.serve rest).bus,
        (b'.serve rest).refused⟩ := by
  rw [serve, h]

theorem serve_cons_of_none {b : Bus β} {t : Attempt} (h : b.answer t.request = none)
    (rest : List Attempt) : b.serve (t :: rest) = ⟨[t.request.refused], b, some t⟩ := by
  rw [serve, h]

theorem serve_append_of_none {b : Bus β} {p : List Attempt} (h : (b.serve p).refused = none)
    (q : List Attempt) :
    b.serve (p ++ q) =
      ⟨(b.serve p).accesses ++ ((b.serve p).bus.serve q).accesses,
        ((b.serve p).bus.serve q).bus, ((b.serve p).bus.serve q).refused⟩ := by
  induction p generalizing b with
  | nil => rfl
  | cons t p ih =>
    cases ht : b.answer t.request with
    | none => rw [serve_cons_of_none ht] at h; cases h
    | some b' =>
      rw [serve_cons_of_some ht] at h
      rw [List.cons_append, serve_cons_of_some ht, serve_cons_of_some ht, ih h]
      rfl

theorem serve_append_of_some {b : Bus β} {p : List Attempt} {t : Attempt}
    (h : (b.serve p).refused = some t) (q : List Attempt) : b.serve (p ++ q) = b.serve p := by
  induction p generalizing b with
  | nil => cases h
  | cons u p ih =>
    cases hu : b.answer u.request with
    | none => rw [List.cons_append, serve_cons_of_none hu, serve_cons_of_none hu]
    | some b' =>
      rw [serve_cons_of_some hu] at h
      rw [List.cons_append, serve_cons_of_some hu, serve_cons_of_some hu, ih h]

/-- Reads leave the bus as it is, granted or not. -/
theorem serve_bus_of_reads {b : Bus β} {p : List Attempt}
    (h : ∀ t ∈ p, t.request.isWrite = false) : (b.serve p).bus = b := by
  induction p with
  | nil => rfl
  | cons t p ih =>
    obtain ⟨ht, hp⟩ := List.forall_mem_cons.mp h
    cases ha : b.answer t.request with
    | none => rw [serve_cons_of_none ha]
    | some b' =>
      rw [serve_cons_of_some ha]
      obtain rfl := answer_read_bus ht ha
      exact ih hp

theorem grant_append (b : Bus β) (p q : List Request) :
    b.grant (p ++ q) = (b.grant p).bind (·.grant q) := by
  induction p generalizing b with
  | nil => rfl
  | cons r p ih =>
    rw [List.cons_append, grant, grant]
    cases b.answer r with
    | none => rfl
    | some b' => exact ih b'

/-- Reads that are granted leave the bus as it is. -/
theorem grant_of_reads {b b' : Bus β} {p : List Request} (hp : ∀ r ∈ p, r.isWrite = false)
    (h : b.grant p = some b') : b' = b := by
  induction p with
  | nil => exact (Option.some.inj h).symm
  | cons r p ih =>
    obtain ⟨hr, hp⟩ := List.forall_mem_cons.mp hp
    rw [grant] at h
    obtain ⟨b'', ha, hg⟩ := Option.bind_eq_some_iff.mp h
    obtain rfl := answer_read_bus hr ha
    exact ih hp hg

/-- A row is granted as a whole exactly if nothing in it is refused. -/
theorem grant_eq_some_iff {b b' : Bus β} {p : List Attempt} :
    b.grant (p.map Attempt.request) = some b' ↔
      (b.serve p).refused = none ∧ (b.serve p).bus = b' := by
  induction p generalizing b with
  | nil => simp [grant, serve_nil]
  | cons t p ih =>
    rw [List.map_cons, grant]
    cases ha : b.answer t.request with
    | none => simp [serve_cons_of_none ha]
    | some b'' => rw [serve_cons_of_some ha, Option.bind_some, ih]

/-- A refusal splits the row into what was granted before it, the refused attempt, and what was
    never tried. -/
theorem serve_refused {b : Bus β} {p : List Attempt} {t : Attempt}
    (h : (b.serve p).refused = some t) :
    ∃ before after, p = before ++ t :: after ∧ (b.serve before).refused = none ∧
      (b.serve before).bus.answer t.request = none ∧
      b.serve p =
        ⟨(b.serve before).accesses ++ [t.request.refused], (b.serve before).bus, some t⟩ := by
  induction p generalizing b with
  | nil => cases h
  | cons u p ih =>
    cases hu : b.answer u.request with
    | none =>
      rw [serve_cons_of_none hu] at h ⊢
      obtain rfl := Option.some.inj h
      exact ⟨[], p, rfl, rfl, hu, rfl⟩
    | some b' =>
      rw [serve_cons_of_some hu] at h
      obtain ⟨before, after, rfl, hb, hn, hs⟩ := ih h
      refine ⟨u :: before, after, rfl, ?_, ?_, ?_⟩
      · rw [serve_cons_of_some hu, hb]
      · rw [serve_cons_of_some hu]
        exact hn
      · rw [serve_cons_of_some hu, serve_cons_of_some hu, hs]
        rfl

/-- What a granted row of writes enters into the journal does not depend on the bus. -/
theorem serve_accesses_of_writes {b : Bus β} {p : List Attempt}
    (hp : ∀ t ∈ p, t.request.isWrite = true) (h : (b.serve p).refused = none) (b₀ : Bus β) :
    (b.serve p).accesses = p.map fun t => t.request.granted b₀ := by
  induction p generalizing b with
  | nil => rfl
  | cons t p ih =>
    obtain ⟨ht, hp⟩ := List.forall_mem_cons.mp hp
    cases ha : b.answer t.request with
    | none => rw [serve_cons_of_none ha] at h; cases h
    | some b' =>
      rw [serve_cons_of_some ha] at h ⊢
      rw [List.map_cons, ih hp h, Request.granted_of_isWrite ht b b₀]

/-- What a granted row enters into the journal, if all its reads come first. -/
theorem serve_accesses {b : Bus β} {p : List Attempt}
    (hp : Request.ReadsFirst (p.map Attempt.request)) (h : (b.serve p).refused = none) :
    (b.serve p).accesses = p.map fun t => t.request.granted b := by
  induction p with
  | nil => rfl
  | cons t p ih =>
    rw [List.map_cons, Request.ReadsFirst, List.pairwise_cons] at hp
    obtain ⟨ht, hp⟩ := hp
    cases ha : b.answer t.request with
    | none => rw [serve_cons_of_none ha] at h; cases h
    | some b' =>
      rw [serve_cons_of_some ha] at h ⊢
      rw [List.map_cons]
      cases hw : t.request.isWrite with
      | false =>
        obtain rfl := answer_read_bus hw ha
        rw [ih hp h]
      | true =>
        have hall : ∀ u ∈ p, u.request.isWrite = true :=
          fun u hu => ht u.request (List.mem_map_of_mem hu) hw
        rw [serve_accesses_of_writes hall h b]

end Bus

end Console6502
