/-
  Boards that cannot be told apart.

  The processor and the outside see a board through single reads and writes only.  Where a relation
  of boards answers these alike and is kept by them (`Board.Simulation`), machines that differ in
  two such boards and in nothing else (`Machine.Twins`) go on alike, whatever is done to them
  (`Board.Simulation.congruence`).
-/
import Console6502.Proofs.Acts
import Console6502.Proofs.Primitives

namespace Console6502

variable {β : Type} [Board β]

/-- Related boards answer every transaction alike and stay related. -/
structure Board.Simulation (S : β → β → Prop) : Prop where
  read : ∀ {b b'}, S b b' → ∀ a, Board.read? b a = Board.read? b' a
  write : ∀ {b b'}, S b b' → ∀ a v, Option.Rel S (Board.write? b a v) (Board.write? b' a v)
  notice : ∀ {b b'}, S b b' → ∀ a v,
    ((Board.writeTarget? b a).bind fun t => Board.notice? b t v) =
      (Board.writeTarget? b' a).bind fun t => Board.notice? b' t v
  reset : ∀ {b b'}, S b b' → S (Board.reset b) (Board.reset b')

/-- What the primitives of the processor respect, all its work respects. -/
theorem Respects.of_made {R : Machine β → Machine β → Prop}
    (hcpu : ∀ {m m'}, R m m' → m.cpu = m'.cpu)
    (hupdate : ∀ (f : Cpu → Cpu) {m m'}, R m m' →
      R { m with cpu := f m.cpu } { m' with cpu := f m'.cpu })
    (hnote : ∀ (n : Notice) {m m'}, R m m' → R (m.note n) (m'.note n))
    (hread : ∀ a, Respects R (Machine.read a)) (hwrite : ∀ a v, Respects R (Machine.write a v))
    {α : Type} {x : Exec β α} (h : Exec.Made x) : Respects R x := by
  have hadapt : ∀ {γ : Type} {y : EStateM BusFault (Machine β) γ} (f : BusFault → CpuFault),
      Respects R y → Respects R (y.adaptExcept f) := by
    intro γ y f hy m m' hm
    have hagree := hy m m' hm
    unfold EStateM.adaptExcept
    generalize y m = r at hagree
    generalize y m' = r' at hagree
    cases hagree with
    | ok states => exact .ok states
    | error states => exact .error states
  induction h with
  | pure v => exact .pure v
  | throw e => exact fun _ _ hm => .error hm
  | bind _ _ ihx ihf => exact ihx.bind ihf
  | cpu =>
    intro m m' hm
    change Agree R (.ok m.cpu m) (.ok m'.cpu m')
    rw [hcpu hm]
    exact .ok hm
  | update g => exact fun _ _ hm => .ok (hupdate g hm)
  | note hn => exact fun _ _ hm => .ok (hnote _ hm)
  | adapted_read a f => exact hadapt f (hread a)
  | write a v => exact hadapt _ (hwrite a v)

variable {S : β → β → Prop}

/-! ## Buses -/

/-- Buses that differ in related boards and in nothing else. -/
structure Bus.Twins (S : β → β → Prop) (b b' : Bus β) : Prop where
  ram : b.ram = b'.ram
  picture : b.picture = b'.picture
  sound : b.sound = b'.sound
  board : Option.Rel S b.board b'.board

namespace Bus.Twins

variable {b b' : Bus β}

omit [Board β] in
/-- Both slots are empty, or both hold a board. -/
theorem slots (h : Twins S b b') :
    (b.board = none ∧ b'.board = none) ∨
      ∃ board board', b.board = some board ∧ b'.board = some board' ∧ S board board' := by
  have hboard := h.board
  generalize b.board = slot at hboard
  generalize b'.board = slot' at hboard
  cases hboard with
  | none => exact .inl ⟨rfl, rfl⟩
  | some related => exact .inr ⟨_, _, rfl, rfl, related⟩

theorem read (h : Twins S b b') (hS : Board.Simulation S) (a : Word) : b.read a = b'.read a := by
  have hboard : b.board.bind (Board.read? · a) = b'.board.bind (Board.read? · a) := by
    rcases h.slots with ⟨hb, hb'⟩ | ⟨board, board', hb, hb', related⟩
    · rw [hb, hb']
    · rw [hb, hb']
      exact hS.read related a
  rw [Bus.read, Bus.read, h.ram, h.picture, h.sound, hboard]

/-- A write is accepted by both buses, which stay twins, or by neither. -/
theorem write (h : Twins S b b') (hS : Board.Simulation S) (a : Word) (v : Byte) :
    (∃ c c', b.write a v = .ok c ∧ b'.write a v = .ok c' ∧ Twins S c c') ∨
      ∃ e, b.write a v = .error e ∧ b'.write a v = .error e := by
  have hboard : Option.Rel S (b.board.bind (Board.write? · a v))
      (b'.board.bind (Board.write? · a v)) := by
    rcases h.slots with ⟨hb, hb'⟩ | ⟨board, board', hb, hb', related⟩
    · rw [hb, hb']
      exact .none
    · rw [hb, hb']
      exact hS.write related a v
  unfold Bus.write
  cases AddressRegion.of a with
  | ram => exact .inl ⟨_, _, rfl, rfl, h.ram ▸ rfl, h.picture, h.sound, h.board⟩
  | picture => exact .inl ⟨_, _, rfl, rfl, h.ram, h.picture ▸ rfl, h.sound, h.board⟩
  | sound => exact .inl ⟨_, _, rfl, rfl, h.ram, h.picture, h.sound ▸ rfl, h.board⟩
  | testMode => exact .inl ⟨_, _, rfl, rfl, h⟩
  | cartridge =>
    generalize b.board.bind (Board.write? · a v) = r at hboard
    generalize b'.board.bind (Board.write? · a v) = r' at hboard
    cases hboard with
    | none => exact .inr ⟨_, rfl, rfl⟩
    | some related => exact .inl ⟨_, _, rfl, rfl, h.ram, h.picture, h.sound, .some related⟩

theorem writeNotice? (h : Twins S b b') (hS : Board.Simulation S) (a : Word) (v : Byte) :
    b.writeNotice? a v = b'.writeNotice? a v := by
  unfold Bus.writeNotice?
  cases AddressRegion.of a with
  | ram | picture | sound | testMode => rfl
  | cartridge =>
    rcases h.slots with ⟨hb, hb'⟩ | ⟨board, board', hb, hb', related⟩
    · rw [hb, hb']
    · rw [hb, hb']
      exact hS.notice related a v

theorem reset (h : Twins S b b') (hS : Board.Simulation S) : Twins S b.reset b'.reset := by
  refine ⟨rfl, rfl, rfl, ?_⟩
  change Option.Rel S (b.board.map Board.reset) (b'.board.map Board.reset)
  rcases h.slots with ⟨hb, hb'⟩ | ⟨board, board', hb, hb', related⟩
  · rw [hb, hb']
    exact .none
  · rw [hb, hb']
    exact .some (hS.reset related)

theorem react (h : Twins S b b') (hS : Board.Simulation S) (event : BusEvent) :
    Twins S (b.react event) (b'.react event) := by
  cases event with
  | write a v =>
    rw [Bus.react, Bus.react]
    rcases h.write hS a v with ⟨c, c', hc, hc', htwins⟩ | ⟨e, he, he'⟩
    · rw [hc, hc']
      exact htwins
    · rw [he, he']
      exact h
  | setPicture i v => exact ⟨h.ram, congrArg (·.setCell i v) h.picture, h.sound, h.board⟩
  | setSound i v => exact ⟨h.ram, h.picture, congrArg (·.setCell i v) h.sound, h.board⟩
  | reset => exact h.reset hS

end Bus.Twins

/-! ## Machines -/

/-- Machines that differ in related boards and in nothing else. -/
structure Machine.Twins (S : β → β → Prop) (m m' : Machine β) : Prop where
  cpu : m.cpu = m'.cpu
  bus : Bus.Twins S m.bus m'.bus
  journal : m.journal = m'.journal

namespace Machine.Twins

variable {m m' : Machine β}

omit [Board β] in
theorem record (h : Twins S m m') (access : Access) (notice : Option Notice) :
    Twins S (m.record access notice) (m'.record access notice) := by
  have hjournal : (m.record access notice).journal = (m'.record access notice).journal := by
    rw [Machine.record_journal, Machine.record_journal, h.journal]
  rw [Machine.record_eq m, Machine.record_eq m']
  exact ⟨h.cpu, h.bus, hjournal⟩

omit [Board β] in
theorem note (h : Twins S m m') (n : Notice) : Twins S (m.note n) (m'.note n) :=
  ⟨h.cpu, h.bus, congrArg (fun j => Event.notice n :: j) h.journal⟩

omit [Board β] in
theorem update (h : Twins S m m') (f : Cpu → Cpu) :
    Twins S { m with cpu := f m.cpu } { m' with cpu := f m'.cpu } :=
  ⟨congrArg f h.cpu, h.bus, h.journal⟩

theorem respects_read (hS : Board.Simulation S) (a : Word) :
    Respects (Twins S) (Machine.read (β := β) a) := by
  intro m m' h
  unfold Machine.read
  rw [h.bus.read hS a]
  cases m'.bus.read a with
  | ok v => exact .ok (h.record _ _)
  | error e => exact .error (h.record _ _)

theorem respects_write (hS : Board.Simulation S) (a : Word) (v : Byte) :
    Respects (Twins S) (Machine.write (β := β) a v) := by
  intro m m' h
  unfold Machine.write
  rw [h.bus.writeNotice? hS a v]
  rcases h.bus.write hS a v with ⟨c, c', hc, hc', htwins⟩ | ⟨e, he, he'⟩
  · rw [hc, hc']
    have hrecord := h.record (.write a v true) (m'.bus.writeNotice? a v)
    exact .ok ⟨hrecord.cpu, htwins, hrecord.journal⟩
  · rw [he, he']
    exact .error (h.record _ _)

theorem resetBus (h : Twins S m m') (hS : Board.Simulation S) :
    Twins S m.resetBus m'.resetBus := by
  have hpresent : m.bus.board.isSome = m'.bus.board.isSome := by
    rcases h.bus.slots with ⟨hb, hb'⟩ | ⟨board, board', hb, hb', -⟩
    · rw [hb, hb']
    · rw [hb, hb', Option.isSome_some, Option.isSome_some]
  refine ⟨h.cpu, h.bus.reset hS, ?_⟩
  simp only [Machine.resetBus, hpresent, h.journal]

theorem attach (h : Twins S m m') (hrefl : ∀ b, S b b) (board : β) :
    Twins S (m.attach board) (m'.attach board) :=
  ⟨h.cpu, ⟨h.bus.ram, h.bus.picture, h.bus.sound, .some (hrefl board)⟩,
    congrArg (fun j => Event.notice (.attached (Board.number board)) :: j) h.journal⟩

end Machine.Twins

theorem Machine.Twins.respects_made (hS : Board.Simulation S) {α : Type} {x : Exec β α}
    (h : Exec.Made x) : Respects (Twins S) x :=
  .of_made Twins.cpu (fun f _ _ h => h.update f) (fun n _ _ h => h.note n) (respects_read hS)
    (respects_write hS) h

/-- Everything that happens to machines in a console respects that they are twins. -/
theorem Board.Simulation.congruence (hS : Board.Simulation S) :
    Machine.Congruence (Machine.Twins S) where
  step := Machine.Twins.respects_made hS .step
  reset sp := Machine.Twins.respects_made hS (.reset sp)
  read := Machine.Twins.respects_read hS
  write := Machine.Twins.respects_write hS
  update f _ _ h := h.update f
  react event _ _ h := ⟨h.cpu, h.bus.react hS event, h.journal⟩
  resetBus h := h.resetBus hS
  halt e c d hhandler h := by
    refine ⟨h.cpu, h.bus, ?_⟩
    simp only [Console.halt, Machine.note, h.cpu, h.journal, hhandler]

end Console6502
