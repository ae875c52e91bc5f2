/-
  The stack as a list.

  A row of pushes and pulls, of bytes and of words, does to the stack in page one what it does to a
  list of bytes: it gets the same replies, and the list lies above the stack pointer
  (`Exec.stack_lifo`).  The pointer is a byte and may pass the end of the page in the middle of a
  word.  This does no harm as long as no more than 256 bytes are on the list, since a push then
  writes a cell that holds none of them (`Ram.StackAbove.write`).

  `Machine.Stacked` says all that has happened to a machine when some bytes are on its stack.  Each
  act keeps it, with the list that the act leaves (`Stacked.perform`), and so does any row of acts
  that fits (`Stacked.performAll`).
-/
import Console6502.Proofs.BusCells
import Console6502.Proofs.ReturnTransparency

namespace Console6502

/-- What can be done to the stack. -/
inductive StackAct where
  | push (v : Byte)
  | pull
  | pushWord (w : Word)
  | pullWord
deriving DecidableEq, Repr

/-- What comes of it. -/
inductive StackReply where
  | done
  | byte (v : Byte)
  | word (w : Word)
deriving DecidableEq, Repr

namespace StackAct

/-! ## On a list -/

/-- An act on a list of bytes, the one pushed last in front: the reply and the list behind it.
    There is none where the act pulls more than there is. -/
def onList : StackAct → List Byte → Option (StackReply × List Byte)
  | push v, l => some (.done, v :: l)
  | pull, v :: l => some (.byte v, l)
  | pushWord w, l => some (.done, Word.low w :: Word.high w :: l)
  | pullWord, low :: high :: l => some (.word (Word.ofBytes low high), l)
  | _, _ => none

/-- A row of acts on a list: the replies and the list behind it. -/
def rowOnList : List StackAct → List Byte → Option (List StackReply × List Byte)
  | [], l => some ([], l)
  | act :: acts, l => do
    let (reply, l) ← act.onList l
    let (replies, l) ← rowOnList acts l
    return (reply :: replies, l)

/-- The bytes that an act pushes. -/
def pushes : StackAct → Nat
  | push _ => 1
  | pushWord _ => 2
  | pull | pullWord => 0

/-- The bytes that an act pulls. -/
def pulls : StackAct → Nat
  | push _ | pushWord _ => 0
  | pull => 1
  | pullWord => 2

/-- The bytes that a row of acts pushes. -/
def pushed : List StackAct → Nat
  | [] => 0
  | act :: acts => act.pushes + pushed acts

/-- The bytes that a row of acts pulls. -/
def pulled : List StackAct → Nat
  | [] => 0
  | act :: acts => act.pulls + pulled acts

/-- With `n` bytes there beforehand, no pull of the row exceeds the bytes that are there, and there
    are at most 256 at any moment. -/
def FitsOn (n : Nat) (acts : List StackAct) : Prop :=
  ∀ k, pulled (acts.take k) ≤ n + pushed (acts.take k) ∧
    n + pushed (acts.take k) - pulled (acts.take k) ≤ 256

/-- Acts that pull what they push and no more. -/
def Balanced (acts : List StackAct) : Prop := ∃ replies, rowOnList acts [] = some (replies, [])

variable {act : StackAct} {acts : List StackAct} {reply : StackReply}
  {replies : List StackReply} {l l' : List Byte}

theorem rowOnList_cons_eq_some_iff :
    rowOnList (act :: acts) l = some (replies, l') ↔
      ∃ reply l₁ rest, act.onList l = some (reply, l₁) ∧ rowOnList acts l₁ = some (rest, l') ∧
        replies = reply :: rest := by
  constructor
  · intro h
    obtain ⟨⟨reply, l₁⟩, hact, h⟩ := Option.bind_eq_some_iff.mp h
    obtain ⟨⟨rest, l₂⟩, hrest, h⟩ := Option.bind_eq_some_iff.mp h
    cases h
    exact ⟨reply, l₁, rest, hact, hrest, rfl⟩
  · rintro ⟨reply, l₁, rest, hact, hrest, rfl⟩
    refine Option.bind_eq_some_iff.mpr ⟨(reply, l₁), hact, ?_⟩
    exact Option.bind_eq_some_iff.mpr ⟨(rest, l'), hrest, rfl⟩

theorem length_onList (h : act.onList l = some (reply, l')) :
    l'.length + act.pulls = l.length + act.pushes := by
  match act, l, h with
  | push v, l, h | pull, v :: l, h | pushWord w, l, h | pullWord, low :: high :: l, h =>
    cases h
    rfl

/-- An act finds what it pulls where there is enough. -/
theorem exists_onList (h : act.pulls ≤ l.length + act.pushes) :
    ∃ reply l', act.onList l = some (reply, l') := by
  match act, l, h with
  | push v, l, _ | pull, v :: l, _ | pushWord w, l, _ | pullWord, low :: high :: l, _ =>
    exact ⟨_, _, rfl⟩

theorem length_replies (h : rowOnList acts l = some (replies, l')) :
    replies.length = acts.length := by
  induction acts generalizing l replies with
  | nil =>
    cases h
    rfl
  | cons act acts ih =>
    obtain ⟨reply, l₁, rest, -, hrest, rfl⟩ := rowOnList_cons_eq_some_iff.mp h
    rw [List.length_cons, List.length_cons, ih hrest]

theorem length_rowOnList (h : rowOnList acts l = some (replies, l')) :
    l'.length + pulled acts = l.length + pushed acts := by
  induction acts generalizing l replies with
  | nil =>
    cases h
    rfl
  | cons act acts ih =>
    obtain ⟨reply, l₁, rest, hact, hrest, -⟩ := rowOnList_cons_eq_some_iff.mp h
    have hfirst := length_onList hact
    have hrow := ih hrest
    rw [pushed, pulled]
    omega

theorem rowOnList_append {p q : List StackAct}
    (h : rowOnList (p ++ q) l = some (replies, l')) :
    ∃ r l₁ r', rowOnList p l = some (r, l₁) ∧ rowOnList q l₁ = some (r', l') ∧
      replies = r ++ r' := by
  induction p generalizing l replies with
  | nil => exact ⟨[], l, replies, rfl, h, rfl⟩
  | cons act p ih =>
    obtain ⟨reply, l₁, rest, hact, hrest, rfl⟩ := rowOnList_cons_eq_some_iff.mp h
    obtain ⟨r, l₂, r', hp, hq, rfl⟩ := ih hrest
    exact ⟨reply :: r, l₂, r', rowOnList_cons_eq_some_iff.mpr ⟨reply, l₁, r, hact, hp, rfl⟩, hq,
      rfl⟩

/-! ## Fitting -/

/-- Whether a row fits can be told from its beginnings, of which there are finitely many. -/
theorem fitsOn_iff {n : Nat} :
    FitsOn n acts ↔ ∀ k ≤ acts.length, pulled (acts.take k) ≤ n + pushed (acts.take k) ∧
      n + pushed (acts.take k) - pulled (acts.take k) ≤ 256 := by
  refine ⟨fun h k _ => h k, fun h k => ?_⟩
  have hmin := h (min k acts.length) (Nat.min_le_right _ _)
  rw [← List.take_eq_take_min] at hmin
  exact hmin

instance (n : Nat) (acts : List StackAct) : Decidable (FitsOn n acts) :=
  decidable_of_iff _ fitsOn_iff.symm

/-- What is left of a row that fits, fits on what its first act leaves. -/
theorem FitsOn.of_cons (h : FitsOn l.length (act :: acts))
    (hact : act.onList l = some (reply, l')) : FitsOn l'.length acts := by
  intro k
  have hlength := length_onList hact
  have hk := h (k + 1)
  rw [List.take_succ_cons, pushed, pulled] at hk
  omega

theorem FitsOn.exists_onList {n : Nat} (h : FitsOn n (act :: acts)) (hn : l.length = n) :
    ∃ reply l', act.onList l = some (reply, l') ∧ l'.length ≤ 256 := by
  have hfirst := h 1
  rw [List.take_succ_cons, List.take_zero, pushed, pulled, pushed, pulled] at hfirst
  have hpulls : act.pulls ≤ l.length + act.pushes := by omega
  obtain ⟨reply, l', hact⟩ := StackAct.exists_onList hpulls
  have hlength := length_onList hact
  exact ⟨reply, l', hact, by omega⟩

/-! ## Pairs of a push and a pull -/

/-- What lies below the bytes that an act deals with makes no difference to it. -/
theorem onList_append (h : act.onList l = some (reply, l')) (s : List Byte) :
    act.onList (l ++ s) = some (reply, l' ++ s) := by
  match act, l, h with
  | push v, l, h | pull, v :: l, h | pushWord w, l, h | pullWord, low :: high :: l, h =>
    cases h
    rfl

theorem rowOnList_above (h : rowOnList acts l = some (replies, l')) (s : List Byte) :
    rowOnList acts (l ++ s) = some (replies, l' ++ s) := by
  induction acts generalizing l replies with
  | nil =>
    cases h
    rfl
  | cons act acts ih =>
    obtain ⟨reply, l₁, rest, hact, hrest, rfl⟩ := rowOnList_cons_eq_some_iff.mp h
    exact rowOnList_cons_eq_some_iff.mpr
      ⟨reply, l₁ ++ s, rest, onList_append hact s, ih hrest, rfl⟩

/-- Behind balanced acts the list is what it was before. -/
theorem Balanced.rowOnList_eq (h : Balanced acts)
    (hrow : rowOnList acts l = some (replies, l')) : l' = l := by
  obtain ⟨r, hr⟩ := h
  have hsame := rowOnList_above hr l
  rw [List.nil_append, hrow] at hsame
  exact (Prod.mk.inj (Option.some.inj hsame)).2

/-- If `take` is given `gift` directly behind `give`, then also with balanced acts in between. -/
theorem reply_of_matched {before inner after : List StackAct} {give take : StackAct}
    {gift : StackReply} (hinner : Balanced inner)
    (hgift : ∀ l r l₁, give.onList l = some (r, l₁) → take.onList l₁ = some (gift, l))
    (h : rowOnList (before ++ give :: (inner ++ take :: after)) l = some (replies, l')) :
    replies[before.length + 1 + inner.length]? = some gift := by
  obtain ⟨r₀, l₀, rest₀, hbefore, h₀, rfl⟩ := rowOnList_append h
  obtain ⟨r₁, l₁, rest₁, hgive, h₁, rfl⟩ := rowOnList_cons_eq_some_iff.mp h₀
  obtain ⟨r₂, l₂, rest₂, hrow, h₂, rfl⟩ := rowOnList_append h₁
  obtain rfl := hinner.rowOnList_eq hrow
  obtain ⟨r₃, l₃, rest₃, htake, -, rfl⟩ := rowOnList_cons_eq_some_iff.mp h₂
  obtain ⟨rfl, -⟩ := Prod.mk.inj (Option.some.inj ((hgift _ _ _ hgive).symm.trans htake))
  have hlength : before.length + 1 + inner.length = r₀.length + (r₂.length + 1) := by
    rw [length_replies hbefore, length_replies hrow]
    omega
  rw [hlength, List.getElem?_append_right (Nat.le_add_right _ _), Nat.add_sub_cancel_left,
    List.getElem?_cons_succ, List.getElem?_append_right (Nat.le_refl _), Nat.sub_self]
  rfl

theorem pull_of_push (v : Byte) (l : List Byte) (r : StackReply) (l₁ : List Byte)
    (h : (push v).onList l = some (r, l₁)) : pull.onList l₁ = some (.byte v, l) := by
  obtain ⟨-, rfl⟩ := Prod.mk.inj (Option.some.inj h)
  rfl

theorem pullWord_of_pushWord (w : Word) (l : List Byte) (r : StackReply) (l₁ : List Byte)
    (h : (pushWord w).onList l = some (r, l₁)) : pullWord.onList l₁ = some (.word w, l) := by
  obtain ⟨-, rfl⟩ := Prod.mk.inj (Option.some.inj h)
  exact congrArg (fun w => some (StackReply.word w, l)) (Word.ofBytes_low_high w)

end StackAct

/-! ## In page one -/

namespace Ram

/-- These bytes lie above a stack pointer, the first one nearest. -/
def StackAbove (ram : Ram) : Byte → List Byte → Prop
  | _, [] => True
  | sp, v :: l => ram.read (Cpu.stackCell (sp + 1)) = v ∧ StackAbove ram (sp + 1) l

/-- A write to a cell that is further from the stack pointer than the last byte. -/
theorem StackAbove.write {ram : Ram} {s sp : Byte} {l : List Byte} (h : ram.StackAbove sp l)
    (hroom : l.length ≤ (s - (sp + 1)).toNat) (v : Byte) :
    StackAbove (ram.write (Cpu.stackCell s) v) sp l := by
  induction l generalizing sp with
  | nil => trivial
  | cons u l ih =>
    rw [List.length_cons] at hroom
    obtain ⟨hread, habove⟩ := h
    have hne : s ≠ sp + 1 := by
      rintro rfl
      rw [BitVec.sub_self] at hroom
      exact absurd hroom (Nat.not_succ_le_zero _)
    refine ⟨?_, ih habove (by bv_omega)⟩
    rw [Window.read_write, if_neg (mt (Ram.index_stackCell_inj ram s (sp + 1)).mp hne), hread]

theorem StackAbove.push {ram : Ram} {sp : Byte} {l : List Byte} (h : ram.StackAbove sp l)
    (hroom : l.length < 256) (v : Byte) :
    StackAbove (ram.write (Cpu.stackCell sp) v) (sp - 1) (v :: l) := by
  have htop : (sp - (sp + 1)).toNat = 255 := by bv_omega
  rw [StackAbove, BitVec.sub_add_cancel, Window.read_write, if_pos rfl]
  exact ⟨rfl, h.write (by omega) v⟩

/-- A write to the stack leaves every other page. -/
theorem cell_write_stackCell (ram : Ram) (s v : Byte) {i : Nat} (hi : i < 256 ∨ 512 ≤ i) :
    (ram.write (Cpu.stackCell s) v).cell i = ram.cell i := by
  have hs := s.isLt
  have hindex : (Cpu.stackCell s - 0x0000).toNat % 0x0800 = 256 + s.toNat :=
    Ram.index_stackCell ram s
  rw [Window.cell_write, hindex, if_neg (by omega)]

end Ram

/-- A transaction with a byte of the stack, which was granted. -/
def Event.OnStack (e : Event) : Prop :=
  ∃ sp v, e = .access (.read (Cpu.stackCell sp) (some v)) ∨
    e = .access (.write (Cpu.stackCell sp) v true)

variable {β : Type}

namespace Machine

/-- `m` is `base` with these bytes on its stack: they lie above the stack pointer, which is below
    that of `base` by their number, and nothing else is different but bytes of page one and
    transactions with them. -/
structure Stacked (base : Machine β) (l : List Byte) (m : Machine β) : Prop where
  cpu : m.cpu = { base.cpu with sp := base.cpu.sp - BitVec.ofNat 8 l.length }
  bus : m.bus = { base.bus with ram := m.bus.ram }
  cells : ∀ i, i < 256 ∨ 512 ≤ i → m.bus.ram.cell i = base.bus.ram.cell i
  above : m.bus.ram.StackAbove m.cpu.sp l
  journal : ∃ events, m.journal = events ++ base.journal ∧ ∀ e ∈ events, e.OnStack

namespace Stacked

variable {base m : Machine β} {l : List Byte}

theorem refl (m : Machine β) : m.Stacked [] m where
  cpu := by
    have hsp : m.cpu.sp - BitVec.ofNat 8 0 = m.cpu.sp := BitVec.sub_zero m.cpu.sp
    rw [List.length_nil, hsp]
  bus := rfl
  cells := fun _ _ => rfl
  above := trivial
  journal := ⟨[], rfl, by simp⟩

theorem journal_cons (h : base.Stacked l m) {e : Event} (he : e.OnStack) :
    ∃ events, e :: m.journal = events ++ base.journal ∧ ∀ e ∈ events, e.OnStack := by
  obtain ⟨events, hevents, hstack⟩ := h.journal
  exact ⟨e :: events, congrArg (e :: ·) hevents, List.forall_mem_cons.mpr ⟨he, hstack⟩⟩

end Stacked

end Machine

variable [Board β]

namespace StackAct

/-- Performs an act on the stack of a machine. -/
def perform : StackAct → Exec β StackReply
  | push v => do
    Exec.push v
    return .done
  | pull => do
    let v ← Exec.pull
    return .byte v
  | pushWord w => do
    Exec.pushWord w
    return .done
  | pullWord => do
    let w ← Exec.pullWord
    return .word w

/-- Performs a row of acts. -/
def performAll : List StackAct → Exec β (List StackReply)
  | [] => pure []
  | act :: acts => do
    let reply ← act.perform
    let replies ← performAll acts
    return reply :: replies

end StackAct

namespace Exec

theorem push_eq (m : Machine β) (v : Byte) :
    push v m = .ok () ⟨{ m.cpu with sp := m.cpu.sp - 1 },
      { m.bus with ram := m.bus.ram.write (Cpu.stackCell m.cpu.sp) v },
      .access (.write (Cpu.stackCell m.cpu.sp) v true) :: m.journal⟩ := by
  have hregion := AddressRegion.of_stackCell m.cpu.sp
  have hnotice : m.bus.writeNotice? (Cpu.stackCell m.cpu.sp) v = none := by
    rw [Bus.writeNotice?, hregion]
  have hwrite : write (Cpu.stackCell m.cpu.sp) v m =
      .ok () ⟨m.cpu, { m.bus with ram := m.bus.ram.write (Cpu.stackCell m.cpu.sp) v },
        .access (.write (Cpu.stackCell m.cpu.sp) v true) :: m.journal⟩ := by
    rw [write, EStateM.adaptExcept, Machine.write, Bus.write_of_ram hregion, hnotice]
    rfl
  exact bind_of_ok hwrite _

theorem pull_eq (m : Machine β) :
    pull m = .ok (m.bus.ram.read (Cpu.stackCell (m.cpu.sp + 1)))
      ⟨{ m.cpu with sp := m.cpu.sp + 1 }, m.bus,
        .access (.read (Cpu.stackCell (m.cpu.sp + 1))
          (some (m.bus.ram.read (Cpu.stackCell (m.cpu.sp + 1))))) :: m.journal⟩ := by
  have hregion := AddressRegion.of_stackCell (m.cpu.sp + 1)
  have hnotice : Bus.readNotice? (Cpu.stackCell (m.cpu.sp + 1)) = none := by
    rw [Bus.readNotice?, hregion]
  have hread : read (Cpu.stackCell (m.cpu.sp + 1)) m =
      .ok (m.bus.ram.read (Cpu.stackCell (m.cpu.sp + 1))) ⟨m.cpu, m.bus,
        .access (.read (Cpu.stackCell (m.cpu.sp + 1))
          (some (m.bus.ram.read (Cpu.stackCell (m.cpu.sp + 1))))) :: m.journal⟩ := by
    rw [read, EStateM.adaptExcept, Machine.read, Bus.read_of_ram hregion, hnotice]
    rfl
  exact bind_of_ok hread _

end Exec

namespace Machine.Stacked

variable {base m : Machine β} {l l' : List Byte}

theorem push (h : base.Stacked l m) (hroom : l.length < 256) (v : Byte) :
    ∃ m', Exec.push v m = .ok () m' ∧ base.Stacked (v :: l) m' := by
  refine ⟨_, Exec.push_eq m v, ?_, ?_, ?_, h.above.push hroom v, ?_⟩
  · rw [h.cpu, List.length_cons]
    have hsp : base.cpu.sp - BitVec.ofNat 8 l.length - 1 =
        base.cpu.sp - BitVec.ofNat 8 (l.length + 1) := by
      rw [BitVec.ofNat_add]
      bv_omega
    rw [hsp]
  · rw [h.bus]
  · intro i hi
    rw [Ram.cell_write_stackCell _ _ _ hi, h.cells i hi]
  · exact h.journal_cons ⟨m.cpu.sp, v, .inr rfl⟩

theorem pull {v : Byte} (h : base.Stacked (v :: l) m) :
    ∃ m', Exec.pull m = .ok v m' ∧ base.Stacked l m' := by
  obtain ⟨hread, habove⟩ := h.above
  have hpull := Exec.pull_eq m
  rw [hread] at hpull
  refine ⟨_, hpull, ?_, h.bus, h.cells, habove, h.journal_cons ⟨m.cpu.sp + 1, v, .inl rfl⟩⟩
  have hsp : base.cpu.sp - BitVec.ofNat 8 (l.length + 1) + 1 =
      base.cpu.sp - BitVec.ofNat 8 l.length := by
    rw [BitVec.ofNat_add]
    bv_omega
  rw [h.cpu, List.length_cons, hsp]

theorem pushWord (h : base.Stacked l m) (hroom : l.length + 1 < 256) (w : Word) :
    ∃ m', Exec.pushWord w m = .ok () m' ∧
      base.Stacked (Word.low w :: Word.high w :: l) m' := by
  obtain ⟨m₁, hhigh, h₁⟩ := h.push (Nat.lt_of_succ_lt hroom) (Word.high w)
  obtain ⟨m₂, hlow, h₂⟩ := h₁.push hroom (Word.low w)
  exact ⟨m₂, (bind_of_ok hhigh _).trans hlow, h₂⟩

theorem pullWord {low high : Byte} (h : base.Stacked (low :: high :: l) m) :
    ∃ m', Exec.pullWord m = .ok (Word.ofBytes low high) m' ∧ base.Stacked l m' := by
  obtain ⟨m₁, hlow, h₁⟩ := h.pull
  obtain ⟨m₂, hhigh, h₂⟩ := h₁.pull
  exact ⟨m₂, (bind_of_ok hlow _).trans (bind_of_ok hhigh _), h₂⟩

/-- An act does to the stack what it does to the list. -/
theorem perform {act : StackAct} {reply : StackReply} (h : base.Stacked l m)
    (hact : act.onList l = some (reply, l')) (hroom : l'.length ≤ 256) :
    ∃ m', act.perform m = .ok reply m' ∧ base.Stacked l' m' := by
  match act, l, h, hact with
  | .push v, l, h, hact =>
    obtain ⟨rfl, rfl⟩ := Prod.mk.inj (Option.some.inj hact)
    obtain ⟨m', hok, h'⟩ := h.push hroom v
    exact ⟨m', bind_of_ok hok _, h'⟩
  | .pull, v :: l, h, hact =>
    obtain ⟨rfl, rfl⟩ := Prod.mk.inj (Option.some.inj hact)
    obtain ⟨m', hok, h'⟩ := h.pull
    exact ⟨m', bind_of_ok hok _, h'⟩
  | .pushWord w, l, h, hact =>
    obtain ⟨rfl, rfl⟩ := Prod.mk.inj (Option.some.inj hact)
    obtain ⟨m', hok, h'⟩ := h.pushWord hroom w
    exact ⟨m', bind_of_ok hok _, h'⟩
  | .pullWord, low :: high :: l, h, hact =>
    obtain ⟨rfl, rfl⟩ := Prod.mk.inj (Option.some.inj hact)
    obtain ⟨m', hok, h'⟩ := h.pullWord
    exact ⟨m', bind_of_ok hok _, h'⟩

/-- A row of acts that fits does to the stack what it does to the list. -/
theorem performAll {acts : List StackAct} (h : base.Stacked l m)
    (hfits : StackAct.FitsOn l.length acts) :
    ∃ replies l' m', StackAct.rowOnList acts l = some (replies, l') ∧
      StackAct.performAll acts m = .ok replies m' ∧ base.Stacked l' m' := by
  induction acts generalizing l m with
  | nil => exact ⟨[], l, m, rfl, rfl, h⟩
  | cons act acts ih =>
    obtain ⟨reply, l₁, hact, hroom⟩ := hfits.exists_onList rfl
    obtain ⟨m₁, hok, h₁⟩ := h.perform hact hroom
    obtain ⟨replies, l', m', hrow, hall, h'⟩ := ih h₁ (hfits.of_cons hact)
    exact ⟨reply :: replies, l', m',
      StackAct.rowOnList_cons_eq_some_iff.mpr ⟨reply, l₁, replies, hact, hrow, rfl⟩,
      (bind_of_ok hok _).trans (bind_of_ok hall _), h'⟩

end Machine.Stacked

open StackAct in
/-- A row of pushes and pulls that never pulls more than it has pushed, and never has more than 256
    bytes on the stack, does not fail.  Its replies are those of a list that the acts push to and
    pull from at its front, and nothing is changed but the stack pointer and bytes of page one
    (`Machine.Stacked`); the pointer ends as many bytes below its start as are left.  In particular
    a pull gets the byte of the push it belongs to, and a pull of a word the word: the one with
    balanced acts in between. -/
theorem Exec.stack_lifo (m : Machine β) (acts : List StackAct) (hfits : FitsOn 0 acts) :
    ∃ replies live m', rowOnList acts [] = some (replies, live) ∧
      live.length = pushed acts - pulled acts ∧
      performAll acts m = .ok replies m' ∧ m.Stacked live m' ∧
      (∀ before v inner after, acts = before ++ .push v :: (inner ++ .pull :: after) →
        Balanced inner → replies[before.length + 1 + inner.length]? = some (.byte v)) ∧
      ∀ before w inner after, acts = before ++ .pushWord w :: (inner ++ .pullWord :: after) →
        Balanced inner → replies[before.length + 1 + inner.length]? = some (.word w) := by
  obtain ⟨replies, live, m', hrow, hall, hstacked⟩ := (Machine.Stacked.refl m).performAll hfits
  refine ⟨replies, live, m', hrow, ?_, hall, hstacked, ?_, ?_⟩
  · have hlength := length_rowOnList hrow
    rw [List.length_nil] at hlength
    omega
  · rintro before v inner after rfl hinner
    exact reply_of_matched hinner (pull_of_push v) hrow
  · rintro before w inner after rfl hinner
    exact reply_of_matched hinner (pullWord_of_pushWord w) hrow

/-- A word that is pushed over the end of the page, and comes back. -/
theorem Machine.cornered_word :
    StackAct.FitsOn 0 [.push 0x56, .pushWord 0x1234, .pullWord, .pull] ∧
    ∃ m', StackAct.performAll [.push 0x56, .pushWord 0x1234, .pullWord, .pull]
        (cornered 0 false) = .ok [.done, .done, .word 0x1234, .byte 0x56] m' ∧
      m'.cpu = (cornered 0 false).cpu := by
  have hfits : StackAct.FitsOn 0 [.push 0x56, .pushWord 0x1234, .pullWord, .pull] := by decide
  obtain ⟨replies, live, m', hrow, -, hall, hstacked, -, -⟩ :=
    Exec.stack_lifo (cornered 0 false) _ hfits
  have hlist : StackAct.rowOnList [.push 0x56, .pushWord 0x1234, .pullWord, .pull] [] =
      some ([.done, .done, .word 0x1234, .byte 0x56], []) := by decide
  obtain ⟨rfl, rfl⟩ := Prod.mk.inj (Option.some.inj (hlist.symm.trans hrow))
  exact ⟨hfits, m', hall, hstacked.cpu⟩

end Console6502
