/-
  Arithmetic on numbers of many bytes.

  Programs add and subtract long numbers byte by byte, the lowest first, and leave it to the carry
  to link the bytes (`Cpu.chain`).  Such a chain is exact: the bytes that come of it and the last
  carry make up the whole sum (`Cpu.chain_add_exact`), and the last overflow is that of the whole
  number in two's complement (`Cpu.chain_add_overflow`).  Subtraction is addition of the complement,
  for a chain as for a byte, so its laws are those of the sum (`Cpu.chain_subtract`).
-/
import Console6502.Proofs.IntegerLaws
import Mathlib.Data.Nat.Digits.Lemmas

namespace Console6502

/-! ## Numbers of many bytes -/

namespace Bytes

/-- The number that bytes stand for, the lowest byte first. -/
def toNat (l : List Byte) : Nat := Nat.ofDigits 256 (l.map BitVec.toNat)

/-- The signed number that bytes stand for in two's complement, the lowest byte first. -/
def toInt (l : List Byte) : Int :=
  if 2 * toNat l < 256 ^ l.length then (toNat l : Int) else toNat l - (256 ^ l.length : Nat)

/-- The bytes with every bit the other way. -/
def complement (l : List Byte) : List Byte := l.map (~~~·)

theorem toNat_cons (x : Byte) (l : List Byte) : toNat (x :: l) = x.toNat + 256 * toNat l := by
  rw [toNat, List.map_cons, Nat.ofDigits_cons]
  rfl

theorem digits_lt (l : List Byte) : ∀ n ∈ l.map BitVec.toNat, n < 256 := by
  intro n hn
  obtain ⟨x, -, rfl⟩ := List.mem_map.mp hn
  exact x.isLt

theorem toNat_lt (l : List Byte) : toNat l < 256 ^ l.length := by
  have hlt := Nat.ofDigits_lt_base_pow_length (by decide) (digits_lt l)
  rwa [List.length_map] at hlt

theorem toInt_singleton (x : Byte) : toInt [x] = x.toInt := by
  have hx := x.isLt
  have hvalue : toNat [x] = x.toNat := toNat_cons x []
  rw [toInt, hvalue, Byte.toInt_eq, List.length_singleton]
  split <;> split <;> omega

/-- Below other bytes a byte counts as unsigned. -/
theorem toInt_cons (x y : Byte) (l : List Byte) :
    toInt (x :: y :: l) = x.toNat + 256 * toInt (y :: l) := by
  have hx := x.isLt
  rw [toInt, toInt, toNat_cons x, List.length_cons, List.length_cons, Nat.pow_succ', Nat.pow_succ']
  split <;> split <;> omega

theorem length_complement (l : List Byte) : (complement l).length = l.length := List.length_map _

theorem toNat_complement (l : List Byte) :
    toNat (complement l) + toNat l + 1 = 256 ^ l.length := by
  induction l with
  | nil => rfl
  | cons x l ih =>
    have hx := x.isLt
    rw [complement, List.map_cons, toNat_cons, toNat_cons, Byte.toNat_complement,
      List.length_cons, Nat.pow_succ', ← ih, complement]
    omega

theorem toInt_complement {l : List Byte} {k : Nat} (h : l.length = k + 1) :
    toInt (complement l) = -toInt l - 1 := by
  have hsum := toNat_complement l
  rw [toInt, toInt, length_complement]
  rw [h, Nat.pow_succ'] at hsum ⊢
  split <;> split <;> omega

variable {k : Nat}

/-- The pairs of bytes of two numbers of one length. -/
def pairs (a b : Vector Byte k) : List (Byte × Byte) := a.toList.zip b.toList

theorem length_pairs (a b : Vector Byte k) : (pairs a b).length = k := by
  rw [pairs, List.length_zip, Vector.length_toList, Vector.length_toList, Nat.min_self]

theorem map_fst_pairs (a b : Vector Byte k) : (pairs a b).map Prod.fst = a.toList := by
  apply List.map_fst_zip
  rw [Vector.length_toList, Vector.length_toList]

theorem map_snd_pairs (a b : Vector Byte k) : (pairs a b).map Prod.snd = b.toList := by
  apply List.map_snd_zip
  rw [Vector.length_toList, Vector.length_toList]

end Bytes

/-- Whether a signed number does not fit this many bytes. -/
def outOfBytes (k : Nat) (n : Int) : Bool :=
  decide (n < -2 ^ (8 * k - 1) ∨ 2 ^ (8 * k - 1) - 1 < n)

theorem outOfBytes_one (n : Int) : outOfBytes 1 n = outOfByte n := by
  rw [outOfBytes, outOfByte]
  congr 1

/-- A byte below others makes no difference to whether a number fits. -/
theorem outOfBytes_cons (k : Nat) (x : Byte) (n : Int) :
    outOfBytes (k + 2) (x.toNat + 256 * n) = outOfBytes (k + 1) n := by
  have hx := x.isLt
  have hpow : (2 : Int) ^ (8 * (k + 2) - 1) = 256 * 2 ^ (8 * (k + 1) - 1) := by
    rw [show 8 * (k + 2) - 1 = 8 * (k + 1) - 1 + 8 by omega, Int.pow_add]
    omega
  rw [outOfBytes, outOfBytes, hpow, decide_eq_decide]
  omega

/-- A number below a power of the base, and a carry that counts it once: the remainder of a division
    by that power, and whether there is a quotient. -/
theorem remainder_of_exact {r p n : Nat} {carry : Bool} (hr : r < p)
    (h : r + p * carry.toNat = n) : r = n % p ∧ carry = decide (p ≤ n) := by
  subst h
  refine ⟨?_, ?_⟩
  · rw [Nat.add_mul_mod_self_left, Nat.mod_eq_of_lt hr]
  · cases carry <;> simp [hr]

/-! ## Chains -/

/-- The sum of two bytes and a carry is made up of the byte and the carry that come of it. -/
theorem Addition.exact (x y : Byte) (carry : Bool) :
    x.toNat + y.toNat + carry.toNat =
      (Addition.of x y carry).value.toNat + 256 * (Addition.of x y carry).carry.toNat := by
  have hx := x.isLt
  have hy := y.isLt
  have hc := carry.toNat_le
  simp only [Addition.of, BitVec.toNat_ofNat]
  by_cases h : 255 < x.toNat + y.toNat + carry.toNat
  · rw [decide_eq_true h, Bool.toNat_true]
    omega
  · rw [decide_eq_false h, Bool.toNat_false]
    omega

namespace Cpu

/-- Goes through pairs of bytes: loads the first of a pair, combines it with the second, and keeps
    what the accumulator holds then. -/
def chain (combine : Cpu → Byte → Cpu) : Cpu → List (Byte × Byte) → List Byte × Cpu
  | c, [] => ([], c)
  | c, (x, y) :: rest =>
    let linked := combine (c.load .a x) y
    let (bytes, last) := chain combine linked rest
    (linked.a :: bytes, last)

theorem chain_cons (combine : Cpu → Byte → Cpu) (c : Cpu) (x y : Byte)
    (l : List (Byte × Byte)) :
    chain combine c ((x, y) :: l) =
      ((combine (c.load .a x) y).a :: (chain combine (combine (c.load .a x) y) l).1,
        (chain combine (combine (c.load .a x) y) l).2) := rfl

theorem length_chain (combine : Cpu → Byte → Cpu) (c : Cpu) (l : List (Byte × Byte)) :
    (chain combine c l).1.length = l.length := by
  induction l generalizing c with
  | nil => rfl
  | cons p l ih => exact congrArg (· + 1) (ih _)

theorem carry_load (c : Cpu) (r : Register) (v : Byte) :
    (c.load r v).status.carry = c.status.carry := by
  simp [load, Status.ofResult]

theorem carry_add (c : Cpu) (v : Byte) :
    (c.add v).status.carry = (Addition.of c.a v c.status.carry).carry := by
  simp [add, loadSum, load, Status.ofResult]

theorem overflow_add (c : Cpu) (v : Byte) :
    (c.add v).status.overflow = (Addition.of c.a v c.status.carry).overflow := by
  simp [add, loadSum, load, Status.ofResult]

/-- A load leaves the carry, so a link adds the pair and the carry of the link before it. -/
theorem link_add (c : Cpu) (x y : Byte) :
    x.toNat + y.toNat + c.status.carry.toNat =
      ((c.load .a x).add y).a.toNat + 256 * ((c.load .a x).add y).status.carry.toNat := by
  have hsum := Addition.exact x y (c.load .a x).status.carry
  rw [carry_add, ← carry_load c .a x]
  exact hsum

/-- The bytes of a chain of additions and its last carry make up the sum of the numbers and the
    first carry. -/
theorem chain_add_exact (c : Cpu) (l : List (Byte × Byte)) :
    Bytes.toNat (chain add c l).1 + 256 ^ l.length * (chain add c l).2.status.carry.toNat =
      Bytes.toNat (l.map Prod.fst) + Bytes.toNat (l.map Prod.snd) + c.status.carry.toNat := by
  induction l generalizing c with
  | nil => simp [chain, Bytes.toNat]
  | cons p l ih =>
    obtain ⟨x, y⟩ := p
    have hlink := link_add c x y
    have hrest := ih ((c.load .a x).add y)
    rw [chain_cons, List.map_cons, List.map_cons, Bytes.toNat_cons, Bytes.toNat_cons,
      Bytes.toNat_cons, List.length_cons, Nat.pow_succ', Nat.mul_assoc]
    dsimp only
    omega

/-- The last overflow of a chain of additions is that of the whole sum. -/
theorem chain_add_overflow {k : Nat} (c : Cpu) {l : List (Byte × Byte)}
    (hlength : l.length = k + 1) :
    (chain add c l).2.status.overflow =
      outOfBytes (k + 1) (Bytes.toInt (l.map Prod.fst) + Bytes.toInt (l.map Prod.snd) +
        c.status.carry.toNat) := by
  induction k generalizing c l with
  | zero =>
    obtain ⟨⟨x, y⟩, rfl⟩ := List.length_eq_one_iff.mp hlength
    rw [List.map_singleton, List.map_singleton, Bytes.toInt_singleton, Bytes.toInt_singleton,
      outOfBytes_one, ← Addition.overflow_eq, ← carry_load c .a x]
    exact overflow_add (c.load .a x) y
  | succ k ih =>
    match l, hlength with
    | (x, y) :: (x', y') :: l, hlength =>
      have hlink := link_add c x y
      -- the sum of this link is its byte, and its carry counts in the rest
      have hsum : Bytes.toInt (x :: x' :: l.map Prod.fst) +
            Bytes.toInt (y :: y' :: l.map Prod.snd) + c.status.carry.toNat =
          ((c.load .a x).add y).a.toNat + 256 * (Bytes.toInt (x' :: l.map Prod.fst) +
            Bytes.toInt (y' :: l.map Prod.snd) +
            ((c.load .a x).add y).status.carry.toNat) := by
        rw [Bytes.toInt_cons, Bytes.toInt_cons]
        omega
      rw [chain_cons, ih _ (Nat.succ.inj hlength)]
      simp only [List.map_cons]
      rw [hsum, outOfBytes_cons]

/-- A chain of subtractions adds the complement. -/
theorem chain_subtract (c : Cpu) (l : List (Byte × Byte)) :
    chain subtract c l = chain add c (l.map (Prod.map id (~~~·))) := by
  induction l generalizing c with
  | nil => rfl
  | cons p l ih =>
    rw [List.map_cons, Prod.map_apply, chain_cons, chain_cons, ih]
    rfl

/-! ## Whole numbers -/

variable {k : Nat}

theorem chain_sum (c : Cpu) (a b : Vector Byte (k + 1)) :
    Bytes.toNat (chain add c (Bytes.pairs a b)).1 < 256 ^ (k + 1) ∧
      Bytes.toNat (chain add c (Bytes.pairs a b)).1 +
          256 ^ (k + 1) * (chain add c (Bytes.pairs a b)).2.status.carry.toNat =
        Bytes.toNat a.toList + Bytes.toNat b.toList + c.status.carry.toNat ∧
      (chain add c (Bytes.pairs a b)).2.status.overflow =
        outOfBytes (k + 1) (Bytes.toInt a.toList + Bytes.toInt b.toList +
          c.status.carry.toNat) := by
  have hlt := Bytes.toNat_lt (chain add c (Bytes.pairs a b)).1
  have hexact := chain_add_exact c (Bytes.pairs a b)
  have hoverflow := chain_add_overflow c (Bytes.length_pairs a b)
  rw [length_chain, Bytes.length_pairs] at hlt
  rw [Bytes.length_pairs, Bytes.map_fst_pairs, Bytes.map_snd_pairs] at hexact
  rw [Bytes.map_fst_pairs, Bytes.map_snd_pairs] at hoverflow
  exact ⟨hlt, hexact, hoverflow⟩

theorem chain_subtract_pairs (c : Cpu) (a b : Vector Byte k) :
    chain subtract c (Bytes.pairs a b) = chain add c (Bytes.pairs a (b.map (~~~·))) := by
  rw [chain_subtract, Bytes.pairs, Bytes.pairs, Vector.toList_map, List.zip_map_right]

theorem chain_difference (c : Cpu) (a b : Vector Byte (k + 1)) :
    (Bytes.toNat (chain subtract c (Bytes.pairs a b)).1 : Int) =
        (Bytes.toNat a.toList - Bytes.toNat b.toList - (1 - c.status.carry.toNat)) %
          256 ^ (k + 1) ∧
      (chain subtract c (Bytes.pairs a b)).2.status.carry =
        decide (Bytes.toNat b.toList + (1 - c.status.carry.toNat) ≤ Bytes.toNat a.toList) ∧
      (chain subtract c (Bytes.pairs a b)).2.status.overflow =
        outOfBytes (k + 1) (Bytes.toInt a.toList - Bytes.toInt b.toList -
          (1 - c.status.carry.toNat)) := by
  have hc := c.status.carry.toNat_le
  have hcomplement := Bytes.toNat_complement b.toList
  rw [Vector.length_toList] at hcomplement
  rw [chain_subtract_pairs]
  obtain ⟨hlt, hexact, hoverflow⟩ := chain_sum c a (b.map (~~~·))
  obtain ⟨hvalue, hcarry⟩ := remainder_of_exact hlt hexact
  rw [Vector.toList_map, ← Bytes.complement] at hvalue hcarry hoverflow
  refine ⟨?_, ?_, ?_⟩
  · calc (Bytes.toNat (chain add c (Bytes.pairs a (b.map (~~~·)))).1 : Int)
        = ((Bytes.toNat a.toList + Bytes.toNat (Bytes.complement b.toList) +
            c.status.carry.toNat : Nat) : Int) % (256 ^ (k + 1) : Nat) := by
          rw [hvalue, Int.natCast_mod]
      _ = (((Bytes.toNat a.toList + Bytes.toNat (Bytes.complement b.toList) +
            c.status.carry.toNat : Nat) : Int) - (256 ^ (k + 1) : Nat)) %
            (256 ^ (k + 1) : Nat) := (Int.sub_emod_right _ _).symm
      _ = (Bytes.toNat a.toList - Bytes.toNat b.toList - (1 - c.status.carry.toNat)) %
            (256 ^ (k + 1) : Nat) := by
          congr 1
          omega
      _ = _ := by rw [Nat.cast_pow, Nat.cast_ofNat]
  · rw [hcarry, decide_eq_decide]
    omega
  · rw [hoverflow, Bytes.toInt_complement Vector.length_toList]
    congr 1
    omega

/-- What a comparison leaves depends on the two bytes alone. -/
theorem compare_flags (c : Cpu) (r : Register) (v : Byte) :
    (c.compare r v).status.carry = decide (v ≤ c.get r) ∧
      (c.compare r v).status.zero = (c.get r - v == 0) ∧
      (c.compare r v).status.negative = (c.get r - v).msb := by
  simp [compare, Status.ofResult]

/-- Subtraction without a borrow leaves carry, zero and negative as a comparison does. -/
theorem subtract_flags (c : Cpu) (v : Byte) (hcarry : c.status.carry = true) :
    (c.subtract v).status.carry = (c.compare .a v).status.carry ∧
      (c.subtract v).status.zero = (c.compare .a v).status.zero ∧
      (c.subtract v).status.negative = (c.compare .a v).status.negative := by
  have hborrow : (c.a.toNat : Int) - v.toNat - (1 - c.status.carry.toNat) =
      (c.get .a).toNat - v.toNat := by
    rw [hcarry, Bool.toNat_true]
    exact Int.sub_zero _
  rw [subtract_eq, compare_eq, hborrow]
  simp [summed]

/-- Numbers of any length of at least one byte.  A chain of additions comes to the sum of the
    numbers and the first carry, modulo the power of 256; its last carry says whether the sum is
    too large, and its last overflow whether the sum of the signed numbers does not fit.  A chain of
    subtractions comes to the difference of the numbers and the first borrow, which is a clear
    carry; its last carry says whether the difference is not negative, and its last overflow whether
    that of the signed numbers does not fit.  For one byte and no borrow, subtraction leaves carry,
    zero and negative as a comparison of the same bytes does. -/
theorem multi_precision (c : Cpu) (a b : Vector Byte (k + 1)) :
    (∃ r d, chain add c (Bytes.pairs a b) = (r, d) ∧ r.length = k + 1 ∧
      Bytes.toNat r =
        (Bytes.toNat a.toList + Bytes.toNat b.toList + c.status.carry.toNat) % 256 ^ (k + 1) ∧
      d.status.carry =
        decide (256 ^ (k + 1) ≤
          Bytes.toNat a.toList + Bytes.toNat b.toList + c.status.carry.toNat) ∧
      d.status.overflow =
        outOfBytes (k + 1) (Bytes.toInt a.toList + Bytes.toInt b.toList +
          c.status.carry.toNat)) ∧
    (∃ r d, chain subtract c (Bytes.pairs a b) = (r, d) ∧ r.length = k + 1 ∧
      (Bytes.toNat r : Int) =
        (Bytes.toNat a.toList - Bytes.toNat b.toList - (1 - c.status.carry.toNat)) %
          256 ^ (k + 1) ∧
      d.status.carry =
        decide (Bytes.toNat b.toList + (1 - c.status.carry.toNat) ≤ Bytes.toNat a.toList) ∧
      d.status.overflow =
        outOfBytes (k + 1) (Bytes.toInt a.toList - Bytes.toInt b.toList -
          (1 - c.status.carry.toNat))) ∧
    ∀ x y : Byte, ∃ d,
      chain subtract { c with status := c.status.set .carry true } [(x, y)] = ([d.a], d) ∧
      d.status.carry = ((c.load .a x).compare .a y).status.carry ∧
      d.status.zero = ((c.load .a x).compare .a y).status.zero ∧
      d.status.negative = ((c.load .a x).compare .a y).status.negative := by
  refine ⟨⟨_, _, rfl, ?_, ?_⟩, ⟨_, _, rfl, ?_, chain_difference c a b⟩, fun x y => ?_⟩
  · rw [length_chain, Bytes.length_pairs]
  · obtain ⟨hlt, hexact, hoverflow⟩ := chain_sum c a b
    obtain ⟨hvalue, hcarry⟩ := remainder_of_exact hlt hexact
    exact ⟨hvalue, hcarry, hoverflow⟩
  · rw [length_chain, Bytes.length_pairs]
  · let loaded := Cpu.load { c with status := c.status.set .carry true } .a x
    have hcarry : loaded.status.carry = true := by simp [loaded, carry_load]
    obtain ⟨h1, h2, h3⟩ := subtract_flags loaded y hcarry
    obtain ⟨h1', h2', h3'⟩ := loaded.compare_flags .a y
    obtain ⟨k1, k2, k3⟩ := (c.load .a x).compare_flags .a y
    exact ⟨_, rfl, (h1.trans h1').trans k1.symm, (h2.trans h2').trans k2.symm,
      (h3.trans h3').trans k3.symm⟩

/-- $7FFF and 1 make $8000: no carry comes out of the number, but a signed overflow. -/
example :
    (chain add {} (Bytes.pairs #v[0xFF, 0x7F] #v[0x01, 0x00])).1 = [0x00, 0x80] ∧
    (chain add {} (Bytes.pairs #v[0xFF, 0x7F] #v[0x01, 0x00])).2.status.letters =
      "NV-bdizc" := by decide

end Cpu

end Console6502
