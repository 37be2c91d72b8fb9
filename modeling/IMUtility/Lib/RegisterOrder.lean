import IMUtility.Lib.RegisterPolynomial
import Mathlib.GroupTheory.OrderOfElement

/-! # How long a division register runs

On zeros a register multiplies by `X`, so that how soon it comes back to where it was is the order
of `X` modulo the generator. A power of `X` is computed by squaring (`power`), again on numbers
(`powerNat`), which evaluate much faster; with the prime factors of a number, a few powers show that
the number is the order (`orderOf_root`). The order tells which pairs of flipped bits leave the
register as it was (`dvd_pair_iff`). -/

namespace DivisionRegister

open Polynomial

variable {w : Nat}

/-! ## Products and powers

Multiplying two registers is Horner's rule with the register's own step for the multiplication by
`X`. All is read in the ring modulo the generator, where a step is a product.
-/

/-- `acc * X ^ n`, and the `n` low terms of `b` times `a`. -/
def mulFrom (g a b acc : BitVec w) : (n : Nat) → BitVec w
  | 0 => acc
  | i + 1 => mulFrom g a b (step g acc false ^^^ (if b.getLsbD i then a else 0#w)) i

/-- `X ^ n`, for an `n` below `2 ^ k`. -/
def power (g : BitVec w) : (k : Nat) → Nat → BitVec w
  | 0, _ => 1#w
  | k + 1, n =>
    let root := power g k (n / 2)
    let square := mulFrom g root root 0#w w
    if n % 2 = 1 then step g square false else square

theorem mk_step_false (g s : BitVec w) :
    AdjoinRoot.mk (generator g) (polynomial (step g s false))
      = AdjoinRoot.mk (generator g) (X * polynomial s) := by
  rw [mk_polynomial_step, show coefficient false = 0 from rfl, C_0, zero_mul, add_zero]

theorem mk_polynomial_mulFrom (g a b acc : BitVec w) (n : Nat) :
    AdjoinRoot.mk (generator g) (polynomial (mulFrom g a b acc n))
      = AdjoinRoot.mk (generator g) (X ^ n * polynomial acc
          + (∑ i ∈ Finset.range n, C (coefficient (b.getLsbD i)) * X ^ i) * polynomial a) := by
  induction n generalizing acc with
  | zero => simp [mulFrom]
  | succ i ih =>
      have hmask : polynomial (if b.getLsbD i then a else 0#w)
          = C (coefficient (b.getLsbD i)) * polynomial a := by
        cases b.getLsbD i with
        | false => simp [coefficient]
        | true => simp [coefficient]
      rw [mulFrom, ih, polynomial_xor, hmask, Finset.sum_range_succ, mul_add, map_add, map_add,
        map_mul, mk_step_false, ← map_mul, ← map_add, ← map_add]
      congr 1
      ring

/-- A product of registers is a product of classes. -/
theorem mk_polynomial_mul (g a b : BitVec w) :
    AdjoinRoot.mk (generator g) (polynomial (mulFrom g a b 0#w w))
      = AdjoinRoot.mk (generator g) (polynomial b)
        * AdjoinRoot.mk (generator g) (polynomial a) := by
  rw [mk_polynomial_mulFrom, polynomial_zero, mul_zero, zero_add, map_mul]
  rfl

theorem polynomial_one (hw : 0 < w) : polynomial (1#w) = 1 := by
  ext i
  rw [coeff_polynomial, coeff_one, BitVec.getLsbD_one]
  by_cases hi : i = 0
  · simp [hi, hw, coefficient]
  · simp [hi, coefficient]

theorem mk_polynomial_power (hw : 0 < w) (g : BitVec w) {k n : Nat} (hn : n < 2 ^ k) :
    AdjoinRoot.mk (generator g) (polynomial (power g k n)) = AdjoinRoot.root (generator g) ^ n := by
  induction k generalizing n with
  | zero =>
      obtain rfl : n = 0 := by simpa using hn
      rw [power, polynomial_one hw, map_one, pow_zero]
  | succ k ih =>
      have hroot := ih (n := n / 2) (by omega)
      rw [power]
      split
      -- an odd exponent is one step more than the square
      case isTrue hodd =>
        rw [mk_step_false, map_mul, mk_polynomial_mul, hroot, AdjoinRoot.mk_X, ← pow_add,
          ← pow_succ']
        congr 1
        omega
      case isFalse heven =>
        rw [mk_polynomial_mul, hroot, ← pow_add]
        congr 1
        omega

theorem root_pow_eq_one_iff (hw : 0 < w) (g : BitVec w) {k n : Nat} (hn : n < 2 ^ k) :
    AdjoinRoot.root (generator g) ^ n = 1 ↔ power g k n = 1#w := by
  rw [← mk_polynomial_inj g, mk_polynomial_power hw g hn, polynomial_one hw, map_one]

/-! ## The same on numbers

Each function again, on `Nat`, and that it computes the same. These are the ones that are
evaluated.
-/

/-- `mulFrom`, for registers given as numbers. -/
def mulFromNat (w g a b acc : Nat) : (n : Nat) → Nat
  | 0 => acc
  | i + 1 => mulFromNat w g a b (stepNat w g acc ^^^ (if b.testBit i then a else 0)) i

/-- `power`, for a polynomial given as a number. -/
def powerNat (w g : Nat) : (k : Nat) → Nat → Nat
  | 0, _ => 1
  | k + 1, n =>
    let root := powerNat w g k (n / 2)
    let square := mulFromNat w g root root 0 w
    if n % 2 = 1 then stepNat w g square else square

theorem toNat_mulFrom (g a b acc : BitVec w) (n : Nat) :
    (mulFrom g a b acc n).toNat = mulFromNat w g.toNat a.toNat b.toNat acc.toNat n := by
  induction n generalizing acc with
  | zero => rfl
  | succ i ih =>
      have hmask : (if b.getLsbD i then a else 0#w).toNat
          = if b.toNat.testBit i then a.toNat else 0 := by
        rw [BitVec.testBit_toNat]
        split <;> rfl
      rw [mulFrom, mulFromNat, ih, BitVec.toNat_xor, toNat_step_false, hmask]

theorem toNat_power (hw : 0 < w) (g : BitVec w) (k n : Nat) :
    (power g k n).toNat = powerNat w g.toNat k n := by
  induction k generalizing n with
  | zero => exact BitVec.toNat_one hw
  | succ k ih =>
      rw [power, powerNat]
      split
      · rw [toNat_step_false, toNat_mulFrom, ih]
        rfl
      · rw [toNat_mulFrom, ih]
        rfl

/-! ## The order

That a power is one bounds the order from above; that no quotient by a prime factor has this power
makes it exact.
-/

/-- What shows that `order` is the order: the power of `X` is one, and no power is whose exponent
lacks one of the prime factors. -/
def HasOrder (w g order : Nat) (factors : List Nat) : Prop :=
  0 < order ∧ order < 2 ^ w ∧ factors.prod = order ∧ powerNat w g w order = 1 ∧
    ∀ p ∈ factors, powerNat w g w (order / p) ≠ 1

instance (w g order : Nat) (factors : List Nat) : Decidable (HasOrder w g order factors) :=
  inferInstanceAs (Decidable (_ ∧ _ ∧ _ ∧ _ ∧ _))

theorem orderOf_root (hw : 0 < w) {g : BitVec w} {order : Nat} {factors : List Nat}
    (hprime : ∀ p ∈ factors, p.Prime) (h : HasOrder w g.toNat order factors) :
    orderOf (AdjoinRoot.root (generator g)) = order := by
  obtain ⟨hpos, hlt, hprod, hone, hne⟩ := h
  have hpower : ∀ n ≤ order,
      AdjoinRoot.root (generator g) ^ n = 1 ↔ powerNat w g.toNat w n = 1 := by
    intro n hn
    rw [root_pow_eq_one_iff hw g (lt_of_le_of_lt hn hlt), ← BitVec.toNat_inj, toNat_power hw,
      BitVec.toNat_one hw]
  apply orderOf_eq_of_pow_and_pow_div_prime hpos
  · exact (hpower order le_rfl).mpr hone
  · intro p hp hdvd
    rw [Ne, hpower _ (Nat.div_le_self _ _)]
    apply hne
    -- a prime factor of a product of primes is one of them
    rw [← hprod] at hdvd
    obtain ⟨q, hq, hpq⟩ := hp.prime.dvd_prod_iff.mp hdvd
    rwa [(Nat.prime_dvd_prime_iff_eq hp (hprime q hq)).mp hpq]

/-- Two terms are divided by the generator if the order of `X` divides their distance. -/
theorem dvd_pair_iff {g : BitVec w} (hg : g.getLsbD 0 = true) (a d : Nat) :
    generator g ∣ X ^ (a + d) + X ^ a ↔ orderOf (AdjoinRoot.root (generator g)) ∣ d := by
  have hfactor : (X ^ (a + d) + X ^ a : (ZMod 2)[X]) = X ^ a * (X ^ d - 1) := by
    rw [CharTwo.sub_eq_add]
    ring
  rw [hfactor, orderOf_dvd_iff_pow_eq_one, ← AdjoinRoot.mk_X, ← map_pow,
    ← map_one (AdjoinRoot.mk _), AdjoinRoot.mk_eq_mk]
  exact ⟨(isCoprime_generator hg a).dvd_of_dvd_mul_left, fun h => h.mul_left _⟩

end DivisionRegister
