import IMUtility.Lib.DivisionRegister
import Mathlib

/-! # What a division register divides

The bits of a register are the coefficients of a polynomial over the two-element field, and so are
the bits of a stream, the first of them in front of the highest power. A register that divides by
`g` works modulo `generator g`, which has a leading term beside the bits of `g`. What is left in it
is the remainder of what has been fed (`polynomial_feed`). For an odd `g`, two streams leave the
same register exactly if the generator divides their difference (`feed_eq_iff`). -/

namespace DivisionRegister

open Polynomial

variable {w : Nat}

/-- A bit as a coefficient. -/
def coefficient (b : Bool) : ZMod 2 := if b then 1 else 0

theorem coefficient_xor (a b : Bool) : coefficient (a ^^ b) = coefficient a + coefficient b := by
  cases a <;> cases b <;> rfl

theorem coefficient_injective : Function.Injective coefficient := by
  intro a b h
  cases a <;> cases b <;> first | rfl | exact absurd h (by decide)

/-! ## Registers

The register has only the `w` low coefficients of a polynomial; the generator adds the leading
term that the bits of `g` leave out. In characteristic two, subtracting and adding are the same,
and both are the xor of registers.
-/

/-- The polynomial of a register. -/
noncomputable def polynomial (x : BitVec w) : (ZMod 2)[X] :=
  ∑ i ∈ Finset.range w, C (coefficient (x.getLsbD i)) * X ^ i

theorem coeff_polynomial (x : BitVec w) (i : Nat) :
    (polynomial x).coeff i = coefficient (x.getLsbD i) := by
  simp only [polynomial, finsetSum_coeff, coeff_C_mul_X_pow, Finset.sum_ite_eq, Finset.mem_range]
  split
  case isTrue => rfl
  case isFalse hi =>
    rw [BitVec.getLsbD_of_ge x i (Nat.le_of_not_lt hi)]
    rfl

theorem degree_polynomial_lt (x : BitVec w) : (polynomial x).degree < w := by
  rw [degree_lt_iff_coeff_zero]
  intro i hi
  rw [coeff_polynomial, BitVec.getLsbD_of_ge x i hi]
  rfl

theorem polynomial_injective : Function.Injective (polynomial (w := w)) := by
  intro x y h
  apply BitVec.eq_of_getLsbD_eq
  intro i _
  apply coefficient_injective
  rw [← coeff_polynomial, ← coeff_polynomial, h]

@[simp] theorem polynomial_zero : polynomial (0#w) = 0 := by
  ext i
  rw [coeff_polynomial, BitVec.getLsbD_zero]
  rfl

theorem polynomial_xor (x y : BitVec w) : polynomial (x ^^^ y) = polynomial x + polynomial y := by
  ext i
  rw [coeff_add, coeff_polynomial, coeff_polynomial, coeff_polynomial, BitVec.getLsbD_xor,
    coefficient_xor]

/-- What the register divides by. -/
noncomputable def generator (g : BitVec w) : (ZMod 2)[X] := X ^ w + polynomial g

theorem monic_generator (g : BitVec w) : (generator g).Monic :=
  monic_X_pow_add (degree_polynomial_lt g)

theorem degree_generator (g : BitVec w) : (generator g).degree = w := by
  have hlt : (polynomial g).degree < (X ^ w : (ZMod 2)[X]).degree := by
    rw [degree_X_pow]
    exact degree_polynomial_lt g
  rw [generator, degree_add_eq_left_of_degree_lt hlt, degree_X_pow]

/-- Shifting is multiplying, up to the bit that leaves the register. -/
theorem polynomial_shiftLeft_one (s : BitVec w) :
    polynomial (s <<< 1) + C (coefficient s.msb) * X ^ w = X * polynomial s := by
  ext i
  rw [coeff_add, coeff_polynomial, coeff_C_mul_X_pow, BitVec.getLsbD_shiftLeft]
  cases i with
  | zero =>
      rw [coeff_X_mul_zero]
      by_cases hw : 0 = w
      · subst hw
        rw [BitVec.msb_of_zero_length rfl]
        rfl
      · rw [if_neg hw]
        simp [coefficient]
  | succ i =>
      rw [coeff_X_mul, coeff_polynomial]
      rcases Nat.lt_trichotomy (i + 1) w with hlt | heq | hgt
      -- inside the register the bits move up by one
      · rw [if_neg (by omega), add_zero]
        simp [hlt]
      · -- the bit that leaves the register
        have hlast : w - 1 = i := by omega
        rw [if_pos heq, BitVec.msb_eq_getLsbD_last, hlast]
        simp [heq, coefficient]
      · rw [if_neg (by omega), add_zero, BitVec.getLsbD_of_ge s i (by omega)]
        simp [show ¬ i + 1 < w by omega]

theorem polynomial_step (g s : BitVec w) (b : Bool) :
    polynomial (step g s b) + C (coefficient (s.msb ^^ b)) * generator g
      = X * polynomial s + C (coefficient b) * X ^ w := by
  have hmask : polynomial (if s.msb ^^ b then g else 0#w)
      = C (coefficient (s.msb ^^ b)) * polynomial g := by
    cases s.msb ^^ b with
    | false => simp [coefficient]
    | true => simp [coefficient]
  rw [step, polynomial_xor, hmask, generator, ← polynomial_shiftLeft_one, mul_add,
    coefficient_xor, C_add]
  -- what the step subtracts, it adds again
  have htwice := CharTwo.add_self_eq_zero
    ((C (coefficient s.msb) + C (coefficient b)) * polynomial g)
  linear_combination htwice

/-! ## Streams

The first bit of a stream is the coefficient of its highest power. The polynomial of a stream is
what its bits would be, were they one wide register.
-/

/-- The polynomial of a stream. -/
noncomputable def streamPolynomial : List Bool → (ZMod 2)[X]
  | [] => 0
  | b :: bs => C (coefficient b) * X ^ bs.length + streamPolynomial bs

theorem streamPolynomial_xor (xs ys : List Bool) (hlen : xs.length = ys.length) :
    streamPolynomial (List.zipWith xor xs ys) = streamPolynomial xs + streamPolynomial ys := by
  induction xs generalizing ys with
  | nil =>
      cases ys with
      | nil => exact (add_zero 0).symm
      | cons y ys => cases hlen
  | cons x xs ih =>
      cases ys with
      | nil => cases hlen
      | cons y ys =>
          have hlen' : xs.length = ys.length := Nat.succ.inj hlen
          rw [List.zipWith_cons_cons, streamPolynomial, streamPolynomial, streamPolynomial,
            ih ys hlen', List.length_zipWith, hlen', Nat.min_self, coefficient_xor, C_add]
          ring

theorem coeff_streamPolynomial (bits : List Bool) (i : Nat) :
    (streamPolynomial bits).coeff i = coefficient (bits.reverse[i]?.getD false) := by
  induction bits with
  | nil => rfl
  | cons b bs ih =>
      rw [streamPolynomial, coeff_add, coeff_C_mul_X_pow, ih, List.reverse_cons,
        List.getElem?_append, List.length_reverse]
      rcases Nat.lt_trichotomy i bs.length with hlt | heq | hgt
      · rw [if_neg (by omega), if_pos hlt, zero_add]
      · rw [if_pos heq, if_neg (by omega), List.getElem?_eq_none (by simp [heq])]
        simp [heq, coefficient]
      · rw [if_neg (by omega), if_neg (by omega), List.getElem?_eq_none (by simp; omega),
          List.getElem?_eq_none (by simp; omega), zero_add]

/-- The bits of a register, as a stream. -/
theorem streamPolynomial_msbFirst (x : BitVec w) :
    streamPolynomial (msbFirst x) = polynomial x := by
  ext i
  rw [coeff_streamPolynomial, coeff_polynomial, ← reverse_lsbFirst, List.reverse_reverse]
  by_cases hi : i < w
  · simp [lsbFirst, hi]
  · rw [BitVec.getLsbD_of_ge x i (Nat.le_of_not_lt hi),
      List.getElem?_eq_none (by simp [lsbFirst]; omega)]
    rfl

/-- At one, a stream is the parity of its ones. -/
theorem eval_one_streamPolynomial (bits : List Bool) :
    (streamPolynomial bits).eval 1 = (bits.count true : ZMod 2) := by
  induction bits with
  | nil => simp [streamPolynomial]
  | cons b bs ih =>
      rw [streamPolynomial, eval_add, ih, eval_C_mul, eval_pow, eval_X, one_pow, mul_one]
      cases b with
      | false => simp [coefficient]
      | true => simp [coefficient, add_comm]

/-- Two streams that differ in two places differ by two powers. -/
theorem streamPolynomial_sub_of_pair {xs ys : List Bool} {a b : Nat} (hab : a < b)
    (hlen : xs.length = ys.length) (hdiff : ∀ i : Nat, xs[i]? ≠ ys[i]? ↔ i = a ∨ i = b) :
    streamPolynomial xs - streamPolynomial ys
      = X ^ (xs.length - 1 - b + (b - a)) + X ^ (xs.length - 1 - b) := by
  -- `b` is a position of the streams, else they could not differ there
  have hb : b < xs.length := by
    by_contra hge
    apply (hdiff b).mpr (Or.inr rfl)
    rw [List.getElem?_eq_none (by omega), List.getElem?_eq_none (by omega)]
  ext j
  rw [CharTwo.sub_eq_add, coeff_add, coeff_add, coeff_streamPolynomial, coeff_streamPolynomial,
    coeff_X_pow, coeff_X_pow, ← coefficient_xor]
  by_cases hj : j < xs.length
  · -- the coefficient of `X ^ j` is the bit that is `j` places before the last
    rw [List.getElem?_reverse hj, List.getElem?_reverse (hlen ▸ hj), ← hlen]
    have hat := hdiff (xs.length - 1 - j)
    rw [List.getElem?_eq_getElem (by omega), List.getElem?_eq_getElem (by omega)] at hat ⊢
    rw [Ne, Option.some.injEq] at hat
    rw [Option.getD_some, Option.getD_some]
    by_cases hpair : xs.length - 1 - j = a ∨ xs.length - 1 - j = b
    · have hne := hat.mpr hpair
      rw [← Bool.bne_eq_xor, bne_iff_ne.mpr hne]
      rcases hpair with ha | hb'
      · rw [if_pos (by omega), if_neg (by omega), add_zero]
        rfl
      · rw [if_neg (by omega), if_pos (by omega), zero_add]
        rfl
    · have heq := not_not.mp (mt hat.mp hpair)
      rw [heq, Bool.xor_self, if_neg (by omega), if_neg (by omega), add_zero]
      rfl
  · rw [List.getElem?_eq_none (by simp; omega), List.getElem?_eq_none (by simp; omega),
      if_neg (by omega), if_neg (by omega), add_zero]
    rfl

/-! ## The remainder

One step multiplies by `X`, adds the fed bit at `X ^ w` and subtracts a multiple of the generator.
So the run is exact in the quotient ring, and the register, whose degree is below that of the
generator, is the remainder.
-/

/-- A step in the ring of the residue classes. -/
theorem mk_polynomial_step (g s : BitVec w) (b : Bool) :
    AdjoinRoot.mk (generator g) (polynomial (step g s b))
      = AdjoinRoot.mk (generator g) (X * polynomial s + C (coefficient b) * X ^ w) := by
  rw [AdjoinRoot.mk_eq_mk, ← polynomial_step g s b, sub_add_cancel_left]
  exact (Dvd.intro_left _ rfl).neg_right

theorem mk_polynomial_feed (g s : BitVec w) (bits : List Bool) :
    AdjoinRoot.mk (generator g) (polynomial (feed g s bits))
      = AdjoinRoot.mk (generator g)
          (X ^ bits.length * polynomial s + X ^ w * streamPolynomial bits) := by
  induction bits generalizing s with
  | nil =>
      rw [feed_nil, List.length_nil, pow_zero, one_mul, streamPolynomial, mul_zero, add_zero]
  | cons b bs ih =>
      have hstep := mk_polynomial_step g s b
      rw [feed_cons, ih, map_add, map_mul, hstep, ← map_mul, ← map_add, List.length_cons,
        streamPolynomial]
      have hcomm : X ^ bs.length * (C (coefficient b) * X ^ w)
          = X ^ w * (C (coefficient b) * X ^ bs.length) := by
        rw [mul_left_comm, mul_left_comm (X ^ w), mul_comm (X ^ bs.length)]
      rw [mul_add, hcomm, mul_add, ← mul_assoc, ← pow_succ, add_assoc]

/-- **What is left in the register** is the remainder of what has been in it and what has been fed,
by the generator. -/
theorem polynomial_feed (g s : BitVec w) (bits : List Bool) :
    polynomial (feed g s bits)
      = (X ^ bits.length * polynomial s + X ^ w * streamPolynomial bits) %ₘ generator g := by
  have hself : polynomial (feed g s bits) %ₘ generator g = polynomial (feed g s bits) := by
    rw [modByMonic_eq_self_iff (monic_generator g), degree_generator]
    exact degree_polynomial_lt _
  rw [← hself]
  exact modByMonic_eq_of_dvd_sub (monic_generator g)
    (AdjoinRoot.mk_eq_mk.mp (mk_polynomial_feed g s bits))

/-- The register is determined by its class. -/
theorem mk_polynomial_inj (g : BitVec w) {x y : BitVec w} :
    AdjoinRoot.mk (generator g) (polynomial x) = AdjoinRoot.mk (generator g) (polynomial y) ↔
      x = y := by
  constructor
  · intro h
    have hdvd := AdjoinRoot.mk_eq_mk.mp h
    rw [CharTwo.sub_eq_add, ← polynomial_xor] at hdvd
    have hlt : (polynomial (x ^^^ y)).degree < (generator g).degree := by
      rw [degree_generator]
      exact degree_polynomial_lt _
    -- a multiple of the generator of lower degree is zero
    by_contra hne
    apply (monic_generator g).not_dvd_of_degree_lt _ hlt hdvd
    rw [← polynomial_zero (w := w), polynomial_injective.ne_iff, Ne, BitVec.xor_eq_zero_iff]
    exact hne
  · rintro rfl
    rfl

/-! ## Odd polynomials

An odd generator has a constant term, so it is prime to every power of `X` and a factor `X ^ n`
can be taken off.
-/

/-- A generator with a constant term has no factor `X`. -/
theorem isCoprime_generator {g : BitVec w} (hg : g.getLsbD 0 = true) (n : Nat) :
    IsCoprime (generator g) (X ^ n) := by
  have hw : w ≠ 0 := by
    rintro rfl
    rw [BitVec.of_length_zero (x := g), BitVec.getLsbD_zero] at hg
    cases hg
  have hcoeff : (generator g).coeff 0 = 1 := by
    rw [generator, coeff_add, coeff_X_pow, if_neg (Ne.symm hw), coeff_polynomial, hg, zero_add]
    rfl
  obtain ⟨q, hq⟩ := X_dvd_sub_C (p := generator g)
  rw [hcoeff, C_1] at hq
  have hone : IsCoprime (generator g) X := ⟨1, -q, by linear_combination hq⟩
  exact hone.pow_right

/-- **Which streams an odd polynomial tells apart**: those whose difference the generator does not
divide. -/
theorem feed_eq_iff {g : BitVec w} (hg : g.getLsbD 0 = true) (s : BitVec w) {xs ys : List Bool}
    (hlen : xs.length = ys.length) :
    feed g s xs = feed g s ys ↔ generator g ∣ streamPolynomial xs - streamPolynomial ys := by
  have hdiff : X ^ xs.length * polynomial s + X ^ w * streamPolynomial xs
      - (X ^ ys.length * polynomial s + X ^ w * streamPolynomial ys)
      = X ^ w * (streamPolynomial xs - streamPolynomial ys) := by
    rw [hlen]
    ring
  rw [← mk_polynomial_inj g, mk_polynomial_feed, mk_polynomial_feed, AdjoinRoot.mk_eq_mk, hdiff]
  exact ⟨(isCoprime_generator hg w).dvd_of_dvd_mul_left, fun h => h.mul_left _⟩

/-! ## Parity

A generator with an even number of terms has the factor `X + 1`, and so has every stream it
divides. -/

/-- The number of terms of the generator is even: an odd number of bits of `g` are set. -/
def EvenTerms (g : BitVec w) : Prop := Even ((true :: msbFirst g).count true)

instance (g : BitVec w) : Decidable (EvenTerms g) :=
  inferInstanceAs (Decidable (Even _))

/-- The generator is the stream of a leading one and the bits of `g`. -/
theorem streamPolynomial_generator (g : BitVec w) :
    streamPolynomial (true :: msbFirst g) = generator g := by
  rw [streamPolynomial, streamPolynomial_msbFirst, length_msbFirst, generator,
    show coefficient true = 1 from rfl, C_1, one_mul]

theorem even_count_of_dvd {g : BitVec w} (hg : EvenTerms g) {bits : List Bool}
    (hdvd : generator g ∣ streamPolynomial bits) : Even (bits.count true) := by
  obtain ⟨q, hq⟩ := hdvd
  have hzero : (generator g).eval 1 = 0 := by
    rw [← streamPolynomial_generator, eval_one_streamPolynomial]
    exact ZMod.natCast_eq_zero_iff_even.mpr hg
  have heval := congrArg (eval 1) hq
  rw [eval_one_streamPolynomial, eval_mul, hzero, zero_mul] at heval
  exact ZMod.natCast_eq_zero_iff_even.mp heval

end DivisionRegister
