import IMUtility.Crc.Remainder
import IMUtility.Lib.RegisterOrder
import Mathlib.NumberTheory.LucasLehmer
import Mathlib.Tactic.NormNum.Prime

/-! # Which errors a CRC misses

Beyond bursts, two kinds of errors are told apart by the generator alone. An error of an odd number
of bits is always noticed exactly if the generator has an even number of terms
(`variants_detectOdd_iff`), and an error of two bits goes unnoticed exactly if the distance of the
bits is a multiple of the order of `X` modulo the generator (`variants_missPairs`). The orders are
listed with their prime factors, by which they are checked. -/

namespace IMUtility.Crc

open DivisionRegister Polynomial

variable {w : Nat}

/-! ## Errors of an odd number of bits

A polynomial over the two-element field with an even number of terms is divisible by `X + 1`, and
so are its multiples; they have an even number of terms as well. For the other direction the
generator itself, written as a message, is the error that is missed.
-/

/-- The bits in which two messages differ, as a stream. -/
def flips (ri : Bool) (m m' : List Byte) : List Bool :=
  List.zipWith xor (messageBits ri m) (messageBits ri m')

/-- Every error of an odd number of bits is noticed. -/
def DetectsOdd (f : Variant w) (ri : Bool) : Prop :=
  ∀ m m' : List Byte, m.length = m'.length → Odd ((flips ri m m').count true) →
    f m true nullPtr ≠ f m' true nullPtr

theorem streamPolynomial_flips {m m' : List Byte} (ri : Bool) (hlen : m.length = m'.length) :
    streamPolynomial (flips ri m m') = messagePolynomial ri m - messagePolynomial ri m' := by
  have hbits : (messageBits ri m).length = (messageBits ri m').length := by
    rw [length_messageBits, length_messageBits, hlen]
  rw [flips, streamPolynomial_xor _ _ hbits, CharTwo.sub_eq_add]
  rfl

theorem streamPolynomial_zeros (n : Nat) (bits : List Bool) :
    streamPolynomial (List.replicate n false ++ bits) = streamPolynomial bits := by
  induction n with
  | zero => rfl
  | succ n ih =>
      rw [List.replicate_succ, List.cons_append, streamPolynomial, ih,
        show coefficient false = 0 from rfl, C_0, zero_mul, zero_add]

/-- The generator, written as a message of `w / 8 + 1` bytes. -/
def generatorMessage (ri : Bool) (g : BitVec w) : List Byte :=
  (if ri then 0x80#8 else 0x01#8) :: crcBytes ri (if ri then g.reverse else g)

/-- The message of zeros as long. -/
def zeroMessage (w : Nat) : List Byte := List.replicate (w / 8 + 1) 0x00#8

theorem messageBits_generatorMessage (hw : 8 * (w / 8) = w) (ri : Bool) (g : BitVec w) :
    messageBits ri (generatorMessage ri g) = List.replicate 7 false ++ (true :: msbFirst g) := by
  rw [generatorMessage, messageBits_cons, messageBits_crcBytes hw]
  cases ri with
  | false => rfl
  | true =>
      show _ ++ msbFirst g.reverse.reverse = _
      rw [BitVec.reverse_reverse_eq]
      rfl

theorem messageBits_zeroMessage (ri : Bool) (w : Nat) :
    messageBits ri (zeroMessage w) = List.replicate (8 * (w / 8 + 1)) false := by
  rw [zeroMessage]
  induction w / 8 + 1 with
  | zero => rfl
  | succ n ih =>
      rw [List.replicate_succ, messageBits_cons, ih, Nat.mul_succ, Nat.add_comm, List.replicate_add]
      cases ri <;> rfl

theorem flips_generatorMessage (hw : 8 * (w / 8) = w) (ri : Bool) (g : BitVec w) :
    flips ri (generatorMessage ri g) (zeroMessage w)
      = List.replicate 7 false ++ (true :: msbFirst g) := by
  have hlen : (List.replicate 7 false ++ (true :: msbFirst g)).length = 8 * (w / 8 + 1) := by
    rw [List.length_append, List.length_replicate, List.length_cons, length_msbFirst]
    omega
  rw [flips, messageBits_generatorMessage hw, messageBits_zeroMessage]
  generalize List.replicate 7 false ++ (true :: msbFirst g) = bits at hlen ⊢
  apply List.ext_getElem
  · rw [List.length_zipWith, List.length_replicate, hlen, Nat.min_self]
  · intro i _ _
    rw [List.getElem_zipWith, List.getElem_replicate, Bool.xor_false]

/-- The odd errors are noticed exactly if the generator has an even number of terms. If it has not,
the generator itself is an odd error that is missed. -/
theorem Published.detectsOdd_iff (hw : 8 * (w / 8) = w) {f : Variant w} {p : Parameters w}
    (h : Published f p) : DetectsOdd f p.reflect ↔ EvenTerms p.polynomial := by
  constructor
  · intro hdetects
    -- an odd generator is a message that differs from zeros in an odd number of bits
    by_contra hodd
    have hlen : (generatorMessage p.reflect p.polynomial).length = (zeroMessage w).length := by
      rw [generatorMessage, zeroMessage, List.length_cons, length_crcBytes, List.length_replicate]
    have hcount : (flips p.reflect (generatorMessage p.reflect p.polynomial)
        (zeroMessage w)).count true = (true :: msbFirst p.polynomial).count true := by
      rw [flips_generatorMessage hw, List.count_append, List.count_replicate]
      simp
    apply hdetects _ _ hlen
    · rw [hcount]
      exact Nat.not_even_iff_odd.mp hodd
    · rw [h.eq_iff hlen, ← streamPolynomial_flips _ hlen, flips_generatorMessage hw,
        streamPolynomial_zeros, streamPolynomial_generator]
  -- the difference would be a multiple of the generator, and so have an even number of terms
  · intro heven m m' hlen hodd heq
    rw [h.eq_iff hlen, ← streamPolynomial_flips _ hlen] at heq
    exact Nat.not_even_iff_odd.mpr hodd (even_count_of_dvd heven heq)

/-- **Which functions notice every odd error**: those whose generator has an even number of
terms. -/
theorem variants_detectOdd_iff :
    (∀ e ∈ catalogue8, DetectsOdd e.1 e.2.reflect ↔ EvenTerms e.2.polynomial) ∧
    (∀ e ∈ catalogue16, DetectsOdd e.1 e.2.reflect ↔ EvenTerms e.2.polynomial) ∧
    (∀ e ∈ catalogue32, DetectsOdd e.1 e.2.reflect ↔ EvenTerms e.2.polynomial) :=
  ⟨fun e he => (catalogue8_published e he).detectsOdd_iff (by omega),
   fun e he => (catalogue16_published e he).detectsOdd_iff (by omega),
   fun e he => (catalogue32_published e he).detectsOdd_iff (by omega)⟩

/-- The polynomials of the three families that do. -/
example :
    (tables8.map Prod.fst).filter (fun g => EvenTerms g)
      = [0x07#8, 0x2F#8, 0x31#8, 0x9B#8, 0xD5#8] ∧
    (tables16.map Prod.fst).filter (fun g => EvenTerms g)
      = [0x0589#16, 0x1021#16, 0x3D65#16, 0x8005#16, 0xA097#16] ∧
    (tables32.map Prod.fst).filter (fun g => EvenTerms g)
      = [0x1EDC6F41#32, 0x814141AB#32] := by
  decide +kernel

/-! ## Errors of two bits

The difference of two such messages is `X ^ i * (X ^ d + 1)` for the distance `d` of the bits, and
an odd generator is prime to `X`. So it divides the difference exactly if `X ^ d = 1` in the
quotient ring. The order of `X` there is checked by computing powers for the order and for its
quotients by each prime factor.
-/

/-- Two messages of one length that differ in the bits at `a` and `b` and nowhere else. -/
structure BitPair (ri : Bool) (a b : Nat) (m m' : List Byte) : Prop where
  lt : a < b
  length_eq : m.length = m'.length
  differ_iff : ∀ i : Nat, (messageBits ri m)[i]? ≠ (messageBits ri m')[i]? ↔ i = a ∨ i = b

/-- Two flipped bits go unnoticed exactly at multiples of the period. -/
def MissesPairs (f : Variant w) (ri : Bool) (period : Nat) : Prop :=
  ∀ (a b : Nat) (m m' : List Byte), BitPair ri a b m m' →
    (f m true nullPtr = f m' true nullPtr ↔ period ∣ b - a)

/-- The period of a polynomial, with its prime factors. -/
structure Period (w : Nat) where
  polynomial : BitVec w
  period : Nat
  factors : List Nat

/-- The periods of the CRC-8 polynomials. -/
def periods8 : List (Period 8) :=
  [⟨0x07#8, 127, [127]⟩, ⟨0x1D#8, 255, [3, 5, 17]⟩, ⟨0x2F#8, 127, [127]⟩, ⟨0x31#8, 127, [127]⟩,
   ⟨0x39#8, 17, [17]⟩, ⟨0x9B#8, 127, [127]⟩, ⟨0xD5#8, 93, [3, 31]⟩]

/-- The periods of the CRC-16 polynomials. -/
def periods16 : List (Period 16) :=
  [⟨0x0589#16, 254, [2, 127]⟩, ⟨0x1021#16, 32767, [7, 31, 151]⟩, ⟨0x3D65#16, 151, [151]⟩,
   ⟨0x8005#16, 32767, [7, 31, 151]⟩, ⟨0x8BB7#16, 65535, [3, 5, 17, 257]⟩,
   ⟨0xA097#16, 32766, [2, 3, 43, 127]⟩, ⟨0xC867#16, 65535, [3, 5, 17, 257]⟩]

/-- The periods of the CRC-32 polynomials. -/
def periods32 : List (Period 32) :=
  [⟨0x000000AF#32, 4294967295, [3, 5, 17, 257, 65537]⟩,
   ⟨0x04C11DB7#32, 4294967295, [3, 5, 17, 257, 65537]⟩,
   ⟨0x1EDC6F41#32, 2147483647, [2147483647]⟩, ⟨0x814141AB#32, 2147483647, [2147483647]⟩,
   ⟨0xA833982B#32, 65537, [65537]⟩]

/-- What is checked of an entry by computation. -/
def Period.Checks (o : Period w) : Prop :=
  HasOrder w o.polynomial.toNat o.period o.factors ∧
    ∀ q ∈ o.factors, q ∈ [2, 3, 5, 7, 17, 31, 43, 127, 151, 257, 65537, 2147483647]

instance (o : Period w) : Decidable o.Checks :=
  inferInstanceAs (Decidable (_ ∧ _))

theorem periods_check : (∀ o ∈ periods8, o.Checks) ∧ (∀ o ∈ periods16, o.Checks) ∧
    ∀ o ∈ periods32, o.Checks := by
  decide +kernel

theorem prime_of_mem {q : Nat}
    (hq : q ∈ [2, 3, 5, 7, 17, 31, 43, 127, 151, 257, 65537, 2147483647]) : q.Prime := by
  -- the one large factor is a Mersenne prime
  have hmersenne : Nat.Prime 2147483647 := by
    have h := lucas_lehmer_sufficiency 31 (by norm_num) (by norm_num)
    simpa [mersenne] using h
  revert q
  simp only [List.forall_mem_cons]
  refine ⟨?_, ?_, ?_, ?_, ?_, ?_, ?_, ?_, ?_, ?_, ?_, hmersenne, by simp⟩ <;> norm_num

theorem Period.Checks.orderOf_root (hw : 0 < w) {o : Period w} (h : o.Checks) :
    orderOf (AdjoinRoot.root (generator o.polynomial)) = o.period :=
  DivisionRegister.orderOf_root hw (fun q hq => prime_of_mem (h.2 q hq)) h.1

theorem Published.missesPairs (hw : 0 < w) {f : Variant w} {p : Parameters w} (h : Published f p)
    {o : Period w} (hcheck : o.Checks) (ho : o.polynomial = p.polynomial) :
    MissesPairs f p.reflect o.period := by
  intro a b m m' hpair
  have hbits : (messageBits p.reflect m).length = (messageBits p.reflect m').length := by
    rw [length_messageBits, length_messageBits, hpair.length_eq]
  -- the two terms of the difference, counted from the end of the message
  have hdiff : messagePolynomial p.reflect m - messagePolynomial p.reflect m'
      = X ^ ((messageBits p.reflect m).length - 1 - b + (b - a))
        + X ^ ((messageBits p.reflect m).length - 1 - b) :=
    streamPolynomial_sub_of_pair hpair.lt hbits hpair.differ_iff
  rw [h.eq_iff hpair.length_eq, hdiff, dvd_pair_iff h.odd, ← ho, hcheck.orderOf_root hw]

/-- **How far two flipped bits must be apart to go unnoticed**, in each of the 45 functions: a
multiple of the period of its polynomial. -/
theorem variants_missPairs :
    (∀ e ∈ catalogue8, ∃ o ∈ periods8, o.polynomial = e.2.polynomial ∧
      MissesPairs e.1 e.2.reflect o.period) ∧
    (∀ e ∈ catalogue16, ∃ o ∈ periods16, o.polynomial = e.2.polynomial ∧
      MissesPairs e.1 e.2.reflect o.period) ∧
    (∀ e ∈ catalogue32, ∃ o ∈ periods32, o.polynomial = e.2.polynomial ∧
      MissesPairs e.1 e.2.reflect o.period) := by
  refine ⟨?_, ?_, ?_⟩
  · intro e he
    have hlisted : ∀ e ∈ catalogue8, ∃ o ∈ periods8, o.polynomial = e.2.polynomial := by decide
    obtain ⟨o, ho, hpoly⟩ := hlisted e he
    exact ⟨o, ho, hpoly,
      (catalogue8_published e he).missesPairs (by omega) (periods_check.1 o ho) hpoly⟩
  · intro e he
    have hlisted : ∀ e ∈ catalogue16, ∃ o ∈ periods16, o.polynomial = e.2.polynomial := by decide
    obtain ⟨o, ho, hpoly⟩ := hlisted e he
    exact ⟨o, ho, hpoly,
      (catalogue16_published e he).missesPairs (by omega) (periods_check.2.1 o ho) hpoly⟩
  · intro e he
    have hlisted : ∀ e ∈ catalogue32, ∃ o ∈ periods32, o.polynomial = e.2.polynomial := by decide
    obtain ⟨o, ho, hpoly⟩ := hlisted e he
    exact ⟨o, ho, hpoly,
      (catalogue32_published e he).missesPairs (by omega) (periods_check.2.2 o ho) hpoly⟩

end IMUtility.Crc
