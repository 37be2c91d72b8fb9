import Mathlib.Data.BitVec

/-! # Division registers

A `w`-bit register dividing a bit stream by a polynomial `g` over the two-element field, one bit
at a time and most significant bit first. Everything here is for an arbitrary width and
polynomial; the five facts that a table-driven or error-detecting use of the register needs are

* `feed_eq_advance` — feeding at most `w` bits is xoring them into the top of the register and
  then advancing it on zeros,
* `feed_block` — feeding `k` bits is one shift by `k` and one lookup in the table of the `2 ^ k`
  residues,
* `reverse_feed_block` — in the mirror the register shifts right instead,
* `toNat_residue` — those residues are computed by the same steps on natural numbers,
* `feed_ne_of_burst` — for an odd `g`, two streams that differ only inside `w` consecutive bits
  leave different registers. -/

namespace DivisionRegister

variable {w : Nat}

/-- One step: shift the register left, and subtract `g` when the bit that leaves it and the bit
that is fed differ. -/
def step (g s : BitVec w) (bit : Bool) : BitVec w :=
  (s <<< 1) ^^^ (if s.msb ^^ bit then g else 0#w)

/-- Feed a stream, first bit first. -/
def feed (g s : BitVec w) (bits : List Bool) : BitVec w := bits.foldl (step g) s

/-- Feed `n` zeros. -/
def advance (g : BitVec w) : Nat → BitVec w → BitVec w
  | 0, s     => s
  | n + 1, s => advance g n (step g s false)

@[simp] theorem feed_nil (g s : BitVec w) : feed g s [] = s := rfl

@[simp] theorem feed_cons (g s : BitVec w) (b : Bool) (bs : List Bool) :
    feed g s (b :: bs) = feed g (step g s b) bs := rfl

theorem feed_append (g s : BitVec w) (xs ys : List Bool) :
    feed g s (xs ++ ys) = feed g (feed g s xs) ys := List.foldl_append

/-! ## Linearity

A step is linear in the register and the bit together, so the whole run is. -/

/-- Subtracting `g` under a condition is linear in the condition. -/
theorem mask_xor (g : BitVec w) (a b : Bool) :
    (if a ^^ b then g else 0#w) = (if a then g else 0#w) ^^^ (if b then g else 0#w) := by
  cases a <;> cases b <;> simp

theorem step_xor (g s t : BitVec w) (a b : Bool) :
    step g (s ^^^ t) (a ^^ b) = step g s a ^^^ step g t b := by
  have hbits : ((s ^^^ t).msb ^^ (a ^^ b)) = ((s.msb ^^ a) ^^ (t.msb ^^ b)) := by
    rw [BitVec.msb_xor, Bool.xor_assoc, Bool.xor_assoc, Bool.xor_left_comm t.msb]
  unfold step
  rw [hbits, mask_xor, BitVec.shiftLeft_xor_distrib]
  ac_rfl

theorem step_xor_false (g s t : BitVec w) :
    step g (s ^^^ t) false = step g s false ^^^ step g t false :=
  step_xor g s t false false

@[simp] theorem step_zero (g : BitVec w) : step g 0#w false = 0#w := by
  simp [step]

theorem advance_xor (g : BitVec w) (n : Nat) (s t : BitVec w) :
    advance g n (s ^^^ t) = advance g n s ^^^ advance g n t := by
  induction n generalizing s t with
  | zero => rfl
  | succ n ih => rw [advance, advance, advance, step_xor_false, ih]

/-- The difference of two runs is the run of the difference. -/
theorem feed_xor (g : BitVec w) (xs ys : List Bool) (hlen : xs.length = ys.length)
    (s t : BitVec w) :
    feed g s xs ^^^ feed g t ys = feed g (s ^^^ t) (List.zipWith xor xs ys) := by
  induction xs generalizing ys s t with
  | nil =>
      -- the streams have one length, so both are empty or neither is
      cases ys with
      | nil => rfl
      | cons y ys => simp at hlen
  | cons x xs ih =>
      cases ys with
      | nil => simp at hlen
      | cons y ys =>
          rw [feed_cons, feed_cons, List.zipWith_cons_cons, feed_cons, step_xor]
          exact ih ys (by simpa using hlen) _ _

theorem feed_false (g s : BitVec w) (bits : List Bool) (h : ∀ b ∈ bits, b = false) :
    feed g s bits = advance g bits.length s := by
  induction bits generalizing s with
  | nil => rfl
  | cons b bs ih =>
      have hb : b = false := h b List.mem_cons_self
      subst hb
      exact ih _ (fun c hc => h c (List.mem_cons_of_mem _ hc))

@[simp] theorem advance_zero (g : BitVec w) (n : Nat) : advance g n 0#w = 0#w := by
  induction n with
  | zero => rfl
  | succ n ih => rw [advance, step_zero, ih]

/-! ## Bits at the top of the register

A register that is advanced on zeros sees its own bits leave at the top one by one. Placing the
bits of the stream there beforehand has the same effect as feeding them, as long as they fit.
-/

/-- The bits of a stream from the most significant position of the register downwards; what does
not fit is dropped. -/
def top : List Bool → BitVec w
  | []      => 0#w
  | b :: bs => (if b then BitVec.intMin w else 0#w) ^^^ (top bs >>> 1)

theorem getMsbD_top (bits : List Bool) (i : Nat) :
    (top bits : BitVec w).getMsbD i = (decide (i < w) && bits[i]?.getD false) := by
  induction bits generalizing i with
  | nil => simp [top]
  | cons b bs ih =>
      rw [top, BitVec.getMsbD_xor, BitVec.getMsbD_ushiftRight, ih]
      -- the first bit, at the top and nowhere else
      have hmin : (if b then BitVec.intMin w else 0#w).getMsbD i
          = (decide (i < w) && (decide (i = 0) && b)) := by
        cases b with
        | false => simp
        | true => cases i <;> simp [BitVec.getMsbD, BitVec.getLsbD_intMin] <;> omega
      rw [hmin]
      cases i with
      | zero => by_cases h : 0 < w <;> simp [h]
      | succ i => by_cases h : i + 1 < w <;> simp [h]; omega

/-- Halving a register whose lowest bit is clear and shifting it back loses nothing. -/
theorem step_ushiftRight_one (g x : BitVec w) (h : x.getLsbD 0 = false) :
    step g (x >>> 1) false = x := by
  have hmsb : (x >>> 1).msb = false := by
    rw [BitVec.msb_ushiftRight]; simp
  rw [step, hmsb]
  apply BitVec.eq_of_getLsbD_eq
  intro i hi
  cases i with
  | zero => simp [h]
  | succ i =>
      have hi' : 1 + i = i + 1 := Nat.add_comm 1 i
      simp [hi, hi']

/-- A fed bit acts like a register whose top bit it is. -/
theorem step_bit (hw : 0 < w) (g s : BitVec w) (b : Bool) :
    step g s b = step g (s ^^^ (if b then BitVec.intMin w else 0#w)) false := by
  cases b with
  | false => simp
  | true =>
      have hmsb : (s ^^^ BitVec.intMin w).msb = !s.msb := by
        rw [BitVec.msb_xor, BitVec.msb_intMin]
        simp [hw]
      -- a bit at the top leaves in the shift, and is felt in the test only
      have hshift : (BitVec.intMin w) <<< 1 = 0#w := by
        apply BitVec.eq_of_getLsbD_eq
        intro i hi
        cases i with
        | zero => simp
        | succ i => simp [BitVec.getLsbD_intMin]; omega
      rw [if_pos rfl, step, step, hmsb, BitVec.shiftLeft_xor_distrib, hshift]
      simp

/-- **Feeding is advancing.** Up to `w` bits can be placed at the top of the register first and
the register advanced on zeros afterwards. -/
theorem feed_eq_advance (g s : BitVec w) (bits : List Bool) (hlen : bits.length ≤ w) :
    feed g s bits = advance g bits.length (s ^^^ top bits) := by
  induction bits generalizing s with
  | nil => simp [top, advance]
  | cons b bs ih =>
      rw [List.length_cons] at hlen
      -- the lowest position is still free, so halving `top bs` loses no bit
      have hlow : (top bs : BitVec w).getLsbD 0 = false := by
        rw [BitVec.getLsbD_eq_getMsbD, getMsbD_top, List.getElem?_eq_none (by omega)]
        simp
      have hstep : step g (s ^^^ top (b :: bs)) false = step g s b ^^^ top bs := by
        rw [top, ← BitVec.xor_assoc, step_xor_false, ← step_bit (by omega),
          step_ushiftRight_one g _ hlow]
      rw [feed_cons, ih _ (by omega), List.length_cons, advance, hstep]

/-- While the bits that leave the register are clear, advancing is shifting. -/
theorem advance_of_high_clear (g : BitVec w) (n : Nat) (x : BitVec w)
    (h : ∀ i < n, x.getMsbD i = false) : advance g n x = x <<< n := by
  induction n generalizing x with
  | zero => simp [advance]
  | succ n ih =>
      have hmsb : x.msb = false := h 0 (Nat.succ_pos n)
      have hstep : step g x false = x <<< 1 := by simp [step, hmsb]
      have hrest : ∀ i < n, (x <<< 1).getMsbD i = false := by
        intro i hi
        rw [BitVec.getMsbD_shiftLeft]
        exact h (i + 1) (by omega)
      rw [advance, hstep, ih _ hrest, ← BitVec.shiftLeft_add, Nat.add_comm]

/-! ## Blocks: the table-driven register

Of the register, the `k` bits that leave decide which residue is subtracted, and the others are
merely shifted. By linearity the two parts may be advanced apart.
-/

/-- The bits of a block, most significant first. -/
def msbFirst {k : Nat} (b : BitVec k) : List Bool := (List.range k).map b.getMsbD

/-- The bits of a block, least significant first. -/
def lsbFirst {k : Nat} (b : BitVec k) : List Bool := (List.range k).map b.getLsbD

@[simp] theorem length_msbFirst {k : Nat} (b : BitVec k) : (msbFirst b).length = k := by
  simp [msbFirst]

theorem msbFirst_reverse {k : Nat} (b : BitVec k) : msbFirst b.reverse = lsbFirst b := by
  unfold msbFirst lsbFirst
  exact List.map_congr_left fun i _ => BitVec.getMsbD_reverse

theorem reverse_lsbFirst {k : Nat} (b : BitVec k) : (lsbFirst b).reverse = msbFirst b := by
  apply List.ext_getElem
  · simp [lsbFirst]
  · intro i h _
    have hi : i < k := by simpa [lsbFirst] using h
    rw [List.getElem_reverse]
    simp [lsbFirst, msbFirst, BitVec.getMsbD_eq_getLsbD, hi]

/-- The residue of the block `i` placed at the top of the register: the `i`-th table entry. -/
def residue (g : BitVec w) {k : Nat} (i : BitVec k) : BitVec w :=
  advance g k (i.setWidth w <<< (w - k))

/-- A block at the top of the register: its bits come first, zeros follow. -/
theorem getMsbD_placed {k : Nat} (hk : k ≤ w) (b : BitVec k) (i : Nat) :
    (b.setWidth w <<< (w - k)).getMsbD i = b.getMsbD i := by
  have hle : w - k ≤ i + (w - k) := by omega
  have hsub : i + (w - k) + k - w = i := by omega
  simp [hle, hsub]

theorem top_msbFirst {k : Nat} (hk : k ≤ w) (b : BitVec k) :
    (top (msbFirst b) : BitVec w) = b.setWidth w <<< (w - k) := by
  apply BitVec.eq_of_getMsbD_eq
  intro i hi
  rw [getMsbD_top, getMsbD_placed hk b i]
  by_cases hik : i < k
  · simp [msbFirst, hik, hi]
  · rw [List.getElem?_eq_none (by simpa using hik), BitVec.getMsbD_of_ge _ _ (by omega)]
    simp

/-- **The table step.** Feeding a block of `k` bits is one shift of the register by `k` and one
residue, looked up at the top `k` bits of the register xored with the block. -/
theorem feed_block {k : Nat} (hk : k ≤ w) (g s : BitVec w) (b : BitVec k) :
    feed g s (msbFirst b)
      = (s <<< k) ^^^ residue g ((s >>> (w - k)).setWidth k ^^^ b) := by
  -- split the register into the `k` bits that leave it and the rest
  have hsplit : s ^^^ (b.setWidth w <<< (w - k))
      = ((s <<< k) >>> k) ^^^ (((s >>> (w - k)).setWidth k ^^^ b).setWidth w <<< (w - k)) := by
    apply BitVec.eq_of_getMsbD_eq
    intro i hi
    have htop : ((s >>> (w - k)).setWidth k).getMsbD i = (decide (i < k) && s.getMsbD i) := by
      by_cases hik : i < k
      · have h1 : k - w ≤ i := by omega
        have h2 : i + w - k < w := by omega
        have h3 : ¬ i + w - k < w - k := by omega
        have h4 : i + w - k - (w - k) = i := by omega
        simp [BitVec.getMsbD_ushiftRight, hik, h1, h2, h3, h4]
      · rw [BitVec.getMsbD_of_ge _ _ (by omega)]
        simp [hik]
    rw [BitVec.getMsbD_xor, BitVec.getMsbD_xor, getMsbD_placed hk, getMsbD_placed hk,
      BitVec.getMsbD_xor, htop, BitVec.getMsbD_ushiftRight, BitVec.getMsbD_shiftLeft]
    by_cases hik : i < k
    · simp [hik]
    · have hsub : i - k + k = i := by omega
      simp [hik, hi, hsub]
  -- the rest has `k` clear bits on top, so advancing only shifts it
  have hlow : advance g k ((s <<< k) >>> k) = s <<< k := by
    rw [advance_of_high_clear]
    · apply BitVec.eq_of_getMsbD_eq
      intro i hi
      simp only [BitVec.getMsbD_shiftLeft, BitVec.getMsbD_ushiftRight]
      by_cases hik : i + k < w
      · simp [hik]
      · simp [hik, BitVec.getMsbD_of_ge s (i + k) (by omega)]
    · intro i hi
      simp [hi, BitVec.getMsbD_ushiftRight]
  rw [feed_eq_advance g s _ (by simpa using hk), length_msbFirst, top_msbFirst hk, hsplit,
    advance_xor, hlow, residue]

/-! ## The mirror image

The same division with the register and the polynomial bit-reversed: it shifts right and feeds
the least significant bit of a block first. -/

/-- `step` in the mirror. -/
def stepRight (g s : BitVec w) (bit : Bool) : BitVec w :=
  (s >>> 1) ^^^ (if s.getLsbD 0 ^^ bit then g else 0#w)

/-- `advance` in the mirror. -/
def advanceRight (g : BitVec w) : Nat → BitVec w → BitVec w
  | 0, s     => s
  | n + 1, s => advanceRight g n (stepRight g s false)

/-- `residue` in the mirror, where a block is placed at the bottom of the register. -/
def residueRight (g : BitVec w) {k : Nat} (i : BitVec k) : BitVec w :=
  advanceRight g k (i.setWidth w)

theorem reverse_xor (x y : BitVec w) : (x ^^^ y).reverse = x.reverse ^^^ y.reverse := by
  apply BitVec.eq_of_getLsbD_eq
  intro i _
  simp only [BitVec.getLsbD_reverse, BitVec.getLsbD_xor, BitVec.getMsbD_xor]

theorem reverse_shiftLeft (x : BitVec w) (n : Nat) : (x <<< n).reverse = x.reverse >>> n := by
  apply BitVec.eq_of_getLsbD_eq
  intro i _
  rw [BitVec.getLsbD_reverse, BitVec.getMsbD_shiftLeft, BitVec.getLsbD_ushiftRight,
    BitVec.getLsbD_reverse, Nat.add_comm]

theorem reverse_step (g s : BitVec w) (bit : Bool) :
    (step g s bit).reverse = stepRight g.reverse s.reverse bit := by
  have hlow : s.reverse.getLsbD 0 = s.msb := BitVec.getLsbD_reverse
  have hzero : (0#w).reverse = 0#w := BitVec.reverse_eq_zero_iff.mpr rfl
  unfold step stepRight
  rw [reverse_xor, reverse_shiftLeft, hlow]
  cases s.msb ^^ bit with
  | false => exact congrArg _ hzero
  | true => rfl

theorem reverse_advance (g s : BitVec w) (n : Nat) :
    (advance g n s).reverse = advanceRight g.reverse n s.reverse := by
  induction n generalizing s with
  | zero => rfl
  | succ n ih => rw [advance, advanceRight, ih, reverse_step]

theorem reverse_residue {k : Nat} (hk : k ≤ w) (g : BitVec w) (i : BitVec k) :
    (residue g i).reverse = residueRight g.reverse i.reverse := by
  have hplaced : (i.setWidth w <<< (w - k)).reverse = i.reverse.setWidth w := by
    apply BitVec.eq_of_getLsbD_eq
    intro j hj
    rw [BitVec.getLsbD_reverse, getMsbD_placed hk, BitVec.getLsbD_setWidth,
      BitVec.getLsbD_reverse, decide_eq_true hj, Bool.true_and]
  rw [residue, reverse_advance, hplaced, residueRight]

/-- **The table step in the mirror.** The register shifts right by `k`, and the residue is looked
up at its low `k` bits xored with the block, whose least significant bit is fed first. -/
theorem reverse_feed_block {k : Nat} (hk : k ≤ w) (g s : BitVec w) (b : BitVec k) :
    (feed g s (msbFirst b.reverse)).reverse
      = (s.reverse >>> k) ^^^ residueRight g.reverse (s.reverse.setWidth k ^^^ b) := by
  -- the bits that leave at the top are, mirrored, those at the bottom
  have hindex : ((s >>> (w - k)).setWidth k ^^^ b.reverse).reverse = s.reverse.setWidth k ^^^ b := by
    rw [reverse_xor, BitVec.reverse_reverse_eq]
    congr 1
    apply BitVec.eq_of_getLsbD_eq
    intro i hi
    have hpos : w - k + (k - 1 - i) = w - 1 - i := by omega
    have hle : i < w := by omega
    rw [BitVec.getLsbD_reverse, BitVec.getMsbD_eq_getLsbD, BitVec.getLsbD_setWidth,
      BitVec.getLsbD_ushiftRight, hpos, BitVec.getLsbD_setWidth, BitVec.getLsbD_reverse,
      BitVec.getMsbD_eq_getLsbD]
    have hlast : k - 1 - i < k := by omega
    simp [hi, hle, hlast]
  rw [feed_block hk, reverse_xor, reverse_shiftLeft, reverse_residue hk, hindex]

/-! ## The register as a number

The same steps on natural numbers, which evaluate much faster than steps on bit vectors. -/

/-- `step` on a zero bit, for a register and a polynomial given as numbers. -/
def stepNat (w g s : Nat) : Nat := (2 * s % 2 ^ w) ^^^ (if 2 ^ (w - 1) ≤ s then g else 0)

/-- `advance`, for a register and a polynomial given as numbers. -/
def advanceNat (w g : Nat) : Nat → Nat → Nat
  | 0, s     => s
  | n + 1, s => advanceNat w g n (stepNat w g s)

theorem toNat_step_false (g s : BitVec w) : (step g s false).toNat = stepNat w g.toNat s.toNat := by
  have hshift : (s <<< 1).toNat = 2 * s.toNat % 2 ^ w := by
    rw [BitVec.toNat_shiftLeft, Nat.shiftLeft_eq, Nat.mul_comm, pow_one]
  unfold step stepNat
  rw [BitVec.toNat_xor, hshift, Bool.xor_false, BitVec.msb_eq_decide]
  by_cases h : 2 ^ (w - 1) ≤ s.toNat
  · simp [h]
  · simp [h]

theorem toNat_advance (g : BitVec w) (n : Nat) (s : BitVec w) :
    (advance g n s).toNat = advanceNat w g.toNat n s.toNat := by
  induction n generalizing s with
  | zero => rfl
  | succ n ih => rw [advance, advanceNat, ih, toNat_step_false]

theorem toNat_residue (g : BitVec w) {k : Nat} (hk : k ≤ w) (i : BitVec k) :
    (residue g i).toNat = advanceNat w g.toNat k (i.toNat * 2 ^ (w - k)) := by
  have hi : i.toNat < 2 ^ k := i.isLt
  have hpow : 2 ^ k * 2 ^ (w - k) = 2 ^ w := by
    rw [← Nat.pow_add]
    congr 1
    omega
  have hwide : i.toNat < 2 ^ w := Nat.lt_of_lt_of_le hi (Nat.pow_le_pow_right (by omega) hk)
  have hplaced : i.toNat * 2 ^ (w - k) < 2 ^ w := by
    rw [← hpow]
    exact Nat.mul_lt_mul_of_pos_right hi (Nat.two_pow_pos _)
  rw [residue, toNat_advance, BitVec.toNat_shiftLeft, BitVec.toNat_setWidth,
    Nat.mod_eq_of_lt hwide, Nat.shiftLeft_eq, Nat.mod_eq_of_lt hplaced]

/-! ## Odd polynomials: bursts are detected

For an odd `g` a step on zero is invertible, so a nonzero register never returns to zero. -/

theorem step_ne_zero {g s : BitVec w} (hg : g.getLsbD 0 = true) (hs : s ≠ 0#w) :
    step g s false ≠ 0#w := by
  intro hzero
  apply hs
  have hbit : ∀ i, (step g s false).getLsbD i = false := by
    intro i; rw [hzero]; simp
  have hw : 0 < w := by
    rcases Nat.eq_zero_or_pos w with rfl | hw
    · simp [BitVec.of_length_zero] at hg
    · exact hw
  -- the lowest bit of the result is the bit that left the register
  have hmsb : s.msb = false := by
    have h0 := hbit 0
    cases hm : s.msb with
    | false => rfl
    | true => simp [step, hm, hg] at h0
  apply BitVec.eq_of_getLsbD_eq
  intro i hi
  by_cases hlast : i + 1 < w
  · have hi1 := hbit (i + 1)
    simpa [step, hmsb, hlast, ← BitVec.getLsbD_eq_getElem] using hi1
  · have hieq : i = w - 1 := by omega
    rw [hieq, ← BitVec.msb_eq_getLsbD_last, hmsb]
    simp

theorem advance_ne_zero {g s : BitVec w} (hg : g.getLsbD 0 = true) (hs : s ≠ 0#w) (n : Nat) :
    advance g n s ≠ 0#w := by
  induction n generalizing s with
  | zero => exact hs
  | succ n ih => exact ih (step_ne_zero hg hs)

theorem top_ne_zero {bits : List Bool} (hlen : bits.length ≤ w) (h : true ∈ bits) :
    (top bits : BitVec w) ≠ 0#w := by
  intro hzero
  obtain ⟨i, hi, hbit⟩ := List.mem_iff_getElem.mp h
  have hget := getMsbD_top (w := w) bits i
  rw [hzero, List.getElem?_eq_getElem hi, hbit] at hget
  simp at hget
  omega

/-- The register is nonzero after a nonzero stream whose ones lie within `w` consecutive bits. -/
theorem feed_ne_zero_of_burst {g : BitVec w} (hg : g.getLsbD 0 = true) (d : List Bool) (a : Nat)
    (hd : true ∈ d) (hwin : ∀ i : Nat, d[i]? = some true → a ≤ i ∧ i < a + w) :
    feed g 0#w d ≠ 0#w := by
  -- before the window, inside it, and behind it
  have hsplit : d = d.take a ++ ((d.drop a).take w ++ (d.drop a).drop w) := by
    rw [List.take_append_drop, List.take_append_drop]
  have hbefore : ∀ b ∈ d.take a, b = false := by
    intro b hb
    obtain ⟨i, hi, rfl⟩ := List.mem_iff_getElem.mp hb
    rw [List.length_take] at hi
    rw [List.getElem_take]
    by_contra hne
    have hwi := hwin i (by rw [List.getElem?_eq_getElem (by omega)]; simpa using hne)
    omega
  have hafter : ∀ b ∈ (d.drop a).drop w, b = false := by
    intro b hb
    obtain ⟨i, hi, rfl⟩ := List.mem_iff_getElem.mp hb
    rw [List.length_drop, List.length_drop] at hi
    rw [List.getElem_drop, List.getElem_drop]
    by_contra hne
    have hwi := hwin (a + (w + i)) (by
      rw [List.getElem?_eq_getElem (by omega)]; simpa using hne)
    omega
  have hburst : true ∈ (d.drop a).take w := by
    rw [hsplit] at hd
    rcases List.mem_append.mp hd with h | h
    · exact absurd (hbefore _ h) (by simp)
    · rcases List.mem_append.mp h with h | h
      · exact h
      · exact absurd (hafter _ h) (by simp)
  have hlen : ((d.drop a).take w).length ≤ w := by
    rw [List.length_take]; omega
  -- zeros keep the empty register empty, and cannot empty it again behind the window
  rw [hsplit, feed_append, feed_false g _ _ hbefore, advance_zero, feed_append,
    feed_false g _ _ hafter, feed_eq_advance g _ _ hlen, BitVec.zero_xor]
  exact advance_ne_zero hg (advance_ne_zero hg (top_ne_zero hlen hburst) _) _

/-- **Bursts are detected.** Two streams of one length that differ, and only within `w`
consecutive positions, drive a register with an odd polynomial into different states. -/
theorem feed_ne_of_burst {g : BitVec w} (hg : g.getLsbD 0 = true) (s : BitVec w)
    {xs ys : List Bool} (hlen : xs.length = ys.length) (hne : xs ≠ ys) (a : Nat)
    (hwin : ∀ i : Nat, xs[i]? ≠ ys[i]? → a ≤ i ∧ i < a + w) :
    feed g s xs ≠ feed g s ys := by
  intro heq
  -- the difference of the streams is a stream, and the register is linear in it
  have hdiff : ∀ i : Nat, (List.zipWith xor xs ys)[i]? = some true ↔ xs[i]? ≠ ys[i]? := by
    intro i
    by_cases hi : i < xs.length
    · have hi' : i < ys.length := by omega
      simp [hi, hi']
    · simp [List.getElem?_zipWith, List.getElem?_eq_none (Nat.le_of_not_lt hi),
        List.getElem?_eq_none (show ys.length ≤ i by omega)]
  have hd : true ∈ List.zipWith xor xs ys := by
    obtain ⟨i, hi⟩ : ∃ i : Nat, xs[i]? ≠ ys[i]? := by
      by_contra hall
      apply hne
      apply List.ext_getElem?
      intro i
      by_contra h
      exact hall ⟨i, h⟩
    have hbit := (hdiff i).mpr hi
    exact List.mem_of_getElem? hbit
  have hxor := feed_xor g xs ys hlen s s
  rw [heq, BitVec.xor_self, BitVec.xor_self] at hxor
  exact feed_ne_zero_of_burst hg _ a hd (fun i hi => hwin i ((hdiff i).mp hi)) hxor.symm

end DivisionRegister
