import IMUtility.Typedefs

/-! # `bit_manipulation.c`: reflection

`BitManipulation_reflect` walks over the low `n_bits` bits of `data` and sets the mirrored bit of
an accumulator. Its shift count is masked with `0x1F`, so only up to 32 bits it is the mirror
image; `getLsbD_reflect` is that fact and `reflect_eq_reverse` its form for a register of any
width up to 32. -/

namespace IMUtility.BitManipulation

/-- One pass of the loop, on the pair of `reflection` and `temp_data`. -/
def reflectStep (n_bits : BitVec 8) (st : BitVec 32 × BitVec 32) (bit : Nat) :
    BitVec 32 × BitVec 32 :=
  let (reflection, temp_data) := st
  let reflection :=
    if 1#32 = temp_data &&& 1#32 then
      reflection ||| (1#32 <<< (0x1F#32 &&& ((n_bits.setWidth 32 - 1#32) - BitVec.ofNat 32 bit)))
    else reflection
  (reflection, temp_data >>> 1)

/-- `BitManipulation_reflect`. -/
def reflect (data : BitVec 32) (n_bits : BitVec 8) : BitVec 32 :=
  ((List.range n_bits.toNat).foldl (reflectStep n_bits) (0#32, data)).1

/-! ## The mirror image

The invariant of the loop is about positions: after `j` passes the accumulator has the mirrored
bits of the `j` lowest positions, and nothing else. It is read off at `j = n_bits`. Above 32 bits
the mask on the shift count would fold positions onto each other, hence the bound.
-/

theorem and_one_eq (x : BitVec 32) : (1#32 = x &&& 1#32) ↔ x.getLsbD 0 = true := by
  rw [BitVec.and_one_eq_setWidth_ofBool_getLsbD]
  cases x.getLsbD 0 <;> decide

/-- The masked shift count is the plain one while at most 32 bits are reflected. -/
theorem shift_count {n_bits : BitVec 8} (hn : n_bits.toNat ≤ 32) {bit : Nat}
    (hbit : bit < n_bits.toNat) :
    (0x1F#32 &&& ((n_bits.setWidth 32 - 1#32) - BitVec.ofNat 32 bit)).toNat
      = n_bits.toNat - 1 - bit := by
  have hsub : ((n_bits.setWidth 32 - 1#32) - BitVec.ofNat 32 bit).toNat
      = n_bits.toNat - 1 - bit := by
    simp only [BitVec.toNat_sub, BitVec.toNat_setWidth, BitVec.toNat_ofNat]
    omega
  rw [BitVec.toNat_and, hsub]
  have hmask := Nat.and_two_pow_sub_one_eq_mod (n_bits.toNat - 1 - bit) 5
  rw [Nat.and_comm] at hmask
  exact hmask.trans (Nat.mod_eq_of_lt (by omega))

/-- After `j` passes the source has moved down by `j`, and the `j` lowest bits of `data` stand
mirrored at the top of the reflected field. -/
theorem reflect_loop {data : BitVec 32} {n_bits : BitVec 8} (hn : n_bits.toNat ≤ 32) (j : Nat)
    (hj : j ≤ n_bits.toNat) :
    ((List.range j).foldl (reflectStep n_bits) (0#32, data)).2 = data >>> j ∧
    ∀ k, ((List.range j).foldl (reflectStep n_bits) (0#32, data)).1.getLsbD k
      = (decide (n_bits.toNat - j ≤ k ∧ k < n_bits.toNat)
          && data.getLsbD (n_bits.toNat - 1 - k)) := by
  induction j with
  | zero =>
      refine ⟨by simp, ?_⟩
      intro k
      simp
  | succ j ih =>
      obtain ⟨htemp, hrefl⟩ := ih (by omega)
      rw [List.range_succ, List.foldl_append, List.foldl_cons, List.foldl_nil]
      generalize (List.range j).foldl (reflectStep n_bits) (0#32, data) = st at htemp hrefl
      obtain ⟨reflection, temp_data⟩ := st
      simp only at htemp hrefl
      subst htemp
      refine ⟨by simp [reflectStep, BitVec.shiftRight_add], ?_⟩
      intro k
      have hbit : (1#32 = (data >>> j) &&& 1#32) ↔ data.getLsbD j = true := by
        rw [and_one_eq]; simp
      -- the bit set in this pass is the mirror position of `j`
      have hset : ((1#32 <<< (0x1F#32 &&& ((n_bits.setWidth 32 - 1#32) - BitVec.ofNat 32 j))
          : BitVec 32)).getLsbD k = decide (k = n_bits.toNat - 1 - j) := by
        rw [BitVec.shiftLeft_eq', shift_count hn (by omega), BitVec.getLsbD_shiftLeft,
          BitVec.getLsbD_one]
        have hlt : n_bits.toNat - 1 - j < 32 := by omega
        rw [Bool.eq_iff_iff]
        simp
        omega
      simp only [reflectStep, hbit]
      have hkeep := hrefl k
      -- this pass decides position `n_bits - 1 - j`, every other one is as before
      by_cases hk : k = n_bits.toNat - 1 - j
      · have hpos : n_bits.toNat - 1 - k = j := by omega
        have hrange : n_bits.toNat - (j + 1) ≤ k ∧ k < n_bits.toNat := by omega
        have hout : ¬ (n_bits.toNat - j ≤ k ∧ k < n_bits.toNat) := by omega
        rw [hpos, decide_eq_false hout, Bool.false_and] at hkeep
        rw [hpos, decide_eq_true hrange, Bool.true_and]
        cases hj' : data.getLsbD j with
        | false => simpa using hkeep
        | true => rw [if_pos rfl, BitVec.getLsbD_or, hset, decide_eq_true hk, Bool.or_true]
      · have hrange : (n_bits.toNat - (j + 1) ≤ k ∧ k < n_bits.toNat)
            ↔ (n_bits.toNat - j ≤ k ∧ k < n_bits.toNat) := by omega
        rw [decide_eq_decide.mpr hrange, ← hkeep]
        split
        · rw [BitVec.getLsbD_or, hset, decide_eq_false hk, Bool.or_false]
        · rfl

/-- **`BitManipulation_reflect` mirrors** the low `n_bits` bits, for up to 32 of them. -/
theorem getLsbD_reflect {n_bits : BitVec 8} (hn : n_bits.toNat ≤ 32) (data : BitVec 32) (k : Nat) :
    (reflect data n_bits).getLsbD k
      = (decide (k < n_bits.toNat) && data.getLsbD (n_bits.toNat - 1 - k)) := by
  rw [reflect, (reflect_loop hn n_bits.toNat (Nat.le_refl _)).2 k]
  simp

/-- Mirroring the low bits twice leaves exactly them. -/
theorem toNat_reflect_reflect {n_bits : BitVec 8} (hn : n_bits.toNat ≤ 32) (data : BitVec 32) :
    (reflect (reflect data n_bits) n_bits).toNat = data.toNat % 2 ^ n_bits.toNat := by
  apply Nat.eq_of_testBit_eq
  intro k
  rw [BitVec.testBit_toNat, getLsbD_reflect hn, getLsbD_reflect hn, Nat.testBit_mod_two_pow,
    BitVec.testBit_toNat]
  by_cases hk : k < n_bits.toNat
  · have hmirror : n_bits.toNat - 1 - k < n_bits.toNat := by omega
    have hback : n_bits.toNat - 1 - (n_bits.toNat - 1 - k) = k := by omega
    simp [hk, hmirror, hback]
  · simp [hk]

theorem reflect_xor {n_bits : BitVec 8} (hn : n_bits.toNat ≤ 32) (a b : BitVec 32) :
    reflect (a ^^^ b) n_bits = reflect a n_bits ^^^ reflect b n_bits := by
  apply BitVec.eq_of_getLsbD_eq
  intro k _
  rw [BitVec.getLsbD_xor, getLsbD_reflect hn, getLsbD_reflect hn, getLsbD_reflect hn,
    BitVec.getLsbD_xor]
  cases decide (k < n_bits.toNat) <;> simp

/-- **`BitManipulation_reflect` is a bit reversal** of the low `n_bits` bits, for every width up to
the full word. -/
theorem reflect_reverses_bits {n_bits : BitVec 8} (hn : n_bits.toNat ≤ 32) :
    (∀ (data : BitVec 32) (k : Nat), k < n_bits.toNat →
      (reflect data n_bits).getLsbD k = data.getLsbD (n_bits.toNat - 1 - k)) ∧
    (∀ (data : BitVec 32) (k : Nat), n_bits.toNat ≤ k →
      (reflect data n_bits).getLsbD k = false) ∧
    (∀ data : BitVec 32,
      (reflect (reflect data n_bits) n_bits).toNat = data.toNat % 2 ^ n_bits.toNat) ∧
    (∀ a b : BitVec 32, reflect (a ^^^ b) n_bits = reflect a n_bits ^^^ reflect b n_bits) := by
  refine ⟨?_, ?_, toNat_reflect_reflect hn, reflect_xor hn⟩
  · intro data k hk
    rw [getLsbD_reflect hn, decide_eq_true hk, Bool.true_and]
  · intro data k hk
    rw [getLsbD_reflect hn, decide_eq_false (Nat.not_lt.mpr hk), Bool.false_and]

/-- All 32 bits: reflecting the word twice is the identity. -/
theorem reflect_reverses_bits_full_word :
    (32#8).toNat ≤ 32 ∧
    (reflect (reflect 0x12345678#32 32#8) 32#8).toNat = (0x12345678#32).toNat % 2 ^ (32#8).toNat :=
  ⟨by decide, (reflect_reverses_bits (show (32#8).toNat ≤ 32 by decide)).2.2.1 0x12345678#32⟩

/-- Reflecting all the bits of a `w`-bit register that was promoted to 32 bits reverses it. -/
theorem reflect_eq_reverse {w : Nat} (hw : w ≤ 32) {n_bits : BitVec 8} (hn : n_bits.toNat = w)
    (x : BitVec w) : (reflect (x.setWidth 32) n_bits).setWidth w = x.reverse := by
  apply BitVec.eq_of_getLsbD_eq
  intro i hi
  have hsrc : w - 1 - i < 32 := by omega
  rw [BitVec.getLsbD_setWidth, getLsbD_reflect (by omega), hn, BitVec.getLsbD_setWidth,
    BitVec.getLsbD_reverse, BitVec.getMsbD]
  simp [hi, hsrc]

end IMUtility.BitManipulation
