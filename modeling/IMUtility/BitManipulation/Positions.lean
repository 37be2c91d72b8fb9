import IMUtility.BitManipulation
import IMUtility.Lib.Refinement
import Mathlib.Data.Finset.SymmDiff

/-! # `bit_manipulation.c`: single bits

The functions for one bit refuse a position above 31 and then leave the object of the client as it
was. A client that keeps a word in such an object keeps a set of positions below 32: every function
of the file does to the set what its name says, over every sequence of calls
(`bits_refine_positions`). -/

namespace IMUtility.BitManipulation

open Refinement (Reply)

/-- `MAX_BIT_SHIFT`. -/
def maxBitShift : Nat := 31

/-- What the functions for one bit have in common: `temp` is the bit `n`, and `*out` is written if
there is such a bit. -/
def withBit {α : Type} (n : BitVec 8) (out : α) (result : BitVec 32 → α) : Bool × α :=
  if n.toNat ≤ maxBitShift then (true, result (1#32 <<< n.toNat)) else (false, out)

/-- `BitManipulation_bitSet`: the status, and what `*bit_set` holds afterwards. -/
def bitSet (data : BitVec 32) (n : BitVec 8) (bit_set : Bool) : Bool × Bool :=
  withBit n bit_set fun temp => decide (data &&& temp ≠ 0#32)

/-- `BitManipulation_setBit`: the status, and what `*out` holds afterwards. -/
def setBit (data : BitVec 32) (n : BitVec 8) (out : BitVec 32) : Bool × BitVec 32 :=
  withBit n out fun temp => data ||| temp

/-- `BitManipulation_clearBit`. -/
def clearBit (data : BitVec 32) (n : BitVec 8) (out : BitVec 32) : Bool × BitVec 32 :=
  withBit n out fun temp => data &&& ~~~temp

/-- `BitManipulation_toggleBit`. -/
def toggleBit (data : BitVec 32) (n : BitVec 8) (out : BitVec 32) : Bool × BitVec 32 :=
  withBit n out fun temp => data ^^^ temp

/-! ## A client

It calls with its own word as `data` and as the object of `out`, which is what makes a refused
call visible: the word is then what it was.
-/

/-- The calls of a client that keeps one word. `bitSet` brings the object for its answer. -/
inductive Call where
  | bitSet (n : BitVec 8) (bit_set : Bool)
  | setBit (n : BitVec 8)
  | clearBit (n : BitVec 8)
  | toggleBit (n : BitVec 8)
  | reflect (n_bits : BitVec 8)

/-- One call: the word is `data`, and the object of `out`. -/
def step (word : BitVec 32) : Call → Option (Reply Bool × BitVec 32)
  | .bitSet n bit_set =>
    some (⟨(bitSet word n bit_set).1, some (bitSet word n bit_set).2⟩, word)
  | .setBit n => some (⟨(setBit word n word).1, none⟩, (setBit word n word).2)
  | .clearBit n => some (⟨(clearBit word n word).1, none⟩, (clearBit word n word).2)
  | .toggleBit n => some (⟨(toggleBit word n word).1, none⟩, (toggleBit word n word).2)
  | .reflect n_bits => some (⟨true, none⟩, reflect word n_bits)

/-! ## The specification

Written on sets alone: the word's width occurs only as the bound on a position, and reflection is
the image under `k ↦ n_bits - 1 - k`.
-/

namespace Positions

/-- Position `n`, if there is one, is put to a use. -/
def at? {α : Type} (n : BitVec 8) (otherwise : α) (use : Nat → α) : Bool × α :=
  if n.toNat < 32 then (true, use n.toNat) else (false, otherwise)

/-- The set of positions. -/
def step (s : Finset Nat) : Call → Reply Bool × Finset Nat
  | .bitSet n bit_set =>
    (⟨(at? n bit_set fun k => decide (k ∈ s)).1,
      some (at? n bit_set fun k => decide (k ∈ s)).2⟩, s)
  | .setBit n => (⟨(at? n s fun k => insert k s).1, none⟩, (at? n s fun k => insert k s).2)
  | .clearBit n => (⟨(at? n s fun k => s.erase k).1, none⟩, (at? n s fun k => s.erase k).2)
  | .toggleBit n =>
    (⟨(at? n s fun k => symmDiff s {k}).1, none⟩, (at? n s fun k => symmDiff s {k}).2)
  | .reflect n_bits =>
    (⟨true, none⟩, (s.filter (· < n_bits.toNat)).image fun k => n_bits.toNat - 1 - k)

end Positions

/-! ## The word as a set

Each operation of the word against the one of the set. Equality of sets is tested position by
position, where the operations on words are Boolean.
-/

/-- The positions of the bits that are set. -/
def positions (word : BitVec 32) : Finset Nat := (Finset.range 32).filter (word.getLsbD · = true)

theorem mem_positions {word : BitVec 32} {k : Nat} :
    k ∈ positions word ↔ word.getLsbD k = true := by
  rw [positions, Finset.mem_filter, Finset.mem_range]
  constructor
  · exact fun h => h.2
  · intro h
    exact ⟨BitVec.lt_of_getLsbD h, h⟩

/-- The mask of one bit. -/
theorem getLsbD_one_shiftLeft {n k : Nat} (hn : n < 32) :
    (1#32 <<< n).getLsbD k = decide (k = n) := by
  rw [BitVec.getLsbD_shiftLeft, BitVec.getLsbD_one, Bool.eq_iff_iff]
  simp
  omega

section Operations

variable {word : BitVec 32} {n : Nat}

theorem positions_or (hn : n < 32) :
    positions (word ||| 1#32 <<< n) = insert n (positions word) := by
  ext k
  rw [mem_positions, Finset.mem_insert, mem_positions, BitVec.getLsbD_or,
    getLsbD_one_shiftLeft hn, Bool.or_eq_true, decide_eq_true_iff, or_comm]

theorem positions_and_not (hn : n < 32) :
    positions (word &&& ~~~(1#32 <<< n)) = (positions word).erase n := by
  ext k
  rw [mem_positions, Finset.mem_erase, mem_positions, BitVec.getLsbD_and, BitVec.getLsbD_not,
    getLsbD_one_shiftLeft hn, Bool.and_eq_true, and_comm]
  by_cases hk : k < 32
  · simp [hk]
  · simp [hk, BitVec.getLsbD_of_ge word k (by omega)]

theorem positions_xor (hn : n < 32) :
    positions (word ^^^ 1#32 <<< n) = symmDiff (positions word) {n} := by
  ext k
  rw [mem_positions, Finset.mem_symmDiff, mem_positions, Finset.mem_singleton, BitVec.getLsbD_xor,
    getLsbD_one_shiftLeft hn]
  cases word.getLsbD k <;> simp

theorem and_ne_zero_iff (hn : n < 32) : word &&& 1#32 <<< n ≠ 0#32 ↔ n ∈ positions word := by
  rw [mem_positions]
  constructor
  · intro h
    -- a word with a single bit of the mask left is zero if that bit is
    by_contra hclear
    apply h
    apply BitVec.eq_of_getLsbD_eq
    intro k _
    rw [BitVec.getLsbD_and, getLsbD_one_shiftLeft hn, BitVec.getLsbD_zero]
    by_cases hk : k = n
    · rw [hk, eq_false_of_ne_true hclear, Bool.false_and]
    · rw [decide_eq_false hk, Bool.and_false]
  · intro hset hzero
    have hbit := congrArg (BitVec.getLsbD · n) hzero
    simp only [BitVec.getLsbD_and, getLsbD_one_shiftLeft hn, hset, BitVec.getLsbD_zero] at hbit
    simp at hbit

theorem positions_reflect {n_bits : BitVec 8} (hn : n_bits.toNat ≤ 32) :
    positions (reflect word n_bits)
      = ((positions word).filter (· < n_bits.toNat)).image fun k => n_bits.toNat - 1 - k := by
  ext k
  rw [mem_positions, getLsbD_reflect hn, Bool.and_eq_true, decide_eq_true_iff, Finset.mem_image]
  constructor
  · rintro ⟨hk, hbit⟩
    refine ⟨n_bits.toNat - 1 - k, ?_, by omega⟩
    exact Finset.mem_filter.mpr ⟨mem_positions.mpr hbit, by omega⟩
  · rintro ⟨j, hj, rfl⟩
    obtain ⟨hmem, hlt⟩ := Finset.mem_filter.mp hj
    refine ⟨by omega, ?_⟩
    rw [show n_bits.toNat - 1 - (n_bits.toNat - 1 - j) = j by omega]
    exact mem_positions.mp hmem

end Operations

/-- A function for one bit, on the word and on the set. -/
theorem withBit_eq {α β : Type} {n : BitVec 8} {out : α} {result : BitVec 32 → α} {otherwise : β}
    {use : Nat → β} {f : α → β} (hout : f out = otherwise)
    (hresult : n.toNat < 32 → f (result (1#32 <<< n.toNat)) = use n.toNat) :
    (withBit n out result).1 = (Positions.at? n otherwise use).1 ∧
      f (withBit n out result).2 = (Positions.at? n otherwise use).2 := by
  unfold withBit Positions.at? maxBitShift
  by_cases hn : n.toNat < 32
  · rw [if_pos (by omega), if_pos hn]
    exact ⟨rfl, hresult hn⟩
  · rw [if_neg (by omega), if_neg hn]
    exact ⟨rfl, hout⟩

/-! ## All runs

The four functions for one bit refine by `withBit_eq`, so that the check of the position is
treated once.
-/

/-- Reflecting is asked for at most 32 bits. -/
def Fits : Call → Prop
  | .reflect n_bits => n_bits.toNat ≤ 32
  | .bitSet _ _ | .setBit _ | .clearBit _ | .toggleBit _ => True

theorem step_refines :
    Refinement.StepRefines step Positions.step Fits (fun word s => positions word = s) := by
  rintro word _ call rfl hfits
  cases call with
  | bitSet n bit_set =>
      obtain ⟨hstatus, hanswer⟩ := @withBit_eq _ _ n bit_set
        (fun temp => decide (word &&& temp ≠ 0#32)) bit_set
        (fun k => decide (k ∈ positions word)) id rfl
        (fun hn => decide_eq_decide.mpr (and_ne_zero_iff hn))
      refine ⟨word, ?_, rfl⟩
      simp only [step, bitSet, Positions.step, hstatus]
      rw [← hanswer]
      rfl
  | setBit n =>
      -- the three updates differ in the mask only
      obtain ⟨hstatus, hword⟩ := @withBit_eq _ _ n word (fun temp => word ||| temp) _
        (fun k => insert k (positions word)) positions rfl positions_or
      refine ⟨_, ?_, hword⟩
      simp only [step, setBit, Positions.step, hstatus]
  | clearBit n =>
      obtain ⟨hstatus, hword⟩ := @withBit_eq _ _ n word (fun temp => word &&& ~~~temp) _
        (fun k => (positions word).erase k) positions rfl positions_and_not
      refine ⟨_, ?_, hword⟩
      simp only [step, clearBit, Positions.step, hstatus]
  | toggleBit n =>
      obtain ⟨hstatus, hword⟩ := @withBit_eq _ _ n word (fun temp => word ^^^ temp) _
        (fun k => symmDiff (positions word) {k}) positions rfl positions_xor
      refine ⟨_, ?_, hword⟩
      simp only [step, toggleBit, Positions.step, hstatus]
  | reflect n_bits => exact ⟨_, rfl, positions_reflect hfits⟩

/-- **A word is a set of positions.** Every sequence of calls gets the answers of the set, and the
bits that it leaves set are the positions that the set has in the end. -/
theorem bits_refine_positions (word : BitVec 32) (calls : List Call)
    (hcalls : ∀ c ∈ calls, Fits c) :
    ∃ word', Refinement.run step word calls
        = some ((Refinement.specRun Positions.step (positions word) calls).1, word') ∧
      ∀ k, word'.getLsbD k = true
        ↔ k ∈ (Refinement.specRun Positions.step (positions word) calls).2 := by
  obtain ⟨word', hrun, hpos⟩ := Refinement.run_refines step_refines rfl calls hcalls
  refine ⟨word', hrun, ?_⟩
  intro k
  rw [← hpos, mem_positions]

/-- Bit 40 is refused, and bit 31 comes to the other end. -/
theorem bits_refine_positions_reflected :
    ∃ word', Refinement.run step 0x1#32
        [.toggleBit 31#8, .setBit 40#8, .clearBit 0#8, .reflect 32#8, .bitSet 0#8 false]
      = some ([⟨true, none⟩, ⟨false, none⟩, ⟨true, none⟩, ⟨true, none⟩, ⟨true, some true⟩],
          word') := by
  obtain ⟨word', hrun, -⟩ := bits_refine_positions 0x1#32
    [.toggleBit 31#8, .setBit 40#8, .clearBit 0#8, .reflect 32#8, .bitSet 0#8 false]
    (by simp [Fits])
  exact ⟨word', hrun⟩

end IMUtility.BitManipulation
