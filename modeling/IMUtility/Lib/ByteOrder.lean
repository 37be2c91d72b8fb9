import Mathlib.Data.BitVec

/-! # Byte order

The bytes of a machine word, least or most significant first, and the word that bytes spell. The
two orders are each other's reverse, so everything is proved for the little-endian one: the word
spelt by the `n` low bytes is the word reduced to them, and `n` bytes are the low bytes of the word
they spell. -/

namespace ByteOrder

variable {w : Nat}

/-- The `n` low bytes of a word, least significant first. -/
def bytesLE (n : Nat) (x : BitVec w) : List (BitVec 8) :=
  (List.range n).map fun i => (x >>> (8 * i)).setWidth 8

/-- The `n` low bytes of a word, most significant first. -/
def bytesBE (n : Nat) (x : BitVec w) : List (BitVec 8) := (bytesLE n x).reverse

/-- The word that bytes spell, the first being the least significant. -/
def ofBytesLE : List (BitVec 8) → BitVec w
  | []      => 0#w
  | b :: bs => (ofBytesLE bs <<< 8) ||| b.setWidth w

/-- The word that bytes spell, the first being the most significant. -/
def ofBytesBE (bs : List (BitVec 8)) : BitVec w := ofBytesLE bs.reverse

@[simp] theorem length_bytesLE (n : Nat) (x : BitVec w) : (bytesLE n x).length = n := by
  simp [bytesLE]

@[simp] theorem length_bytesBE (n : Nat) (x : BitVec w) : (bytesBE n x).length = n := by
  simp [bytesBE]

theorem bytesLE_concat (n : Nat) (x : BitVec w) :
    bytesLE (n + 1) x = bytesLE n x ++ [(x >>> (8 * n)).setWidth 8] := by
  unfold bytesLE
  rw [List.range_succ, List.map_append, List.map_singleton]

theorem getElem?_bytesLE (n : Nat) (x : BitVec w) (i : Nat) :
    (bytesLE n x)[i]? = if i < n then some ((x >>> (8 * i)).setWidth 8) else none := by
  unfold bytesLE
  by_cases hi : i < n
  · simp [hi]
  · simp [hi]

/-! ## Round trips

Bit `k` of a word is bit `k % 8` of byte `k / 8`. Both directions follow from that position by
position, and the big-endian statements by reversing the list.
-/

/-- Bit `k` of the word is a bit of byte `k / 8`. -/
theorem getLsbD_ofBytesLE (bs : List (BitVec 8)) (k : Nat) :
    (ofBytesLE bs : BitVec w).getLsbD k
      = (decide (k < w) && (bs[k / 8]?.getD 0#8).getLsbD (k % 8)) := by
  induction bs generalizing k with
  | nil => simp [ofBytesLE]
  | cons b bs ih =>
      rw [ofBytesLE, BitVec.getLsbD_or, BitVec.getLsbD_shiftLeft, BitVec.getLsbD_setWidth, ih]
      by_cases h8 : k < 8
      · have hdiv : k / 8 = 0 := by omega
        have hmod : k % 8 = k := by omega
        rw [hdiv, hmod]
        simp [h8]
      · have hdiv : k / 8 = (k - 8) / 8 + 1 := by omega
        have hmod : k % 8 = (k - 8) % 8 := by omega
        have hwide : k < w → k - 8 < w := by omega
        rw [hdiv, hmod, List.getElem?_cons_succ, BitVec.getLsbD_of_ge b k (by omega)]
        by_cases hk : k < w
        · simp [h8, hk, hwide hk]
        · simp [hk]

theorem getLsbD_ofBytesLE_bytesLE (n : Nat) (x : BitVec w) (k : Nat) :
    (ofBytesLE (bytesLE n x) : BitVec w).getLsbD k = (decide (k < 8 * n) && x.getLsbD k) := by
  have hpos : 8 * (k / 8) + k % 8 = k := Nat.div_add_mod k 8
  have hin : k / 8 < n ↔ k < 8 * n := by omega
  rw [getLsbD_ofBytesLE, getElem?_bytesLE]
  by_cases hk : k < 8 * n
  · have h8 : k % 8 < 8 := Nat.mod_lt k (by omega)
    rw [if_pos (hin.mpr hk), Option.getD_some, BitVec.getLsbD_setWidth, BitVec.getLsbD_ushiftRight,
      hpos, decide_eq_true h8, decide_eq_true hk, Bool.true_and]
    by_cases hw : k < w
    · simp [hw]
    · simp [BitVec.getLsbD_of_ge x k (Nat.le_of_not_lt hw)]
  · rw [if_neg (mt hin.mp hk)]
    simp [hk]

/-- The word spelt by its `n` low bytes is the word reduced to them. -/
theorem toNat_ofBytesLE_bytesLE (n : Nat) (x : BitVec w) :
    (ofBytesLE (bytesLE n x) : BitVec w).toNat = x.toNat % 2 ^ (8 * n) := by
  apply Nat.eq_of_testBit_eq
  intro k
  rw [BitVec.testBit_toNat, getLsbD_ofBytesLE_bytesLE, Nat.testBit_mod_two_pow,
    BitVec.testBit_toNat]

theorem toNat_ofBytesBE_bytesBE (n : Nat) (x : BitVec w) :
    (ofBytesBE (bytesBE n x) : BitVec w).toNat = x.toNat % 2 ^ (8 * n) := by
  rw [ofBytesBE, bytesBE, List.reverse_reverse, toNat_ofBytesLE_bytesLE]

/-- Bytes that fit a word are the low bytes of the word they spell. -/
theorem bytesLE_ofBytesLE {bs : List (BitVec 8)} {n : Nat} (hn : bs.length = n) (h : 8 * n ≤ w) :
    bytesLE n (ofBytesLE bs : BitVec w) = bs := by
  apply List.ext_getElem?
  intro i
  rw [getElem?_bytesLE]
  by_cases hi : i < n
  · have hget : bs[i]? = some bs[i] := List.getElem?_eq_getElem (by omega)
    rw [if_pos hi, hget]
    congr 1
    apply BitVec.eq_of_getLsbD_eq
    intro j hj
    have hdiv : (8 * i + j) / 8 = i := by omega
    have hmod : (8 * i + j) % 8 = j := by omega
    have hfit : 8 * i + j < w := by omega
    rw [BitVec.getLsbD_setWidth, BitVec.getLsbD_ushiftRight, getLsbD_ofBytesLE, hdiv, hmod, hget]
    simp [hj, hfit]
  · rw [if_neg hi, List.getElem?_eq_none (by omega)]

theorem bytesBE_ofBytesBE {bs : List (BitVec 8)} {n : Nat} (hn : bs.length = n) (h : 8 * n ≤ w) :
    bytesBE n (ofBytesBE bs : BitVec w) = bs := by
  rw [ofBytesBE, bytesBE, bytesLE_ofBytesLE (by rwa [List.length_reverse]) h, List.reverse_reverse]

end ByteOrder
