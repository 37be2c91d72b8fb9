import IMUtility.Base64.Basic
import Mathlib.Data.Nat.Bitwise

/-! # The Base64 text of a byte string

`text` is the padded encoding in the standard alphabet, stated on the 24-bit value of a group of
three bytes; it owes nothing to the code. The tables and the bit slicing of `base64.c` are tied to
it here: the encoder's letters are the letters of the text (`letter_eq`), and the decoder's index
undoes them (`index_symbol`). -/

namespace IMUtility
namespace Base64

/-! ## The text

A group is read as one number and its letters are that number's digits in base 64, so that an
incomplete group is the group with zeros for the missing bytes. The induction principle of `text`
is the one that all later proofs about byte strings use.
-/

/-- Letter `v` of the standard alphabet: `A` to `Z`, `a` to `z`, `0` to `9`, `+` and `/`. -/
def symbol (v : Nat) : Byte :=
  if v < 26 then BitVec.ofNat 8 (0x41 + v)
  else if v < 52 then BitVec.ofNat 8 (0x61 + (v - 26))
  else if v < 62 then BitVec.ofNat 8 (0x30 + (v - 52))
  else if v = 62 then 0x2B
  else 0x2F

/-- The 24-bit value of three bytes. -/
def group (a b c : Byte) : Nat := a.toNat * 2 ^ 16 + b.toNat * 2 ^ 8 + c.toNat

/-- Six bits of a group, counted from the left. -/
def sextet (n k : Nat) : Nat := n / 2 ^ (18 - 6 * k) % 64

/-- The padded encoding: four letters for three bytes, and `=` for each letter an incomplete group
does not need. -/
def text : List Byte → List Byte
  | a :: b :: c :: rest =>
    let n := group a b c
    [symbol (sextet n 0), symbol (sextet n 1), symbol (sextet n 2), symbol (sextet n 3)]
      ++ text rest
  | [a, b] =>
    let n := group a b 0
    [symbol (sextet n 0), symbol (sextet n 1), symbol (sextet n 2), padding]
  | [a] =>
    let n := group a 0 0
    [symbol (sextet n 0), symbol (sextet n 1), padding, padding]
  | [] => []

example : text [0x6A#8, 0x63#8] = [0x61#8, 0x6D#8, 0x4D#8, 0x3D#8] := by decide

theorem text_cons₃ (a b c : Byte) (rest : List Byte) :
    text (a :: b :: c :: rest) = [symbol (sextet (group a b c) 0), symbol (sextet (group a b c) 1),
      symbol (sextet (group a b c) 2), symbol (sextet (group a b c) 3)] ++ text rest := rfl

theorem length_text (d : List Byte) : (text d).length = 4 * ((d.length + 2) / 3) := by
  induction d using text.induct with
  | case1 a b c rest ih =>
      rw [text_cons₃, List.length_append, ih]
      simp only [List.length_cons, List.length_nil]
      omega
  | case2 a b => simp [text]
  | case3 a => simp [text]
  | case4 => rfl

/-- A string of complete groups, and what follows. -/
theorem text_append (d r : List Byte) (hd : d.length % 3 = 0) :
    text (d ++ r) = text d ++ text r := by
  induction d using text.induct with
  | case1 a b c rest ih =>
      have hrest : rest.length % 3 = 0 := by
        simp only [List.length_cons] at hd
        omega
      simp only [List.cons_append, text_cons₃, ih hrest, List.append_assoc]
  | case2 a b => simp at hd
  | case3 a => simp at hd
  | case4 => rfl

/-- Complete groups, and the rest. -/
theorem exists_groups (d : List Byte) : ∃ g r, d = g ++ r ∧ g.length % 3 = 0 ∧ r.length < 3 := by
  refine ⟨d.take (3 * (d.length / 3)), d.drop (3 * (d.length / 3)),
    (List.take_append_drop _ d).symm, ?_, ?_⟩
  · rw [List.length_take]
    omega
  · rw [List.length_drop]
    omega

/-! ## The tables

Both tables are finite: one evaluation goes through the 64 letters, another through the 256
indices, and the rest of the development uses what they say instead of the tables.
-/

theorem sextet_lt (n k : Nat) : sextet n k < 64 := Nat.mod_lt _ (by decide)

/-- **The two tables are inverse**: 64 letters, none of them a `=`, against 256 indices. -/
theorem letters : ∀ v < 64, letter (BitVec.ofNat 32 v) = symbol v ∧ symbol v ≠ padding ∧
    (index (symbol v)).toNat = v := by decide +kernel

theorem letter_of_lt (v : Nat) (hv : v < 64) : letter (BitVec.ofNat 32 v) = symbol v :=
  (letters v hv).1

theorem symbol_ne_padding (v : Nat) (hv : v < 64) : symbol v ≠ padding := (letters v hv).2.1

theorem index_symbol (v : Nat) (hv : v < 64) : (index (symbol v)).toNat = v := (letters v hv).2.2

theorem index_lt (c : Byte) : (index c).toNat < 64 := by
  have hall : base64Index.all (fun x => decide (x.toNat < 64)) = true := by decide +kernel
  have hlen : c.toNat < base64Index.length := by
    have h := c.isLt
    have h256 : base64Index.length = 256 := by decide +kernel
    omega
  rw [index, List.getD_eq_getElem _ _ hlen]
  exact of_decide_eq_true (List.all_eq_true.mp hall _ (List.getElem_mem hlen))

/-- Complete groups need no padding. -/
theorem padding_notMem_text (d : List Byte) (hd : d.length % 3 = 0) : padding ∉ text d := by
  induction d using text.induct with
  | case1 a b c rest ih =>
      have hrest : rest.length % 3 = 0 := by
        simp only [List.length_cons] at hd
        omega
      have hne : ∀ k, padding ≠ symbol (sextet (group a b c) k) :=
        fun k => (symbol_ne_padding _ (sextet_lt _ k)).symm
      simp only [text_cons₃, List.cons_append, List.nil_append, List.mem_cons, not_or]
      exact ⟨hne 0, hne 1, hne 2, hne 3, ih hrest⟩
  | case2 a b => simp at hd
  | case3 a => simp at hd
  | case4 => exact List.not_mem_nil

/-! ## The bit slicing of the encoder

The source computes each letter with shifts and masks of one or two bytes. Every mask is a
residue, every shift to the right a quotient, and the fields that are put together do not overlap,
so a letter's argument is a sextet of the group.
-/

theorem letter_eq {x : BitVec 32} {v : Nat} (hx : x.toNat = v) (hv : v < 64) :
    letter x = symbol v := by
  rw [← letter_of_lt v hv]
  congr 1
  exact BitVec.eq_of_toNat_eq (by rw [hx, BitVec.toNat_ofNat]; omega)

theorem toNat_promote (x : Byte) : (promote x).toNat = x.toNat := by
  have h := x.isLt
  rw [promote, BitVec.toNat_setWidth]
  omega

/-- Two bit fields beside each other. -/
theorem toNat_shiftLeft_or {x y : BitVec 32} {k : Nat} (hx : x.toNat * 2 ^ k < 2 ^ 32)
    (hy : y.toNat < 2 ^ k) : (x <<< k ||| y).toNat = x.toNat * 2 ^ k + y.toNat := by
  rw [BitVec.toNat_or, BitVec.toNat_shiftLeft, Nat.shiftLeft_eq, Nat.mod_eq_of_lt hx,
    ← Nat.shiftLeft_eq, ← Nat.shiftLeft_add_eq_or_of_lt hy]

theorem toNat_low (x : BitVec 32) (k : Nat) {mask : BitVec 32}
    (hmask : mask.toNat = 2 ^ k - 1) : (x &&& mask).toNat = x.toNat % 2 ^ k := by
  rw [BitVec.toNat_and, hmask, Nat.and_two_pow_sub_one_eq_mod]

theorem toNat_high (x : BitVec 32) (k : Nat) : (x >>> k).toNat = x.toNat / 2 ^ k := by
  rw [BitVec.toNat_ushiftRight, Nat.shiftRight_eq_div_pow]

section Slices

variable (a b c : Byte)

theorem letter_first : letter (promote a >>> 2) = symbol (sextet (group a b c) 0) := by
  have ha := a.isLt
  have hb := b.isLt
  have hc := c.isLt
  refine letter_eq ?_ (sextet_lt _ _)
  rw [toNat_high, toNat_promote]
  simp only [sextet, group]
  omega

theorem letter_second : letter ((promote a &&& 0x03#32) <<< 4 ||| promote b >>> 4)
    = symbol (sextet (group a b c) 1) := by
  have ha := a.isLt
  have hb := b.isLt
  have hc := c.isLt
  have hlow : (promote a &&& 0x03#32).toNat = a.toNat % 2 ^ 2 := by
    rw [toNat_low _ 2 rfl, toNat_promote]
  have hhigh : (promote b >>> 4).toNat = b.toNat / 2 ^ 4 := by rw [toNat_high, toNat_promote]
  refine letter_eq ?_ (sextet_lt _ _)
  rw [toNat_shiftLeft_or (by omega) (by omega), hlow, hhigh]
  simp only [sextet, group]
  omega

theorem letter_third : letter ((promote b &&& 0x0F#32) <<< 2 ||| promote c >>> 6)
    = symbol (sextet (group a b c) 2) := by
  have ha := a.isLt
  have hb := b.isLt
  have hc := c.isLt
  have hlow : (promote b &&& 0x0F#32).toNat = b.toNat % 2 ^ 4 := by
    rw [toNat_low _ 4 rfl, toNat_promote]
  have hhigh : (promote c >>> 6).toNat = c.toNat / 2 ^ 6 := by rw [toNat_high, toNat_promote]
  refine letter_eq ?_ (sextet_lt _ _)
  rw [toNat_shiftLeft_or (by omega) (by omega), hlow, hhigh]
  simp only [sextet, group]
  omega

theorem letter_fourth : letter (promote c &&& 0x3F#32) = symbol (sextet (group a b c) 3) := by
  have ha := a.isLt
  have hb := b.isLt
  have hc := c.isLt
  refine letter_eq ?_ (sextet_lt _ _)
  rw [toNat_low _ 6 rfl, toNat_promote]
  simp only [sextet, group]
  omega

/-- With no second byte the tail writes its field alone. -/
theorem letter_second_tail :
    letter ((promote a &&& 0x03#32) <<< 4) = symbol (sextet (group a 0 0) 1) := by
  rw [← letter_second a 0 0]
  congr 1
  simp [promote]

/-- With no third byte the tail writes its field alone. -/
theorem letter_third_tail :
    letter ((promote b &&& 0x0F#32) <<< 2) = symbol (sextet (group a b 0) 2) := by
  rw [← letter_third a b 0]
  congr 1
  simp [promote]

end Slices

end Base64
end IMUtility
