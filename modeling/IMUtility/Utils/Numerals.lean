import IMUtility.Utils.StringToUint32

/-! # `utils.c`: printing and reading

`Utils_StringToUint32` undoes printing in a given width with leading zeros, and it reads nothing
else: a string is accepted with the value `n` exactly if it is `n` printed in as many characters as
the string has, which are at most ten (`stringToUint32_iff_numeral`). -/

namespace IMUtility
namespace Utils

/-! ## Printing

The repository has no function that prints a number. What a numeral is comes from the digits of
Mathlib, with leading zeros up to the width.
-/

/-- The character of a digit. -/
def digitChar (d : Nat) : Byte := BitVec.ofNat 8 (0x30 + d)

/-- `n` in `width` characters, with leading zeros, or in as many as it has digits. -/
def numeral (width n : Nat) : List Byte := (Nat.digitsAppend 10 width n).reverse.map digitChar

variable {s : List Byte} {c : Byte} {d n width : Nat}

/-! ## One character

Between `0` and `9` a character and its value determine each other.
-/

theorem toNat_digitChar (hd : d < 10) : (digitChar d).toNat = 0x30 + d := by
  rw [digitChar, BitVec.toNat_ofNat]
  omega

theorem isDigit_digitChar (hd : d < 10) : IsDigit (digitChar d) := by
  have hvalue := toNat_digitChar hd
  unfold IsDigit
  omega

theorem digitChar_value (hc : IsDigit c) : digitChar (c.toNat - 0x30) = c := by
  obtain ⟨hlo, hhi⟩ := hc
  apply BitVec.eq_of_toNat_eq
  rw [toNat_digitChar (by omega)]
  omega

/-! ## Printing, and what was printed

A width and a value give a string of digits, and a string of digits has a width and a value: the
two are inverse, as long as the value has no more digits than the width.
-/

theorem lt_of_mem_digits (hd : d ∈ Nat.digitsAppend 10 width n) : d < 10 :=
  Nat.lt_of_mem_digitsAppend (by decide) width d hd

theorem allDigits_numeral (width n : Nat) : AllDigits (numeral width n) := by
  intro c hc
  obtain ⟨d, hd, rfl⟩ := List.mem_map.mp hc
  exact isDigit_digitChar (lt_of_mem_digits (List.mem_reverse.mp hd))

theorem decimalValue_numeral (width n : Nat) : decimalValue (numeral width n) = n := by
  have hvalues : (numeral width n).map (fun c => c.toNat - 0x30)
      = (Nat.digitsAppend 10 width n).reverse := by
    rw [numeral, List.map_map]
    refine (List.map_congr_left ?_).trans (List.map_id _)
    intro d hd
    show (digitChar d).toNat - 0x30 = d
    rw [toNat_digitChar (lt_of_mem_digits (List.mem_reverse.mp hd)), Nat.add_sub_cancel_left]
  rw [decimalValue, hvalues, List.reverse_reverse, Nat.digitsAppend,
    Nat.ofDigits_append_replicate_zero, Nat.ofDigits_digits]

/-- **A string of digits is its value, printed** in as many characters. -/
theorem numeral_decimalValue (hs : AllDigits s) : numeral s.length (decimalValue s) = s := by
  have hdigits : (s.map fun c => c.toNat - 0x30).reverse.length = s.length ∧
      ∀ d ∈ (s.map fun c => c.toNat - 0x30).reverse, d < 10 := by
    refine ⟨by rw [List.length_reverse, List.length_map], ?_⟩
    intro d hd
    obtain ⟨c, hc, rfl⟩ := List.mem_map.mp (List.mem_reverse.mp hd)
    obtain ⟨hlo, hhi⟩ := hs c hc
    omega
  have hinverse : Nat.digitsAppend 10 s.length (decimalValue s)
      = (s.map fun c => c.toNat - 0x30).reverse :=
    (Nat.setInvOn_digitsAppend_ofDigits (by decide) s.length).1 hdigits
  rw [numeral, hinverse, List.reverse_reverse, List.map_map]
  refine (List.map_congr_left ?_).trans (List.map_id s)
  intro c hc
  exact digitChar_value (hs c hc)

/-! ## Reading

What the function accepts was said by the value of a string. It is said here by the string itself,
which is more: there is one string of each length for a value.
-/

section Reading

variable {str : List Byte} {str_length : BitVec 8} {n : BitVec 32}

/-- What was printed in at most ten characters is read. -/
theorem stringToUint32_numeral (hlen : str_length.toNat ≤ str.length)
    (hten : str_length.toNat ≤ 10)
    (hprinted : str.take str_length.toNat = numeral str_length.toNat n.toNat) :
    (stringToUint32 str str_length).success = true ∧
      (stringToUint32 str str_length).integer = n := by
  obtain ⟨hiff, hresult⟩ := stringToUint32_spec hlen
  have hvalue : decimalValue (str.take str_length.toNat) = n.toNat := by
    rw [hprinted, decimalValue_numeral]
  have hs : (stringToUint32 str str_length).success = true := by
    refine hiff.mpr ⟨hten, ?_, ?_⟩
    · rw [hprinted]
      exact allDigits_numeral _ _
    · rw [hvalue]
      exact Nat.le_sub_one_of_lt n.isLt
  refine ⟨hs, BitVec.eq_of_toNat_eq ?_⟩
  rw [(hresult hs).1, hvalue]

/-- **What `Utils_StringToUint32` reads**: `n` printed in at most ten characters, and nothing
else. -/
theorem stringToUint32_iff_numeral (hlen : str_length.toNat ≤ str.length) :
    ((stringToUint32 str str_length).success = true ∧
        (stringToUint32 str str_length).integer = n) ↔
      str_length.toNat ≤ 10 ∧
        str.take str_length.toNat = numeral str_length.toNat n.toNat := by
  constructor
  · rintro ⟨hs, rfl⟩
    obtain ⟨hiff, hresult⟩ := stringToUint32_spec hlen
    obtain ⟨hten, hall, -⟩ := hiff.mp hs
    have htake : (str.take str_length.toNat).length = str_length.toNat := by
      rw [List.length_take, Nat.min_eq_left hlen]
    -- the string that was read is its value, printed
    have hprinted := numeral_decimalValue hall
    rw [htake] at hprinted
    rw [(hresult hs).1]
    exact ⟨hten, hprinted.symm⟩
  · rintro ⟨hten, hprinted⟩
    exact stringToUint32_numeral hlen hten hprinted

end Reading

/-- 42 is read from four characters. -/
theorem stringToUint32_iff_numeral_padded :
    (stringToUint32 [0x30, 0x30, 0x34, 0x32, 0x2C] 4#8).integer = 42#32 := by
  have hlen : (4#8).toNat ≤ [0x30#8, 0x30, 0x34, 0x32, 0x2C].length := by decide
  exact ((stringToUint32_iff_numeral hlen).mpr ⟨by decide, by decide⟩).2

end Utils
end IMUtility
