import IMUtility.Typedefs
import Mathlib.Data.Nat.Digits.Lemmas
import Mathlib.Data.List.GetD

/-! # `utils.c`: decimal numerals

`Utils_StringToUint32` adds up digits times powers of ten, which a table gives for exponents below
ten. A string of exactly ten characters is read as nine, and the tenth digit is put in by a
multiplication behind an overflow check of its own; a longer string fails at the table.

The sums and products are logged as unbounded numbers next to the wrapped ones, so that "nothing
wrapped" is a statement about the log. -/

namespace IMUtility
namespace Utils

/-- `pow10`. -/
def pow10 : Vector (BitVec 32) 10 :=
  #v[1#32, 10#32, 100#32, 1000#32, 10000#32,
    100000#32, 1000000#32, 10000000#32, 100000000#32, 1000000000#32]

/-- `Utils_QuickUint32Pow10`: the return value, and `*result` afterwards. -/
def quickUint32Pow10 (exponent : BitVec 8) (result : BitVec 32) : Bool × BitVec 32 :=
  if h : exponent.toNat < 10 then (true, pow10.get ⟨exponent.toNat, h⟩) else (false, result)

/-- `c >= '0' && c <= '9'`, which is the same for a signed and an unsigned `char`. -/
def isDigit (c : Byte) : Bool := decide (0x30#8 ≤ c) && decide (c ≤ 0x39#8)

/-- The local `digit`, cast to `uint32_t`. -/
def digitOf (c : Byte) : BitVec 32 := (c - 0x30#8).signExtend 32

/-- `UINT32_MAX`. -/
def uint32Max : BitVec 32 := 0xFFFFFFFF#32

/-- What the function keeps while it runs: `*integer`, two locals, and the exact value of every
sum and product of type `uint32_t` so far. -/
structure Conversion where
  integer : BitVec 32
  success : Bool
  i : BitVec 8
  exact : List Nat

/-- The body of the loop for a digit `c`. -/
def convertDigit (length : BitVec 8) (c : Byte) (st : Conversion) : Conversion :=
  let unsigned_power := length - (st.i + 1#8)
  let power := quickUint32Pow10 unsigned_power 0#32
  let product := digitOf c * power.2
  { integer := st.integer + product
    success := power.1
    i := st.i + 1#8
    exact := (st.integer.toNat + product.toNat) :: ((digitOf c).toNat * power.2.toNat) :: st.exact }

/-- The loop. -/
def convertLoop (str : List Byte) (length : BitVec 8) (st : Conversion) : Conversion :=
  if st.i < length ∧ st.success = true then
    let c := str.getD st.i.toNat 0
    if isDigit c then convertLoop str length (convertDigit length c st)
    else { st with success := false }
  else st
termination_by length.toNat - st.i.toNat
decreasing_by
  have hi : st.i.toNat < length.toNat := by rename_i h _; exact h.1
  have hnext : (st.i + 1#8).toNat = st.i.toNat + 1 :=
    BitVec.toNat_add_of_lt (by have := length.isLt; simp; omega)
  show length.toNat - (st.i + 1#8).toNat < _
  omega

/-- The tenth digit, when there are exactly ten. -/
def convertLastDigit (str : List Byte) (st : Conversion) : Conversion :=
  let last_digit_index := 10#8 - 1#8
  let c := str.getD last_digit_index.toNat 0
  if isDigit c then
    let digit := digitOf c
    if uint32Max / 10#32 < st.integer ∨
        (st.integer = uint32Max / 10#32 ∧ uint32Max % 10#32 < digit) then
      { st with success := false }
    else
      let product := st.integer * 10#32
      { st with
        integer := product + digit
        exact := (product.toNat + digit.toNat) :: (st.integer.toNat * 10) :: st.exact }
  else { st with success := false }

/-- `Utils_StringToUint32`: `success` is returned, `integer` is left in `*integer`. -/
def stringToUint32 (str : List Byte) (str_length : BitVec 8) : Conversion :=
  let check_overflow := str_length == 10#8
  let length := if check_overflow then str_length - 1#8 else str_length
  let st := convertLoop str length { integer := 0#32, success := true, i := 0#8, exact := [] }
  if check_overflow && st.success then convertLastDigit str st else st

/-! ## Numerals

What a string of digits is worth, with no bound on it. The function is compared with this number,
never with a wrapped one.
-/

/-- A decimal digit, as a number. -/
def IsDigit (c : Byte) : Prop := 0x30 ≤ c.toNat ∧ c.toNat ≤ 0x39

instance (c : Byte) : Decidable (IsDigit c) := inferInstanceAs (Decidable (_ ∧ _))

/-- Every character is a decimal digit. -/
def AllDigits (s : List Byte) : Prop := ∀ c ∈ s, IsDigit c

instance (s : List Byte) : Decidable (AllDigits s) :=
  inferInstanceAs (Decidable (∀ c ∈ s, IsDigit c))

/-- The unbounded value of a numeral, most significant digit first. -/
def decimalValue (s : List Byte) : Nat := Nat.ofDigits 10 (s.map fun c => c.toNat - 0x30).reverse

theorem isDigit_iff (c : Byte) : isDigit c = true ↔ IsDigit c := by
  rw [isDigit, Bool.and_eq_true, decide_eq_true_eq, decide_eq_true_eq]
  rfl

theorem allDigits_concat (s : List Byte) (c : Byte) :
    AllDigits (s ++ [c]) ↔ AllDigits s ∧ IsDigit c := by
  unfold AllDigits
  rw [List.forall_mem_append, List.forall_mem_singleton]

theorem decimalValue_concat (s : List Byte) (c : Byte) :
    decimalValue (s ++ [c]) = (c.toNat - 0x30) + 10 * decimalValue s := by
  rw [decimalValue, List.map_append, List.map_singleton, List.reverse_concat, Nat.ofDigits_cons]
  rfl

theorem decimalValue_lt {s : List Byte} (h : AllDigits s) : decimalValue s < 10 ^ s.length := by
  have hdigits : ∀ d ∈ (s.map fun c => c.toNat - 0x30).reverse, d < 10 := by
    intro d hd
    obtain ⟨c, hc, rfl⟩ := List.mem_map.mp (List.mem_reverse.mp hd)
    obtain ⟨hlo, hhi⟩ := h c hc
    omega
  have hlt := Nat.ofDigits_lt_base_pow_length (by omega) hdigits
  rwa [List.length_reverse, List.length_map] at hlt

/-- The numeral read so far, one character longer. -/
theorem take_succ_eq {str : List Byte} {k : Nat} (hk : k < str.length) :
    str.take (k + 1) = str.take k ++ [str.getD k 0] := by
  rw [List.take_succ_eq_append_getElem hk, List.getD_eq_getElem _ _ hk]

/-! ## One digit

The table has powers up to `10 ^ 9`, and the cast of a digit goes through a signed `char`, which
is harmless for the values 0 to 9.
-/

theorem toNat_pow10 (k : Fin 10) : (pow10.get k).toNat = 10 ^ k.val := by
  revert k
  decide

theorem quickUint32Pow10_of_lt {exponent : BitVec 8} (h : exponent.toNat < 10)
    (result : BitVec 32) :
    (quickUint32Pow10 exponent result).1 = true ∧
      (quickUint32Pow10 exponent result).2.toNat = 10 ^ exponent.toNat := by
  rw [quickUint32Pow10, dif_pos h]
  exact ⟨rfl, toNat_pow10 _⟩

theorem quickUint32Pow10_of_ge {exponent : BitVec 8} (h : 10 ≤ exponent.toNat)
    (result : BitVec 32) : (quickUint32Pow10 exponent result).1 = false := by
  rw [quickUint32Pow10, dif_neg (Nat.not_lt.mpr h)]

theorem toNat_digitOf {c : Byte} (h : IsDigit c) : (digitOf c).toNat = c.toNat - 0x30 := by
  obtain ⟨hlo, hhi⟩ := h
  have hsub : (c - 0x30#8).toNat = c.toNat - 0x30 := BitVec.toNat_sub_of_le hlo
  have hmsb : (c - 0x30#8).msb = false := by
    rw [BitVec.msb_eq_decide, hsub]
    simp
    omega
  rw [digitOf, BitVec.signExtend_eq_setWidth_of_msb_false hmsb, BitVec.toNat_setWidth, hsub]
  exact Nat.mod_eq_of_lt (by omega)

/-! ## The loop

`Converting` is the invariant. The digits are added from the left, each at its place, so the
partial sum is the value of the characters read, times the power that is still missing. For nine
characters this is below `10 ^ 9`, so nothing wraps; from eleven on the first power is not in the
table.
-/

/-- The characters before `i` are digits, and their value stands in `integer` at the place it has
in a numeral of `length` digits. Nothing has wrapped. -/
structure Converting (str : List Byte) (length : BitVec 8) (st : Conversion) : Prop where
  le : st.i.toNat ≤ length.toNat
  success : st.success = true
  digits : AllDigits (str.take st.i.toNat)
  integer : st.integer.toNat
    = decimalValue (str.take st.i.toNat) * 10 ^ (length.toNat - st.i.toNat)
  exact : ∀ x ∈ st.exact, x < 2 ^ 32

section Loop

variable {str : List Byte} {length : BitVec 8} {st : Conversion}

theorem toNat_succ_i (hi : st.i.toNat < length.toNat) :
    (st.i + 1#8).toNat = st.i.toNat + 1 :=
  BitVec.toNat_add_of_lt (show st.i.toNat + 1 < 2 ^ 8 by have := length.isLt; omega)

/-- The local `unsigned_power`. -/
theorem toNat_unsigned_power (hi : st.i.toNat < length.toNat) :
    (length - (st.i + 1#8)).toNat = length.toNat - (st.i.toNat + 1) := by
  have hnext := toNat_succ_i hi
  have hle : st.i + 1#8 ≤ length := by
    show (st.i + 1#8).toNat ≤ length.toNat
    omega
  rw [BitVec.toNat_sub_of_le hle, hnext]

/-- The value after one more digit, at its place, still fits nine digits. -/
theorem place_value_lt {s : List Byte} {n : Nat} (hs : AllDigits s) (hn : s.length ≤ n)
    (hmax : n ≤ 9) : decimalValue s * 10 ^ (n - s.length) < 2 ^ 32 := by
  have hpow : 10 ^ s.length * 10 ^ (n - s.length) = 10 ^ n := by
    rw [← Nat.pow_add]
    congr 1
    omega
  calc decimalValue s * 10 ^ (n - s.length)
      < 10 ^ s.length * 10 ^ (n - s.length) :=
        Nat.mul_lt_mul_of_pos_right (decimalValue_lt hs) (Nat.pow_pos (by omega))
    _ = 10 ^ n := hpow
    _ ≤ 10 ^ 9 := Nat.pow_le_pow_right (by omega) hmax
    _ < 2 ^ 32 := by decide

theorem convertDigit_converting (h : Converting str length st) (hi : st.i.toNat < length.toNat)
    (hlen : length.toNat ≤ str.length) (hmax : length.toNat ≤ 9)
    (hc : IsDigit (str.getD st.i.toNat 0)) :
    Converting str length (convertDigit length (str.getD st.i.toNat 0) st) := by
  have hin : st.i.toNat < str.length := by omega
  have htake := take_succ_eq hin
  generalize str.getD st.i.toNat 0 = c at hc htake
  have hnext := toNat_succ_i hi
  have hpower := toNat_unsigned_power hi
  obtain ⟨hok, hresult⟩ := quickUint32Pow10_of_lt
    (show (length - (st.i + 1#8)).toNat < 10 by omega) 0#32
  rw [hpower] at hresult
  have hall : AllDigits (str.take (st.i.toNat + 1)) := by
    rw [htake, allDigits_concat]
    exact ⟨h.digits, hc⟩
  have hvalue : decimalValue (str.take (st.i.toNat + 1))
      = (digitOf c).toNat + 10 * decimalValue (str.take st.i.toNat) := by
    rw [htake, decimalValue_concat, toNat_digitOf hc]
  -- the sum is the new value at its place, so neither it nor the product wraps
  have hplace : 10 ^ (length.toNat - st.i.toNat)
      = 10 * 10 ^ (length.toNat - (st.i.toNat + 1)) := by
    rw [← Nat.pow_succ']
    congr 1
    omega
  have hsum : st.integer.toNat
        + (digitOf c).toNat * 10 ^ (length.toNat - (st.i.toNat + 1))
      = decimalValue (str.take (st.i.toNat + 1)) * 10 ^ (length.toNat - (st.i.toNat + 1)) := by
    rw [h.integer, hvalue, hplace]
    ring
  have hfit : decimalValue (str.take (st.i.toNat + 1))
      * 10 ^ (length.toNat - (st.i.toNat + 1)) < 2 ^ 32 := by
    have htaken : (str.take (st.i.toNat + 1)).length = st.i.toNat + 1 := by
      rw [List.length_take]
      omega
    have hlt := place_value_lt hall (show _ ≤ length.toNat by omega) hmax
    rwa [htaken] at hlt
  have hproduct : (digitOf c * (quickUint32Pow10 (length - (st.i + 1#8)) 0#32).2).toNat
      = (digitOf c).toNat * 10 ^ (length.toNat - (st.i.toNat + 1)) := by
    rw [← hresult]
    exact BitVec.toNat_mul_of_lt (by rw [hresult]; omega)
  refine ⟨?_, hok, ?_, ?_, ?_⟩
  · show (st.i + 1#8).toNat ≤ length.toNat
    omega
  · show AllDigits (str.take (st.i + 1#8).toNat)
    rwa [hnext]
  · show (st.integer + _).toNat = decimalValue (str.take (st.i + 1#8).toNat)
      * 10 ^ (length.toNat - (st.i + 1#8).toNat)
    rw [BitVec.toNat_add_of_lt (by rw [hproduct]; omega), hproduct, hsum, hnext]
  · intro x hx
    rcases List.mem_cons.mp hx with rfl | hx
    · rw [hproduct]
      omega
    rcases List.mem_cons.mp hx with rfl | hx
    · rw [hresult]
      omega
    · exact h.exact x hx

/-- A length of at most nine: the loop reads the whole numeral or fails. By induction on the
characters left. -/
theorem convertLoop_short (hlen : length.toNat ≤ str.length) (hmax : length.toNat ≤ 9) (n : Nat)
    (hn : st.i.toNat + n = length.toNat) (h : Converting str length st) :
    (AllDigits (str.take length.toNat) ∧ Converting str length (convertLoop str length st) ∧
      (convertLoop str length st).i = length) ∨
    (¬ AllDigits (str.take length.toNat) ∧ (convertLoop str length st).success = false) := by
  induction n generalizing st with
  | zero =>
      have hi : st.i = length := BitVec.eq_of_toNat_eq hn
      have hdone : ¬ (st.i < length ∧ st.success = true) := by
        rintro ⟨hlt, -⟩
        rw [hi] at hlt
        exact absurd hlt (lt_irrefl _)
      rw [convertLoop, if_neg hdone]
      refine Or.inl ⟨?_, h, hi⟩
      rw [← hi]
      exact h.digits
  | succ n ih =>
      have hi : st.i.toNat < length.toNat := by omega
      rw [convertLoop, if_pos ⟨hi, h.success⟩]
      -- the next character is a digit, or it ends the loop
      by_cases hc : IsDigit (str.getD st.i.toNat 0)
      · rw [if_pos ((isDigit_iff _).mpr hc)]
        have hnext : (convertDigit length (str.getD st.i.toNat 0) st).i.toNat = st.i.toNat + 1 :=
          toNat_succ_i hi
        exact ih (by omega) (convertDigit_converting h hi hlen hmax hc)
      · rw [if_neg (mt (isDigit_iff _).mp hc)]
        refine Or.inr ⟨?_, rfl⟩
        intro hall
        apply hc
        have hin : st.i.toNat < str.length := by omega
        rw [List.getD_eq_getElem _ _ hin]
        exact hall _ (List.mem_take_iff_getElem.mpr ⟨st.i.toNat, by omega, rfl⟩)

/-- From eleven characters on, the first digit is already beyond the table. -/
theorem convertLoop_long (hmin : 11 ≤ length.toNat) (hi : st.i = 0#8) :
    (convertLoop str length st).success = false := by
  by_cases hrun : st.i < length ∧ st.success = true
  · have hfail : (convertDigit length (str.getD st.i.toNat 0) st).success = false := by
      apply quickUint32Pow10_of_ge
      rw [toNat_unsigned_power hrun.1, hi]
      show 10 ≤ length.toNat - 1
      omega
    rw [convertLoop, if_pos hrun]
    by_cases hc : isDigit (str.getD st.i.toNat 0) = true
    · rw [if_pos hc, convertLoop, if_neg (by rw [hfail]; simp)]
      exact hfail
    · rw [if_neg hc]
  · have hpos : st.i < length := by
      rw [hi]
      show 0 < length.toNat
      omega
    rw [convertLoop, if_neg hrun]
    exact eq_false_of_ne_true fun hs => hrun ⟨hpos, hs⟩

end Loop

/-! ## The tenth digit

Ten digits may be more than `uint32_t` holds. The check before the multiplication compares with
`UINT32_MAX / 10` and `UINT32_MAX % 10`, and refuses exactly the values that do not fit.
-/

theorem convertLastDigit_eq (str : List Byte) (st : Conversion) :
    convertLastDigit str st = if isDigit (str.getD 9 0) then
      if uint32Max / 10#32 < st.integer ∨
          (st.integer = uint32Max / 10#32 ∧ uint32Max % 10#32 < digitOf (str.getD 9 0)) then
        { st with success := false }
      else
        { st with
          integer := st.integer * 10#32 + digitOf (str.getD 9 0)
          exact := ((st.integer * 10#32).toNat + (digitOf (str.getD 9 0)).toNat)
            :: (st.integer.toNat * 10) :: st.exact }
    else { st with success := false } := rfl

/-- The comparison with `UINT32_MAX / 10` and `UINT32_MAX % 10` is the comparison of the value. -/
theorem overflows_iff {integer digit : BitVec 32} (hdigit : digit.toNat ≤ 9) :
    (uint32Max / 10#32 < integer ∨ (integer = uint32Max / 10#32 ∧ uint32Max % 10#32 < digit))
      ↔ ¬ (digit.toNat + 10 * integer.toNat ≤ 2 ^ 32 - 1) := by
  rw [← BitVec.toNat_inj]
  show 429496729 < integer.toNat ∨ (integer.toNat = 429496729 ∧ 5 < digit.toNat) ↔ _
  omega

theorem convertLastDigit_spec {str : List Byte} {st : Conversion} (hlen : 10 ≤ str.length)
    (hi : st.i = 9#8) (h : Converting str 9#8 st) :
    ((convertLastDigit str st).success = true
      ↔ AllDigits (str.take 10) ∧ decimalValue (str.take 10) ≤ 2 ^ 32 - 1) ∧
    ((convertLastDigit str st).success = true →
      (convertLastDigit str st).integer.toNat = decimalValue (str.take 10) ∧
        ∀ x ∈ (convertLastDigit str st).exact, x < 2 ^ 32) := by
  have hnine : st.i.toNat = 9 := by rw [hi]; rfl
  have hdigits := h.digits
  have hinteger := h.integer
  rw [hnine] at hdigits hinteger
  have htake : str.take 10 = str.take 9 ++ [str.getD 9 0] := take_succ_eq (by omega)
  rw [convertLastDigit_eq, htake, allDigits_concat, decimalValue_concat]
  generalize str.getD 9 0 = c
  by_cases hc : IsDigit c
  · have hdigit := toNat_digitOf hc
    have hvalue : st.integer.toNat = decimalValue (str.take 9) := by
      rw [hinteger]
      exact Nat.mul_one _
    have hsmall : (digitOf c).toNat ≤ 9 := by
      obtain ⟨hlo, hhi⟩ := hc
      rw [hdigit]
      omega
    -- the check of the source is made before the product, and is exact
    have hcheck : (uint32Max / 10#32 < st.integer ∨
        (st.integer = uint32Max / 10#32 ∧ uint32Max % 10#32 < digitOf c))
        ↔ ¬ (c.toNat - 0x30 + 10 * decimalValue (str.take 9) ≤ 2 ^ 32 - 1) := by
      rw [← hvalue, ← hdigit]
      exact overflows_iff hsmall
    rw [if_pos ((isDigit_iff c).mpr hc)]
    by_cases hover : uint32Max / 10#32 < st.integer ∨
        (st.integer = uint32Max / 10#32 ∧ uint32Max % 10#32 < digitOf c)
    · rw [if_pos hover]
      refine ⟨⟨fun hs => absurd hs (by simp), ?_⟩, fun hs => absurd hs (by simp)⟩
      rintro ⟨-, hfit⟩
      exact absurd hfit (hcheck.mp hover)
    · rw [if_neg hover]
      have hfit := not_not.mp (mt hcheck.mpr hover)
      -- so the product does not wrap, nor does the sum after it
      have hproduct : (st.integer * 10#32).toNat = st.integer.toNat * 10 :=
        BitVec.toNat_mul_of_lt (show st.integer.toNat * 10 < 2 ^ 32 by omega)
      refine ⟨⟨fun _ => ⟨⟨hdigits, hc⟩, hfit⟩, fun _ => h.success⟩, fun _ => ⟨?_, ?_⟩⟩
      · show (st.integer * 10#32 + digitOf c).toNat = _
        rw [BitVec.toNat_add_of_lt (by omega), hproduct]
        omega
      · intro x hx
        rcases List.mem_cons.mp hx with rfl | hx
        · omega
        rcases List.mem_cons.mp hx with rfl | hx
        · omega
        · exact h.exact x hx
  · rw [if_neg (mt (isDigit_iff c).mp hc)]
    refine ⟨⟨fun hs => absurd hs (by simp), ?_⟩, fun hs => absurd hs (by simp)⟩
    rintro ⟨⟨-, hdigit⟩, -⟩
    exact absurd hdigit hc

/-! ## The whole string

The lengths fall into three kinds, and each has a theorem above: ten characters, fewer, and more.
The empty string has no character to refuse, and is accepted with the value 0.
-/

section Whole

variable {str : List Byte} {str_length : BitVec 8}

/-- The state before the loop. -/
theorem start_converting (length : BitVec 8) :
    Converting str length { integer := 0#32, success := true, i := 0#8, exact := [] } where
  le := Nat.zero_le _
  success := rfl
  digits := fun _ hc => absurd hc List.not_mem_nil
  integer := (Nat.zero_mul _).symm
  exact := fun _ hx => absurd hx List.not_mem_nil

/-- **What `Utils_StringToUint32` accepts, and what it leaves**, for every length. -/
theorem stringToUint32_spec (hlen : str_length.toNat ≤ str.length) :
    ((stringToUint32 str str_length).success = true
      ↔ str_length.toNat ≤ 10 ∧ AllDigits (str.take str_length.toNat) ∧
        decimalValue (str.take str_length.toNat) ≤ 2 ^ 32 - 1) ∧
    ((stringToUint32 str str_length).success = true →
      (stringToUint32 str str_length).integer.toNat = decimalValue (str.take str_length.toNat) ∧
        ∀ x ∈ (stringToUint32 str str_length).exact, x < 2 ^ 32) := by
  by_cases hten : str_length = 10#8
  · subst hten
    have hloop := convertLoop_short (show (9#8).toNat ≤ str.length by
      exact Nat.le_trans (by decide) hlen) (Nat.le_refl 9) 9 rfl (start_converting 9#8)
    have hunfold : stringToUint32 str 10#8
        = if (convertLoop str 9#8
            { integer := 0#32, success := true, i := 0#8, exact := [] }).success
          then convertLastDigit str (convertLoop str 9#8
            { integer := 0#32, success := true, i := 0#8, exact := [] })
          else convertLoop str 9#8 { integer := 0#32, success := true, i := 0#8, exact := [] } := rfl
    rw [hunfold]
    generalize convertLoop str 9#8 { integer := 0#32, success := true, i := 0#8, exact := [] } = st
      at hloop
    rcases hloop with ⟨-, hconv, hi⟩ | ⟨hnot, hfail⟩
    · obtain ⟨hiff, hresult⟩ := convertLastDigit_spec hlen hi hconv
      rw [if_pos hconv.success]
      exact ⟨hiff.trans ⟨fun hs => ⟨Nat.le_refl 10, hs⟩, fun hs => hs.2⟩, hresult⟩
    · rw [if_neg (by rw [hfail]; simp), hfail]
      refine ⟨⟨fun hs => absurd hs (by simp), ?_⟩, fun hs => absurd hs (by simp)⟩
      rintro ⟨-, hall, -⟩
      exact absurd (fun c hc => hall c (List.take_subset_take_left str (by decide) hc)) hnot
  · have hunfold : stringToUint32 str str_length = convertLoop str str_length
        { integer := 0#32, success := true, i := 0#8, exact := [] } := by
      simp [stringToUint32, hten]
    have hne : str_length.toNat ≠ 10 := fun h => hten (BitVec.eq_of_toNat_eq h)
    rw [hunfold]
    -- fewer than ten characters, or more
    rcases Nat.lt_or_ge str_length.toNat 10 with hshort | hlong
    · rcases convertLoop_short hlen (by omega) str_length.toNat (Nat.zero_add _)
        (start_converting str_length) with ⟨hall, hconv, hi⟩ | ⟨hnot, hfail⟩
      · have hvalue := hconv.integer
        rw [hi, Nat.sub_self, pow_zero, Nat.mul_one] at hvalue
        refine ⟨⟨fun _ => ⟨by omega, hall, ?_⟩, fun _ => hconv.success⟩,
          fun _ => ⟨hvalue, hconv.exact⟩⟩
        rw [← hvalue]
        exact Nat.le_sub_one_of_lt (BitVec.isLt _)
      · rw [hfail]
        refine ⟨⟨fun hs => absurd hs (by simp), ?_⟩, fun hs => absurd hs (by simp)⟩
        rintro ⟨-, hall, -⟩
        exact absurd hall hnot
    · rw [convertLoop_long (by omega) rfl]
      refine ⟨⟨fun hs => absurd hs (by simp), ?_⟩, fun hs => absurd hs (by simp)⟩
      rintro ⟨hle, -⟩
      omega

/-- **`Utils_StringToUint32` is sound.** A string that is accepted consists of digits, `*integer` is
its value, and no product or sum on the way wrapped. -/
theorem stringToUint32_sound (hlen : str_length.toNat ≤ str.length)
    (hs : (stringToUint32 str str_length).success = true) :
    AllDigits (str.take str_length.toNat) ∧
    decimalValue (str.take str_length.toNat) ≤ 2 ^ 32 - 1 ∧
    (stringToUint32 str str_length).integer.toNat = decimalValue (str.take str_length.toNat) ∧
    ∀ x ∈ (stringToUint32 str str_length).exact, x < 2 ^ 32 := by
  obtain ⟨hiff, hresult⟩ := stringToUint32_spec hlen
  obtain ⟨-, hall, hfit⟩ := hiff.mp hs
  obtain ⟨hvalue, hexact⟩ := hresult hs
  exact ⟨hall, hfit, hvalue, hexact⟩

/-- The largest value, in ten characters. -/
theorem stringToUint32_sound_max :
    (stringToUint32 [0x34, 0x32, 0x39, 0x34, 0x39, 0x36, 0x37, 0x32, 0x39, 0x35] 10#8).integer.toNat
      = decimalValue [0x34, 0x32, 0x39, 0x34, 0x39, 0x36, 0x37, 0x32, 0x39, 0x35] := by
  have hlen : (10#8).toNat
      ≤ [0x34#8, 0x32, 0x39, 0x34, 0x39, 0x36, 0x37, 0x32, 0x39, 0x35].length := by decide
  exact (stringToUint32_sound hlen
    ((stringToUint32_spec hlen).1.mpr ⟨by decide, by decide, by decide⟩)).2.2.1

/-- **What is accepted of a string that is not empty**: the numerals of at most ten characters that
fit. Longer ones are refused by the table of powers, whatever their value. -/
theorem stringToUint32_accepts (hlen : str_length.toNat ≤ str.length)
    (_hpos : 1 ≤ str_length.toNat) :
    (stringToUint32 str str_length).success = true
      ↔ str_length.toNat ≤ 10 ∧ AllDigits (str.take str_length.toNat) ∧
        decimalValue (str.take str_length.toNat) ≤ 2 ^ 32 - 1 :=
  (stringToUint32_spec hlen).1

end Whole

/-- `"0000000042"`: ten characters with leading zeros. -/
theorem stringToUint32_accepts_padded :
    (stringToUint32 (List.replicate 8 0x30 ++ [0x34, 0x32]) 10#8).success = true := by
  have hlen : (10#8).toNat ≤ (List.replicate 8 0x30#8 ++ [0x34, 0x32]).length := by decide
  exact (stringToUint32_accepts hlen (by decide)).mpr ⟨by decide, by decide, by decide⟩

/-- `"00000000001"` is a numeral of eleven characters that fits, and is refused; and the empty
string, which has no digit, is accepted. -/
theorem stringToUint32_refuses_eleven :
    (AllDigits (List.replicate 10 0x30 ++ [0x31]) ∧
      decimalValue (List.replicate 10 0x30 ++ [0x31]) ≤ 2 ^ 32 - 1 ∧
      (stringToUint32 (List.replicate 10 0x30 ++ [0x31]) 11#8).success = false) ∧
    (stringToUint32 [] 0#8).success = true := by
  have hlen : (11#8).toNat ≤ (List.replicate 10 0x30#8 ++ [0x31]).length := by decide
  refine ⟨⟨by decide, by decide, ?_⟩, ?_⟩
  · apply eq_false_of_ne_true
    intro hs
    exact absurd ((stringToUint32_spec hlen).1.mp hs).1 (by decide)
  · have hempty : (0#8).toNat ≤ ([] : List Byte).length := Nat.le_refl 0
    exact (stringToUint32_spec hempty).1.mpr ⟨by decide, by decide, by decide⟩

end Utils
end IMUtility
