import IMUtility.Base64.Text

/-! # What the decoder writes

`decodedBytes` is the output of `Base64_decode` as a function of the characters it is given, well
formed or not: three bytes for each complete quartet, and one or two for the last block of padded
input. On the text of `d`, with any of its trailing `=` removed, it is `d` (`decodedBytes_text`). -/

namespace IMUtility
namespace Base64

open Memory (Spells spells_append spells_cons)

/-! ## The output

These definitions follow the order of the source: is the input padded, how many quartets are in
front of the last block, has that block a third character. A text that lost its `=` is short, and
`padded` holds of it as well, which is why taking `=` off changes nothing.
-/

section Output

variable (c : Nat → Byte)

/-- The word of the quartet at `i`. -/
def word (i : Nat) : BitVec 32 :=
  index (c i) <<< 18 ||| index (c (i + 1)) <<< 12 ||| index (c (i + 2)) <<< 6 ||| index (c (i + 3))

/-- The bytes of `q` quartets from `i` on. -/
def decoded (i : Nat) : Nat → List Byte
  | 0 => []
  | q + 1 =>
    [(word c i >>> 16).setWidth 8, (word c i >>> 8 &&& 0xFF#32).setWidth 8,
      (word c i &&& 0xFF#32).setWidth 8] ++ decoded (i + 4) q

/-- Input that ends in an incomplete or padded block. -/
def padded (in_len : Nat) : Bool := 0 < in_len && (in_len % 4 ≠ 0 || c (in_len - 1) == padding)

/-- The quartets in front of the last block. -/
def quartets (in_len : Nat) : Nat := (in_len + 3) / 4 - if padded c in_len then 1 else 0

/-- The block at `i` has a third character of its own. -/
def hasThird (in_len i : Nat) : Prop := i + 2 < in_len ∧ c (i + 2) ≠ padding

instance (in_len i : Nat) : Decidable (hasThird c in_len i) := inferInstanceAs (Decidable (_ ∧ _))

/-- The bytes of the last block, at `i`. -/
def lastBytes (in_len i : Nat) : List Byte :=
  let n := index (c i) <<< 18 ||| index (c (i + 1)) <<< 12
  (n >>> 16).setWidth 8 ::
    if hasThird c in_len i then
      [((n ||| index (c (i + 2)) <<< 6) >>> 8 &&& 0xFF#32).setWidth 8]
    else []

/-- All bytes written. -/
def decodedBytes (in_len : Nat) : List Byte :=
  decoded c 0 (quartets c in_len)
    ++ if padded c in_len then lastBytes c in_len (4 * quartets c in_len) else []

theorem length_decoded (i q : Nat) : (decoded c i q).length = 3 * q := by
  induction q generalizing i with
  | zero => rfl
  | succ q ih =>
      rw [decoded, List.length_append, ih]
      simp only [List.length_cons, List.length_nil]
      omega

/-- An incomplete block is taken for a padded one. -/
theorem padded_of_incomplete {in_len : Nat} (h : in_len % 4 ≠ 0) : padded c in_len = true := by
  have hpos : 0 < in_len := by
    apply Nat.pos_of_ne_zero
    rintro rfl
    exact h rfl
  simp [padded, hpos, h]

theorem pos_of_padded {in_len : Nat} (h : padded c in_len = true) : 0 < in_len := by
  simp only [padded, Bool.and_eq_true, decide_eq_true_eq] at h
  exact h.1

/-- The quartets in front of the last block are input. -/
theorem four_mul_quartets_le (in_len : Nat) : 4 * quartets c in_len ≤ in_len := by
  unfold quartets
  cases hp : padded c in_len with
  | true =>
      rw [if_pos rfl]
      omega
  | false =>
      have hwhole : in_len % 4 = 0 := by
        by_contra h
        rw [padded_of_incomplete c h] at hp
        cases hp
      rw [if_neg Bool.false_ne_true]
      omega

end Output

/-! ## Words

The decoder puts four indices side by side in a 32-bit word and cuts three bytes out of it. Both
ends are residues of the number that the word stands for, so the bit operations need to be looked
at only here.
-/

section Words

variable {w : BitVec 32} {x : Byte}

theorem byte_high (h : w.toNat / 2 ^ 16 = x.toNat) : (w >>> 16).setWidth 8 = x := by
  have hx := x.isLt
  apply BitVec.eq_of_toNat_eq
  rw [BitVec.toNat_setWidth, toNat_high, h]
  omega

theorem byte_middle (h : w.toNat / 2 ^ 8 % 2 ^ 8 = x.toNat) :
    (w >>> 8 &&& 0xFF#32).setWidth 8 = x := by
  have hx := x.isLt
  apply BitVec.eq_of_toNat_eq
  rw [BitVec.toNat_setWidth, toNat_low _ 8 rfl, toNat_high, h]
  omega

theorem byte_low (h : w.toNat % 2 ^ 8 = x.toNat) : (w &&& 0xFF#32).setWidth 8 = x := by
  have hx := x.isLt
  apply BitVec.eq_of_toNat_eq
  rw [BitVec.toNat_setWidth, toNat_low _ 8 rfl, h]
  omega

/-- The fields of a word, the last ones possibly absent. -/
theorem toNat_fields {x₀ x₁ x₂ x₃ : BitVec 32} (h₀ : x₀.toNat < 64) (h₁ : x₁.toNat < 64)
    (h₂ : x₂.toNat < 64) (h₃ : x₃.toNat < 64) :
    (x₀ <<< 18 ||| x₁ <<< 12 ||| x₂ <<< 6 ||| x₃).toNat
      = x₀.toNat * 2 ^ 18 + x₁.toNat * 2 ^ 12 + x₂.toNat * 2 ^ 6 + x₃.toNat := by
  have hlow : (x₂ <<< 6 ||| x₃).toNat = x₂.toNat * 2 ^ 6 + x₃.toNat :=
    toNat_shiftLeft_or (by omega) (by omega)
  have hmid : (x₁ <<< 12 ||| (x₂ <<< 6 ||| x₃)).toNat
      = x₁.toNat * 2 ^ 12 + (x₂.toNat * 2 ^ 6 + x₃.toNat) := by
    rw [toNat_shiftLeft_or (by omega) (by omega), hlow]
  rw [BitVec.or_assoc, BitVec.or_assoc, toNat_shiftLeft_or (by omega) (by omega), hmid]
  omega

end Words

/-! ## The round trip

Three shapes of input: complete groups, with no `=` at all; one byte behind them; two bytes behind
them. In the last two `strip_padding` says which texts remain when some `=` are taken off, and
that the letters are among what remains.
-/

variable {cell : Buffer → Nat → Byte} {d e : List Byte}

/-- The quartets of a string of complete groups. -/
theorem decoded_text (hd : d.length % 3 = 0) {i : Nat} (h : Spells cell .input i (text d)) :
    decoded (cell .input) i (d.length / 3) = d := by
  induction d using text.induct generalizing i with
  | case1 x y z rest ih =>
      have hlen : (x :: y :: z :: rest).length / 3 = rest.length / 3 + 1 := by
        simp only [List.length_cons]
        omega
      have hrest : rest.length % 3 = 0 := by
        simp only [List.length_cons] at hd
        omega
      rw [text_cons₃, spells_append] at h
      simp only [spells_cons, List.length_cons, List.length_nil] at h
      obtain ⟨⟨h₀, h₁, h₂, h₃, -⟩, htail⟩ := h
      -- four letters of the text give back the number of the group
      have hword : (word (cell .input) i).toNat = group x y z := by
        have hx := x.isLt
        have hy := y.isLt
        have hz := z.isLt
        rw [word, h₀, h₁, h₂, h₃, toNat_fields (index_lt _) (index_lt _) (index_lt _) (index_lt _)]
        simp only [index_symbol _ (sextet_lt _ _)]
        simp only [sextet, group]
        omega
      have hx := x.isLt
      have hy := y.isLt
      have hz := z.isLt
      rw [hlen, decoded, ih hrest htail, byte_high (x := x) (by rw [hword, group]; omega),
        byte_middle (x := y) (by rw [hword, group]; omega),
        byte_low (x := z) (by rw [hword, group]; omega)]
      rfl
  | case2 x y => simp at hd
  | case3 x => simp at hd
  | case4 => rfl

/-- Taking padding off a string that has letters leaves the letters. By induction on the padding,
from the right. -/
theorem strip_padding {xs t : List Byte} {y : Byte} (hy : y ≠ padding) {n k : Nat}
    (h : xs ++ [y] ++ List.replicate n padding = t ++ List.replicate k padding) :
    ∃ j ≤ n, t = xs ++ [y] ++ List.replicate j padding := by
  induction n generalizing k with
  | zero =>
      cases k with
      | zero => exact ⟨0, le_rfl, by simpa using h.symm⟩
      | succ k =>
          rw [List.replicate_succ', ← List.append_assoc, List.replicate_zero, List.append_nil] at h
          -- the last character is `y`, which is not padding
          exact absurd (List.append_singleton_inj.mp h).2 hy
  | succ n ih =>
      cases k with
      | zero => exact ⟨n + 1, le_rfl, by simpa using h.symm⟩
      | succ k =>
          rw [List.replicate_succ', List.replicate_succ', ← List.append_assoc,
            ← List.append_assoc] at h
          obtain ⟨j, hj, ht⟩ := ih (List.append_singleton_inj.mp h).1
          exact ⟨j, Nat.le_succ_of_le hj, ht⟩

/-- The last block of one byte. -/
theorem lastBytes_one {c : Nat → Byte} {in_len i : Nat} {x : Byte}
    (h₀ : c i = symbol (sextet (group x 0 0) 0)) (h₁ : c (i + 1) = symbol (sextet (group x 0 0) 1))
    (hthird : ¬ hasThird c in_len i) : lastBytes c in_len i = [x] := by
  have hx := x.isLt
  have hzero : (0#32).toNat < 64 := by decide
  have hword := toNat_fields (index_lt (c i)) (index_lt (c (i + 1))) hzero hzero
  simp only [BitVec.zero_shiftLeft, BitVec.or_zero] at hword
  rw [h₀, h₁, index_symbol _ (sextet_lt _ _), index_symbol _ (sextet_lt _ _)] at hword
  rw [lastBytes, if_neg hthird, h₀, h₁, byte_high (x := x)]
  -- the second letter carries four bits that belong to no byte
  rw [hword]
  simp [sextet, group]
  omega

/-- The last block of two bytes. -/
theorem lastBytes_two {c : Nat → Byte} {in_len i : Nat} {x y : Byte}
    (h₀ : c i = symbol (sextet (group x y 0) 0)) (h₁ : c (i + 1) = symbol (sextet (group x y 0) 1))
    (h₂ : c (i + 2) = symbol (sextet (group x y 0) 2)) (hlen : i + 2 < in_len) :
    lastBytes c in_len i = [x, y] := by
  have hx := x.isLt
  have hy := y.isLt
  have hthird : hasThird c in_len i := ⟨hlen, by rw [h₂]; exact symbol_ne_padding _ (sextet_lt _ _)⟩
  have hzero : (0#32).toNat < 64 := by decide
  -- the first byte is told from two of the letters, the second from three
  have hword := toNat_fields (index_lt (c i)) (index_lt (c (i + 1))) hzero hzero
  have hword' := toNat_fields (index_lt (c i)) (index_lt (c (i + 1))) (index_lt (c (i + 2))) hzero
  simp only [BitVec.zero_shiftLeft, BitVec.or_zero] at hword hword'
  rw [h₀, h₁, index_symbol _ (sextet_lt _ _), index_symbol _ (sextet_lt _ _)] at hword
  rw [h₀, h₁, h₂, index_symbol _ (sextet_lt _ _), index_symbol _ (sextet_lt _ _),
    index_symbol _ (sextet_lt _ _)] at hword'
  rw [lastBytes, if_pos hthird, h₀, h₁, h₂, byte_high (x := x), byte_middle (x := y)]
  · rw [hword']
    simp [sextet, group]
    omega
  · rw [hword]
    simp [sextet, group]
    omega

/-- Complete groups: nothing is taken for padding. -/
theorem decodedBytes_complete (hd : d.length % 3 = 0) (h : Spells cell .input 0 (text d)) :
    decodedBytes (cell .input) (text d).length = d ∧
      quartets (cell .input) (text d).length = d.length / 3 := by
  have hlen := length_text d
  -- the length is a multiple of 4 and the last character a letter
  have hpad : padded (cell .input) (text d).length = false := by
    rcases Nat.eq_zero_or_pos (text d).length with hzero | hpos
    · simp [padded, hzero]
    · have hlast := h ((text d).length - 1) (by omega)
      rw [Nat.zero_add] at hlast
      have hne : ¬ cell .input ((text d).length - 1) = padding := by
        rw [hlast]
        exact fun heq => padding_notMem_text d hd (heq ▸ List.getElem_mem _)
      have hmod : (text d).length % 4 = 0 := by omega
      simp [padded, hmod, hne]
  have hquartets : quartets (cell .input) (text d).length = d.length / 3 := by
    rw [quartets, hpad, if_neg Bool.false_ne_true]
    omega
  refine ⟨?_, hquartets⟩
  rw [decodedBytes, hquartets, hpad, if_neg Bool.false_ne_true, List.append_nil, decoded_text hd h]

/-- Complete groups and a last block of two to four characters. -/
theorem decodedBytes_block (hd : d.length % 3 = 0) {t : List Byte}
    (h : Spells cell .input 0 (text d ++ t)) (hmin : 2 ≤ t.length) (hmax : t.length ≤ 4)
    (hlast : t.length = 4 → t[3]? = some padding) :
    decodedBytes (cell .input) (text d ++ t).length
        = d ++ lastBytes (cell .input) (text d ++ t).length (text d).length ∧
      quartets (cell .input) (text d ++ t).length = d.length / 3 := by
  have hlen := length_text d
  obtain ⟨htext, hblock⟩ := spells_append.mp h
  rw [Nat.zero_add] at hblock
  have hpad : padded (cell .input) (text d ++ t).length = true := by
    rw [List.length_append]
    -- a whole block ends in `=`; a shorter one leaves the length uneven
    by_cases hfour : t.length = 4
    · have hcell := hblock 3 (by omega)
      have hthree := hlast hfour
      rw [List.getElem?_eq_getElem (by omega), Option.some.injEq] at hthree
      have hpos : (text d).length + t.length - 1 = (text d).length + 3 := by omega
      simp [padded, hpos, hcell, hthree]
      omega
    · have hmod : ¬ ((text d).length + t.length) % 4 = 0 := by omega
      simp [padded, hmod]
      omega
  have hquartets : quartets (cell .input) (text d ++ t).length = d.length / 3 := by
    rw [quartets, hpad, if_pos rfl, List.length_append]
    omega
  refine ⟨?_, hquartets⟩
  have hpos : 4 * (d.length / 3) = (text d).length := by omega
  rw [decodedBytes, hquartets, hpad, if_pos rfl, decoded_text hd htext, hpos]

/-- Complete groups, with no `=` to take off. -/
theorem decodedBytes_of_complete (hd : d.length % 3 = 0) {k : Nat}
    (he : text d = e ++ List.replicate k padding) (h : Spells cell .input 0 e) :
    decodedBytes (cell .input) e.length = d ∧
      quartets (cell .input) e.length = d.length / 3 := by
  have hk : k = 0 := by
    by_contra hne
    apply padding_notMem_text d hd
    rw [he]
    exact List.mem_append_right _ (List.mem_replicate.mpr ⟨hne, rfl⟩)
  obtain rfl : e = text d := by
    rw [he, hk, List.replicate_zero, List.append_nil]
  exact decodedBytes_complete hd h

/-- Letters behind complete groups, with some of their `=` taken off: a last block. -/
theorem decodedBytes_of_letters (hd : d.length % 3 = 0) {xs : List Byte} {y : Byte} {n k : Nat}
    (hy : y ≠ padding) (hxs : 0 < xs.length) (hn : 0 < n) (hfour : xs.length + 1 + n = 4)
    (he : text d ++ xs ++ [y] ++ List.replicate n padding = e ++ List.replicate k padding)
    (h : Spells cell .input 0 e) :
    ∃ j, e.length = (text d).length + (xs.length + 1 + j) ∧
      Spells cell .input (text d).length (xs ++ [y] ++ List.replicate j padding) ∧
      decodedBytes (cell .input) e.length
        = d ++ lastBytes (cell .input) e.length (text d).length ∧
      quartets (cell .input) e.length = d.length / 3 := by
  obtain ⟨j, hj, ht⟩ := strip_padding hy he
  obtain rfl : e = text d ++ (xs ++ [y] ++ List.replicate j padding) := by simpa using ht
  have hlen : (xs ++ [y] ++ List.replicate j padding).length = xs.length + 1 + j := by
    rw [List.length_append, List.length_append, List.length_singleton, List.length_replicate]
  have hlast : (xs ++ [y] ++ List.replicate j padding).length = 4 →
      (xs ++ [y] ++ List.replicate j padding)[3]? = some padding := by
    intro hall
    -- nothing was taken off, and there was a `=`
    have hletters : (xs ++ [y]).length ≤ 3 := by
      rw [List.length_append, List.length_singleton]
      omega
    rw [List.getElem?_append_right hletters, List.getElem?_replicate, if_pos]
    rw [List.length_append, List.length_singleton]
    omega
  obtain ⟨hbytes, hquartets⟩ := decodedBytes_block hd h (by omega) (by omega) hlast
  have hblock := (spells_append.mp h).2
  rw [Nat.zero_add] at hblock
  exact ⟨j, by rw [List.length_append, hlen], hblock, hbytes, hquartets⟩

/-- One byte behind complete groups: two letters and at most two `=`. -/
theorem decodedBytes_of_one (hd : d.length % 3 = 0) (x : Byte) {k : Nat}
    (he : text d ++ text [x] = e ++ List.replicate k padding) (h : Spells cell .input 0 e) :
    decodedBytes (cell .input) e.length = d ++ [x] ∧
      quartets (cell .input) e.length = d.length / 3 := by
  have he' : text d ++ [symbol (sextet (group x 0 0) 0)] ++ [symbol (sextet (group x 0 0) 1)]
      ++ List.replicate 2 padding = e ++ List.replicate k padding := by
    rw [← he]
    simp [text]
  obtain ⟨j, hlen, hblock, hbytes, hquartets⟩ := decodedBytes_of_letters hd
    (symbol_ne_padding _ (sextet_lt _ _)) (by simp) (by omega) rfl he' h
  refine ⟨?_, hquartets⟩
  rw [hbytes]
  congr 1
  apply lastBytes_one (hblock 0 (by simp)) (hblock 1 (by simp))
  -- the third character, where there is one, is a `=`
  rintro ⟨hlt, hne⟩
  have hthird := hblock 2 (by simp at hlen ⊢; omega)
  rw [hthird] at hne
  simp at hne

/-- Two bytes behind complete groups: three letters and at most one `=`. -/
theorem decodedBytes_of_two (hd : d.length % 3 = 0) (x y : Byte) {k : Nat}
    (he : text d ++ text [x, y] = e ++ List.replicate k padding) (h : Spells cell .input 0 e) :
    decodedBytes (cell .input) e.length = d ++ [x, y] ∧
      quartets (cell .input) e.length = d.length / 3 := by
  have he' : text d ++ [symbol (sextet (group x y 0) 0), symbol (sextet (group x y 0) 1)]
      ++ [symbol (sextet (group x y 0) 2)] ++ List.replicate 1 padding
      = e ++ List.replicate k padding := by
    rw [← he]
    simp [text]
  obtain ⟨j, hlen, hblock, hbytes, hquartets⟩ := decodedBytes_of_letters hd
    (symbol_ne_padding _ (sextet_lt _ _)) (by simp) (by omega) rfl he' h
  refine ⟨?_, hquartets⟩
  rw [hbytes]
  congr 1
  apply lastBytes_two (hblock 0 (by simp)) (hblock 1 (by simp)) (hblock 2 (by simp))
  simp only [List.length_cons, List.length_nil] at hlen
  omega

/-- **The round trip**: the decoder's output on the text of `d`, with any number of its trailing `=`
removed, is `d`. -/
theorem decodedBytes_text {k : Nat} (he : text d = e ++ List.replicate k padding)
    (h : Spells cell .input 0 e) :
    decodedBytes (cell .input) e.length = d ∧
      quartets (cell .input) e.length = d.length / 3 := by
  obtain ⟨d₃, r, rfl, hd₃, hr⟩ := exists_groups d
  have hquot : (d₃ ++ r).length / 3 = d₃.length / 3 := by
    rw [List.length_append]
    omega
  rw [hquot]
  rw [text_append d₃ r hd₃] at he
  match r, hr with
  | [], _ =>
    rw [text, List.append_nil] at he
    rw [List.append_nil]
    exact decodedBytes_of_complete hd₃ he h
  | [x], _ => exact decodedBytes_of_one hd₃ x he h
  | [x, y], _ => exact decodedBytes_of_two hd₃ x y he h

end Base64
end IMUtility
