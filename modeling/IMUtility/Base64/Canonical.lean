import IMUtility.Base64.Correctness

/-! # Texts that no encoder writes

The decoder refuses no character. What it makes of a text is told by the values of the characters
and the places of the `=`, so other alphabets are read as well (`decode_any_alphabet`), and encoding
its output again gives back the text in the standard alphabet, with the bits that it ignores set to
zero (`encode_decoded`). The texts that survive this are those of the encoder. -/

namespace IMUtility
namespace Base64

open Memory

/-! ## The canonical text

What encoding again must give is written down from the characters alone, without the bytes in
between: a letter for each value, and for the last letter of a short block the value with its
unused bits cleared. The places of the `=` are those that the block needs, not those of the input,
which may have fewer.
-/

/-- The standard letter with the value of `x`. -/
def standard (x : Byte) : Byte := symbol (index x).toNat

section Canonical

variable (c : Nat → Byte)

/-- `q` quartets from `i` on, in the standard alphabet. -/
def standardQuartets (i : Nat) : Nat → List Byte
  | 0 => []
  | q + 1 =>
    [standard (c i), standard (c (i + 1)), standard (c (i + 2)), standard (c (i + 3))]
      ++ standardQuartets (i + 4) q

/-- The last block at `i`, without the bits that make no byte. -/
def standardLast (in_len i : Nat) : List Byte :=
  standard (c i) ::
    if hasThird c in_len i then
      [standard (c (i + 1)), symbol ((index (c (i + 2))).toNat / 4 * 4), padding]
    else [symbol ((index (c (i + 1))).toNat / 16 * 16), padding, padding]

/-- The canonical text with the bytes of the input. -/
def canonical (in_len : Nat) : List Byte :=
  standardQuartets c 0 (quartets c in_len)
    ++ if padded c in_len then standardLast c in_len (4 * quartets c in_len) else []

end Canonical

/-! ## Encoding a word

A decoded quartet is a word of 24 bits, and so is a group of three bytes. The two halves of the
round trip meet in that number: its bytes are its residues, its sextets the four fields it was put
together from (`sextet_fields`). A short block is the same word with fields that are zero.
-/

section Encoding

variable {c : Nat → Byte} {in_len i : Nat} {w : BitVec 32}

theorem toNat_byte_high (h : w.toNat < 2 ^ 24) :
    ((w >>> 16).setWidth 8 : Byte).toNat = w.toNat / 2 ^ 16 := by
  rw [BitVec.toNat_setWidth, toNat_high]
  omega

theorem toNat_byte_middle : ((w >>> 8 &&& 0xFF#32).setWidth 8 : Byte).toNat
    = w.toNat / 2 ^ 8 % 2 ^ 8 := by
  rw [BitVec.toNat_setWidth, toNat_low _ 8 rfl, toNat_high]
  omega

theorem toNat_byte_low : ((w &&& 0xFF#32).setWidth 8 : Byte).toNat = w.toNat % 2 ^ 8 := by
  rw [BitVec.toNat_setWidth, toNat_low _ 8 rfl]
  omega

/-- The bytes of a word of 24 bits have its value. -/
theorem group_bytes (h : w.toNat < 2 ^ 24) :
    group ((w >>> 16).setWidth 8) ((w >>> 8 &&& 0xFF#32).setWidth 8)
      ((w &&& 0xFF#32).setWidth 8) = w.toNat := by
  rw [group, toNat_byte_high h, toNat_byte_middle, toNat_byte_low]
  omega

/-- The sextets of a group, by its fields. -/
theorem sextet_fields {n v₀ v₁ v₂ v₃ : Nat} (h₀ : v₀ < 64) (h₁ : v₁ < 64) (h₂ : v₂ < 64)
    (h₃ : v₃ < 64) (hn : n = v₀ * 2 ^ 18 + v₁ * 2 ^ 12 + v₂ * 2 ^ 6 + v₃) :
    sextet n 0 = v₀ ∧ sextet n 1 = v₁ ∧ sextet n 2 = v₂ ∧ sextet n 3 = v₃ := by
  simp only [sextet]
  omega

theorem toNat_word (c : Nat → Byte) (i : Nat) : (word c i).toNat
    = (index (c i)).toNat * 2 ^ 18 + (index (c (i + 1))).toNat * 2 ^ 12
      + (index (c (i + 2))).toNat * 2 ^ 6 + (index (c (i + 3))).toNat :=
  toNat_fields (index_lt _) (index_lt _) (index_lt _) (index_lt _)

/-- The text of the decoded quartets. By induction on them. -/
theorem text_decoded (c : Nat → Byte) (i q : Nat) (r : List Byte) :
    text (decoded c i q ++ r) = standardQuartets c i q ++ text r := by
  induction q generalizing i with
  | zero => rfl
  | succ q ih =>
      have h₀ := index_lt (c i)
      have h₁ := index_lt (c (i + 1))
      have h₂ := index_lt (c (i + 2))
      have h₃ := index_lt (c (i + 3))
      have hword := toNat_word c i
      have hlt : (word c i).toNat < 2 ^ 24 := by omega
      -- the sextets of the three bytes are the values of the four characters
      obtain ⟨s₀, s₁, s₂, s₃⟩ := sextet_fields h₀ h₁ h₂ h₃ hword
      rw [decoded, standardQuartets, List.append_assoc, List.append_assoc, ← ih]
      show text (_ :: _ :: _ :: (decoded c (i + 4) q ++ r)) = _
      rw [text_cons₃, group_bytes hlt, s₀, s₁, s₂, s₃]
      rfl

/-- Of two characters, the first byte is encoded again. -/
theorem text_of_two {v₀ v₁ : Nat} (h₀ : v₀ < 64) (h₁ : v₁ < 64)
    (hw : w.toNat = v₀ * 2 ^ 18 + v₁ * 2 ^ 12) :
    text [(w >>> 16).setWidth 8] = [symbol v₀, symbol (v₁ / 16 * 16), padding, padding] := by
  have hhigh := toNat_byte_high (w := w) (by omega)
  -- the low four bits of the second character are in no byte: they come back as zero
  have hgroup : group ((w >>> 16).setWidth 8) 0 0
      = v₀ * 2 ^ 18 + v₁ / 16 * 16 * 2 ^ 12 + 0 * 2 ^ 6 + 0 := by
    have hnone : (0 : Byte).toNat = 0 := rfl
    rw [group, hhigh, hnone]
    omega
  obtain ⟨s₀, s₁, -, -⟩ := sextet_fields h₀ (by omega) (by decide) (by decide) hgroup
  rw [text, s₀, s₁]

/-- Of three characters, two bytes. -/
theorem text_of_three {v₀ v₁ v₂ : Nat} {w' : BitVec 32} (h₀ : v₀ < 64) (h₁ : v₁ < 64)
    (h₂ : v₂ < 64) (hw : w.toNat = v₀ * 2 ^ 18 + v₁ * 2 ^ 12)
    (hw' : w'.toNat = v₀ * 2 ^ 18 + v₁ * 2 ^ 12 + v₂ * 2 ^ 6) :
    text [(w >>> 16).setWidth 8, (w' >>> 8 &&& 0xFF#32).setWidth 8]
      = [symbol v₀, symbol v₁, symbol (v₂ / 4 * 4), padding] := by
  have hhigh := toNat_byte_high (w := w) (by omega)
  -- here it is the low two bits of the third character
  have hgroup : group ((w >>> 16).setWidth 8) ((w' >>> 8 &&& 0xFF#32).setWidth 8) 0
      = v₀ * 2 ^ 18 + v₁ * 2 ^ 12 + v₂ / 4 * 4 * 2 ^ 6 + 0 := by
    have hnone : (0 : Byte).toNat = 0 := rfl
    rw [group, hhigh, toNat_byte_middle, hnone]
    omega
  obtain ⟨s₀, s₁, s₂, -⟩ := sextet_fields h₀ h₁ (by omega) (by decide) hgroup
  rw [text, s₀, s₁, s₂]

/-- The text of the last block. -/
theorem text_lastBytes (c : Nat → Byte) (in_len i : Nat) :
    text (lastBytes c in_len i) = standardLast c in_len i := by
  have h₀ := index_lt (c i)
  have h₁ := index_lt (c (i + 1))
  have h₂ := index_lt (c (i + 2))
  have hzero : (0#32).toNat < 64 := by decide
  have hword := toNat_fields h₀ h₁ hzero hzero
  have hword' := toNat_fields h₀ h₁ h₂ hzero
  simp only [BitVec.zero_shiftLeft, BitVec.or_zero, BitVec.toNat_zero, Nat.zero_mul,
    Nat.add_zero] at hword hword'
  unfold lastBytes standardLast
  split
  · exact text_of_three h₀ h₁ h₂ hword hword'
  · exact text_of_two h₀ h₁ hword

theorem text_decodedBytes (c : Nat → Byte) (in_len : Nat) :
    text (decodedBytes c in_len) = canonical c in_len := by
  rw [decodedBytes, text_decoded, canonical]
  congr 1
  split
  · exact text_lastBytes c in_len _
  · rfl

end Encoding

/-! ## Encoding what was decoded

The text that the second call writes ends with a NUL, the first one's input does not. To compare
them cell by cell needs that the canonical text is at least as long as the input and has no NUL of
its own.
-/

/-- A text is canonical exactly if it is the text of a byte string. -/
theorem canonical_eq_iff {cell : Buffer → Nat → Byte} {e : List Byte}
    (he : Spells cell .input 0 e) :
    canonical (cell .input) e.length = e ↔ ∃ d, text d = e := by
  rw [← text_decodedBytes]
  constructor
  · exact fun h => ⟨_, h⟩
  · rintro ⟨d, rfl⟩
    have hstrip : text d = text d ++ List.replicate 0 padding := by
      rw [List.replicate_zero, List.append_nil]
    rw [(decodedBytes_text hstrip he).1]

/-- The number of bytes of the input. -/
def decodedLength (c : Nat → Byte) (in_len : Nat) : Nat :=
  3 * quartets c in_len +
    if padded c in_len then if hasThird c in_len (4 * quartets c in_len) then 2 else 1 else 0

theorem length_decodedBytes_eq (c : Nat → Byte) (in_len : Nat) :
    (decodedBytes c in_len).length = decodedLength c in_len := by
  have hlast : (lastBytes c in_len (4 * quartets c in_len)).length
      = if hasThird c in_len (4 * quartets c in_len) then 2 else 1 := by
    unfold lastBytes
    split <;> rfl
  rw [length_decodedBytes, hlast, decodedLength]

theorem decodedLength_le (c : Nat → Byte) (in_len : Nat) : decodedLength c in_len ≤ in_len := by
  have hle := four_mul_quartets_le c in_len
  unfold decodedLength
  cases hp : padded c in_len with
  | true =>
      have hpos := pos_of_padded c hp
      have hlt : 4 * quartets c in_len < in_len := by
        unfold quartets
        rw [hp, if_pos rfl]
        omega
      -- the last block gives fewer bytes than it has characters
      by_cases hthird : hasThird c in_len (4 * quartets c in_len)
      · have := hthird.1
        rw [if_pos rfl, if_pos hthird]
        omega
      · rw [if_pos rfl, if_neg hthird]
        omega
  | false =>
      rw [if_neg Bool.false_ne_true]
      omega

/-- A quartet of characters, the last one possibly incomplete, gives a quartet of letters. -/
theorem length_canonical (c : Nat → Byte) (in_len : Nat) :
    (canonical c in_len).length = 4 * ((in_len + 3) / 4) := by
  rw [← text_decodedBytes, length_text, length_decodedBytes_eq, decodedLength]
  unfold quartets
  cases hp : padded c in_len with
  | true =>
      have hpos := pos_of_padded c hp
      simp only [if_true]
      split <;> omega
  | false =>
      simp only [Bool.false_eq_true, if_false]
      omega

/-- The letters of the text, and the `=`. -/
def InText (x : Byte) : Prop := x = padding ∨ ∃ v < 64, x = symbol v

instance (x : Byte) : Decidable (InText x) :=
  inferInstanceAs (Decidable (x = padding ∨ ∃ v, v < 64 ∧ x = symbol v))

theorem inText_of_mem_text {d : List Byte} {x : Byte} (hx : x ∈ text d) : InText x := by
  have hletter : ∀ n k, InText (symbol (sextet n k)) :=
    fun n k => Or.inr ⟨sextet n k, sextet_lt n k, rfl⟩
  induction d using text.induct with
  -- a whole group: four letters, then the rest
  | case1 a b c rest ih =>
      simp only [text_cons₃, List.cons_append, List.nil_append, List.mem_cons] at hx
      rcases hx with rfl | rfl | rfl | rfl | hx
      · exact hletter _ 0
      · exact hletter _ 1
      · exact hletter _ 2
      · exact hletter _ 3
      · exact ih hx
  -- a last block of two bytes or of one: letters, then `=`
  | case2 a b =>
      simp only [text, List.mem_cons, List.not_mem_nil, or_false] at hx
      rcases hx with rfl | rfl | rfl | rfl
      · exact hletter _ 0
      · exact hletter _ 1
      · exact hletter _ 2
      · exact Or.inl rfl
  | case3 a =>
      simp only [text, List.mem_cons, List.not_mem_nil, or_false, or_self] at hx
      rcases hx with rfl | rfl | rfl
      · exact hletter _ 0
      · exact hletter _ 1
      · exact Or.inl rfl
  | case4 => exact absurd hx List.not_mem_nil

theorem nul_notMem_text (d : List Byte) : (0 : Byte) ∉ text d :=
  fun h => absurd (inText_of_mem_text h) (by decide +kernel)

/-- The decoder makes the same of both characters. -/
def SameValue (x y : Byte) : Prop := index x = index y ∧ (x = padding ↔ y = padding)

instance (x y : Byte) : Decidable (SameValue x y) := inferInstanceAs (Decidable (_ ∧ _))

/-- The letters of the URL-safe alphabet, and those of the one for mailbox names. -/
example : SameValue 0x2D 0x2B ∧ SameValue 0x5F 0x2F ∧ SameValue 0x2C 0x2F := by decide

section SameValue

variable {c c' : Nat → Byte} {in_len : Nat}

theorem decoded_congr {i q : Nat} (h : ∀ j < i + 4 * q, index (c j) = index (c' j)) :
    decoded c i q = decoded c' i q := by
  induction q generalizing i with
  | zero => rfl
  | succ q ih =>
      have hword : word c i = word c' i := by
        rw [word, word, h i (by omega), h (i + 1) (by omega), h (i + 2) (by omega),
          h (i + 3) (by omega)]
      rw [decoded, decoded, hword, ih fun j hj => h j (by omega)]

theorem padded_congr (h : ∀ i < in_len, SameValue (c i) (c' i)) :
    padded c in_len = padded c' in_len := by
  rcases Nat.eq_zero_or_pos in_len with rfl | hpos
  · rfl
  · have hlast := (h (in_len - 1) (by omega)).2
    have hbeq : (c (in_len - 1) == padding) = (c' (in_len - 1) == padding) := by
      rw [Bool.eq_iff_iff, beq_iff_eq, beq_iff_eq, hlast]
    rw [padded, padded, hbeq]

theorem lastBytes_congr {i : Nat} (hi : i + 1 < in_len)
    (h : ∀ j < in_len, SameValue (c j) (c' j)) : lastBytes c in_len i = lastBytes c' in_len i := by
  -- the third character is skipped only where it is `=`, hence the second half of `SameValue`
  have hthird : hasThird c in_len i ↔ hasThird c' in_len i := by
    unfold hasThird
    apply and_congr_right
    intro hlt
    exact not_congr (h _ hlt).2
  unfold lastBytes
  rw [(h i (by omega)).1, (h (i + 1) hi).1]
  dsimp only
  by_cases ht : hasThird c in_len i
  · rw [if_pos ht, if_pos (hthird.mp ht), (h _ ht.1).1]
  · rw [if_neg ht, if_neg (mt hthird.mpr ht)]

/-- The output depends on the values only, unless the last block has one character. -/
theorem decodedBytes_congr (hin : in_len % 4 ≠ 1) (h : ∀ i < in_len, SameValue (c i) (c' i)) :
    decodedBytes c in_len = decodedBytes c' in_len ∧ quartets c in_len = quartets c' in_len := by
  have hpadded := padded_congr h
  have hquartets : quartets c in_len = quartets c' in_len := by
    rw [quartets, quartets, hpadded]
  refine ⟨?_, hquartets⟩
  have hle := four_mul_quartets_le c in_len
  have hfront : decoded c 0 (quartets c in_len) = decoded c' 0 (quartets c in_len) :=
    decoded_congr fun j hj => (h j (by omega)).1
  have hlast : (if padded c in_len then lastBytes c in_len (4 * quartets c in_len) else [])
      = if padded c in_len then lastBytes c' in_len (4 * quartets c in_len) else [] := by
    cases hp : padded c in_len with
    | false => rw [if_neg Bool.false_ne_true, if_neg Bool.false_ne_true]
    | true =>
        have hpos := pos_of_padded c hp
        -- the second character of the last block is one of the input
        have hsecond : 4 * quartets c in_len + 1 < in_len := by
          unfold quartets
          rw [hp, if_pos rfl]
          omega
        rw [if_pos rfl, if_pos rfl, lastBytes_congr hsecond h]
  rw [decodedBytes, decodedBytes, ← hquartets, ← hpadded, hfront, hlast]

end SameValue

/-- Taking `=` off a text never leaves a block of one character. -/
theorem length_mod_of_strip {d e : List Byte} {k : Nat}
    (he : text d = e ++ List.replicate k padding) : e.length % 4 ≠ 1 := by
  obtain ⟨g, r, rfl, hg, hr⟩ := exists_groups d
  have hlen := length_text g
  rw [text_append g r hg] at he
  match r, hr with
  | [], _ =>
    rw [text, List.append_nil] at he
    have hk : k = 0 := by
      by_contra hne
      apply padding_notMem_text g hg
      rw [he]
      exact List.mem_append_right _ (List.mem_replicate.mpr ⟨hne, rfl⟩)
    rw [hk, List.replicate_zero, List.append_nil] at he
    rw [← he]
    omega
  -- one byte: `k` is at most two, the two letters of the block stay
  | [x], _ =>
    have he' : text g ++ [symbol (sextet (group x 0 0) 0)] ++ [symbol (sextet (group x 0 0) 1)]
        ++ List.replicate 2 padding = e ++ List.replicate k padding := by
      rw [← he]
      simp [text]
    obtain ⟨j, hj, rfl⟩ := strip_padding (symbol_ne_padding _ (sextet_lt _ _)) he'
    simp only [List.length_append, List.length_singleton, List.length_replicate]
    omega
  -- two bytes: three letters and one `=`
  | [x, y], _ =>
    have he' : text g ++ [symbol (sextet (group x y 0) 0), symbol (sextet (group x y 0) 1)]
        ++ [symbol (sextet (group x y 0) 2)] ++ List.replicate 1 padding
        = e ++ List.replicate k padding := by
      rw [← he]
      simp [text]
    obtain ⟨j, hj, rfl⟩ := strip_padding (symbol_ne_padding _ (sextet_lt _ _)) he'
    simp only [List.length_append, List.length_cons, List.length_nil, List.length_replicate]
    omega

/-- **Other alphabets.** A text with other characters of the same values, with any number of its
trailing `=` removed, is accepted and decoded as the text is. -/
theorem decode_any_alphabet (p : Platform) (d e e' : List Byte) (k max_out_len : Nat)
    (m : Memory Buffer Byte) (he : text d = e ++ List.replicate k padding)
    (hsame : List.Forall₂ SameValue e' e) (hrange : e'.length < p.sizeRange)
    (hinput : Spells m.cell .input 0 e') :
    ((decode p e'.length max_out_len m).1 = 0 ↔ 3 ≤ d.length ∧ d.length ≤ max_out_len) ∧
      ((decode p e'.length max_out_len m).1 = 0 →
        Spells (decode p e'.length max_out_len m).2.cell .output 0 d ∧
          ∀ i, d.length ≤ i →
            (decode p e'.length max_out_len m).2.cell .output i = m.cell .output i) := by
  have hlen := hsame.length_eq
  -- the same text in the standard alphabet
  let m' : Memory Buffer Byte := ⟨splice m.cell .input 0 e, [], []⟩
  have hspells : Spells m'.cell .input 0 e := spells_splice m.cell .input 0 e
  obtain ⟨hbytes, hquartets⟩ := decodedBytes_text he hspells
  have hvalues : ∀ i < e'.length, SameValue (m.cell .input i) (m'.cell .input i) := by
    intro i hi
    have h' := hinput i hi
    have h := hspells i (by omega)
    rw [Nat.zero_add] at h h'
    rw [h, h']
    exact hsame.get hi (by omega)
  have hmod : e'.length % 4 ≠ 1 := by
    rw [hlen]
    exact length_mod_of_strip he
  obtain ⟨hdecoded, hquart⟩ := decodedBytes_congr hmod hvalues
  rw [hlen] at hdecoded hquart
  rw [hbytes] at hdecoded
  rw [hquartets] at hquart
  obtain ⟨hiff, hdone⟩ := wp_decode p max_out_len m hrange
  rw [hlen] at hiff hdone ⊢
  rw [hdecoded, hquart] at hiff
  rw [hdecoded] at hdone
  refine ⟨?_, ?_⟩
  · rw [hiff]
    have hthree : d.length / 3 ≠ 0 ↔ 3 ≤ d.length := by omega
    rw [hthree]
  · intro hstatus
    rw [hdone hstatus]
    refine ⟨spells_splice _ _ _ _, fun i hi => splice_of_ge ?_⟩
    rwa [Nat.zero_add]

/-- `SGX_` in the URL-safe alphabet, for `SGX/`. -/
theorem decode_any_alphabet_url :
    (decode .size32 4 3 (holding .input [0x53, 0x47, 0x58, 0x5F] 0)).1 = 0 :=
  (decode_any_alphabet .size32 [0x48, 0x65, 0xFF] [0x53, 0x47, 0x58, 0x2F]
    [0x53, 0x47, 0x58, 0x5F] 0 3 (holding .input [0x53, 0x47, 0x58, 0x5F] 0) (by decide)
    (.cons (by decide) (.cons (by decide) (.cons (by decide) (.cons (by decide) .nil))))
    (by decide) (spells_holding _ _ _)).1.mpr (by decide)

end Base64
end IMUtility
