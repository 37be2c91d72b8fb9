import IMUtility.Base64.Decoded

/-! # `base64.c` computes the text, and decodes it

The run lemmas say what each function leaves in the output buffer: `text` and a NUL for the encoder
(`wp_encode`), `decodedBytes` for the decoder (`wp_decode`). The loops are inductions on the bytes
left to encode and on the quartets left to decode. -/

namespace IMUtility
namespace Base64

open Memory

/-- The input is not written. -/
@[simp] theorem splice_input (cell : Buffer → Nat → Byte) (off : Nat) (xs : List Byte) :
    splice cell .output off xs .input = cell .input := by
  funext i
  exact splice_of_ne (by decide)

theorem spells_input {cell : Buffer → Nat → Byte} {off i : Nat} {xs ys : List Byte}
    (h : Spells cell .input i ys) : Spells (splice cell .output off xs) .input i ys := by
  intro j hj
  rw [splice_input]
  exact h j hj

/-! ## The encoder

The loop runs over whole groups and is followed by the one incomplete group, if any, and the NUL:
`exists_groups` cuts the input there. The length check in front needs `size_t` arithmetic, the
rest stays below the length of the text, so that the additions to `current_length` cannot wrap
once the check is passed.
-/

/-- **The encoder's loop** writes the complete groups `g`, if they fit. By induction on them. -/
theorem wp_encodeLoop (p : Platform)
    {data_length max_result_length current_length in_position pos : Nat} {g : List Byte}
    {m : Memory Buffer Byte} (hdata : Spells m.cell .input in_position g) (hg : g.length % 3 = 0)
    (hend : in_position + g.length ≤ data_length) (hleft : data_length < in_position + g.length + 3)
    (hwrap : current_length + (text g).length < p.sizeRange)
    (hcur : current_length ≤ max_result_length) :
    wp (encodeLoop p data_length max_result_length current_length in_position pos)
      (fun r m' =>
        (r.1 = 0 ↔ current_length + (text g).length ≤ max_result_length) ∧
        (r.1 = 0 → r = (0, current_length + (text g).length, in_position + g.length,
            pos + (text g).length) ∧
          m'.cell = splice m.cell .output pos (text g))) m := by
  induction g using text.induct generalizing current_length in_position pos m with
  | case1 a b c g ih =>
      simp only [List.length_cons] at hg hend hleft
      have htext : (text (a :: b :: c :: g)).length = (text g).length + 4 := by
        rw [text_cons₃, List.length_append, Nat.add_comm]
        rfl
      rw [htext] at hwrap ⊢
      simp only [spells_cons] at hdata
      obtain ⟨ha, hb, hc, hrest⟩ := hdata
      have hadd : p.sizeT ((current_length : Int) + 4) = current_length + 4 :=
        p.sizeT_of_lt (by omega) (by omega)
      rw [encodeLoop, if_pos (by omega)]
      simp only [hadd, wp_ite]
      split
      case isTrue hbig =>
        -- `break` with the failure status: not even this group fits
        rw [wp_pure]
        refine ⟨⟨fun h => absurd h one_ne_zero, fun h => ?_⟩, fun h => absurd h one_ne_zero⟩
        omega
      case isFalse hfits =>
        simp only [wp_bind, wp_load, wp_store, splice_input, ha, hb, hc, splice_four]
        rw [letter_first a b c, letter_second a b c, letter_third a b c, letter_fourth a b c]
        refine wp_mono (ih (spells_input hrest) (by omega) (by omega) (by omega) (by omega)
          (by omega)) ?_
        rintro r m' ⟨hiff, hdone⟩
        refine ⟨hiff.trans (by omega), fun h => ?_⟩
        obtain ⟨hr, hcell⟩ := hdone h
        refine ⟨?_, ?_⟩
        · rw [hr]
          simp only [Prod.mk.injEq, true_and, List.length_cons]
          omega
        · rw [hcell, text_cons₃, ← splice_splice]
          rfl
  | case2 a b => simp at hg
  | case3 a => simp at hg
  -- nothing left: fewer than three bytes of the call, so the loop ends
  | case4 =>
      simp only [List.length_nil] at hend hleft
      rw [encodeLoop, if_neg (by omega), wp_pure]
      simp [text, hcur]

/-- **The encoder's tail** writes the incomplete group. -/
theorem wp_encodeTail {data_length in_position pos : Nat} {rest : List Byte}
    {m : Memory Buffer Byte} (hdata : Spells m.cell .input in_position rest)
    (hlen : in_position + rest.length = data_length) (hpos : 0 < rest.length)
    (hlt : rest.length < 3) :
    wp (encodeTail data_length in_position pos)
      (fun r m' => r = pos + 4 ∧ m'.cell = splice m.cell .output pos (text rest)) m := by
  match rest, hpos, hlt with
  | [a], _, _ =>
    simp only [spells_cons] at hdata
    rw [List.length_singleton] at hlen
    have hone : data_length - in_position = 1 := by omega
    simp only [encodeTail, wp_bind, wp_load, wp_store, wp_pure, hone, if_true, splice_input,
      hdata.1, splice_four]
    rw [letter_first a 0 0, letter_second_tail a]
    exact ⟨trivial, rfl⟩
  | [a, b], _, _ =>
    simp only [spells_cons] at hdata
    simp only [List.length_cons, List.length_nil] at hlen
    have htwo : ¬ data_length - in_position = 1 := by omega
    simp only [encodeTail, wp_bind, wp_load, wp_store, wp_pure, htwo, if_false,
      splice_input, hdata.1, hdata.2.1, splice_four]
    rw [letter_first a b 0, letter_second a b 0, letter_third_tail a b]
    exact ⟨trivial, rfl⟩

/-- The length check refuses what would wrap around, and nothing else. -/
theorem encode_len (p : Platform) {n : Nat} (hn : n < p.sizeRange) :
    p.sizeT (4 * (p.sizeT ((n : Int) + 2) / 3 : Nat)) < n ↔ p.sizeRange ≤ 4 * ((n + 2) / 3) := by
  have hrange := p.sizeRange_eq
  -- the sum wraps around only for the two greatest lengths, and then to less than 2
  by_cases hadd : n + 2 < p.sizeRange
  · have hsum : p.sizeT ((n : Int) + 2) = n + 2 := p.sizeT_of_lt (by omega) hadd
    rw [hsum]
    -- the product is less than twice the range, so it wraps around once at most
    by_cases hmul : 4 * ((n + 2) / 3) < p.sizeRange
    · rw [p.sizeT_of_lt (n := 4 * ((n + 2) / 3)) (by omega) hmul]
      omega
    · rw [p.sizeT_eq (n := 4 * ((n + 2) / 3) - p.sizeRange) 1 (by omega) (by omega)]
      omega
  · have hsum : p.sizeT ((n : Int) + 2) = n + 2 - p.sizeRange :=
      p.sizeT_eq 1 (by omega) (by omega)
    rw [hsum, p.sizeT_of_lt (n := 0) (by omega) (by omega)]
    omega

/-- **`Base64_encode`**: it succeeds exactly if the text fits, which it then writes with a NUL. -/
theorem wp_encode (p : Platform) {max_result_length : Nat} {d : List Byte} {m : Memory Buffer Byte}
    (hdata : Spells m.cell .input 0 d) (hd : d.length < p.sizeRange)
    (hmax : max_result_length < p.sizeRange) :
    wp (encode p d.length max_result_length)
      (fun status m' => (status = 0 ↔ (text d).length ≤ max_result_length) ∧
        (status = 0 → m'.cell = splice m.cell .output 0 (text d ++ [0]))) m := by
  obtain ⟨g, r, rfl, hg, hr⟩ := exists_groups d
  have hlen := length_text (g ++ r)
  have hlenGroups := length_text g
  have hlenRest := length_text r
  have htext := text_append g r hg
  have hcheck := encode_len p hd
  rw [spells_append, Nat.zero_add] at hdata
  obtain ⟨hgroups, hrest⟩ := hdata
  simp only [List.length_append] at hlen hcheck hd ⊢
  rw [encode]
  simp only [wp_ite]
  split
  -- refused by the length check: the text is longer than any buffer
  case isTrue hbig =>
    have hwrap := hcheck.mp hbig
    rw [wp_pure]
    refine ⟨⟨fun h => absurd h one_ne_zero, fun h => ?_⟩, fun h => absurd h one_ne_zero⟩
    omega
  case isFalse hsmall =>
    have hwrap : 4 * ((g.length + r.length + 2) / 3) < p.sizeRange :=
      Nat.lt_of_not_le fun h => hsmall (hcheck.mpr h)
    rw [wp_bind]
    apply wp_mono (wp_encodeLoop p hgroups hg (by omega) (by omega) (by omega) (Nat.zero_le _))
    rintro ⟨success, current_length, in_position, pos⟩ m' ⟨hiff, hdone⟩
    simp only [Nat.zero_add, Prod.mk.injEq] at hiff hdone
    dsimp only
    by_cases hsuccess : success = 0
    case neg =>
      -- the loop was left early, and the tail is skipped
      rw [wp_ite, if_neg fun h => hsuccess h.1, wp_bind, wp_store, wp_pure]
      refine ⟨⟨fun h => absurd h hsuccess, fun h => ?_⟩, fun h => absurd h hsuccess⟩
      exact absurd (hiff.mpr (by omega)) hsuccess
    case pos =>
      obtain ⟨⟨-, hcur, hin, hpos⟩, hcell⟩ := hdone hsuccess
      subst hcur hin hpos
      have hfits := hiff.mp hsuccess
      rw [wp_ite]
      split
      case isFalse hnone =>
        -- no byte is left: the NUL follows the groups
        have hnil : r = [] := List.length_eq_zero_iff.mp (by omega)
        rw [wp_bind, wp_store, wp_pure]
        refine ⟨⟨fun _ => by omega, fun _ => hsuccess⟩, fun _ => ?_⟩
        have hcells := splice_splice m.cell .output 0 (text g) [0]
        rw [Nat.zero_add] at hcells
        rw [hcell, hcells, hnil, List.append_nil]
      case isTrue hsome =>
        have hadd : p.sizeT ((text g).length + 4) = (text g).length + 4 :=
          p.sizeT_of_lt (by omega) (by omega)
        simp only [hadd, wp_ite]
        split
        -- the incomplete group does not fit
        case isTrue hbig =>
          rw [wp_bind, wp_store, wp_pure]
          refine ⟨⟨fun h => absurd h one_ne_zero, fun h => ?_⟩, fun h => absurd h one_ne_zero⟩
          omega
        case isFalse hfits' =>
          -- the tail, and the NUL behind it
          have hrest' : Spells m'.cell .input g.length r := by
            rw [hcell]
            exact spells_input hrest
          rw [wp_bind]
          apply wp_mono (wp_encodeTail hrest' rfl (by omega) (by omega))
          rintro _ m'' ⟨rfl, hcell'⟩
          rw [wp_bind, wp_store, wp_pure]
          refine ⟨⟨fun _ => by omega, fun _ => rfl⟩, fun _ => ?_⟩
          have hend : (text g).length + 4 = 0 + (text g ++ text r).length := by
            rw [List.length_append]
            omega
          have hcells := splice_splice m.cell .output 0 (text g) (text r)
          rw [Nat.zero_add] at hcells
          rw [hcell', hcell, hcells, hend, splice_splice, htext]

/-- **`Base64_encode` produces the text**: it returns 0 exactly if four characters for every three
bytes, the last ones rounded up, are at most the capacity given; and then these are the text, with
a NUL behind it. -/
theorem encode_writes_text (p : Platform) (d : List Byte) (max_result_length : Nat)
    (m : Memory Buffer Byte) (hdata : Spells m.cell .input 0 d) (hd : d.length < p.sizeRange)
    (hmax : max_result_length < p.sizeRange) :
    ((encode p d.length max_result_length m).1 = 0
        ↔ 4 * ((d.length + 2) / 3) ≤ max_result_length) ∧
      ((encode p d.length max_result_length m).1 = 0 →
        (text d).length = 4 * ((d.length + 2) / 3) ∧
        Spells (encode p d.length max_result_length m).2.cell .output 0 (text d ++ [0])) := by
  obtain ⟨hiff, hdone⟩ := wp_encode p hdata hd hmax
  have hlen := length_text d
  refine ⟨?_, ?_⟩
  · rw [← hlen]
    exact hiff
  · intro hstatus
    refine ⟨hlen, ?_⟩
    rw [hdone hstatus]
    exact spells_splice m.cell .output 0 _

/-- `jc`, with a capacity of four. -/
theorem encode_writes_text_two :
    (encode .size64 2 4 (holding .input [0x6A, 0x63] 0)).1 = 0 ∧
      Spells (encode .size64 2 4 (holding .input [0x6A, 0x63] 0)).2.cell .output 0
        (text [0x6A, 0x63] ++ [0]) := by
  have h := encode_writes_text .size64 [0x6A, 0x63] 4 (holding .input [0x6A, 0x63] 0)
    (spells_holding _ _ _) (by decide) (by decide)
  have hstatus := h.1.mpr (by decide)
  exact ⟨hstatus, (h.2 hstatus).2⟩

/-! ## The decoder

It decodes the quartets in front of the last block, then the last block if it is padded or short.
How many there are is computed with wrapping sums; `decode_lengths` replaces them by `quartets`
once and for all.
-/

section Decoder

variable {m : Memory Buffer Byte}

/-- **The decoder's loop.** By induction on the quartets left. -/
theorem wp_decodeLoop {len i j q : Nat} (hlen : len = i + 4 * q) :
    wp (decodeLoop len i j)
      (fun _ m' => m'.cell = splice m.cell .output j (decoded (m.cell .input) i q)) m := by
  induction q generalizing i j m with
  | zero =>
      rw [decodeLoop, if_neg (by omega), wp_pure, decoded, splice_nil]
  | succ q ih =>
      rw [decodeLoop, if_pos (by omega)]
      simp only [wp_bind, wp_load, wp_store, splice_three]
      apply wp_mono (ih (by omega))
      intro _ m' hcell
      dsimp only at hcell
      rw [hcell, splice_input, decoded, ← splice_splice]
      rfl

theorem wp_padBool (in_len : Nat) :
    wp (padBool in_len) (fun r m' => r = padded (m.cell .input) in_len ∧ m'.cell = m.cell ∧
      m'.stores = m.stores ∧ (Below .input in_len m'.loads ↔ Below .input in_len m.loads)) m := by
  rw [padBool, wp_ite]
  split
  case isTrue hpos =>
    rw [wp_ite]
    split
    case isTrue hmod =>
      rw [wp_pure]
      exact ⟨by simp [padded, hpos, hmod], rfl, rfl, Iff.rfl⟩
    case isFalse hmod =>
      -- a text of whole quartets is padded if its last character says so
      rw [wp_bind, wp_load, wp_pure]
      refine ⟨?_, rfl, rfl, ?_⟩
      · simp only [padded, hpos, hmod]
        simp
      · rw [below_cons_self]
        apply and_iff_right
        exact Nat.sub_one_lt_of_lt hpos
  case isFalse hzero =>
    rw [wp_pure]
    exact ⟨by simp [padded, hzero], rfl, rfl, Iff.rfl⟩

/-- **The decoder's tail** writes the last block, if it fits. -/
theorem wp_decodeTail {in_len max_out_len len out_len : Nat} (hpos : 0 < out_len)
    (hfits : out_len ≤ max_out_len) :
    wp (decodeTail in_len max_out_len len out_len)
      (fun status m' =>
        (status = 0 ↔
          out_len - 1 + (lastBytes (m.cell .input) in_len len).length ≤ max_out_len) ∧
        (status = 0 → m'.cell
          = splice m.cell .output (out_len - 1) (lastBytes (m.cell .input) in_len len))) m := by
  simp only [decodeTail, wp_bind, wp_load, wp_store, wp_pure, splice_input, wp_ite]
  by_cases hlen : len + 2 < in_len
  · rw [if_pos hlen]
    -- the third character is there: either `=`, or one more byte to write
    by_cases hne : m.cell .input (len + 2) = padding
    · have hthird : ¬ hasThird (m.cell .input) in_len len := fun h => h.2 hne
      rw [if_neg fun h => h hne, lastBytes, if_neg hthird, List.length_singleton]
      exact ⟨⟨fun _ => by omega, fun _ => trivial⟩, fun _ => rfl⟩
    · have hthird : hasThird (m.cell .input) in_len len := ⟨hlen, hne⟩
      rw [if_pos hne, lastBytes, if_pos hthird]
      simp only [List.length_cons, List.length_nil]
      split
      case isTrue hbig =>
        refine ⟨⟨fun h => absurd h one_ne_zero, fun h => ?_⟩, fun h => absurd h one_ne_zero⟩
        omega
      case isFalse hroom =>
        refine ⟨⟨fun _ => by omega, fun _ => trivial⟩, fun _ => ?_⟩
        obtain ⟨k, rfl⟩ : ∃ k, out_len = k + 1 := ⟨out_len - 1, by omega⟩
        exact splice_two ..
  · have hthird : ¬ hasThird (m.cell .input) in_len len := fun h => hlen h.1
    rw [if_neg hlen, lastBytes, if_neg hthird, List.length_singleton]
    exact ⟨⟨fun _ => by omega, fun _ => trivial⟩, fun _ => rfl⟩

/-- The lengths the decoder computes. Where adding 3 wraps around, a quartet is incomplete, and
taking it off wraps back. -/
theorem decode_lengths (p : Platform) (c : Nat → Byte) {in_len : Nat} (hin : in_len < p.sizeRange) :
    p.sizeT (p.sizeT ((p.sizeT ((in_len : Int) + 3) / 4 : Nat)
        - ((if padded c in_len then 1 else 0 : Nat) : Int)) * 4) = 4 * quartets c in_len ∧
      p.sizeT ((4 * quartets c in_len : Nat) / 4 * 3 + ((if padded c in_len then 1 else 0 : Nat) : Int))
        = 3 * quartets c in_len + if padded c in_len then 1 else 0 := by
  have hrange := p.sizeRange_eq
  have hquartets : quartets c in_len = (in_len + 3) / 4 - if padded c in_len then 1 else 0 := rfl
  have hone : (if padded c in_len then 1 else 0) ≤ 1 := by split <;> omega
  have hsome : (if padded c in_len then 1 else 0) ≤ (in_len + 3) / 4 := by
    split
    case isTrue h =>
      have hpos := pos_of_padded c h
      omega
    case isFalse => exact Nat.zero_le _
  have hmod : in_len % 4 ≠ 0 → 1 ≤ if padded c in_len then 1 else 0 := by
    intro h
    rw [if_pos (padded_of_incomplete c h)]
  generalize (if padded c in_len then 1 else 0) = pad at *
  rw [hquartets]
  refine ⟨?_, p.sizeT_of_lt (by omega) (by omega)⟩
  -- the three greatest lengths wrap to 0; they are not multiples of 4, so one block is taken off
  by_cases hadd : in_len + 3 < p.sizeRange
  · have hsum : p.sizeT ((in_len : Int) + 3) = in_len + 3 := p.sizeT_of_lt (by omega) hadd
    have hsub : p.sizeT (((in_len + 3) / 4 : Nat) - (pad : Int)) = (in_len + 3) / 4 - pad :=
      p.sizeT_of_lt (by omega) (by omega)
    rw [hsum, hsub]
    exact p.sizeT_of_lt (by omega) (by omega)
  · have hsum : p.sizeT ((in_len : Int) + 3) = in_len + 3 - p.sizeRange :=
      p.sizeT_eq 1 (by omega) (by omega)
    have hpad : pad = 1 := by
      have hres := hmod (by omega)
      omega
    have hsub : p.sizeT (((in_len + 3 - p.sizeRange) / 4 : Nat) - (pad : Int)) = p.sizeRange - 1 :=
      p.sizeT_eq (-1) (by omega) (by omega)
    rw [hsum, hsub]
    exact p.sizeT_eq 3 (by omega) (by omega)

theorem length_lastBytes_pos (c : Nat → Byte) (in_len i : Nat) :
    0 < (lastBytes c in_len i).length := by
  rw [lastBytes]
  exact Nat.succ_pos _

theorem length_decodedBytes (c : Nat → Byte) (in_len : Nat) :
    (decodedBytes c in_len).length = 3 * quartets c in_len
      + if padded c in_len then (lastBytes c in_len (4 * quartets c in_len)).length else 0 := by
  rw [decodedBytes, List.length_append, length_decoded]
  split <;> rfl

/-- **`Base64_decode`**, on any input: it succeeds exactly if there is a quartet before the last
block and the output fits, which it then writes. -/
theorem wp_decode (p : Platform) {in_len : Nat} (max_out_len : Nat) (m : Memory Buffer Byte)
    (hin : in_len < p.sizeRange) :
    wp (decode p in_len max_out_len)
      (fun status m' =>
        (status = 0 ↔ quartets (m.cell .input) in_len ≠ 0 ∧
          (decodedBytes (m.cell .input) in_len).length ≤ max_out_len) ∧
        (status = 0 → m'.cell
          = splice m.cell .output 0 (decodedBytes (m.cell .input) in_len))) m := by
  rw [decode, wp_bind]
  apply wp_mono (wp_padBool in_len)
  rintro pad_bool m₁ ⟨rfl, hcell₁, -⟩
  rw [← hcell₁]
  obtain ⟨hlen, hout⟩ := decode_lengths p (m₁.cell .input) hin
  simp only [hlen, hout]
  have hbytes := length_decodedBytes (m₁.cell .input) in_len
  by_cases hzero : quartets (m₁.cell .input) in_len = 0
  · simp [hzero]
  have hnonzero : ¬ 4 * quartets (m₁.cell .input) in_len = 0 := by omega
  rw [if_neg hnonzero, wp_ite]
  by_cases hfits : 3 * quartets (m₁.cell .input) in_len
      + (if padded (m₁.cell .input) in_len then 1 else 0) ≤ max_out_len
  case neg =>
    -- refused before anything is written: the last block has at least one byte
    have hleast : 3 * quartets (m₁.cell .input) in_len
        + (if padded (m₁.cell .input) in_len then 1 else 0)
          ≤ (decodedBytes (m₁.cell .input) in_len).length := by
      have hlast := length_lastBytes_pos (m₁.cell .input) in_len
        (4 * quartets (m₁.cell .input) in_len)
      rw [hbytes]
      split <;> omega
    rw [if_pos (Nat.lt_of_not_le hfits), if_neg one_ne_zero, wp_pure]
    refine ⟨⟨fun h => absurd h one_ne_zero, fun h => ?_⟩, fun h => absurd h one_ne_zero⟩
    exact absurd (hleast.trans h.2) hfits
  case pos =>
    rw [if_neg (Nat.not_lt.mpr hfits), if_pos rfl, wp_bind]
    apply wp_mono (wp_decodeLoop (q := quartets (m₁.cell .input) in_len) (by omega))
    intro _ m₂ hcell₂
    cases hp : padded (m₁.cell .input) in_len with
    | false =>
        simp only [hp, Bool.false_eq_true, if_false, Nat.add_zero] at hbytes hfits ⊢
        rw [wp_pure]
        refine ⟨⟨fun _ => ⟨hzero, by omega⟩, fun _ => rfl⟩, fun _ => ?_⟩
        rw [hcell₂, decodedBytes, hp, if_neg Bool.false_ne_true, List.append_nil]
    -- the tail reads the same input, and writes behind the quartets
    | true =>
        simp only [hp, if_true] at hbytes hfits ⊢
        have hinput : m₂.cell .input = m₁.cell .input := by rw [hcell₂, splice_input]
        apply wp_mono (wp_decodeTail (Nat.succ_pos _) hfits)
        rw [hinput]
        rintro status m₃ ⟨hiff, hdone⟩
        refine ⟨hiff.trans ⟨fun h => ⟨hzero, by omega⟩, fun h => by omega⟩, fun h => ?_⟩
        have hlen₂ := length_decoded (m₁.cell .input) 0 (quartets (m₁.cell .input) in_len)
        rw [hdone h, hcell₂, decodedBytes, hp, if_pos rfl, ← splice_splice, hlen₂, Nat.zero_add]
        rfl

end Decoder

end Base64
end IMUtility
