import IMUtility.Base64.Correctness

/-! # Which cells `base64.c` touches

The encoder's stores and the decoder's loads depend on the lengths alone, up to the last character
of the decoder's input. Each run lemma says by how much a log stays below the bound that the
caller gave. The decoder's stores fill the start of its output, as far as it gets. -/

namespace IMUtility
namespace Base64

open Memory

/-! ## The encoder's stores

Whether the log stays below a bound is not monotone in the run: each lemma says it as an
equivalence, the log after against the log before, so that the lemmas compose by rewriting and the
last one is exact. The number of groups the loop writes is the only thing a caller needs to know
of it.
-/

section Stores

variable {p : Platform} {data_length max_result_length current_length in_position pos n : Nat}
  {m : Memory Buffer Byte}

/-- The loop writes `k` groups: all there are, or as many as fit. By induction on the groups. -/
theorem wp_encodeLoop_stores {groups : Nat} (hgroups : groups = (data_length - in_position) / 3)
    (hwrap : current_length + 4 * groups < p.sizeRange)
    (hcur : current_length ≤ max_result_length) :
    wp (encodeLoop p data_length max_result_length current_length in_position pos)
      (fun r m' => ∃ k, r.2.2.1 = in_position + 3 * k ∧ r.2.2.2 = pos + 4 * k ∧
        current_length + 4 * k ≤ max_result_length ∧
        (k = groups ∧ r.1 = 0 ∧ r.2.1 = current_length + 4 * k ∨
          k < groups ∧ r.1 = 1 ∧ max_result_length < current_length + 4 * k + 4) ∧
        (Below .output n m'.stores ↔ Below .output n m.stores ∧ (k = 0 ∨ pos + 4 * k ≤ n))) m := by
  induction groups generalizing current_length in_position pos m with
  -- no group left: the loop body is not entered
  | zero =>
      rw [encodeLoop, if_neg (by omega), wp_pure]
      exact ⟨0, rfl, rfl, hcur, Or.inl ⟨rfl, rfl, rfl⟩, by simp⟩
  | succ groups ih =>
      have hadd : p.sizeT ((current_length : Int) + 4) = current_length + 4 :=
        p.sizeT_of_lt (by omega) (by omega)
      rw [encodeLoop, if_pos (by omega)]
      simp only [hadd, wp_ite]
      split
      case isTrue hbig =>
        rw [wp_pure]
        exact ⟨0, rfl, rfl, hcur, Or.inr ⟨Nat.succ_pos groups, rfl, hbig⟩, by simp⟩
      -- a group that fits: four stores at `pos`, and the rest of the loop from `pos + 4`
      case isFalse hfits =>
        simp only [wp_bind, wp_load, wp_store]
        apply wp_mono (ih (by omega) (by omega) (by omega))
        rintro r m' ⟨k, hin, hpos, hle, hend, hbelow⟩
        refine ⟨k + 1, by omega, by omega, by omega, by omega, hbelow.trans ?_⟩
        simp only [below_cons_self]
        grind

/-- The tail writes four characters. -/
theorem wp_encodeTail_stores :
    wp (encodeTail data_length in_position pos)
      (fun r m' => r = pos + 4 ∧
        (Below .output n m'.stores ↔ Below .output n m.stores ∧ pos + 4 ≤ n)) m := by
  simp only [encodeTail, wp_bind, wp_load, wp_store, wp_ite, wp_pure]
  split
  all_goals
    refine ⟨trivial, ?_⟩
    simp only [below_cons_self]
    grind

/-- **Where the encoder stores.** Unless the length of the text wraps around, the NUL goes behind
the last group that fits, and everything else in front of it. -/
theorem wp_encode_stores (hdata : data_length < p.sizeRange) :
    wp (encode p data_length max_result_length)
      (fun _ m' => Below .output n m'.stores ↔ Below .output n m.stores ∧
        (p.sizeRange ≤ 4 * ((data_length + 2) / 3) ∨
          min (4 * ((data_length + 2) / 3)) (4 * (max_result_length / 4)) < n)) m := by
  have hcheck := encode_len p hdata
  rw [encode]
  simp only [wp_ite]
  split
  case isTrue hbig =>
    have hwrap := hcheck.mp hbig
    rw [wp_pure]
    simp [hwrap]
  case isFalse hsmall =>
    have hwrap : ¬ p.sizeRange ≤ 4 * ((data_length + 2) / 3) := fun h => hsmall (hcheck.mpr h)
    rw [wp_bind]
    apply wp_mono (wp_encodeLoop_stores (n := n) rfl (by omega) (Nat.zero_le _))
    rintro ⟨success, current_length, in_position, pos⟩ m' ⟨k, hin, hpos, hle, hend, hbelow⟩
    dsimp only at hin hpos hend ⊢
    rw [wp_ite]
    split
    case isFalse hnone =>
      -- the loop left nothing, or it was left early
      rw [wp_bind, wp_store, wp_pure]
      simp only [below_cons_self, hbelow]
      grind
    -- one or two bytes are left and the loop was not left early
    case isTrue hsome =>
      have hadd : p.sizeT ((current_length : Int) + 4) = current_length + 4 :=
        p.sizeT_of_lt (by omega) (by omega)
      simp only [hadd, wp_ite]
      split
      case isTrue hbig =>
        rw [wp_bind, wp_store, wp_pure]
        simp only [below_cons_self, hbelow]
        grind
      case isFalse hfits =>
        rw [wp_bind]
        apply wp_mono (wp_encodeTail_stores (n := n))
        rintro _ m'' ⟨rfl, hbelow'⟩
        rw [wp_bind, wp_store, wp_pure]
        simp only [below_cons_self, hbelow', hbelow]
        grind

end Stores

/-- **When `Base64_encode` stays inside its result buffer**: the NUL has no place of its own, so
the text must be shorter than the buffer, or the buffer not a number of whole groups; a text
whose length wraps around is refused at once. The bytes encoded do not matter. -/
theorem encode_stores_below_iff (p : Platform) (data_length max_result_length : Nat)
    (hdata : data_length < p.sizeRange) (cell : Buffer → Nat → Byte) :
    Below .output max_result_length (encode p data_length max_result_length ⟨cell, [], []⟩).2.stores
      ↔ p.sizeRange ≤ 4 * ((data_length + 2) / 3) ∨
        4 * ((data_length + 2) / 3) < max_result_length ∨ max_result_length % 4 ≠ 0 := by
  have hstores : Below .output max_result_length
      (encode p data_length max_result_length ⟨cell, [], []⟩).2.stores ↔ _ :=
    wp_encode_stores hdata
  rw [hstores]
  simp only [below_nil, true_and]
  omega

/-- `Hehe` with room for its eight characters and the NUL, and with room for seven characters. -/
theorem encode_stores_below_nine :
    Below .output 9 (encode .size32 4 9 ⟨fun _ _ => 0, [], []⟩).2.stores ∧
      Below .output 7 (encode .size32 4 7 ⟨fun _ _ => 0, [], []⟩).2.stores :=
  ⟨(encode_stores_below_iff .size32 4 9 (by decide) _).mpr (by decide),
   (encode_stores_below_iff .size32 4 7 (by decide) _).mpr (by decide)⟩

/-- `Hehe` with room for four characters: the call fails, with its NUL behind the buffer. -/
theorem encode_stores_past_four :
    (encode .size32 4 4 (holding .input [0x48, 0x65, 0x68, 0x65] 0)).1 = 1 ∧
      ¬ Below .output 4 (encode .size32 4 4 (holding .input [0x48, 0x65, 0x68, 0x65] 0)).2.stores := by
  decide +kernel

/-! ## The decoder's loads

The quartets in front of the last block are inside the input by `four_mul_quartets_le`. What is
left is the tail, which loads `in[len + 1]` without a look at the length: the input's length
decides whether that cell is there, its content does not.
-/

section Loads

variable {in_len len : Nat} {m : Memory Buffer Byte}

/-- The loop loads what is in front of `len`. By induction on the quartets left. -/
theorem wp_decodeLoop_loads {i j q : Nat} (hlen : len = i + 4 * q) (hin : len ≤ in_len) :
    wp (decodeLoop len i j)
      (fun _ m' => Below .input in_len m'.loads ↔ Below .input in_len m.loads) m := by
  induction q generalizing i j m with
  | zero =>
      rw [decodeLoop, if_neg (by omega), wp_pure]
  | succ q ih =>
      rw [decodeLoop, if_pos (by omega)]
      simp only [wp_bind, wp_load, wp_store]
      apply wp_mono (ih (by omega))
      intro _ m' hbelow
      rw [hbelow]
      simp only [below_cons_self]
      grind

/-- The tail loads two characters whether they are there or not, and a third one if it is. -/
theorem wp_decodeTail_loads {max_out_len out_len : Nat} :
    wp (decodeTail in_len max_out_len len out_len)
      (fun _ m' => Below .input in_len m'.loads ↔
        Below .input in_len m.loads ∧ len + 1 < in_len) m := by
  simp only [decodeTail, wp_bind, wp_load, wp_store, wp_pure, wp_ite]
  split
  case isTrue hthird =>
    split
    · split
      all_goals
        simp only [below_cons_self]
        grind
    · simp only [below_cons_self]
      grind
  case isFalse hnone =>
    simp only [below_cons_self]
    grind

/-- **What the decoder loads beyond its input**: nothing, unless the last block is a single
character and the call gets as far as that block. -/
theorem wp_decode_loads (p : Platform) (hin : in_len < p.sizeRange) {max_out_len : Nat} :
    wp (decode p in_len max_out_len)
      (fun _ m' => Below .input in_len m'.loads ↔ Below .input in_len m.loads ∧
        ¬ (in_len % 4 = 1 ∧ 5 ≤ in_len ∧ 3 * (in_len / 4) + 1 ≤ max_out_len)) m := by
  rw [decode, wp_bind]
  apply wp_mono (wp_padBool in_len)
  rintro pad_bool m₁ ⟨rfl, hcell₁, -, hbelow₁⟩
  rw [← hcell₁]
  obtain ⟨hlen, hout⟩ := decode_lengths p (m₁.cell .input) hin
  simp only [hlen, hout]
  have hmod : in_len % 4 ≠ 0 → padded (m₁.cell .input) in_len = true := padded_of_incomplete _
  have hquartets : quartets (m₁.cell .input) in_len
    = (in_len + 3) / 4 - if padded (m₁.cell .input) in_len then 1 else 0 := rfl
  by_cases hzero : 4 * quartets (m₁.cell .input) in_len = 0
  · -- no quartet in front of the last block: nothing is loaded
    rw [if_pos hzero, wp_ite, if_neg one_ne_zero, wp_pure, hbelow₁]
    have hfew : in_len ≤ 4 := by
      revert hquartets
      split <;> omega
    refine (and_iff_left ?_).symm
    omega
  rw [if_neg hzero, wp_ite]
  by_cases hfits : 3 * quartets (m₁.cell .input) in_len
      + (if padded (m₁.cell .input) in_len then 1 else 0) ≤ max_out_len
  -- the output is too small: refused before the first quartet
  case neg =>
    rw [if_pos (Nat.lt_of_not_le hfits), if_neg one_ne_zero, wp_pure, hbelow₁]
    refine (and_iff_left ?_).symm
    rintro ⟨hone, -, hroom⟩
    have hp := hmod (by omega)
    rw [hp, if_pos rfl] at hquartets hfits
    omega
  case pos =>
    rw [if_neg (Nat.not_lt.mpr hfits), if_pos rfl, wp_bind]
    have hle : 4 * quartets (m₁.cell .input) in_len ≤ in_len := four_mul_quartets_le _ in_len
    apply wp_mono (wp_decodeLoop_loads (q := quartets (m₁.cell .input) in_len) (by omega) hle)
    intro _ m₂ hbelow₂
    cases hp : padded (m₁.cell .input) in_len with
    -- not padded, so no tail; a single character left over would have counted as padding
    | false =>
        rw [if_neg Bool.false_ne_true, wp_pure, hbelow₂, hbelow₁]
        refine (and_iff_left ?_).symm
        rintro ⟨hone, -, -⟩
        rw [hmod (by omega)] at hp
        cases hp
    -- the tail runs, and its second load is the one in question
    | true =>
        rw [hp, if_pos rfl] at hquartets hfits
        rw [if_pos rfl]
        apply wp_mono wp_decodeTail_loads
        intro _ m₃ hbelow₃
        rw [hbelow₃, hbelow₂, hbelow₁]
        apply and_congr_right
        intro _
        omega

end Loads

/-- **When `Base64_decode` stays inside its input**: unless the input is some quartets and a
single character more, and the output has room for three bytes a quartet and one. -/
theorem decode_loads_below_iff (p : Platform) (in_len max_out_len : Nat)
    (hin : in_len < p.sizeRange) (cell : Buffer → Nat → Byte) :
    Below .input in_len (decode p in_len max_out_len ⟨cell, [], []⟩).2.loads ↔
      ¬ (in_len % 4 = 1 ∧ 5 ≤ in_len ∧ 3 * (in_len / 4) + 1 ≤ max_out_len) := by
  have hloads : Below .input in_len (decode p in_len max_out_len ⟨cell, [], []⟩).2.loads ↔ _ :=
    wp_decode_loads p hin
  rw [hloads]
  simp only [below_nil, true_and]

/-- `SGVoZQ==` with room for its four bytes. -/
theorem decode_loads_below_eight :
    Below .input 8 (decode .size32 8 4
      (holding .input [0x53, 0x47, 0x56, 0x6F, 0x5A, 0x51, 0x3D, 0x3D] 0)).2.loads :=
  (decode_loads_below_iff .size32 8 4 (by decide) _).mpr (by decide)

/-- `SGVoZQ1==` has nine characters: the tenth is loaded. -/
theorem decode_loads_past_nine :
    ¬ Below .input 9 (decode .size32 9 200
      (holding .input [0x53, 0x47, 0x56, 0x6F, 0x5A, 0x51, 0x31, 0x3D, 0x3D] 0)).2.loads := by
  decide +kernel

/-! ## The decoder's stores

They fill the output from its start, and a call that fails in the last block has stopped short.

`Fills` says both that nothing else is stored and that nothing is left out, which is what the
exact set of indices needs. The runs of the loop and of the tail are adjacent, so they join by
`Fills.trans`.
-/

section DecoderStores

variable {in_len max_out_len len : Nat} {m : Memory Buffer Byte}

/-- The loop stores three bytes a quartet. By induction on the quartets left. -/
theorem wp_decodeLoop_stores {i j q : Nat} (hlen : len = i + 4 * q) :
    wp (decodeLoop len i j) (fun _ m' => Fills .output j (j + 3 * q) m.stores m'.stores) m := by
  induction q generalizing i j m with
  | zero =>
      rw [decodeLoop, if_neg (by omega), wp_pure]
      exact Fills.refl .output j m.stores
  | succ q ih =>
      rw [decodeLoop, if_pos (by omega)]
      simp only [wp_bind, wp_load, wp_store]
      apply wp_mono (ih (by omega))
      intro _ m' hrest
      have hquartet := (((Fills.refl .output j m.stores).cons (by omega)).cons (by omega)).cons
        (Nat.le_add_right j 2)
      have hall := hquartet.trans hrest (by omega) (by omega)
      have hend : j + 3 + 3 * q = j + 3 * (q + 1) := by omega
      rwa [hend] at hall

/-- The tail stores a byte, and where the last block has a third character, a second byte if there
is room for it. -/
theorem wp_decodeTail_stores {out_len : Nat} (hfits : out_len + 1 ≤ max_out_len) :
    wp (decodeTail in_len max_out_len len (out_len + 1))
      (fun status m' => ∃ n, Fills .output out_len (out_len + n) m.stores m'.stores ∧
        out_len + n ≤ max_out_len ∧
        (status = 0 → n = if hasThird (m.cell .input) in_len len then 2 else 1)) m := by
  have hone := (Fills.refl .output out_len m.stores).cons (Nat.le_refl out_len)
  simp only [decodeTail, wp_bind, wp_load, wp_store, wp_pure, splice_input, wp_ite,
    Nat.add_sub_cancel]
  split
  case isTrue hlen =>
    split
    case isTrue hne =>
      have hthird : hasThird (m.cell .input) in_len len := ⟨hlen, hne⟩
      rw [if_pos hthird]
      split
      -- a third character without room for its byte: the call fails after one store
      case isTrue hbig => exact ⟨1, hone, hfits, fun h => absurd h one_ne_zero⟩
      case isFalse hroom =>
        exact ⟨2, hone.cons (Nat.le_succ out_len), by omega, fun _ => rfl⟩
    case isFalse hpad =>
      have hthird : ¬ hasThird (m.cell .input) in_len len := fun h => hpad h.2
      rw [if_neg hthird]
      exact ⟨1, hone, hfits, fun _ => rfl⟩
  case isFalse hlen =>
    have hthird : ¬ hasThird (m.cell .input) in_len len := fun h => hlen h.1
    rw [if_neg hthird]
    exact ⟨1, hone, hfits, fun _ => rfl⟩

/-- **What the decoder stores**: the start of its output, up to a length that fits and that a
successful call determines. -/
theorem wp_decode_stores (p : Platform) (hin : in_len < p.sizeRange) :
    wp (decode p in_len max_out_len)
      (fun status m' => ∃ n, Fills .output 0 n m.stores m'.stores ∧ n ≤ max_out_len ∧
        (status = 0 → n = 3 * quartets (m.cell .input) in_len +
          if padded (m.cell .input) in_len then
            if hasThird (m.cell .input) in_len (4 * quartets (m.cell .input) in_len) then 2 else 1
          else 0)) m := by
  rw [decode, wp_bind]
  apply wp_mono (wp_padBool in_len)
  rintro pad_bool m₁ ⟨rfl, hcell₁, hstores₁, -⟩
  rw [← hcell₁, ← hstores₁]
  obtain ⟨hlen, hout⟩ := decode_lengths p (m₁.cell .input) hin
  simp only [hlen, hout]
  have hnone := Fills.refl Buffer.output 0 m₁.stores
  by_cases hzero : 4 * quartets (m₁.cell .input) in_len = 0
  · rw [if_pos hzero, wp_ite, if_neg one_ne_zero, wp_pure]
    exact ⟨0, hnone, Nat.zero_le _, fun h => absurd h one_ne_zero⟩
  rw [if_neg hzero, wp_ite]
  by_cases hfits : 3 * quartets (m₁.cell .input) in_len
      + (if padded (m₁.cell .input) in_len then 1 else 0) ≤ max_out_len
  case neg =>
    -- refused before anything is stored
    rw [if_pos (Nat.lt_of_not_le hfits), if_neg one_ne_zero, wp_pure]
    exact ⟨0, hnone, Nat.zero_le _, fun h => absurd h one_ne_zero⟩
  case pos =>
    rw [if_neg (Nat.not_lt.mpr hfits), if_pos rfl, wp_bind]
    have hquartets : 4 * quartets (m₁.cell .input) in_len
        = 0 + 4 * quartets (m₁.cell .input) in_len := (Nat.zero_add _).symm
    apply wp_mono (wp_and (wp_decodeLoop hquartets) (wp_decodeLoop_stores hquartets))
    rintro _ m₂ ⟨hcell₂, hloop⟩
    rw [Nat.zero_add] at hloop
    have hinput : m₂.cell .input = m₁.cell .input := by rw [hcell₂, splice_input]
    cases hp : padded (m₁.cell .input) in_len with
    | false =>
        rw [hp, if_neg Bool.false_ne_true] at hfits
        rw [if_neg Bool.false_ne_true, wp_pure, if_neg Bool.false_ne_true]
        exact ⟨_, hloop, hfits, fun _ => rfl⟩
    -- the tail goes on where the loop stopped, over the same input
    | true =>
        rw [hp, if_pos rfl] at hfits
        rw [if_pos rfl, if_pos rfl, if_pos rfl, ← hinput]
        rw [← hinput] at hfits hloop
        apply wp_mono (wp_decodeTail_stores hfits)
        rintro status m₃ ⟨n, htail, hroom, hn⟩
        refine ⟨_, hloop.trans htail (Nat.zero_le _) (Nat.le_add_right _ n), hroom, ?_⟩
        intro hstatus
        rw [hn hstatus]

end DecoderStores

/-- **`Base64_decode` writes only inside its output, and only what it reports**: every index
stored is below the capacity, and those of a successful call are the ones below three for each
quartet in front of the last block and, if the input is padded, two or one more. -/
theorem decode_stores_iff (p : Platform) (in_len max_out_len : Nat) (hin : in_len < p.sizeRange)
    (cell : Buffer → Nat → Byte) :
    Below .output max_out_len (decode p in_len max_out_len ⟨cell, [], []⟩).2.stores ∧
      ((decode p in_len max_out_len ⟨cell, [], []⟩).1 = 0 →
        ∀ i, (Buffer.output, i) ∈ (decode p in_len max_out_len ⟨cell, [], []⟩).2.stores ↔
          i < 3 * quartets (cell .input) in_len +
            if padded (cell .input) in_len then
              if hasThird (cell .input) in_len (4 * quartets (cell .input) in_len) then 2 else 1
            else 0) := by
  obtain ⟨n, hfills, hroom, hn⟩ : wp (decode p in_len max_out_len) _ ⟨cell, [], []⟩ :=
    wp_decode_stores p hin
  have hindex : ∀ i,
      (Buffer.output, i) ∈ (decode p in_len max_out_len ⟨cell, [], []⟩).2.stores ↔ i < n := by
    intro i
    have hi := hfills i
    simpa using hi
  refine ⟨?_, ?_⟩
  · rintro ⟨b, i⟩ hmem rfl
    exact Nat.lt_of_lt_of_le ((hindex i).mp hmem) hroom
  · intro hstatus i
    rw [hindex i, hn hstatus]

/-- `SGVoZQ==` with room for six bytes: four are written. -/
theorem decode_stores_eight :
    Below .output 6 (decode .size32 8 6
        (holding .input [0x53, 0x47, 0x56, 0x6F, 0x5A, 0x51, 0x3D, 0x3D] 0)).2.stores ∧
      ∀ i, (Buffer.output, i) ∈ (decode .size32 8 6
        (holding .input [0x53, 0x47, 0x56, 0x6F, 0x5A, 0x51, 0x3D, 0x3D] 0)).2.stores ↔ i < 4 := by
  obtain ⟨hbelow, hfills⟩ := decode_stores_iff .size32 8 6 (by decide)
    (holding .input [0x53, 0x47, 0x56, 0x6F, 0x5A, 0x51, 0x3D, 0x3D] 0).cell
  refine ⟨hbelow, fun i => ?_⟩
  refine (hfills (by decide +kernel) i).trans (iff_of_eq (congrArg (i < ·) ?_))
  decide +kernel

end Base64
end IMUtility
