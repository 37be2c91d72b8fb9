import IMUtility.Base64.Correctness

/-! # Decoding what was encoded

A successful `Base64_encode` leaves `text d` in its output; `Base64_decode` gets it with any number
of its trailing `=` removed. It gives back `d` and touches nothing behind it (`decode_encode`). What
it does not do is accept every text: the check for a length of zero looks at the quartets in front
of the last block, so that one or two bytes are refused at any capacity
(`decode_accepts_iff`). -/

namespace IMUtility
namespace Base64

open Memory

variable {m₁ m₂ : Memory Buffer Byte}

/-! ## What the encoder left

The two functions have one memory each, since the caller may have copied the text, or cut its
padding off, in between. What connects them is the text.
-/

/-- What a successful call of the encoder leaves: the text, whose length is that of a buffer. -/
theorem encode_output (p : Platform) {d e : List Byte} {max_result_length : Nat}
    (hd : d.length < p.sizeRange) (hmax : max_result_length < p.sizeRange)
    (hdata : Spells m₁.cell .input 0 d)
    (hencode : (encode p d.length max_result_length m₁).1 = 0)
    (helen : e.length = 4 * ((d.length + 2) / 3))
    (he : Spells (encode p d.length max_result_length m₁).2.cell .output 0 e) :
    e = text d ∧ e.length < p.sizeRange := by
  have hlen := length_text d
  obtain ⟨hiff, hdone⟩ := wp_encode p hdata hd hmax
  have hfits := hiff.mp hencode
  rw [hdone hencode] at he
  refine ⟨List.ext_getElem (by omega) fun i hi hi' => ?_, ?_⟩
  · have hcell := he i hi
    rw [splice_get (by rw [List.length_append]; omega), List.getElem_append_left hi'] at hcell
    exact hcell.symm
  · omega

/-- **Decoding undoes encoding**, for the text with any number of its trailing `=` removed. -/
theorem decode_encode (p : Platform) (d e e' : List Byte) (k max_result_length max_out_len : Nat)
    (m₁ m₂ : Memory Buffer Byte) (hd : d.length < p.sizeRange)
    (hmax : max_result_length < p.sizeRange) (hdata : Spells m₁.cell .input 0 d)
    (hencode : (encode p d.length max_result_length m₁).1 = 0)
    (helen : e.length = 4 * ((d.length + 2) / 3))
    (he : Spells (encode p d.length max_result_length m₁).2.cell .output 0 e)
    (hstrip : e = e' ++ List.replicate k padding) (hinput : Spells m₂.cell .input 0 e')
    (hdecode : (decode p e'.length max_out_len m₂).1 = 0) :
    Spells (decode p e'.length max_out_len m₂).2.cell .output 0 d ∧
      ∀ i, d.length ≤ i →
        (decode p e'.length max_out_len m₂).2.cell .output i = m₂.cell .output i := by
  obtain ⟨htext, hrange⟩ := encode_output p hd hmax hdata hencode helen he
  have hle : e'.length ≤ e.length := by
    rw [hstrip, List.length_append]
    exact Nat.le_add_right _ _
  obtain ⟨hbytes, -⟩ := decodedBytes_text (htext.symm.trans hstrip) hinput
  -- the decoder writes the bytes that the text stands for
  obtain ⟨-, hdone⟩ := wp_decode p max_out_len m₂ (show e'.length < p.sizeRange by omega)
  have hcell := hdone hdecode
  rw [hbytes] at hcell
  rw [hcell]
  refine ⟨spells_splice _ _ _ _, fun i hi => splice_of_ge ?_⟩
  rwa [Nat.zero_add]

/-- `Hehe`, without the two `=` of its text. -/
theorem decode_encode_unpadded :
    Spells (decode .size32 6 4 (holding .input [0x53, 0x47, 0x56, 0x6F, 0x5A, 0x51] 0)).2.cell
      .output 0 [0x48, 0x65, 0x68, 0x65] :=
  (decode_encode .size32 [0x48, 0x65, 0x68, 0x65] [0x53, 0x47, 0x56, 0x6F, 0x5A, 0x51, 0x3D, 0x3D]
    [0x53, 0x47, 0x56, 0x6F, 0x5A, 0x51] 2 8 4 (holding .input [0x48, 0x65, 0x68, 0x65] 0)
    (holding .input [0x53, 0x47, 0x56, 0x6F, 0x5A, 0x51] 0) (by decide) (by decide)
    (spells_holding _ _ _)
    (by decide +kernel) (by decide) (by decide +kernel) (by decide)
    (spells_holding _ _ _) (by decide +kernel)).1

/-! ## Texts that are refused

With the capacity for it a text is refused only for its number of quartets: one that ends in padding
is left out of the count, and no quartet at all is taken for an empty input.
-/

/-- **Which texts are accepted**: the decoder returns 0 exactly when the capacity suffices, if and
only if there are three bytes or more or the capacity does not suffice. -/
theorem decode_accepts_iff (p : Platform) (d e : List Byte) (max_result_length max_out_len : Nat)
    (m₁ m₂ : Memory Buffer Byte) (hd : d.length < p.sizeRange)
    (hmax : max_result_length < p.sizeRange) (hdata : Spells m₁.cell .input 0 d)
    (hencode : (encode p d.length max_result_length m₁).1 = 0)
    (helen : e.length = 4 * ((d.length + 2) / 3))
    (he : Spells (encode p d.length max_result_length m₁).2.cell .output 0 e)
    (hinput : Spells m₂.cell .input 0 e) :
    ((decode p e.length max_out_len m₂).1 = 0 ↔ d.length ≤ max_out_len) ↔
      (3 ≤ d.length ∨ max_out_len < d.length) := by
  obtain ⟨htext, hrange⟩ := encode_output p hd hmax hdata hencode helen he
  have hstrip : text d = e ++ List.replicate 0 padding := by
    rw [List.replicate_zero, List.append_nil, htext]
  obtain ⟨hbytes, hquartets⟩ := decodedBytes_text hstrip hinput
  obtain ⟨hiff, -⟩ := wp_decode p max_out_len m₂ (show e.length < p.sizeRange by omega)
  rw [hbytes, hquartets] at hiff
  -- the quartets in front of the last block
  have hthree : d.length / 3 ≠ 0 ↔ 3 ≤ d.length := by omega
  rw [hiff, hthree]
  constructor
  · intro h
    by_contra hne
    rw [not_or, Nat.not_lt] at hne
    exact hne.1 (h.mpr hne.2).1
  · rintro h
    refine ⟨fun h' => h'.2, fun h' => ⟨?_, h'⟩⟩
    omega

/-- The condition at four bytes. -/
theorem decode_accepts_four :
    (decode .size32 8 4 (holding .input [0x53, 0x47, 0x56, 0x6F, 0x5A, 0x51, 0x3D, 0x3D] 0)).1 = 0
      ↔ 4 ≤ 4 :=
  (decode_accepts_iff .size32 [0x48, 0x65, 0x68, 0x65]
    [0x53, 0x47, 0x56, 0x6F, 0x5A, 0x51, 0x3D, 0x3D] 8 4 (holding .input [0x48, 0x65, 0x68, 0x65] 0)
    (holding .input [0x53, 0x47, 0x56, 0x6F, 0x5A, 0x51, 0x3D, 0x3D] 0) (by decide) (by decide)
    (spells_holding _ _ _) (by decide +kernel) (by decide) (by decide +kernel)
    (spells_holding _ _ _)).mpr (Or.inl (by decide))

/-- `jc` is encoded as `amM=`, and `amM=` is refused with room for 200 bytes. -/
theorem decode_refuses_two_bytes :
    (encode .size64 2 200 (holding .input [0x6A, 0x63] 0)).1 = 0 ∧
      Spells (encode .size64 2 200 (holding .input [0x6A, 0x63] 0)).2.cell .output 0
        [0x61, 0x6D, 0x4D, 0x3D] ∧
      ¬ ((decode .size64 4 200 (holding .input [0x61, 0x6D, 0x4D, 0x3D] 0)).1 = 0 ↔ 2 ≤ 200) := by
  refine ⟨by decide +kernel, ?_, by decide +kernel⟩
  decide +kernel

end Base64
end IMUtility
