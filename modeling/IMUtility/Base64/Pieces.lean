import IMUtility.Base64.Canonical

/-! # Encoding in pieces

A caller without room for everything encodes its bytes in pieces. The texts of the pieces make up
the text of the whole exactly if each piece consists of complete groups, as long as anything comes
behind it (`encode_pieces`): a piece that does not is padded, and nothing takes the padding out
again. -/

namespace IMUtility
namespace Base64

open Memory

/-- Some successful call of `Base64_encode` on `d` leaves the string `e`. -/
def Encodes (p : Platform) (d e : List Byte) : Prop :=
  ∃ (max_result_length : Nat) (m : Memory Buffer Byte),
    d.length < p.sizeRange ∧ max_result_length < p.sizeRange ∧ Spells m.cell .input 0 d ∧
      (encode p d.length max_result_length m).1 = 0 ∧ (0 : Byte) ∉ e ∧
      Spells (encode p d.length max_result_length m).2.cell .output 0 (e ++ [0])

variable {p : Platform} {d e : List Byte}

/-- What the encoder leaves is the text of the bytes, as far as it is the text of a buffer. -/
theorem encodes_iff : Encodes p d e ↔ e = text d ∧ (text d).length < p.sizeRange := by
  have hlen := length_text d
  constructor
  · rintro ⟨max_result_length, m, hd, hmax, hinput, hstatus, hnul, houtput⟩
    obtain ⟨hiff, hdone⟩ := wp_encode p hinput hd hmax
    have hfits := hiff.mp hstatus
    rw [hdone hstatus] at houtput
    refine ⟨?_, by omega⟩
    exact spells_concat_inj hnul (nul_notMem_text d) houtput (spells_splice m.cell .output 0 _)
  · rintro ⟨rfl, hrange⟩
    have hd : d.length < p.sizeRange := by omega
    have hinput : Spells (holding Buffer.input d (0 : Byte)).cell .input 0 d := spells_holding _ d 0
    obtain ⟨hiff, hdone⟩ := wp_encode p hinput hd hrange
    have hstatus := hiff.mpr (Nat.le_refl _)
    refine ⟨(text d).length, _, hd, hrange, hinput, hstatus, nul_notMem_text d, ?_⟩
    rw [hdone hstatus]
    exact spells_splice _ _ 0 _

/-! ## The texts of pieces

An incomplete group ends its text with `=` and the text of more bytes would have a letter there,
unless the group has room for all that follows; then the texts differ in length. So it is the
position of the first incomplete piece that decides.
-/

theorem text_eq_nil_iff : text d = [] ↔ d = [] := by
  rw [← List.length_eq_zero_iff, ← List.length_eq_zero_iff, length_text]
  omega

theorem flatten_texts_eq_nil_iff (ds : List (List Byte)) :
    (ds.map text).flatten = [] ↔ ds.flatten = [] := by
  rw [List.flatten_eq_nil_iff, List.flatten_eq_nil_iff, List.forall_mem_map]
  exact forall₂_congr fun d _ => text_eq_nil_iff

/-- The padding of an incomplete group is not in the text that goes on. -/
theorem text_append_ne {d r t : List Byte} (hd : d.length % 3 ≠ 0) (hr : r ≠ []) (ht : t ≠ []) :
    text d ++ t ≠ text (d ++ r) := by
  obtain ⟨g, s, rfl, hg, hs⟩ := exists_groups d
  have hne : ∀ n, padding ≠ symbol (sextet n 3) :=
    fun n => (symbol_ne_padding _ (sextet_lt n 3)).symm
  rw [List.length_append] at hd
  rw [text_append g s hg, List.append_assoc, List.append_assoc, text_append g _ hg]
  intro h
  have h := List.append_cancel_left h
  match s, r, hs, hr with
  | [], _, _, _ =>
      rw [List.length_nil] at hd
      omega
  | [a], [b], _, _ =>
      -- one group in place of two
      have hlen := congrArg List.length h
      have hpos := List.length_pos_iff.mpr ht
      rw [List.length_append, length_text, length_text] at hlen
      simp only [List.length_append, List.length_singleton] at hlen
      omega
  -- the fourth character of the first group: `=` on one side, a letter on the other
  | [a], b :: c :: rest, _, _ =>
      exact hne _ (List.cons.inj (List.cons.inj (List.cons.inj (List.cons.inj h).2).2).2).1
  | [a, b], c :: rest, _, _ =>
      exact hne _ (List.cons.inj (List.cons.inj (List.cons.inj (List.cons.inj h).2).2).2).1

/-- When the texts of pieces are the text of the whole. By induction on the pieces. -/
theorem flatten_texts_iff (ds : List (List Byte)) : (ds.map text).flatten = text ds.flatten ↔
    ds.Pairwise fun d d' => d.length % 3 = 0 ∨ d' = [] := by
  induction ds with
  | nil => exact ⟨fun _ => List.Pairwise.nil, fun _ => rfl⟩
  | cons d ds ih =>
      rw [List.map_cons, List.flatten_cons, List.flatten_cons, List.pairwise_cons]
      -- a piece of complete groups can be taken off both sides; any other must be the last one
      -- with bytes
      by_cases hd : d.length % 3 = 0
      · rw [text_append d _ hd, List.append_cancel_left_eq, ih]
        exact ⟨fun h => ⟨fun d' _ => Or.inl hd, h⟩, fun h => h.2⟩
      · have hempty := flatten_texts_eq_nil_iff ds
        constructor
        · intro h
          by_cases hrest : ds.flatten = []
          · have hall := List.flatten_eq_nil_iff.mp hrest
            refine ⟨fun d' hd' => Or.inr (hall d' hd'), ih.mp ?_⟩
            rw [hempty.mpr hrest, hrest]
            rfl
          · exact absurd h (text_append_ne hd hrest (mt hempty.mp hrest))
        · rintro ⟨hbehind, -⟩
          have hrest : ds.flatten = [] :=
            List.flatten_eq_nil_iff.mpr fun d' hd' => (hbehind d' hd').resolve_left hd
          rw [hempty.mpr hrest, hrest, List.append_nil, List.append_nil]

theorem eq_map_text {ds es : List (List Byte)} (h : List.Forall₂ (Encodes p) ds es) :
    es = ds.map text := by
  induction h with
  | nil => rfl
  | cons hfirst _ ih => rw [List.map_cons, (encodes_iff.mp hfirst).1, ih]

/-- **Encoding in pieces.** What calls on the pieces leave, put together, is what a call on the
whole leaves, exactly if each piece with anything behind it consists of complete groups. -/
theorem encode_pieces (p : Platform) (pieces texts : List (List Byte)) (e : List Byte)
    (hpieces : List.Forall₂ (Encodes p) pieces texts) (hwhole : Encodes p pieces.flatten e) :
    texts.flatten = e ↔ pieces.Pairwise fun d d' => d.length % 3 = 0 ∨ d' = [] := by
  rw [eq_map_text hpieces, (encodes_iff.mp hwhole).1, flatten_texts_iff]

/-- Three bytes and one, against one byte and three. -/
theorem encode_pieces_two :
    ∃ e, Encodes .size32 [1, 2, 3, 4] e ∧
      [[0x41, 0x51, 0x49, 0x44], [0x42, 0x41, 0x3D, 0x3D]].flatten = e ∧
      [[0x41, 0x51, 0x3D, 0x3D], [0x41, 0x67, 0x4D, 0x45]].flatten ≠ e := by
  have hwhole : Encodes .size32 [1, 2, 3, 4] (text [1, 2, 3, 4]) :=
    encodes_iff.mpr ⟨rfl, by decide⟩
  refine ⟨_, hwhole, ?_, ?_⟩
  · refine (encode_pieces .size32 [[1, 2, 3], [4]] _ _ ?_ hwhole).mpr (by decide)
    exact .cons (encodes_iff.mpr ⟨by decide, by decide⟩)
      (.cons (encodes_iff.mpr ⟨by decide, by decide⟩) .nil)
  · refine mt (encode_pieces .size32 [[1], [2, 3, 4]] _ _ ?_ hwhole).mp (by decide)
    exact .cons (encodes_iff.mpr ⟨by decide, by decide⟩)
      (.cons (encodes_iff.mpr ⟨by decide, by decide⟩) .nil)

end Base64
end IMUtility
