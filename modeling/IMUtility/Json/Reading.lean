import IMUtility.Json.Search

/-! # Finding is reading

What `Json_findByKey` finds, in terms of the text: the second piece behind the quote that closes the
first place of the key (`Reads`), or, in a text of `2 ^ 32 - 1` characters whose last quote is that
one, the piece the text starts with, because there the index wraps around to 0 (`Wraps`). -/

namespace IMUtility
namespace Json

open Delimited

variable {t k v : List Byte}

/-- The index wraps around, and what is in front of the first quote of all is `v`. -/
structure Wraps (t k v : List Byte) : Prop where
  length_eq : t.length = 2 ^ 32 - 1
  last : ∃ pre rest, t = pre ++ (k ++ quote :: rest) ∧ (∀ p < pre.length, ¬ k <+: t.drop p) ∧
    quote ∉ rest
  value_eq : v = before quote t

/-- The index behind the quote that closes the key. -/
theorem drop_behind_key (pre k y : List Byte) :
    (pre ++ (k ++ quote :: y)).drop (pre.length + k.length + 1) = y := by
  rw [Nat.add_assoc, ← List.drop_drop, List.drop_left, ← List.drop_drop, List.drop_left]
  rfl

/-- A key in the text that is closed by a quote. -/
theorem getElem?_behind_key (pre k y : List Byte) :
    (pre ++ (k ++ quote :: y))[pre.length + k.length]? = some quote := by
  rw [← List.append_assoc, ← List.length_append, List.getElem?_append_right le_rfl, Nat.sub_self]
  rfl

/-- What is found at the first place of the key, by what follows the quote that closes it. -/
theorem findsAt_iff {pre y : List Byte} {max_value_size : Nat}
    (ht : t = pre ++ (k ++ quote :: y)) (hfirst : ∀ p < pre.length, ¬ k <+: t.drop p) :
    FindsAt t k max_value_size v pre.length ↔
      (v = before quote (t.drop (valueStart t k pre.length)) ∧
        valueStart t k pre.length + v.length < t.length) ∧ v.length < max_value_size := by
  constructor
  · intro h
    exact ⟨⟨h.value_eq, h.value_closed⟩, h.value_fits⟩
  -- the key is there and closed by the quote, by the form of the text
  · rintro ⟨⟨hv, hclosed⟩, hfits⟩
    refine ⟨⟨?_, hfirst⟩, ?_, hv, hclosed, hfits⟩
    · rw [ht, List.drop_left]
      exact List.prefix_append k _
    · rw [ht]
      exact getElem?_behind_key pre k y

/-- A next quote is there, and the one after it closes the value. -/
theorem value_iff_of_quote {pre y : List Byte} (hlen : t.length < 2 ^ 32)
    (ht : t = pre ++ (k ++ quote :: y)) (hy : quote ∈ y) :
    (v = before quote (t.drop (valueStart t k pre.length)) ∧
        valueStart t k pre.length + v.length < t.length) ↔
      ∃ s rest, y = s ++ quote :: (v ++ quote :: rest) ∧ quote ∉ s ∧ quote ∉ v := by
  obtain ⟨z, hz⟩ := exists_eq_before_append hy
  have hfree := notMem_before quote y
  generalize before quote y = s at hz hfree
  subst hz
  have hlength : t.length = pre.length + k.length + 1 + s.length + 1 + z.length := by
    rw [ht]
    simp only [List.length_append, List.length_cons]
    omega
  -- the index behind that quote is at most the length of the text, so it is not reduced
  have hstart : valueStart t k pre.length = pre.length + k.length + 1 + s.length + 1 := by
    have hdrop := drop_behind_key pre k (s ++ quote :: z)
    rw [← ht] at hdrop
    rw [valueStart, hdrop, before_append hfree, uint32, Nat.mod_eq_of_lt (by omega)]
  have hdrop : t.drop (pre.length + k.length + 1 + s.length + 1) = z := by
    have hall := drop_behind_key pre k (s ++ quote :: z)
    rw [← ht] at hall
    rw [Nat.add_assoc, ← List.drop_drop, hall, ← List.drop_drop, List.drop_left]
    rfl
  rw [hstart, hdrop]
  constructor
  · rintro ⟨rfl, hlt⟩
    obtain ⟨rest, hrest⟩ := exists_eq_before_append (mem_of_length_before_lt (d := quote) (l := z)
      (by omega))
    exact ⟨s, rest, by rw [← hrest], hfree, notMem_before quote z⟩
  · rintro ⟨s', rest, heq, hs', hv⟩
    obtain ⟨-, rfl⟩ := append_cons_inj hfree hs' heq
    rw [before_append hv]
    refine ⟨rfl, ?_⟩
    rw [hlength]
    simp only [List.length_append, List.length_cons]
    omega

/-- No next quote is there: the value is taken from the start of the text, if the index wraps
around. -/
theorem value_iff_of_no_quote {pre y : List Byte} (hlen : t.length < 2 ^ 32)
    (ht : t = pre ++ (k ++ quote :: y)) (hy : quote ∉ y) :
    (v = before quote (t.drop (valueStart t k pre.length)) ∧
        valueStart t k pre.length + v.length < t.length) ↔
      t.length = 2 ^ 32 - 1 ∧ v = before quote t := by
  have hstart : valueStart t k pre.length = uint32 (t.length + 1) := by
    have hdrop := drop_behind_key pre k y
    rw [← ht] at hdrop
    rw [valueStart, hdrop, before_eq_self hy, ht]
    simp only [List.length_append, List.length_cons]
    congr 1
    omega
  rw [hstart, uint32]
  by_cases hwrap : t.length = 2 ^ 32 - 1
  -- the index is behind the end of the text, unless it is back at 0
  · have hzero : (t.length + 1) % 2 ^ 32 = 0 := by omega
    have hmem : quote ∈ t := by
      rw [ht]
      simp
    obtain ⟨rest, hrest⟩ := exists_eq_before_append hmem
    rw [hzero, List.drop_zero, Nat.zero_add]
    refine ⟨fun h => ⟨hwrap, h.1⟩, fun h => ⟨h.2, ?_⟩⟩
    have hcut := congrArg List.length hrest
    simp only [List.length_append, List.length_cons] at hcut
    rw [h.2]
    omega
  · have hsucc : (t.length + 1) % 2 ^ 32 = t.length + 1 := Nat.mod_eq_of_lt (by omega)
    rw [hsucc]
    exact ⟨fun h => by omega, fun h => absurd h.1 hwrap⟩

/-- **Finding is reading**, or wrapping around. -/
theorem finds_iff (hlen : t.length < 2 ^ 32) {max_value_size : Nat} :
    Finds t k max_value_size v ↔
      ((∃ pre s rest, Reads quote t k pre s v rest) ∨ Wraps t k v) ∧ v.length < max_value_size := by
  constructor
  · rintro ⟨p, h⟩
    obtain ⟨x, hx⟩ := h.occurs
    have hp : p + k.length < t.length := (List.getElem?_eq_some_iff.mp h.closed).1
    have hpre : (t.take p).length = p := by
      rw [List.length_take]
      omega
    have hclosed := h.closed
    rw [← List.head?_drop, ← List.drop_drop, ← hx, List.drop_left] at hclosed
    obtain ⟨y, rfl⟩ : ∃ y, x = quote :: y := List.head?_eq_some_iff.mp hclosed
    have ht : t = t.take p ++ (k ++ quote :: y) := by rw [hx, List.take_append_drop]
    have hfirst : ∀ q < (t.take p).length, ¬ k <+: t.drop q := by rw [hpre]; exact h.first
    have hvalue : v = before quote (t.drop (valueStart t k (t.take p).length)) ∧
        valueStart t k (t.take p).length + v.length < t.length := by
      rw [hpre]
      exact ⟨h.value_eq, h.value_closed⟩
    refine ⟨?_, h.value_fits⟩
    -- behind the quote of the key there is another one, or it was the last
    by_cases hy : quote ∈ y
    · obtain ⟨s, rest, rfl, hs, hv⟩ := (value_iff_of_quote hlen ht hy).mp hvalue
      exact Or.inl ⟨t.take p, s, rest, ht, hfirst, hs, hv⟩
    · obtain ⟨hwrap, hv⟩ := (value_iff_of_no_quote hlen ht hy).mp hvalue
      exact Or.inr ⟨hwrap, ⟨t.take p, y, ht, hfirst, hy⟩, hv⟩
  · rintro ⟨⟨pre, s, rest, h⟩ | h, hfits⟩
    · refine ⟨pre.length, (findsAt_iff h.eq h.first).mpr ⟨?_, hfits⟩⟩
      exact (value_iff_of_quote hlen h.eq (by simp)).mpr ⟨s, rest, rfl, h.s_free, h.v_free⟩
    · obtain ⟨pre, rest, ht, hfirst, hrest⟩ := h.last
      refine ⟨pre.length, (findsAt_iff ht hfirst).mpr ⟨?_, hfits⟩⟩
      exact (value_iff_of_no_quote hlen ht hrest).mpr ⟨h.length_eq, h.value_eq⟩

/-- The index does not wrap around where the key stands, closed, in front of a further quote. -/
theorem not_wraps_of_quote {a b c : List Byte}
    (ht : t = a ++ (k ++ quote :: (b ++ quote :: c))) : ¬ Wraps t k v := by
  rintro ⟨-, ⟨pre, rest, heq, hfirst, hrest⟩, -⟩
  have hle : pre.length ≤ a.length := by
    by_contra hgt
    apply hfirst a.length (Nat.lt_of_not_le hgt)
    rw [ht, List.drop_left]
    exact List.prefix_append k _
  have hdrop := drop_behind_key pre k rest
  rw [← heq, ht] at hdrop
  apply hrest
  rw [← hdrop]
  -- the last quote lies behind the quote that closes the first place
  have hsuffix : quote :: c <:+ (a ++ (k ++ quote :: (b ++ quote :: c))).drop
      (pre.length + k.length + 1) := by
    refine List.suffix_of_suffix_length_le ?_
      (List.drop_suffix _ (a ++ (k ++ quote :: (b ++ quote :: c)))) ?_
    · refine ⟨a ++ (k ++ quote :: b), ?_⟩
      simp
    · simp only [List.length_drop, List.length_append, List.length_cons]
      omega
  exact hsuffix.subset List.mem_cons_self

end Json
end IMUtility
