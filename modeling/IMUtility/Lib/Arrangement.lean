import IMUtility.Lib.Slots
import Mathlib.Logic.Equiv.Basic
import Mathlib.Data.List.Nodup
import Mathlib.Data.List.Perm.Basic

/-! # Rearranging the slots of a buffer

A program that only ever exchanges slots leaves its buffer `Arranged`: the elements are a
permutation of what they were, none of them torn, and the cells behind them are as before. An
argument about the order of the elements looks at one key per slot; what it needs of the
exchanges made below a bound is `Shuffles`. -/

namespace Slots

variable {α β : Type} {s n h i j : Nat} {buf buf' buf'' : List α}

/-- The first `n` slots. -/
def elements (n s : Nat) (buf : List α) : List (List α) := (List.range n).map (slot s buf)

/-- The elements lie one behind the other. -/
theorem flatten_elements (n s : Nat) (buf : List α) :
    (elements n s buf).flatten = buf.take (n * s) := by
  induction n with
  | zero => simp [elements]
  | succ n ih =>
      have hsucc : elements (n + 1) s buf = elements n s buf ++ [slot s buf n] := by
        rw [elements, List.range_succ, List.map_append]
        rfl
      rw [hsucc, List.flatten_concat, ih, slot, Nat.succ_mul, List.take_add]

/-- Exchange two slots. -/
def exchange (s : Nat) (buf : List α) (i j : Nat) : List α :=
  setSlot s (setSlot s buf j (slot s buf i)) i (slot s buf j)

/-! ## What an exchange leaves

In terms of slots an exchange composes with `Equiv.swap`, which is how Mathlib's lemmas on
transpositions come in; the cells behind the slots keep their places.
-/

theorem length_exchange (hn : n * s ≤ buf.length) (hi : i < n) (hj : j < n) :
    (exchange s buf i j).length = buf.length := by
  have hinner := length_setSlot hn hj (length_slot hn hi)
  rw [exchange, length_setSlot (by rwa [hinner]) hi (length_slot hn hj), hinner]

theorem exchange_self (hn : n * s ≤ buf.length) (hi : i < n) : exchange s buf i i = buf := by
  have hinner := length_setSlot hn hi (length_slot hn hi)
  apply List.ext_getElem?
  intro p
  rw [exchange, getElem?_setSlot (by rwa [hinner]) hi (length_slot hn hi),
    getElem?_setSlot hn hi (length_slot hn hi), getElem?_slot]
  grind

theorem slot_exchange (hn : n * s ≤ buf.length) (hi : i < n) (hj : j < n) :
    slot s (exchange s buf i j) = slot s buf ∘ Equiv.swap i j := by
  have hinner := length_setSlot hn hj (length_slot hn hi)
  rw [exchange, slot_setSlot (by rwa [hinner]) hi (length_slot hn hj),
    slot_setSlot hn hj (length_slot hn hi), Equiv.comp_swap_eq_update]

theorem drop_setSlot (hn : n * s ≤ buf.length) (hi : i < n) {xs : List α} (hxs : xs.length = s) :
    (setSlot s buf i xs).drop (n * s) = buf.drop (n * s) := by
  have hend := slot_end_le s hi
  have hlen : (buf.take (i * s) ++ xs).length = i * s + s := by
    rw [List.length_append, List.length_take, hxs]
    omega
  rw [setSlot, List.drop_append, List.drop_of_length_le (by omega), List.nil_append, hlen,
    List.drop_drop]
  congr 1
  omega

theorem drop_exchange (hn : n * s ≤ buf.length) (hi : i < n) (hj : j < n) :
    (exchange s buf i j).drop (n * s) = buf.drop (n * s) := by
  have hinner := length_setSlot hn hj (length_slot hn hi)
  rw [exchange, drop_setSlot (by rwa [hinner]) hi (length_slot hn hj),
    drop_setSlot hn hj (length_slot hn hi)]

/-- A slot behind the first `h` is told by the cells behind them. -/
theorem slot_eq_of_drop_eq (hdrop : buf'.drop (h * s) = buf.drop (h * s)) (hi : h ≤ i) :
    slot s buf' i = slot s buf i := by
  have hsplit : i * s = h * s + (i - h) * s := by
    rw [← Nat.add_mul]
    congr 1
    omega
  rw [slot, slot, hsplit, ← List.drop_drop, ← List.drop_drop, hdrop]

/-! ## Keys that changed places -/

section Keys

variable {key : Nat → β} {k : Nat}

theorem comp_swap_left (key : Nat → β) (i j : Nat) : (key ∘ Equiv.swap i j) i = key j := by
  rw [Function.comp_apply, Equiv.swap_apply_left]

theorem comp_swap_right (key : Nat → β) (i j : Nat) : (key ∘ Equiv.swap i j) j = key i := by
  rw [Function.comp_apply, Equiv.swap_apply_right]

theorem comp_swap_of_ne (hi : k ≠ i) (hj : k ≠ j) : (key ∘ Equiv.swap i j) k = key k := by
  rw [Function.comp_apply, Equiv.swap_apply_of_ne_of_ne hi hj]

end Keys

/-! ## Permutations of a range

A list of slots is the image of a range, so that it is rearranged when the range is.
-/

theorem range_map_perm {σ : Equiv.Perm Nat} (hσ : ∀ i, σ i < n ↔ i < n) :
    ((List.range n).map σ).Perm (List.range n) := by
  rw [List.perm_ext_iff_of_nodup (List.nodup_range.map σ.injective) List.nodup_range]
  intro i
  rw [List.mem_map, List.mem_range]
  constructor
  · rintro ⟨j, hj, rfl⟩
    exact (hσ j).mpr (List.mem_range.mp hj)
  · intro hi
    refine ⟨σ.symm i, ?_, σ.apply_symm_apply i⟩
    rw [List.mem_range, ← hσ, σ.apply_symm_apply]
    exact hi

theorem swap_lt_iff (hi : i < n) (hj : j < n) (k : Nat) : Equiv.swap i j k < n ↔ k < n := by
  rw [Equiv.swap_apply_def]
  split
  · omega
  · split <;> omega

/-- A range around two neighbours. -/
theorem range_split (hj : j + 1 < n) :
    List.range n = List.range j ++ j :: (j + 1) :: List.range' (j + 2) (n - (j + 2)) := by
  have htail : j :: (j + 1) :: List.range' (j + 2) (n - (j + 2)) = List.range' j (n - j) := by
    obtain ⟨m, rfl⟩ : ∃ m, n = j + (m + 2) := ⟨n - (j + 2), by omega⟩
    have hm : j + (m + 2) - (j + 2) = m := by omega
    have hm' : j + (m + 2) - j = m + 2 := by omega
    rw [hm, hm']
    rfl
  have hall := List.range'_append_1 (s := 0) (m := j) (n := n - j)
  rw [Nat.zero_add, Nat.add_sub_cancel' (by omega)] at hall
  rw [htail, List.range_eq_range', List.range_eq_range', hall]

/-! ## Arranged buffers

The relation is closed under composition and under exchanges, and it may be widened to more slots.
Those are the steps by which a loop that exchanges keeps it.
-/

/-- `buf'` is `buf` with its first `n` slots rearranged. -/
structure Arranged (n s : Nat) (buf buf' : List α) : Prop where
  perm : (elements n s buf').Perm (elements n s buf)
  length_eq : buf'.length = buf.length
  rest : buf'.drop (n * s) = buf.drop (n * s)

namespace Arranged

theorem refl (n s : Nat) (buf : List α) : Arranged n s buf buf := ⟨List.Perm.refl _, rfl, rfl⟩

theorem trans (h₁ : Arranged n s buf buf') (h₂ : Arranged n s buf' buf'') :
    Arranged n s buf buf'' where
  perm := h₂.perm.trans h₁.perm
  length_eq := h₂.length_eq.trans h₁.length_eq
  rest := h₂.rest.trans h₁.rest

theorem exchange (hn : n * s ≤ buf.length) (hi : i < n) (hj : j < n) :
    Arranged n s buf (exchange s buf i j) where
  perm := by
    rw [elements, slot_exchange hn hi hj, ← List.map_map]
    exact (range_map_perm (swap_lt_iff hi hj)).map _
  length_eq := length_exchange hn hi hj
  rest := drop_exchange hn hi hj

/-- What happens among fewer slots happens among more. -/
theorem mono (h₁ : Arranged h s buf buf') (hle : h ≤ n) : Arranged n s buf buf' where
  perm := by
    obtain ⟨m, rfl⟩ := Nat.exists_eq_add_of_le hle
    -- the slots behind the first `h` are among the cells that stay
    have hlate : ∀ i ∈ (List.range m).map (h + ·), slot s buf' i = slot s buf i := by
      intro i hi
      obtain ⟨k, -, rfl⟩ := List.mem_map.mp hi
      exact slot_eq_of_drop_eq h₁.rest (Nat.le_add_right h k)
    rw [elements, elements, List.range_add, List.map_append, List.map_append,
      List.map_congr_left hlate]
    exact h₁.perm.append_right _
  length_eq := h₁.length_eq
  rest := by
    have hsplit : n * s = h * s + (n - h) * s := by
      rw [← Nat.add_mul]
      congr 1
      omega
    rw [hsplit, ← List.drop_drop, ← List.drop_drop, h₁.rest]

theorem exists_slot (h : Arranged n s buf buf') (hi : i < n) :
    ∃ j < n, slot s buf' i = slot s buf j := by
  have hmem : slot s buf' i ∈ elements n s buf' := List.mem_map.mpr ⟨i, List.mem_range.mpr hi, rfl⟩
  obtain ⟨j, hj, heq⟩ := List.mem_map.mp (h.perm.subset hmem)
  exact ⟨j, List.mem_range.mp hj, heq.symm⟩

/-- The rearrangement is determined by the elements in their new order. -/
theorem eq_of_elements (h₁ : Arranged n s buf buf') (h₂ : Arranged n s buf buf'')
    (helements : elements n s buf' = elements n s buf'') : buf' = buf'' := by
  have hfront : buf'.take (n * s) = buf''.take (n * s) := by
    rw [← flatten_elements, ← flatten_elements, helements]
  rw [← List.take_append_drop (n * s) buf', ← List.take_append_drop (n * s) buf'', hfront, h₁.rest,
    h₂.rest]

end Arranged

/-- Exchanging two neighbours does not show in a filter that does not keep both. -/
theorem filter_elements_exchange (hn : n * s ≤ buf.length) (hj : j + 1 < n) (p : List α → Bool)
    (hp : ¬ (p (slot s buf j) = true ∧ p (slot s buf (j + 1)) = true)) :
    (elements n s (exchange s buf j (j + 1))).filter p = (elements n s buf).filter p := by
  -- the two places apart, all others are the same in both lists
  have hleft : (List.range j).map (slot s buf ∘ Equiv.swap j (j + 1))
      = (List.range j).map (slot s buf) := by
    apply List.map_congr_left
    intro k hk
    rw [List.mem_range] at hk
    exact comp_swap_of_ne (by omega) (by omega)
  have hright : (List.range' (j + 2) (n - (j + 2))).map (slot s buf ∘ Equiv.swap j (j + 1))
      = (List.range' (j + 2) (n - (j + 2))).map (slot s buf) := by
    apply List.map_congr_left
    intro k hk
    rw [List.mem_range'_1] at hk
    exact comp_swap_of_ne (by omega) (by omega)
  rw [elements, elements, slot_exchange hn (by omega) hj, range_split hj]
  simp only [List.map_append, List.map_cons, List.filter_append, List.filter_cons,
    Function.comp_apply, Equiv.swap_apply_left, Equiv.swap_apply_right, hleft, hright]
  cases hfirst : p (slot s buf j) <;> cases hsecond : p (slot s buf (j + 1))
  all_goals simp_all

/-- The elements, when two neighbours are exchanged. -/
theorem elements_exchange (hn : n * s ≤ buf.length) (hj : j + 1 < n) :
    ∃ xs ys, elements n s buf = xs ++ slot s buf j :: slot s buf (j + 1) :: ys ∧
      elements n s (exchange s buf j (j + 1))
        = xs ++ slot s buf (j + 1) :: slot s buf j :: ys := by
  refine ⟨(List.range j).map (slot s buf), (List.range' (j + 2) (n - (j + 2))).map (slot s buf),
    ?_, ?_⟩
  · rw [elements, range_split hj, List.map_append, List.map_cons, List.map_cons]
  -- the slots in front of the two and behind them stay
  · have hapart : ∀ k, k < j ∨ j + 1 < k →
        (slot s buf ∘ Equiv.swap j (j + 1)) k = slot s buf k := by
      intro k hk
      exact comp_swap_of_ne (by omega) (by omega)
    have hleft : ∀ k ∈ List.range j, (slot s buf ∘ Equiv.swap j (j + 1)) k = slot s buf k := by
      intro k hk
      exact hapart k (Or.inl (List.mem_range.mp hk))
    have hright : ∀ k ∈ List.range' (j + 2) (n - (j + 2)),
        (slot s buf ∘ Equiv.swap j (j + 1)) k = slot s buf k := by
      intro k hk
      exact hapart k (Or.inr (List.mem_range'_1.mp hk).1)
    rw [elements, slot_exchange hn (by omega) hj, range_split hj, List.map_append, List.map_cons,
      List.map_cons, List.map_congr_left hleft, List.map_congr_left hright, comp_swap_left,
      comp_swap_right]

/-! ## Keys -/

/-- Between two sequences of keys, entries below `h` have moved among themselves. -/
structure Shuffles (h : Nat) (key key' : Nat → β) : Prop where
  same : ∀ i, h ≤ i → key' i = key i
  from_below : ∀ i < h, ∃ j < h, key' i = key j

theorem Shuffles.exchange (key : Nat → β) (hi : i < h) (hj : j < h) :
    Shuffles h key (key ∘ Equiv.swap i j) where
  same _ hk := comp_swap_of_ne (by omega) (by omega)
  from_below k hk := ⟨Equiv.swap i j k, (swap_lt_iff hi hj k).mpr hk, rfl⟩

theorem Arranged.shuffles (harr : Arranged h s buf buf') (rank : List α → β) :
    Shuffles h (fun i => rank (slot s buf i)) (fun i => rank (slot s buf' i)) where
  same i hi := congrArg rank (slot_eq_of_drop_eq harr.rest hi)
  from_below i hi := by
    obtain ⟨j, hj, heq⟩ := harr.exists_slot hi
    exact ⟨j, hj, congrArg rank heq⟩

end Slots
