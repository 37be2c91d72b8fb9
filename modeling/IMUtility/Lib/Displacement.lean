import IMUtility.Lib.Arrangement
import Mathlib

/-! # Displacements

`displacement key k` is how many entries in front of `k` are greater than entry `k`. Carrying the
greatest entry so far along an array (`Carried`) moves every displaced entry one place to the front
and makes it one less displaced, so the greatest displacement is how often that must be done before
the array is in order (`sup_displacement_carried`). -/

namespace Slots

variable {κ : Type} [LinearOrder κ] {key start : Nat → κ} {j k m n : Nat} {t : κ}

/-- How many of the first `k` entries are greater than `t`. -/
def countAbove (key : Nat → κ) (k : Nat) (t : κ) : Nat :=
  ((Finset.range k).filter fun a => t < key a).card

/-- How many entries in front of `k` are greater than entry `k`. -/
def displacement (key : Nat → κ) (k : Nat) : Nat := countAbove key k (key k)

theorem countAbove_succ (key : Nat → κ) (k : Nat) (t : κ) :
    countAbove key (k + 1) t = countAbove key k t + if t < key k then 1 else 0 := by
  rw [countAbove, countAbove, Finset.range_add_one, Finset.filter_insert]
  split
  · rw [Finset.card_insert_of_notMem]
    simp
  · rfl

theorem countAbove_congr (h : ∀ a < k, key a = start a) (t : κ) :
    countAbove key k t = countAbove start k t := by
  unfold countAbove
  congr 1
  apply Finset.filter_congr
  intro a ha
  rw [h a (Finset.mem_range.mp ha)]

theorem countAbove_eq_zero (h : ∀ a < k, key a ≤ t) : countAbove key k t = 0 := by
  rw [countAbove, Finset.card_eq_zero, Finset.filter_eq_empty_iff]
  intro a ha
  exact not_lt.mpr (h a (Finset.mem_range.mp ha))

theorem countAbove_pos_iff : 0 < countAbove key k t ↔ ∃ a < k, t < key a := by
  rw [countAbove, Finset.card_pos]
  constructor
  · rintro ⟨a, ha⟩
    obtain ⟨hlt, habove⟩ := Finset.mem_filter.mp ha
    exact ⟨a, Finset.mem_range.mp hlt, habove⟩
  · rintro ⟨a, hlt, habove⟩
    exact ⟨a, Finset.mem_filter.mpr ⟨Finset.mem_range.mpr hlt, habove⟩⟩

theorem displacement_zero (key : Nat → κ) : displacement key 0 = 0 :=
  countAbove_eq_zero fun _ ha => absurd ha (Nat.not_lt_zero _)

/-! ## Carrying the greatest entry

The state in the middle of a pass. Comparing what is carried with the next entry tells whether
that entry is displaced, and in both cases the entries already passed are one less displaced than
they were, or not at all.
-/

/-- The entries of `start`, when the greatest of the first ones has been carried to `j`. -/
structure Carried (start key : Nat → κ) (j : Nat) : Prop where
  above : ∀ t, countAbove key (j + 1) t = countAbove start (j + 1) t
  greatest : ∀ a ≤ j, key a ≤ key j
  behind : ∀ a, j < a → key a = start a
  passed : ∀ a < j, displacement key a = displacement start (a + 1) - 1

namespace Carried

theorem refl (key : Nat → κ) : Carried key key 0 where
  above := fun _ => rfl
  greatest := by
    intro a ha
    rw [Nat.le_zero.mp ha]
  behind := fun _ _ => rfl
  passed := fun _ ha => absurd ha (Nat.not_lt_zero _)

variable (h : Carried start key j)
include h

/-- What has been carried is greater than the next entry exactly if that is displaced. -/
theorem lt_iff : key (j + 1) < key j ↔ 0 < displacement start (j + 1) := by
  rw [displacement, ← h.above, countAbove_pos_iff, ← h.behind (j + 1) (Nat.lt_succ_self j)]
  constructor
  · exact fun hlt => ⟨j, Nat.lt_succ_self j, hlt⟩
  · rintro ⟨a, ha, hlt⟩
    exact lt_of_lt_of_le hlt (h.greatest a (Nat.le_of_lt_succ ha))

/-- The next entry is not displaced: it is carried on. -/
theorem keep (hle : key j ≤ key (j + 1)) : Carried start key (j + 1) where
  above := by
    intro t
    rw [countAbove_succ, h.above, h.behind (j + 1) (Nat.lt_succ_self j), ← countAbove_succ]
  greatest := by
    intro a ha
    rcases Nat.eq_or_lt_of_le ha with rfl | hlt
    · exact le_rfl
    · exact (h.greatest a (Nat.le_of_lt_succ hlt)).trans hle
  behind := fun a ha => h.behind a (Nat.lt_of_succ_lt ha)
  passed := by
    intro a ha
    rcases Nat.eq_or_lt_of_le (Nat.le_of_lt_succ ha) with rfl | hlt
    · have hnone : displacement start (a + 1) = 0 := by
        by_contra hne
        exact absurd (h.lt_iff.mpr (Nat.pos_of_ne_zero hne)) (not_lt.mpr hle)
      rw [hnone]
      exact countAbove_eq_zero fun b hb => h.greatest b (Nat.le_of_lt hb)
    · exact h.passed a hlt

/-- The next entry is displaced: it is passed. -/
theorem exchange (hlt : key (j + 1) < key j) :
    Carried start (key ∘ Equiv.swap j (j + 1)) (j + 1) where
  above := by
    intro t
    have hfront : ∀ a < j, (key ∘ Equiv.swap j (j + 1)) a = key a := fun a ha =>
      comp_swap_of_ne (by omega) (by omega)
    -- up to `j` the two keys agree, and the two that are exchanged are counted either way
    have hsum := h.above t
    rw [countAbove_succ] at hsum
    rw [countAbove_succ, countAbove_succ, countAbove_succ, ← hsum, countAbove_congr hfront,
      comp_swap_left, comp_swap_right, h.behind (j + 1) (Nat.lt_succ_self j)]
    omega
  greatest := by
    intro a ha
    rw [comp_swap_right]
    rcases Nat.eq_or_lt_of_le ha with rfl | hlt'
    · rw [comp_swap_right]
    · rcases Nat.eq_or_lt_of_le (Nat.le_of_lt_succ hlt') with rfl | hlt''
      · rw [comp_swap_left]
        exact hlt.le
      · rw [comp_swap_of_ne (by omega) (by omega)]
        exact h.greatest a hlt''.le
  behind := by
    intro a ha
    rw [comp_swap_of_ne (by omega) (by omega)]
    exact h.behind a (by omega)
  passed := by
    intro a ha
    have hfront : ∀ b < a, (key ∘ Equiv.swap j (j + 1)) b = key b := fun b hb =>
      comp_swap_of_ne (by omega) (by omega)
    rw [displacement, countAbove_congr hfront]
    rcases Nat.eq_or_lt_of_le (Nat.le_of_lt_succ ha) with rfl | hlt'
    · -- of the entries that were greater, the one carried is no longer in front
      have hsum := h.above (key (a + 1))
      rw [countAbove_succ, if_pos hlt, h.behind (a + 1) (Nat.lt_succ_self a)] at hsum
      rw [comp_swap_left, displacement, h.behind (a + 1) (Nat.lt_succ_self a)]
      omega
    · rw [comp_swap_of_ne (by omega) (by omega)]
      exact h.passed a hlt'

/-- What is carried is not displaced. -/
theorem displacement_eq_zero : displacement key j = 0 :=
  countAbove_eq_zero fun a ha => h.greatest a ha.le

end Carried

/-! ## The greatest displacement

A whole pass lowers each displacement that is not zero by one, hence the greatest as well.
-/

/-- Carrying through the first `m` of `n` entries, of which the others are in their places, makes
the greatest displacement one less. -/
theorem sup_displacement_carried (h : Carried start key (m - 1)) (hmn : m ≤ n)
    (hstart : ∀ k, m ≤ k → k < n → displacement start k = 0)
    (hkey : ∀ k, m ≤ k → k < n → displacement key k = 0) :
    (Finset.range n).sup (displacement key) = (Finset.range n).sup (displacement start) - 1 := by
  apply Nat.le_antisymm
  · apply Finset.sup_le
    intro k hk
    have hkn := Finset.mem_range.mp hk
    rcases Nat.lt_trichotomy k (m - 1) with hlt | rfl | hgt
    · have hle : displacement start (k + 1) ≤ (Finset.range n).sup (displacement start) :=
        Finset.le_sup (Finset.mem_range.mpr (by omega))
      rw [h.passed k hlt]
      omega
    · rw [h.displacement_eq_zero]
      exact Nat.zero_le _
    · rw [hkey k (by omega) hkn]
      exact Nat.zero_le _
  · rcases Nat.eq_zero_or_pos ((Finset.range n).sup (displacement start)) with hzero | hpos
    · rw [hzero]
      exact Nat.zero_le _
    · -- the most displaced entry is neither the first nor in its place
      have hne : (Finset.range n).Nonempty := by
        rw [Finset.nonempty_range_iff]
        rintro rfl
        simp at hpos
      obtain ⟨k, hk, hmax⟩ := Finset.exists_mem_eq_sup _ hne (displacement start)
      have hkn := Finset.mem_range.mp hk
      have hkm : k < m := by
        by_contra hge
        rw [hmax, hstart k (Nat.le_of_not_lt hge) hkn] at hpos
        exact Nat.lt_irrefl 0 hpos
      obtain ⟨i, rfl⟩ : ∃ i, k = i + 1 := by
        cases k with
        | zero =>
            rw [hmax, displacement_zero] at hpos
            exact absurd hpos (Nat.lt_irrefl 0)
        | succ i => exact ⟨i, rfl⟩
      rw [hmax, ← h.passed i (by omega)]
      exact Finset.le_sup (Finset.mem_range.mpr (by omega))

end Slots
