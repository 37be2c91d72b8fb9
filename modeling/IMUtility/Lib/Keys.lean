import IMUtility.Lib.Arrangement
import Mathlib.Order.Defs.PartialOrder

/-! # Sorted ends and heaps, on keys

What sorting in place needs of the keys of an array of `n` slots. `SettledTo` and `SettledFrom` are
the states of a sort that fills the array from its start and from its end. `HeapFrom lo n` is the
order of a binary heap whose root is at 0, from the position `lo` on; `SiftFrom` is that order with
one entry that may be too small for its place, and exchanging it with the greater of its children
moves it down (`SiftFrom.exchange`). -/

namespace Slots

variable {κ : Type} [Preorder κ] {key key' : Nat → κ} {m n lo i c : Nat}

/-! ## Sorted ends

A sort in place settles one more entry in each pass, at one end. What happens among the entries
that are not settled does not touch the rest, since a settled entry is compared with all of them.
-/

/-- The entries from `m` on are in order, and none is less than an entry before it. -/
def SettledFrom (key : Nat → κ) (m n : Nat) : Prop :=
  ∀ i j, i < j → m ≤ j → j < n → key i ≤ key j

theorem SettledFrom.start (key : Nat → κ) (n : Nat) : SettledFrom key n n := by
  intro i j _ hmj hjn
  omega

theorem SettledFrom.shuffle (h : SettledFrom key m n) (hmove : Shuffles m key key') :
    SettledFrom key' m n := by
  intro i j hij hmj hjn
  rw [hmove.same j hmj]
  rcases Nat.lt_or_ge i m with hi | hi
  · obtain ⟨i', hi', heq⟩ := hmove.from_below i hi
    rw [heq]
    exact h i' j (by omega) hmj hjn
  · rw [hmove.same i hi]
    exact h i j hij hmj hjn

/-- One more entry is settled when it is greatest of those that are not. -/
theorem SettledFrom.extend (h : SettledFrom key (m + 1) n) (hmax : ∀ i < m, key i ≤ key m) :
    SettledFrom key m n := by
  intro i j hij hmj hjn
  rcases Nat.eq_or_lt_of_le hmj with rfl | hlt
  · exact hmax i hij
  · exact h i j hij hlt hjn

/-- The entries before `m` are in order, and none is greater than an entry behind it. -/
def SettledTo (key : Nat → κ) (m n : Nat) : Prop :=
  ∀ i j, i < j → i < m → j < n → key i ≤ key j

theorem SettledTo.start (key : Nat → κ) (n : Nat) : SettledTo key 0 n := by
  intro i j _ him _
  omega

/-- One more entry is settled when a least one of those that are not takes its place. -/
theorem SettledTo.extend (h : SettledTo key m n) (hmc : m ≤ c) (hc : c < n)
    (hmin : ∀ j, m ≤ j → j < n → key c ≤ key j) :
    SettledTo (key ∘ Equiv.swap c m) (m + 1) n := by
  intro i j hij him hjn
  -- every entry behind `m` was, before the exchange, one of those not settled
  have hplace : ∀ j, m < j → j < n →
      ∃ j', m ≤ j' ∧ j' < n ∧ (key ∘ Equiv.swap c m) j = key j' := by
    intro j hmj hjn
    by_cases hjc : j = c
    · exact ⟨m, Nat.le_refl m, by omega, by rw [hjc, comp_swap_left]⟩
    · exact ⟨j, by omega, hjn, comp_swap_of_ne hjc (by omega)⟩
  rcases Nat.eq_or_lt_of_le (Nat.le_of_lt_succ him) with rfl | hlt
  · obtain ⟨j', hle, hlt, heq⟩ := hplace j hij hjn
    rw [comp_swap_right, heq]
    exact hmin j' hle hlt
  · -- an entry settled before stays where it is
    rw [comp_swap_of_ne (show i ≠ c by omega) (show i ≠ m by omega)]
    rcases Nat.lt_trichotomy j m with hjm | rfl | hjm
    · rw [comp_swap_of_ne (by omega) (by omega)]
      exact h i j hij hlt hjn
    · rw [comp_swap_right]
      exact h i c (by omega) hlt hc
    · obtain ⟨j', hle, hlt', heq⟩ := hplace j hjm hjn
      rw [heq]
      exact h i j' (by omega) hlt hlt'

/-! ## Heaps

The child relation is arithmetic and is unfolded for `omega`. The third field of `SiftFrom` is
what makes a step of sifting go through: once the entry has gone down, its old parent must bound
the child that came up.
-/

/-- `c` is a child of `p`. -/
def Child (p c : Nat) : Prop := c = 2 * p + 1 ∨ c = 2 * p + 2

/-- From `lo` on, no child is greater than its parent. -/
def HeapFrom (key : Nat → κ) (lo n : Nat) : Prop :=
  ∀ p c, lo ≤ p → Child p c → c < n → key c ≤ key p

/-- The same but for the entry at `i`, which may be less than its children; these are not greater
than the parent of `i`. -/
structure SiftFrom (key : Nat → κ) (lo n i : Nat) : Prop where
  le : lo ≤ i
  others : ∀ p c, lo ≤ p → p ≠ i → Child p c → c < n → key c ≤ key p
  grand : ∀ p c, lo ≤ p → Child p i → Child i c → c < n → key c ≤ key p

/-- The root of a heap is greatest. By induction along the path to the root. -/
theorem HeapFrom.le_root (h : HeapFrom key 0 n) (hi : i < n) : key i ≤ key 0 := by
  induction i using Nat.strongRecOn with
  | ind i ih =>
      rcases Nat.eq_zero_or_pos i with rfl | hpos
      · exact le_rfl
      · have hchild : Child ((i - 1) / 2) i := by
          unfold Child
          omega
        exact le_trans (h _ i (Nat.zero_le _) hchild hi) (ih _ (by omega) (by omega))

/-- Nothing is asked of the entries without children. -/
theorem HeapFrom.leaves (key : Nat → κ) (hlo : n ≤ 2 * lo + 1) : HeapFrom key lo n := by
  intro p c hp hchild hc
  unfold Child at hchild
  omega

/-- An entry put in front of a heap is the one to sift. -/
theorem HeapFrom.sift (h : HeapFrom key (i + 1) n) : SiftFrom key i n i where
  le := Nat.le_refl i
  others p c hp hne := h p c (by omega)
  grand p c hp hchild := by
    unfold Child at hchild
    omega

/-- The root of a heap changes places with its last entry, which then is the one to sift. -/
theorem HeapFrom.sift_last (h : HeapFrom key 0 (i + 1)) :
    SiftFrom (key ∘ Equiv.swap 0 i) 0 i 0 where
  le := Nat.le_refl 0
  others p c hp hne hchild hc := by
    unfold Child at hchild
    rw [comp_swap_of_ne hne (by omega), comp_swap_of_ne (by omega) (by omega)]
    exact h p c hp hchild (by omega)
  grand p c _ hchild := by
    unfold Child at hchild
    omega

/-- The root, in its new place, is settled. -/
theorem HeapFrom.settle_root (h : HeapFrom key 0 (i + 1)) (hsettled : SettledFrom key (i + 1) n) :
    SettledFrom (key ∘ Equiv.swap 0 i) i n := by
  have hmoved := hsettled.shuffle (Shuffles.exchange key (Nat.succ_pos i) (Nat.lt_succ_self i))
  apply hmoved.extend
  intro j hj
  rw [comp_swap_right]
  exact h.le_root ((swap_lt_iff (Nat.succ_pos i) (Nat.lt_succ_self i) j).mpr (by omega))

/-- Sifting ends where no child is greater. -/
theorem SiftFrom.stop (h : SiftFrom key lo n i) (hstop : ∀ c, Child i c → c < n → key c ≤ key i) :
    HeapFrom key lo n := by
  intro p c hp hchild hc
  by_cases hpi : p = i
  · rw [hpi] at hchild ⊢
    exact hstop c hchild hc
  · exact h.others p c hp hpi hchild hc

/-- **A step of sifting**: the entry changes places with a greatest child. -/
theorem SiftFrom.exchange (h : SiftFrom key lo n i) (hchild : Child i c) (hc : c < n)
    (hmax : ∀ d, Child i d → d < n → key d ≤ key c) (hless : key i ≤ key c) :
    SiftFrom (key ∘ Equiv.swap i c) lo n c where
  le := by
    have hle := h.le
    unfold Child at hchild
    omega
  others p d hp hpc hpd hd := by
    by_cases hpi : p = i
    · -- the parent now holds the greatest child
      subst hpi
      rw [comp_swap_left]
      by_cases hdc : d = c
      · rw [hdc, comp_swap_right]
        exact hless
      · rw [comp_swap_of_ne (by unfold Child at hpd; omega) hdc]
        exact hmax d hpd hd
    · rw [comp_swap_of_ne hpi hpc]
      by_cases hdi : d = i
      · rw [hdi, comp_swap_left]
        exact h.grand p c hp (hdi ▸ hpd) hchild hc
      · have hdc : d ≠ c := by
          unfold Child at hpd hchild
          omega
        rw [comp_swap_of_ne hdi hdc]
        exact h.others p d hp hpi hpd hd
  grand p d hp hpc hcd hd := by
    -- the parent of the child is the entry's old place
    have hpi : p = i := by
      unfold Child at hpc hchild
      omega
    have hci : c ≠ i := by
      unfold Child at hchild
      omega
    have hlo : lo ≤ c := by
      have hle := h.le
      unfold Child at hchild
      omega
    rw [hpi, comp_swap_left, comp_swap_of_ne (by unfold Child at hcd hchild; omega)
      (by unfold Child at hcd; omega)]
    exact h.others c d hlo hci hcd hd

end Slots
