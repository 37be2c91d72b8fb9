import Mathlib

/-! # Strict weak orders on finitely many elements

A comparison need only be sane on the elements that are there. On these it is a comparison of
ranks: the rank of an element is how many of them it is greater than (`StrictWeakOn.gt_iff_rankIn`).
Arguments about a comparison then are arguments about numbers. -/

variable {α : Type}

/-- On the elements of `S`, `gt` is a strict weak order: `gt x y` means that `x` is greater. -/
structure StrictWeakOn (gt : α → α → Bool) (S : List α) : Prop where
  irrefl : ∀ x ∈ S, gt x x = false
  trans : ∀ x ∈ S, ∀ y ∈ S, ∀ z ∈ S, gt x y = true → gt y z = true → gt x z = true
  incomp_trans : ∀ x ∈ S, ∀ y ∈ S, ∀ z ∈ S, gt x y = false ∧ gt y x = false →
    gt y z = false ∧ gt z y = false → gt x z = false ∧ gt z x = false

namespace StrictWeakOn

variable {gt : α → α → Bool} {S : List α} {x y z : α}

/-- What is not greater than something not greater than `z` is not greater than `z`. -/
theorem not_gt_trans (h : StrictWeakOn gt S) (hx : x ∈ S) (hy : y ∈ S) (hz : z ∈ S)
    (hxy : gt x y = false) (hyz : gt y z = false) : gt x z = false := by
  by_contra hxz
  rw [Bool.not_eq_false] at hxz
  by_cases hyx : gt y x = true
  · -- `y` is greater than `x`, and `x` than `z`
    have hbad := h.trans y hy x hx z hz hyx hxz
    rw [hyz] at hbad
    cases hbad
  by_cases hzy : gt z y = true
  · have hbad := h.trans x hx z hz y hy hxz hzy
    rw [hxy] at hbad
    cases hbad
  · -- neither is `x` comparable with `y`, nor `y` with `z`
    have hincomp := h.incomp_trans x hx y hy z hz ⟨hxy, by simpa using hyx⟩
      ⟨hyz, by simpa using hzy⟩
    rw [hincomp.1] at hxz
    cases hxz

end StrictWeakOn

/-- Two elements are equivalent when neither is greater. -/
def equivalent (gt : α → α → Bool) (x y : α) : Bool := !gt x y && !gt y x

/-- Comparing numbers is a strict weak order. -/
theorem StrictWeakOn.of_key (key : α → Nat) (S : List α) :
    StrictWeakOn (fun x y => decide (key y < key x)) S where
  irrefl x _ := by simp
  trans x _ y _ z _ := by
    simp only [decide_eq_true_eq]
    omega
  incomp_trans x _ y _ z _ := by
    simp only [decide_eq_false_iff_not]
    omega

/-- So is comparing keys of any linear order downwards. -/
theorem StrictWeakOn.of_descending {κ : Type} [LinearOrder κ] (key : α → κ) (S : List α) :
    StrictWeakOn (fun x y => decide (key x < key y)) S where
  irrefl x _ := decide_eq_false (lt_irrefl (key x))
  trans x _ y _ z _ := by
    simp only [decide_eq_true_eq]
    exact lt_trans
  incomp_trans x _ y _ z _ := by
    simp only [decide_eq_false_iff_not, not_lt]
    rintro ⟨hyx, hxy⟩ ⟨hzy, hyz⟩
    exact ⟨hzy.trans hyx, hxy.trans hyz⟩

/-- Equivalent are then the elements of one key. -/
theorem equivalent_descending {κ : Type} [LinearOrder κ] (key : α → κ) (x y : α) :
    equivalent (fun x y => decide (key x < key y)) x y = decide (key y = key x) := by
  rw [equivalent, ← decide_not, ← decide_not, ← Bool.decide_and, decide_eq_decide, not_lt, not_lt]
  exact ⟨fun h => le_antisymm h.1 h.2, fun h => ⟨h.le, h.ge⟩⟩

/-- How many places of `S` hold something `x` is greater than. -/
def rankIn (gt : α → α → Bool) (S : List α) (x : α) : Nat := S.countP (gt x)

namespace StrictWeakOn

variable {gt : α → α → Bool} {S : List α} {x y : α}

theorem rankIn_le (h : StrictWeakOn gt S) (hx : x ∈ S) (hy : y ∈ S) (hxy : gt x y = false) :
    rankIn gt S x ≤ rankIn gt S y := by
  apply List.countP_mono_left
  intro z hz hxz
  -- what `x` is greater than, `y` is greater than
  by_contra hyz
  have hbad := h.not_gt_trans hx hy hz hxy (by simpa using hyz)
  rw [hbad] at hxz
  cases hxz

theorem rankIn_lt (h : StrictWeakOn gt S) (hx : x ∈ S) (hy : y ∈ S) (hxy : gt x y = true) :
    rankIn gt S y < rankIn gt S x := by
  have hmono : ∀ z ∈ S, gt y z = true → gt x z = true :=
    fun z hz hyz => h.trans x hx y hy z hz hxy hyz
  -- `y` itself is counted for `x`, but not for `y`
  have hself : gt y y = false := h.irrefl y hy
  obtain ⟨l₁, l₂, rfl⟩ := List.append_of_mem hy
  have hleft : l₁.countP (gt y) ≤ l₁.countP (gt x) := by
    apply List.countP_mono_left
    intro z hz
    exact hmono z (List.mem_append_left _ hz)
  have hright : l₂.countP (gt y) ≤ l₂.countP (gt x) := by
    apply List.countP_mono_left
    intro z hz
    exact hmono z (List.mem_append_right _ (List.mem_cons_of_mem y hz))
  simp only [rankIn, List.countP_append, List.countP_cons, hself, hxy]
  simp only [Bool.false_eq_true, if_false, if_true]
  omega

/-- **A strict weak order compares ranks.** -/
theorem gt_iff_rankIn (h : StrictWeakOn gt S) (hx : x ∈ S) (hy : y ∈ S) :
    gt x y = true ↔ rankIn gt S y < rankIn gt S x := by
  constructor
  · exact h.rankIn_lt hx hy
  -- if `x` were not greater, its rank would be no greater
  · intro hlt
    by_contra hxy
    have hle := h.rankIn_le hx hy (by simpa using hxy)
    omega

/-- Equivalent elements are those of one rank. -/
theorem equivalent_eq (h : StrictWeakOn gt S) (hx : x ∈ S) (hy : y ∈ S) :
    equivalent gt x y = (rankIn gt S y == rankIn gt S x) := by
  have hxy := h.gt_iff_rankIn hx hy
  have hyx := h.gt_iff_rankIn hy hx
  rw [equivalent, Bool.eq_iff_iff, Bool.and_eq_true, Bool.not_eq_true', Bool.not_eq_true',
    ← Bool.not_eq_true, ← Bool.not_eq_true, hxy, hyx, beq_iff_eq]
  omega

end StrictWeakOn
