import IMUtility.Lib.WeakOrder

/-! # Inversions

The pairs of places of a list whose first holds the greater element. A list in order has none, and
exchanging two neighbours of which the first is greater removes exactly one, so that sorting by such
exchanges takes as many of them as there are inversions. -/

namespace Inversions

variable {α : Type} {gt : α → α → Bool}

/-- How many pairs of places are out of order. -/
def inversions (gt : α → α → Bool) : List α → Nat
  | [] => 0
  | x :: xs => xs.countP (gt x) + inversions gt xs

/-- A list in order has no inversions. -/
theorem inversions_eq_zero {l : List α} (h : l.Pairwise fun x y => gt x y = false) :
    inversions gt l = 0 := by
  induction h with
  | nil => rfl
  | @cons x xs hx _ ih =>
      have hnone : xs.countP (gt x) = 0 := by
        rw [List.countP_eq_zero]
        intro y hy
        rw [hx y hy]
        exact Bool.false_ne_true
      rw [inversions, hnone, ih]

/-- **Exchanging neighbours** of which the first is greater removes one inversion. -/
theorem inversions_exchange {a b : α} (hab : gt a b = true) (hba : gt b a = false)
    (xs ys : List α) :
    inversions gt (xs ++ b :: a :: ys) + 1 = inversions gt (xs ++ a :: b :: ys) := by
  induction xs with
  | nil =>
      simp only [List.nil_append, inversions, List.countP_cons, hab, hba]
      simp only [Bool.false_eq_true, if_false, if_true]
      omega
  | cons x xs ih =>
      -- what is counted for `x` does not depend on the order of what follows
      have hperm : (xs ++ b :: a :: ys).Perm (xs ++ a :: b :: ys) :=
        (List.Perm.swap a b ys).append_left xs
      rw [List.cons_append, List.cons_append, inversions, inversions, hperm.countP_eq,
        Nat.add_assoc, ih]

/-- In a strict weak order, what is greater is not less. -/
theorem gt_eq_false_of_gt {S : List α} (h : StrictWeakOn gt S) {x y : α} (hx : x ∈ S) (hy : y ∈ S)
    (hxy : gt x y = true) : gt y x = false := by
  by_contra hyx
  have hself := h.trans x hx y hy x hx hxy (by simpa using hyx)
  rw [h.irrefl x hx] at hself
  cases hself

end Inversions
