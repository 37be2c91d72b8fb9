import Mathlib.Data.List.GetD

/-! # Patching a buffer

`patch buf off xs` stores `xs` into the cells from `off` on, and `window buf off n` is what stands
in `n` cells. Items with a size are laid end to end by `placed`, and patched in, in any order, by
`patchAll`. Patches that are apart do not disturb each other: every window reads back what was put
into it (`window_patchAll`), and the cells outside keep their content (`getElem?_patchAll`). -/

namespace Patch

variable {α β : Type}

/-- Store `xs` one cell after the other, from `off` on. -/
def patch (buf : List α) (off : Nat) : List α → List α
  | []      => buf
  | x :: xs => patch (buf.set off x) (off + 1) xs

/-- The `n` cells at `off`. -/
def window (buf : List α) (off n : Nat) : List α := (buf.drop off).take n

variable {buf xs : List α} {off n p : Nat}

/-! ## One patch

The cells are stored one by one, as a program stores them; which cell holds what afterwards is
`getElem?_patch`, and everything else follows from it.
-/

@[simp] theorem length_patch (buf : List α) (off : Nat) (xs : List α) :
    (patch buf off xs).length = buf.length := by
  induction xs generalizing buf off with
  | nil => rfl
  | cons x xs ih => rw [patch, ih, List.length_set]

theorem getElem?_patch (h : off + xs.length ≤ buf.length) (p : Nat) :
    (patch buf off xs)[p]?
      = if off ≤ p ∧ p < off + xs.length then xs[p - off]? else buf[p]? := by
  induction xs generalizing buf off with
  | nil => rw [patch, if_neg (by rw [List.length_nil]; omega)]
  | cons x xs ih =>
      rw [List.length_cons] at h
      rw [patch, ih (by rw [List.length_set]; omega), List.length_cons]
      rcases Nat.lt_trichotomy p off with hlt | rfl | hgt
      · rw [if_neg (by omega), if_neg (by omega), List.getElem?_set_ne (by omega)]
      · rw [if_neg (by omega), if_pos (by omega), List.getElem?_set_self (by omega), Nat.sub_self,
          List.getElem?_cons_zero]
      · have hsub : p - off = p - (off + 1) + 1 := by omega
        rw [hsub, List.getElem?_cons_succ, List.getElem?_set_ne (by omega)]
        by_cases hin : p < off + (xs.length + 1)
        · rw [if_pos (by omega), if_pos (by omega)]
        · rw [if_neg (by omega), if_neg (by omega)]

/-- The same patch, its last cell stored first. -/
theorem patch_concat (buf : List α) (off : Nat) (xs : List α) (x : α) :
    patch buf off (xs ++ [x]) = patch (buf.set (off + xs.length) x) off xs := by
  induction xs generalizing buf off with
  | nil => rfl
  | cons y ys ih =>
      have hpos : off + 1 + ys.length = off + (y :: ys).length := by
        rw [List.length_cons]; omega
      rw [List.cons_append, patch, patch, ih, hpos, List.set_comm]
      rw [List.length_cons]; omega

/-- A patch behind a pointer into the buffer. -/
theorem take_append_patch (h : off + xs.length ≤ buf.length) :
    buf.take off ++ patch (buf.drop off) 0 xs = patch buf off xs := by
  have hoff : (buf.take off).length = off := by
    rw [List.length_take]
    omega
  have htail : 0 + xs.length ≤ (buf.drop off).length := by
    rw [List.length_drop]
    omega
  apply List.ext_getElem?
  intro p
  rw [getElem?_patch h]
  rcases Nat.lt_or_ge p off with hlt | hge
  · rw [if_neg (by omega), List.getElem?_append_left (by omega), List.getElem?_take_of_lt hlt]
  · rw [List.getElem?_append_right (by omega), hoff, getElem?_patch htail, List.getElem?_drop,
      Nat.add_sub_cancel' hge, Nat.sub_zero]
    split
    · rw [if_pos (by omega)]
    · rw [if_neg (by omega)]

/-! ## Windows

A window is told cell by cell, so that windows and patches meet in the same case distinction on an
index.
-/

theorem getElem?_window (buf : List α) (off n i : Nat) :
    (window buf off n)[i]? = if i < n then buf[off + i]? else none := by
  rw [window, List.getElem?_take, List.getElem?_drop]

theorem length_window (h : off + n ≤ buf.length) : (window buf off n).length = n := by
  rw [window, List.length_take, List.length_drop]; omega

/-- A window inside the buffer, cell by cell. -/
theorem window_eq_map (h : off + n ≤ buf.length) (d : α) :
    window buf off n = (List.range n).map fun i => buf.getD (off + i) d := by
  apply List.ext_getElem?
  intro i
  rw [getElem?_window]
  by_cases hi : i < n
  · simp [hi, show off + i < buf.length by omega]
  · simp [hi]

theorem window_patch_self (h : off + xs.length ≤ buf.length) :
    window (patch buf off xs) off xs.length = xs := by
  apply List.ext_getElem?
  intro i
  rw [getElem?_window, getElem?_patch h]
  by_cases hi : i < xs.length
  · rw [if_pos hi, if_pos (by omega), Nat.add_sub_cancel_left]
  · rw [if_neg hi, List.getElem?_eq_none (by omega)]

theorem window_patch_of_apart {off' : Nat} (h : off' + xs.length ≤ buf.length)
    (hapart : off + n ≤ off' ∨ off' + xs.length ≤ off) :
    window (patch buf off' xs) off n = window buf off n := by
  apply List.ext_getElem?
  intro i
  rw [getElem?_window, getElem?_window]
  by_cases hi : i < n
  · rw [if_pos hi, if_pos hi, getElem?_patch h, if_neg (by omega)]
  · rw [if_neg hi, if_neg hi]

/-! ## Items end to end

Items that are laid out by their sizes are pairwise apart and leave no gap. Both are inductions on
the list, with the base moving along.
-/

section Placed

variable (size : β → Nat)

/-- The items, each at the end of the one before it. -/
def placed (base : Nat) : List β → List (Nat × β)
  | []      => []
  | x :: xs => (base, x) :: placed (base + size x) xs

/-- The size of all the items. -/
def total : List β → Nat
  | []      => 0
  | x :: xs => size x + total xs

/-- Two placed items do not share a cell. -/
def Apart (e e' : Nat × β) : Prop := e.1 + size e.2 ≤ e'.1 ∨ e'.1 + size e'.2 ≤ e.1

@[simp] theorem total_nil : total size [] = 0 := rfl

@[simp] theorem total_cons (x : β) (xs : List β) :
    total size (x :: xs) = size x + total size xs := rfl

theorem Apart.symm {e e' : Nat × β} (h : Apart size e e') : Apart size e' e := Or.symm h

theorem mem_of_mem_placed {base : Nat} {xs : List β} {e : Nat × β} (he : e ∈ placed size base xs) :
    e.2 ∈ xs := by
  induction xs generalizing base with
  | nil => exact absurd he List.not_mem_nil
  | cons x xs ih =>
      rcases List.mem_cons.mp he with rfl | he
      · exact List.mem_cons_self
      · exact List.mem_cons_of_mem x (ih he)

/-- Placed items lie between the base and the end. -/
theorem placed_bounds {base : Nat} {xs : List β} {e : Nat × β} (he : e ∈ placed size base xs) :
    base ≤ e.1 ∧ e.1 + size e.2 ≤ base + total size xs := by
  induction xs generalizing base with
  | nil => exact absurd he List.not_mem_nil
  | cons x xs ih =>
      rw [total_cons]
      rcases List.mem_cons.mp he with rfl | he
      · exact ⟨Nat.le_refl _, by simp only; omega⟩
      · have hb := ih he
        omega

theorem pairwise_placed (base : Nat) (xs : List β) :
    (placed size base xs).Pairwise (Apart size) := by
  induction xs generalizing base with
  | nil => exact List.Pairwise.nil
  | cons x xs ih =>
      refine List.Pairwise.cons ?_ (ih _)
      intro e he
      exact Or.inl (placed_bounds size he).1

/-- Every cell between the base and the end belongs to an item. -/
theorem exists_placed {base : Nat} {xs : List β} (hlo : base ≤ p) (hhi : p < base + total size xs) :
    ∃ e ∈ placed size base xs, e.1 ≤ p ∧ p < e.1 + size e.2 := by
  induction xs generalizing base with
  | nil => rw [total_nil] at hhi; omega
  | cons x xs ih =>
      rw [total_cons] at hhi
      rcases Nat.lt_or_ge p (base + size x) with hin | hout
      · exact ⟨(base, x), List.mem_cons_self, hlo, hin⟩
      · obtain ⟨e, he, hp⟩ := ih hout (by omega)
        exact ⟨e, List.mem_cons_of_mem _ he, hp⟩

end Placed

/-! ## Many patches

Patching in a list of items that are apart, in whichever order it has them: the first patch is
kept by all later ones.
-/

section PatchAll

variable {size : β → Nat} (bytes : β → List α)

/-- Patch placed items in, one after the other. -/
def patchAll (buf : List α) (es : List (Nat × β)) : List α :=
  es.foldl (fun buf e => patch buf e.1 (bytes e.2)) buf

@[simp] theorem length_patchAll (buf : List α) (es : List (Nat × β)) :
    (patchAll bytes buf es).length = buf.length := by
  induction es generalizing buf with
  | nil => rfl
  | cons e es ih => rw [patchAll, List.foldl_cons, ← patchAll, ih, length_patch]

variable {bytes} {es : List (Nat × β)} (hsize : ∀ x, (bytes x).length = size x)
  (hfit : ∀ e ∈ es, e.1 + size e.2 ≤ buf.length)

include hsize hfit in
/-- A cell of no item keeps its content. -/
theorem getElem?_patchAll (hout : ∀ e ∈ es, p < e.1 ∨ e.1 + size e.2 ≤ p) :
    (patchAll bytes buf es)[p]? = buf[p]? := by
  induction es generalizing buf with
  | nil => rfl
  | cons e es ih =>
      have hp := hout e List.mem_cons_self
      have hlen : e.1 + (bytes e.2).length ≤ buf.length := by
        rw [hsize]
        exact hfit e List.mem_cons_self
      rw [patchAll, List.foldl_cons, ← patchAll, ih
        (fun e' he' => by rw [length_patch]; exact hfit e' (List.mem_cons_of_mem _ he'))
        (fun e' he' => hout e' (List.mem_cons_of_mem _ he')), getElem?_patch hlen, hsize,
        if_neg (by omega)]

include hsize hfit in
/-- A window apart from every item keeps its content. -/
theorem window_patchAll_of_apart (hout : ∀ e ∈ es, off + n ≤ e.1 ∨ e.1 + size e.2 ≤ off) :
    window (patchAll bytes buf es) off n = window buf off n := by
  induction es generalizing buf with
  | nil => rfl
  | cons e es ih =>
      have hlen : e.1 + (bytes e.2).length ≤ buf.length := by
        rw [hsize]
        exact hfit e List.mem_cons_self
      have hapart := hout e List.mem_cons_self
      rw [← hsize] at hapart
      rw [patchAll, List.foldl_cons, ← patchAll, ih
        (fun e' he' => by rw [length_patch]; exact hfit e' (List.mem_cons_of_mem _ he'))
        (fun e' he' => hout e' (List.mem_cons_of_mem _ he')), window_patch_of_apart hlen hapart]

include hsize hfit in
/-- **Patches that are apart keep out of each other's way.** -/
theorem window_patchAll (hapart : es.Pairwise (Apart size)) {e : Nat × β} (he : e ∈ es) :
    window (patchAll bytes buf es) e.1 (size e.2) = bytes e.2 := by
  induction es generalizing buf with
  | nil => exact absurd he List.not_mem_nil
  | cons e' es ih =>
      rw [List.pairwise_cons] at hapart
      have hrest : ∀ e ∈ es, e.1 + size e.2 ≤ (patch buf e'.1 (bytes e'.2)).length := by
        intro e he
        rw [length_patch]
        exact hfit e (List.mem_cons_of_mem _ he)
      rw [patchAll, List.foldl_cons, ← patchAll]
      rcases List.mem_cons.mp he with rfl | he
      · -- the later patches are apart from this one
        have hkeep : window (patchAll bytes (patch buf e.1 (bytes e.2)) es) e.1 (size e.2)
            = window (patch buf e.1 (bytes e.2)) e.1 (size e.2) :=
          window_patchAll_of_apart hsize hrest hapart.1
        have hlen : e.1 + (bytes e.2).length ≤ buf.length := by
          rw [hsize]
          exact hfit e List.mem_cons_self
        rw [hkeep, ← hsize, window_patch_self hlen]
      · exact ih hrest hapart.2 he

end PatchAll

end Patch
