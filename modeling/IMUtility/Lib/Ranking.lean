import Mathlib.Data.List.Sort
import Mathlib.Data.List.Perm.Basic

/-! # Keeping and taking the best of a list

Entries are ranked by a key in a linear order. Two facts about lists that are worked on one entry
at a time:

* `KeepsBest` — a bounded list that turns away or evicts its worst entry still holds the best of
  all that was offered (`KeepsBest.map_perm_take`),
* `Drains` — taking the earliest of the best entries until none is left is a stable sort
  (`Drains.perm`, `Drains.pairwise`), and there is only one (`eq_of_stable`). -/

variable {α π : Type} [LinearOrder π] (key : α → π)

/-! ## The best of what was offered

`dropped` is a witness for the entries that are no longer there; nothing is asked of its order.
Each of the three ways to treat an offer keeps the statement, and the multiset of the keys that
are kept is a consequence.
-/

/-- `kept` holds, in the order of their arrival, the `capacity` best of the entries `offered`. -/
structure KeepsBest (capacity : Nat) (offered kept : List α) : Prop where
  sublist : kept.Sublist offered
  length_eq : kept.length = min offered.length capacity
  best : ∃ dropped, offered.Perm (kept ++ dropped) ∧
    ∀ x ∈ kept, ∀ y ∈ dropped, key y ≤ key x

namespace KeepsBest

variable {key} {capacity : Nat} {offered kept : List α}

theorem nil : KeepsBest key capacity [] [] where
  sublist := List.Sublist.slnil
  length_eq := (Nat.zero_min capacity).symm
  best := ⟨[], List.Perm.nil, by simp⟩

/-- With room for another entry, nothing has been dropped yet. -/
theorem append (h : KeepsBest key capacity offered kept) (hroom : kept.length < capacity) (x : α) :
    KeepsBest key capacity (offered ++ [x]) (kept ++ [x]) where
  sublist := h.sublist.append (List.Sublist.refl [x])
  length_eq := by
    have hlen := h.length_eq
    rw [List.length_append, List.length_append, List.length_singleton]
    omega
  best := by
    -- with room left nothing has been dropped, so all that was offered is kept
    have hall : offered = kept := by
      refine (h.sublist.eq_of_length ?_).symm
      have hlen := h.length_eq
      omega
    refine ⟨[], ?_, by simp⟩
    rw [hall, List.append_nil]

/-- An entry that beats nothing in a full list may be turned away. -/
theorem refuse (h : KeepsBest key capacity offered kept) (hfull : kept.length = capacity) {x : α}
    (hx : ∀ y ∈ kept, key x ≤ key y) : KeepsBest key capacity (offered ++ [x]) kept where
  sublist := h.sublist.trans (List.sublist_append_left offered [x])
  length_eq := by
    have hlen := h.length_eq
    rw [List.length_append, List.length_singleton]
    omega
  best := by
    obtain ⟨dropped, hperm, hbest⟩ := h.best
    refine ⟨dropped ++ [x], ?_, ?_⟩
    · rw [← List.append_assoc]
      exact hperm.append_right [x]
    · intro y hy z hz
      rcases List.mem_append.mp hz with hz | hz
      · exact hbest y hy z hz
      · rw [List.mem_singleton.mp hz]
        exact hx y hy

/-- A worst entry of a full list may be evicted for one that is no worse. -/
theorem evict (h : KeepsBest key capacity offered kept) (hfull : kept.length = capacity)
    {m : α} {l₁ l₂ : List α} (hkept : kept = l₁ ++ m :: l₂) (hm : ∀ y ∈ kept, key m ≤ key y)
    {x : α} (hx : key m ≤ key x) :
    KeepsBest key capacity (offered ++ [x]) (l₁ ++ l₂ ++ [x]) := by
  subst hkept
  have hrest : (l₁ ++ l₂).Sublist (l₁ ++ m :: l₂) :=
    (List.Sublist.refl l₁).append (List.sublist_cons_self m l₂)
  obtain ⟨dropped, hperm, hbest⟩ := h.best
  have hmem : m ∈ l₁ ++ m :: l₂ := List.mem_append_right l₁ List.mem_cons_self
  refine ⟨(hrest.trans h.sublist).append (List.Sublist.refl [x]), ?_, m :: dropped, ?_, ?_⟩
  · have hlen := h.length_eq
    simp only [List.length_append, List.length_cons, List.length_nil] at hfull hlen ⊢
    omega
  -- `m` moves over to what is dropped, and `x` comes in behind
  · have hout : (l₁ ++ m :: l₂ ++ dropped).Perm (l₁ ++ l₂ ++ m :: dropped) := by
      rw [List.append_assoc, List.append_assoc]
      exact (List.perm_middle.symm).append_left l₁
    have hin : (l₁ ++ l₂ ++ m :: dropped ++ [x]).Perm (l₁ ++ l₂ ++ [x] ++ m :: dropped) := by
      rw [List.append_assoc, List.append_assoc (l₁ ++ l₂)]
      exact List.perm_append_comm.append_left (l₁ ++ l₂)
    exact ((hperm.trans hout).append_right [x]).trans hin
  · -- what is dropped was no better than `m`, and `m` is no better than what stays
    have hbelow : ∀ z ∈ m :: dropped, key z ≤ key m := by
      intro z hz
      rcases List.mem_cons.mp hz with rfl | hz
      · exact le_rfl
      · exact hbest m hmem z hz
    intro y hy z hz
    apply (hbelow z hz).trans
    rcases List.mem_append.mp hy with hy | hy
    · exact hm y (hrest.subset hy)
    · rw [List.mem_singleton.mp hy]
      exact hx

/-- **The keys kept are the greatest keys offered**, with multiplicity. -/
theorem map_perm_take (h : KeepsBest key capacity offered kept) :
    (kept.map key).Perm
      (((offered.map key).mergeSort fun a b => decide (b ≤ a)).take capacity) := by
  obtain ⟨dropped, hperm, hbest⟩ := h.best
  let sort (l : List α) := (l.map key).mergeSort fun a b => decide (b ≤ a)
  have hsorted (l : List α) : (sort l).Pairwise (· ≥ ·) := List.pairwise_mergeSort' (· ≥ ·) _
  have hsort (l : List α) : (sort l).Perm (l.map key) := List.mergeSort_perm _ _
  -- the sorted keys are the sorted keys that were kept, and then those that were dropped
  have hsplit : sort offered = sort kept ++ sort dropped := by
    apply List.Perm.eq_of_pairwise' (r := (· ≥ ·)) (hsorted offered)
    · rw [List.pairwise_append]
      refine ⟨hsorted kept, hsorted dropped, ?_⟩
      intro a ha b hb
      obtain ⟨x, hx, rfl⟩ := List.mem_map.mp ((hsort kept).subset ha)
      obtain ⟨y, hy, rfl⟩ := List.mem_map.mp ((hsort dropped).subset hb)
      exact hbest x hx y hy
    · have hmap := hperm.map key
      rw [List.map_append] at hmap
      exact ((hsort offered).trans hmap).trans
        (((hsort kept).append (hsort dropped)).symm)
  have hlen : (sort kept).length = kept.length := by rw [(hsort kept).length_eq, List.length_map]
  show (kept.map key).Perm ((sort offered).take capacity)
  rw [hsplit]
  -- fewer were offered than fit: nothing was dropped, and the sort is taken whole
  by_cases hcap : offered.length ≤ capacity
  · have hnone : dropped = [] := by
      have hkept := h.length_eq
      have hall := hperm.length_eq
      rw [List.length_append] at hall
      exact List.length_eq_zero_iff.mp (by omega)
    have hempty : sort dropped = [] := by
      rw [hnone]
      exact List.mergeSort_nil
    rw [hempty, List.append_nil, List.take_of_length_le]
    · exact (hsort kept).symm
    · have hkept := h.length_eq
      omega
  · have hkept : (sort kept).length = capacity := by
      have hkept := h.length_eq
      omega
    rw [← hkept, List.take_left]
    exact (hsort kept).symm

end KeepsBest

/-! ## Taking the best, one by one

The order of arrival is any relation that holds along the list, so that stability can be stated
for positions that the entries do not carry themselves.
-/

/-- No entry of `l` has a greater key than `x`. -/
def BestOf (l : List α) (x : α) : Prop := ∀ y ∈ l, key y ≤ key x

/-- Taking the earliest of the best entries, until none is left, gives `taken`. -/
inductive Drains : List α → List α → Prop where
  | nil : Drains [] []
  | cons (l₁ l₂ : List α) (x : α) (taken : List α) (top : BestOf key (l₁ ++ x :: l₂) x)
      (earliest : ∀ y ∈ l₁, ¬ BestOf key (l₁ ++ x :: l₂) y) (rest : Drains (l₁ ++ l₂) taken) :
      Drains (l₁ ++ x :: l₂) (x :: taken)

namespace Drains

variable {key} {l taken : List α}

theorem perm (h : Drains key l taken) : taken.Perm l := by
  induction h with
  | nil => exact List.Perm.nil
  | cons l₁ l₂ x taken _ _ _ ih => exact (ih.cons x).trans List.perm_middle.symm

/-- **Taking the best is a stable sort.** Keys do not increase, and entries of one key come in
the order in which they stand in the list, whatever relation `before` that order is. -/
theorem pairwise (h : Drains key l taken) {before : α → α → Prop} (hl : l.Pairwise before) :
    taken.Pairwise fun x y => key y < key x ∨ key x = key y ∧ before x y := by
  induction h with
  | nil => exact List.Pairwise.nil
  | cons l₁ l₂ x taken top earliest rest ih =>
      have hrest : (l₁ ++ l₂).Pairwise before :=
        hl.sublist ((List.Sublist.refl l₁).append (List.sublist_cons_self x l₂))
      rw [List.pairwise_cons]
      refine ⟨?_, ih hrest⟩
      intro y hy
      have hmem : y ∈ l₁ ++ l₂ := rest.perm.subset hy
      rcases List.mem_append.mp hmem with hy₁ | hy₂
      · -- an earlier entry with the key of `x` would have been taken instead of `x`
        left
        by_contra hnot
        apply earliest y hy₁
        intro z hz
        exact (top z hz).trans (not_lt.mp hnot)
      · have hle : key y ≤ key x := top y (List.mem_append_right l₁ (List.mem_cons_of_mem x hy₂))
        have hbefore : before x y :=
          (List.pairwise_cons.mp (List.pairwise_append.mp hl).2.1).1 y hy₂
        rcases lt_or_eq_of_le hle with hlt | heq
        · exact Or.inl hlt
        · exact Or.inr ⟨heq.symm, hbefore⟩

/-- What is taken of one key comes in the order of the list. -/
theorem filter_eq (h : Drains key l taken) (k : π) :
    taken.filter (fun x => key x = k) = l.filter (fun x => key x = k) := by
  induction h with
  | nil => rfl
  | cons l₁ l₂ x taken top earliest rest ih =>
      rw [List.filter_cons, ih, List.filter_append, List.filter_append, List.filter_cons]
      by_cases hx : key x = k
      · -- nothing in front of `x` has its key
        have hnone : l₁.filter (fun y => key y = k) = [] := by
          rw [List.filter_eq_nil_iff]
          intro y hy hky
          apply earliest y hy
          intro z hz
          rw [of_decide_eq_true hky, ← hx]
          exact top z hz
        rw [hnone, if_pos (decide_eq_true hx), if_pos (decide_eq_true hx)]
        rfl
      · rw [if_neg (by simpa using hx), if_neg (by simpa using hx)]

end Drains

section Stable

variable {key} {l l' : List α}

theorem mem_iff_of_stable
    (hfilter : ∀ k, l.filter (fun x => key x = k) = l'.filter (fun x => key x = k)) (x : α) :
    x ∈ l ↔ x ∈ l' := by
  have hx : x ∈ l.filter (fun y => key y = key x) ↔ x ∈ l'.filter (fun y => key y = key x) := by
    rw [hfilter]
  simpa using hx

/-- **A stable arrangement is unique**: two lists in order that list the entries of each key alike
are the same. -/
theorem eq_of_stable (hl : l.Pairwise fun x y => key y ≤ key x)
    (hl' : l'.Pairwise fun x y => key y ≤ key x)
    (hfilter : ∀ k, l.filter (fun x => key x = k) = l'.filter (fun x => key x = k)) : l = l' := by
  induction l generalizing l' with
  | nil =>
      cases l' with
      | nil => rfl
      | cons y ys =>
          have hy := (mem_iff_of_stable hfilter y).mpr List.mem_cons_self
          cases hy
  | cons x xs ih =>
      have hmem := mem_iff_of_stable hfilter
      cases l' with
      | nil =>
          have hx := (hmem x).mp List.mem_cons_self
          cases hx
      | cons y ys =>
          obtain ⟨hx, hxs⟩ := List.pairwise_cons.mp hl
          obtain ⟨hy, hys⟩ := List.pairwise_cons.mp hl'
          -- the heads have the greatest key, and are the first entries that do
          have hkey : key x = key y := by
            apply le_antisymm
            · rcases List.mem_cons.mp ((hmem x).mp List.mem_cons_self) with rfl | hin
              · exact le_rfl
              · exact hy x hin
            · rcases List.mem_cons.mp ((hmem y).mpr List.mem_cons_self) with rfl | hin
              · exact le_rfl
              · exact hx y hin
          have hheads := hfilter (key x)
          rw [List.filter_cons, List.filter_cons, if_pos (decide_eq_true rfl),
            if_pos (decide_eq_true hkey.symm)] at hheads
          obtain ⟨rfl, -⟩ := List.cons_eq_cons.mp hheads
          have hrest : ∀ k, xs.filter (fun z => key z = k) = ys.filter (fun z => key z = k) := by
            intro k
            have hk := hfilter k
            rw [List.filter_cons, List.filter_cons] at hk
            split at hk
            · exact (List.cons_eq_cons.mp hk).2
            · exact hk
          rw [ih hxs hys hrest]

end Stable
