import IMUtility.Sorting.Heap

/-! # `heap_sort.c`: elements behind the array

An iteration of the loop of `Heapify` hands the comparator both children of `index` before it looks
whether they are below the bound. So heap sort stays inside the array exactly when no iteration
begins at an entry whose right child is not an element (`sort_told`). For an even number of elements
the first iteration does, for a single element the last, and for any number but 0 there is a
comparator that leads one there. -/

namespace IMUtility
namespace HeapSort

open Slots
open Sorting

variable {n m s : Nat} {compareFun : CompareFun} {run : Run} {index i count : Nat}

/-! ## Where iterations begin

What a log says of the entries at which iterations began, for any property of these. It is used
here for having two children, and in `IMUtility.Sorting.HeapOverflow` for having a right child
with an offset in range.
-/

/-- Every iteration began at an entry with the property `P`. -/
def IteratesAt (P : Nat → Prop) (log : List Event) : Prop :=
  ∀ bound index, .iterate bound index ∈ log → P index

section IteratesAt

variable {P : Nat → Prop} {log log' : List Event}

theorem iteratesAt_nil (P : Nat → Prop) : IteratesAt P [] :=
  fun _ _ hmem => absurd hmem List.not_mem_nil

@[simp] theorem iteratesAt_compare {first second : Nat} :
    IteratesAt P (.compare first second :: log) ↔ IteratesAt P log := by
  simp only [IteratesAt, List.mem_cons, reduceCtorEq, false_or]

@[simp] theorem iteratesAt_swap {first second : Nat} :
    IteratesAt P (.swap first second :: log) ↔ IteratesAt P log := by
  simp only [IteratesAt, List.mem_cons, reduceCtorEq, false_or]

@[simp] theorem iteratesAt_iterate {bound : Nat} :
    IteratesAt P (.iterate bound index :: log) ↔ P index ∧ IteratesAt P log := by
  simp only [IteratesAt, List.mem_cons, Event.iterate.injEq]
  constructor
  · intro h
    exact ⟨h bound index (Or.inl ⟨rfl, rfl⟩), fun b j hmem => h b j (Or.inr hmem)⟩
  · rintro ⟨hindex, hlog⟩ b j (⟨-, rfl⟩ | hmem)
    · exact hindex
    · exact hlog b j hmem

theorem selectLargest_iteratesAt :
    IteratesAt P (selectLargest n s compareFun run index).2.log ↔
      P index ∧ IteratesAt P run.log := by
  simp only [selectLargest, compare_log, iteratesAt_compare, iteratesAt_iterate]

theorem IteratesAt.of_suffix (h : IteratesAt P log') (hsuffix : log <:+ log') : IteratesAt P log :=
  fun bound index hmem => h bound index (hsuffix.mem hmem)

end IteratesAt

/-! ## What tells whether a run stays inside

Swaps are always of elements, and a comparison hands on `index` and its children. So an element
outside is handed on exactly in an iteration at an entry whose right child is outside. This is
carried through the loops as an equivalence, `Told`, and needs no comparator to be sane.
-/

/-- Every iteration began at an entry both of whose children are among the first `n` elements. -/
def ChildrenInside (n : Nat) (log : List Event) : Prop :=
  ∀ bound index, .iterate bound index ∈ log → 2 * index + 2 < n

theorem childrenInside_nil (n : Nat) : ChildrenInside n [] := iteratesAt_nil _

@[simp] theorem childrenInside_swap {first second : Nat} {log : List Event} :
    ChildrenInside n (.swap first second :: log) ↔ ChildrenInside n log := iteratesAt_swap

/-- The entries at which iterations began tell whether all elements handed on are among the first
`n`. -/
def Told (n : Nat) (log : List Event) : Prop := InBounds n log ↔ ChildrenInside n log

theorem told_nil (n : Nat) : Told n [] := iff_of_true (inBounds_nil n) (childrenInside_nil n)

theorem Told.swap (h : Told m run.log) {first second : Nat} (hfirst : first < m)
    (hsecond : second < m) (offset : Nat → Nat) :
    Told m (run.swap s offset first second).log := by
  rw [Told, swap_log, inBounds_cons, forall_indices_swap, childrenInside_swap]
  exact (and_iff_right ⟨hfirst, hsecond⟩).trans h

theorem selectLargest_childrenInside :
    ChildrenInside m (selectLargest n s compareFun run index).2.log ↔
      2 * index + 2 < m ∧ ChildrenInside m run.log := selectLargest_iteratesAt

theorem Told.selectLargest (h : Told m run.log) :
    Told m (selectLargest n s compareFun run index).2.log := by
  rw [Told, selectLargest_inBounds, selectLargest_childrenInside]
  exact and_congr_right fun _ => h

theorem heapify_told (hnm : n ≤ m) (h : Told m run.log) :
    Told m (heapify n s compareFun run index).log := by
  fun_induction heapify n s compareFun run index with
  | case1 run index hne ih =>
      obtain ⟨hlt, hbound⟩ := selectLargest_lt hne
      exact ih (h.selectLargest.swap (by omega) (by omega) _)
  | case2 run index heq => exact h.selectLargest

theorem buildLoop_told (hnm : n ≤ m) (h : Told m run.log) :
    Told m (buildLoop n s compareFun run count).log := by
  induction count generalizing run with
  | zero => exact h
  | succ i ih => exact ih (heapify_told hnm h)

theorem extractLoop_told (hcount : count ≤ m) (h : Told m run.log) :
    Told m (extractLoop s compareFun run count).log := by
  induction count generalizing run with
  | zero => exact h
  | succ i ih =>
      exact ih (by omega) (heapify_told (by omega) (h.swap (by omega) (by omega) _))

/-- **Heap sort stays inside the array exactly when each iteration begins at an entry with two
children**, and so for the elements up to any other bound. -/
theorem sort_told (hnm : n ≤ m) (h : Told m run.log) : Told m (sort n s compareFun run).log :=
  extractLoop_told hnm (buildLoop_told hnm h)

/-! ## Iterations that take place

To show that a run leaves the array one iteration has to be found in its log. Logs only grow, so
it is enough to find it in the first call of `Heapify`, or in the last.
-/

/-- An iteration of `Heapify` takes place at the entry it is called with. -/
theorem heapify_iterates (n s : Nat) (compareFun : CompareFun) (run : Run) (index : Nat) :
    .iterate n index :: run.log <:+ (heapify n s compareFun run index).log := by
  have hfirst : ∀ (run : Run) (index : Nat),
      .iterate n index :: run.log <:+ (selectLargest n s compareFun run index).2.log := by
    intro run index
    exact ⟨[_, _], rfl⟩
  fun_induction heapify n s compareFun run index with
  | case1 run index hne ih =>
      have hrest := (List.suffix_cons _ _).trans ih
      exact (hfirst run index).trans ((List.suffix_cons _ _).trans hrest)
  | case2 run index heq => exact hfirst run index

theorem heapify_suffix (n s : Nat) (compareFun : CompareFun) (run : Run) (index : Nat) :
    run.log <:+ (heapify n s compareFun run index).log :=
  (List.suffix_cons _ _).trans (heapify_iterates n s compareFun run index)

theorem buildLoop_suffix (n s : Nat) (compareFun : CompareFun) (run : Run) (count : Nat) :
    run.log <:+ (buildLoop n s compareFun run count).log := by
  induction count generalizing run with
  | zero => exact List.suffix_refl _
  | succ i ih => exact (heapify_suffix n s compareFun run i).trans (ih _)

theorem extractLoop_suffix (s : Nat) (compareFun : CompareFun) (run : Run) (count : Nat) :
    run.log <:+ (extractLoop s compareFun run count).log := by
  induction count generalizing run with
  | zero => exact List.suffix_refl _
  | succ i ih =>
      have hpass := (List.suffix_cons _ _).trans (heapify_suffix i s compareFun
        (run.swap s (int32Offset s) 0 i) 0)
      exact hpass.trans (ih _)

/-- The first call of `Heapify` is for the last parent. -/
theorem sort_first_call (n s : Nat) (compareFun : CompareFun) (run : Run) (hn : 2 ≤ n) :
    (heapify n s compareFun run (n / 2 - 1)).log <:+ (sort n s compareFun run).log := by
  have hbuild : buildLoop n s compareFun run (n / 2)
      = buildLoop n s compareFun (heapify n s compareFun run (n / 2 - 1)) (n / 2 - 1) := by
    -- `n / 2` is not 0, so the first loop has an iteration
    obtain ⟨i, hi⟩ : ∃ i, n / 2 = i + 1 := ⟨n / 2 - 1, by omega⟩
    rw [hi]
    rfl
  rw [sort, hbuild]
  exact (buildLoop_suffix _ _ _ _ _).trans (extractLoop_suffix _ _ _ _)

/-- An even number of elements leaves the last parent without a right child. -/
theorem not_childrenInside_of_even (s : Nat) (compareFun : CompareFun) (run : Run)
    (hn : 2 ≤ n) (heven : n % 2 = 0) : ¬ ChildrenInside n (sort n s compareFun run).log := by
  intro h
  have hsuffix := (heapify_iterates n s compareFun run (n / 2 - 1)).trans
    (sort_first_call n s compareFun run hn)
  have hchild := h n (n / 2 - 1) (hsuffix.mem List.mem_cons_self)
  omega

/-- A single element is looked at in an iteration, in which there is no heap left. -/
theorem one_iterates (s : Nat) (compareFun : CompareFun) (run : Run) :
    .iterate 0 0 ∈ (sort 1 s compareFun run).log :=
  (heapify_iterates 0 s compareFun (run.swap s (int32Offset s) 0 0) 0).mem List.mem_cons_self

/-- A single element has no children. -/
theorem not_childrenInside_one (s : Nat) (compareFun : CompareFun) (run : Run) :
    ¬ ChildrenInside 1 (sort 1 s compareFun run).log := by
  intro h
  have hchild := h 0 0 (one_iterates s compareFun run)
  omega

/-- A comparator that finds everything greater sifts the last parent down to the last element. -/
theorem always_iterates (s : Nat) (run : Run) (hn : 2 ≤ n) :
    .iterate n (n - 1) ∈ (sort n s (fun _ _ _ => true) run).log := by
  have hselected : ∀ run : Run,
      (selectLargest n s (fun _ _ _ => true) run (n / 2 - 1)).1 = n - 1 := by
    intro run
    -- the right child, or the left one where it is the only one
    simp only [selectLargest, compare_fst, and_true]
    split
    · omega
    · split <;> omega
  have hiterates : .iterate n (n - 1) ∈ (heapify n s (fun _ _ _ => true) run (n / 2 - 1)).log := by
    rw [heapify, hselected, if_pos (by omega)]
    exact (heapify_iterates _ _ _ _ _).mem List.mem_cons_self
  exact (sort_first_call n s _ run hn).mem hiterates

/-- A run that stays inside sorts no element, or an odd number from 3 on. -/
theorem size_of_childrenInside (h : ChildrenInside n (sort n s compareFun run).log) :
    n = 0 ∨ (n % 2 = 1 ∧ 3 ≤ n) := by
  -- the last parent of an even number, and the single element, lack a child
  have heven : ¬ (2 ≤ n ∧ n % 2 = 0) :=
    fun hn => not_childrenInside_of_even s compareFun run hn.1 hn.2 h
  have hone : n ≠ 1 := by
    rintro rfl
    exact not_childrenInside_one s compareFun run h
  omega

/-! ## Comparators that never answer `true`

With such a comparator nothing is sifted, and an iteration begins only at the entries that the two
loops call `Heapify` for. For an odd number of elements from 3 on all these have two children, so
that for such a number some comparator stays inside.
-/

/-- Where nothing is greater, `Heapify` has one iteration. -/
theorem heapify_never (h : ChildrenInside m run.log) (hindex : 2 * index + 2 < m) :
    ChildrenInside m (heapify n s (fun _ _ _ => false) run index).log := by
  have hselected : (selectLargest n s (fun _ _ _ => false) run index).1 = index := by
    simp only [selectLargest, compare_fst, Bool.false_eq_true, and_false, if_false]
  rw [heapify, if_neg (not_not.mpr hselected), selectLargest_childrenInside]
  exact ⟨hindex, h⟩

theorem sort_never (hodd : n % 2 = 1) (hthree : 3 ≤ n) (s : Nat)
    (hlog : ChildrenInside n run.log) :
    ChildrenInside n (sort n s (fun _ _ _ => false) run).log := by
  -- the parents that the first loop goes through have two children
  have hbuild : ∀ (count : Nat) (run : Run), 2 * count + 1 ≤ n → ChildrenInside n run.log →
      ChildrenInside n (buildLoop n s (fun _ _ _ => false) run count).log := by
    intro count
    induction count with
    | zero => exact fun _ _ h => h
    | succ i ih => exact fun run hi h => ih _ (by omega) (heapify_never h (by omega))
  -- the second loop calls `Heapify` for the root
  have hextract : ∀ (count : Nat) (run : Run), ChildrenInside n run.log →
      ChildrenInside n (extractLoop s (fun _ _ _ => false) run count).log := by
    intro count
    induction count with
    | zero => exact fun _ h => h
    | succ i ih =>
        intro run h
        exact ih _ (heapify_never (childrenInside_swap.mpr h) (by omega))
  exact hextract n _ (hbuild (n / 2) run (by omega) hlog)

/-! ## The sort

For no number of elements but 0 does every comparator stay inside, since one that finds everything
greater sifts down to a leaf.
-/

/-- **When `HeapSort_sort` stays inside the array**: with every comparator only if there is no
element, and with some comparator exactly if there is none or an odd number of them, from 3 on. For
such a number it depends on where the elements are sifted: a run stays inside if no iteration of
`Heapify` begins at an entry without two children. -/
theorem sort_inBounds_iff (n : Nat) :
    ((∀ (compareFun : CompareFun) (s : Nat) (buffer : List Byte), n * s ≤ buffer.length →
      InBounds n (sort n s compareFun ⟨buffer, []⟩).log) ↔ n = 0) ∧
    ((∃ compareFun : CompareFun, ∀ (s : Nat) (buffer : List Byte), n * s ≤ buffer.length →
      InBounds n (sort n s compareFun ⟨buffer, []⟩).log) ↔ n = 0 ∨ (n % 2 = 1 ∧ 3 ≤ n)) ∧
    (∀ (s : Nat) (buffer : List Byte) (compareFun : CompareFun),
      InBounds n (sort n s compareFun ⟨buffer, []⟩).log ↔
        n = 0 ∨ (n % 2 = 1 ∧ 3 ≤ n ∧
          ∀ bound index, .iterate bound index ∈ (sort n s compareFun ⟨buffer, []⟩).log →
            2 * index + 2 < n)) := by
  have htold : ∀ (s : Nat) (buffer : List Byte) (compareFun : CompareFun),
      Told n (sort n s compareFun ⟨buffer, []⟩).log := fun _ _ _ => sort_told le_rfl (told_nil n)
  -- an array of single bytes is enough to see the sizes
  have hsize : ∀ (compareFun : CompareFun) (h : ∀ (s : Nat) (buffer : List Byte),
      n * s ≤ buffer.length → InBounds n (sort n s compareFun ⟨buffer, []⟩).log),
      ChildrenInside n (sort n 1 compareFun ⟨List.replicate n 0, []⟩).log := by
    intro compareFun h
    exact (htold _ _ _).mp (h 1 (List.replicate n 0) (by rw [List.length_replicate]; omega))
  refine ⟨?_, ?_, ?_⟩
  · constructor
    · intro h
      have hchildren := hsize (fun _ _ _ => true) (h _)
      rcases size_of_childrenInside hchildren with hzero | ⟨hodd, hthree⟩
      · exact hzero
      · -- the last element is a leaf
        have hchild := hchildren n (n - 1) (always_iterates 1 _ (by omega))
        omega
    · rintro rfl compareFun s buffer _
      exact inBounds_nil 0
  · constructor
    · rintro ⟨compareFun, h⟩
      exact size_of_childrenInside (hsize compareFun h)
    · rintro (rfl | ⟨hodd, hthree⟩)
      · exact ⟨fun _ _ _ => false, fun _ _ _ => inBounds_nil 0⟩
      -- a comparator that never reports greater keeps every index an inner one
      · exact ⟨fun _ _ _ => false, fun s buffer _ =>
          (htold s buffer _).mpr (sort_never hodd hthree s (childrenInside_nil n))⟩
  · intro s buffer compareFun
    constructor
    · intro hin
      have hchildren : ChildrenInside n _ := (htold s buffer compareFun).mp hin
      rcases size_of_childrenInside hchildren with hzero | ⟨hodd, hthree⟩
      · exact Or.inl hzero
      · exact Or.inr ⟨hodd, hthree, hchildren⟩
    · rintro (rfl | ⟨-, -, hchildren⟩)
      · exact inBounds_nil 0
      · exact (htold s buffer compareFun).mpr hchildren

/-- Two bytes in order: the comparator is given a third one. -/
theorem sort_not_inBounds_two :
    ¬ InBounds 2 (sort 2 1 (comparing 1 greaterByte) ⟨[1, 2], []⟩).log := by
  intro hin
  exact not_childrenInside_of_even 1 _ _ (by decide) (by decide)
    ((sort_told le_rfl (told_nil 2)).mp hin)

end HeapSort
end IMUtility
