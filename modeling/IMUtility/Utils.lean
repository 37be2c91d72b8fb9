import IMUtility.Typedefs
import IMUtility.Lib.Arrangement
import Mathlib.Data.List.GetD

/-! # `utils.c`: exchanging two elements

`Utils_swapElements` is given two pointers into a buffer, which are offsets here, and exchanges the
bytes one by one from the last to the first. On two elements of an array, the same one or not, that
exchanges their slots and touches nothing else (`swapElements_eq_exchange`). The counter of the loop
is a `uint32_t` that wraps around when the loop ends (`swapLoop_eq`). -/

namespace IMUtility
namespace Utils

/-! ## The loop

The function is modelled twice: by the bytes left, which the proofs use, and with the counter of
the source. `swapLoop_eq` says that the two are one, for every width.
-/

/-- `Utils_swapElements`, by the count `index` of bytes left. -/
def swapElements (buffer : List Byte) (first second : Nat) : Nat → List Byte
  | 0 => buffer
  | index + 1 =>
    let temp := buffer.getD (first + index) 0
    let buffer := buffer.set (first + index) (buffer.getD (second + index) 0)
    let buffer := buffer.set (second + index) temp
    swapElements buffer first second index

/-- `Utils_swapElements` with its counter, which is decremented whenever it has been tested: the
buffer, and the counter at the end. -/
def swapLoop (buffer : List Byte) (first second : Nat) (index : BitVec 32) :
    List Byte × BitVec 32 :=
  if _h : index ≠ 0#32 then
    let index := index - 1#32
    let temp := buffer.getD (first + index.toNat) 0
    let buffer := buffer.set (first + index.toNat) (buffer.getD (second + index.toNat) 0)
    let buffer := buffer.set (second + index.toNat) temp
    swapLoop buffer first second index
  else (buffer, index - 1#32)
termination_by index.toNat
decreasing_by
  have hpos := toNat_pos_of_ne_zero _h
  have hpred := toNat_pred_of_pos hpos
  omega

variable {buffer : List Byte} {first second size n i j : Nat}

/-! ## What the loop does

Two windows may be apart, or be the same one; the function is never called with windows that
overlap otherwise, for both are slots of one array. Byte by byte the result is told from the
buffer before (`getElem?_swapElements_slots`), which is all that the theorems below use.
-/

/-- The counter of the loop counts the bytes left. -/
theorem swapLoop_eq (buffer : List Byte) (first second : Nat) (index : BitVec 32) :
    swapLoop buffer first second index
      = (swapElements buffer first second index.toNat, 0#32 - 1#32) := by
  fun_induction swapLoop buffer first second index with
  | case1 buffer index hne index' temp buffer₁ buffer₂ ih =>
      have hpos := toNat_pos_of_ne_zero hne
      have hcount : index.toNat = index'.toNat + 1 := by
        rw [toNat_pred_of_pos hpos]
        omega
      rw [ih, hcount]
      rfl
  | case2 buffer index hzero =>
      rw [not_not.mp hzero]
      rfl

/-- One pass of the loop. -/
theorem getElem?_pass (hfirst : first < buffer.length) (hsecond : second < buffer.length)
    (p : Nat) :
    ((buffer.set first (buffer.getD second 0)).set second (buffer.getD first 0))[p]?
      = if p = second then buffer[first]?
        else if p = first then buffer[second]?
        else buffer[p]? := by
  rw [List.getElem?_set, List.getElem?_set, List.length_set, List.getD_eq_getElem _ _ hfirst,
    List.getD_eq_getElem _ _ hsecond, List.getElem?_eq_getElem hfirst,
    List.getElem?_eq_getElem hsecond]
  grind

/-- The element at the same offset is exchanged with itself. -/
theorem swapElements_self (hfirst : first + size ≤ buffer.length) :
    swapElements buffer first first size = buffer := by
  induction size with
  | zero => rfl
  | succ index ih =>
      -- a byte that is written over itself
      have hpass : (buffer.set (first + index) (buffer.getD (first + index) 0)).set (first + index)
          (buffer.getD (first + index) 0) = buffer := by
        apply List.ext_getElem?
        intro p
        rw [getElem?_pass (by omega) (by omega)]
        grind
      rw [swapElements]
      simp only [hpass]
      exact ih (by omega)

/-- Two windows that are apart change places. By induction on the bytes left. -/
theorem getElem?_swapElements (hapart : first + size ≤ second ∨ second + size ≤ first)
    (hfirst : first + size ≤ buffer.length) (hsecond : second + size ≤ buffer.length) (p : Nat) :
    (swapElements buffer first second size)[p]?
      = if first ≤ p ∧ p < first + size then buffer[p - first + second]?
        else if second ≤ p ∧ p < second + size then buffer[p - second + first]?
        else buffer[p]? := by
  induction size generalizing buffer with
  | zero => rw [swapElements, if_neg (by omega), if_neg (by omega)]
  | succ index ih =>
      rw [swapElements, ih (by omega) (by simp only [List.length_set]; omega)
        (by simp only [List.length_set]; omega)]
      simp only [getElem?_pass (show first + index < buffer.length by omega)
        (show second + index < buffer.length by omega)]
      -- `p` is in one of the windows, at the byte just exchanged or below it, or outside both
      grind

@[simp] theorem length_swapElements (buffer : List Byte) (first second size : Nat) :
    (swapElements buffer first second size).length = buffer.length := by
  induction size generalizing buffer with
  | zero => rfl
  | succ index ih => rw [swapElements, ih, List.length_set, List.length_set]

/-- The windows of two slots are the same or apart. -/
theorem getElem?_swapElements_slots (hi : i * size + size ≤ buffer.length)
    (hj : j * size + size ≤ buffer.length) (p : Nat) :
    (swapElements buffer (i * size) (j * size) size)[p]?
      = if i * size ≤ p ∧ p < i * size + size then buffer[p - i * size + j * size]?
        else if j * size ≤ p ∧ p < j * size + size then buffer[p - j * size + i * size]?
        else buffer[p]? := by
  by_cases hij : i = j
  · subst hij
    rw [swapElements_self hi]
    split
    case isTrue hin => rw [Nat.sub_add_cancel hin.1]
    case isFalse => rfl
  · exact getElem?_swapElements (Slots.slots_apart size hij) hi hj p

/-- **`Utils_swapElements` exchanges two elements of an array.** -/
theorem swapElements_eq_exchange (hn : n * size ≤ buffer.length) (hi : i < n) (hj : j < n) :
    swapElements buffer (i * size) (j * size) size = Slots.exchange size buffer i j := by
  have hiend := Slots.slot_end_le size hi
  have hjend := Slots.slot_end_le size hj
  have hinner := Slots.length_setSlot hn hj (Slots.length_slot hn hi)
  apply List.ext_getElem?
  intro p
  rw [getElem?_swapElements_slots (by omega) (by omega), Slots.exchange,
    Slots.getElem?_setSlot (by rwa [hinner]) hi (Slots.length_slot hn hj),
    Slots.getElem?_setSlot hn hj (Slots.length_slot hn hi), Slots.getElem?_slot,
    Slots.getElem?_slot]
  -- in each window, the byte at the same place of the other
  grind

/-! ## Windows and what is around them -/

/-- The windows of the slots `i` and `j` have changed places byte for byte, and every other byte is
as before. For `i = j` that is the whole buffer. -/
structure SlotsSwapped (size i j : Nat) (buffer swapped : List Byte) : Prop where
  first : ∀ k < size, swapped[i * size + k]? = buffer[j * size + k]?
  second : ∀ k < size, swapped[j * size + k]? = buffer[i * size + k]?
  others : ∀ p, (p < i * size ∨ i * size + size ≤ p) → (p < j * size ∨ j * size + size ≤ p) →
    swapped[p]? = buffer[p]?
  length_eq : swapped.length = buffer.length
  self : i = j → swapped = buffer

theorem swapElements_slotsSwapped (hi : i * size + size ≤ buffer.length)
    (hj : j * size + size ≤ buffer.length) :
    SlotsSwapped size i j buffer (swapElements buffer (i * size) (j * size) size) where
  first k hk := by
    rw [getElem?_swapElements_slots hi hj, if_pos (by omega), Nat.add_sub_cancel_left, Nat.add_comm]
  second k hk := by
    rw [getElem?_swapElements_slots hi hj]
    -- the two windows are one, or the byte is in the second only
    by_cases hij : i = j
    · subst hij
      rw [if_pos (by omega), Nat.add_sub_cancel_left, Nat.add_comm]
    · have hapart := Slots.slots_apart size hij
      rw [if_neg (by omega), if_pos (by omega), Nat.add_sub_cancel_left, Nat.add_comm]
  others p hpi hpj := by
    rw [getElem?_swapElements_slots hi hj, if_neg (by omega), if_neg (by omega)]
  length_eq := length_swapElements _ _ _ _
  self hij := by
    subst hij
    exact swapElements_self hi

/-- **Swapping two slots of a byte buffer is exact**, for every width of the elements and any two
slots in the buffer, the same one or not. -/
theorem swapLoop_exact (buffer : List Byte) (element_size : BitVec 32) (i j : Nat)
    (hi : i * element_size.toNat + element_size.toNat ≤ buffer.length)
    (hj : j * element_size.toNat + element_size.toNat ≤ buffer.length) :
    SlotsSwapped element_size.toNat i j buffer
      (swapLoop buffer (i * element_size.toNat) (j * element_size.toNat) element_size).1 := by
  rw [swapLoop_eq]
  exact swapElements_slotsSwapped hi hj

/-- Slots 0 and 2 of three, of two bytes each. -/
theorem swapLoop_exact_three :
    SlotsSwapped 2 0 2 [1, 2, 3, 4, 5, 6] (swapLoop [1, 2, 3, 4, 5, 6] 0 4 2#32).1 :=
  swapLoop_exact [1, 2, 3, 4, 5, 6] 2#32 0 2 (by decide) (by decide)

end Utils
end IMUtility
