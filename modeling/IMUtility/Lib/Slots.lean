import Mathlib.Data.List.Basic
import Mathlib.Logic.Function.Basic

/-! # Buffers cut into slots

A buffer is a list of cells, and an access of `n` cells at an offset is checked: it is `none` when
it would leave the buffer. `slot s i` is the window of `s` cells at `i * s`. What a program that
keeps one element in each slot needs is that a slot can be read back after it is written
(`slot_setSlot_self`) and that no other slot notices (`slot_setSlot_of_ne`). -/

namespace Slots

variable {α : Type}

/-- `n` cells at `off`. -/
def read (buf : List α) (off n : Nat) : Option (List α) :=
  if off + n ≤ buf.length then some ((buf.drop off).take n) else none

/-- Overwrite the cells from `off` on with `xs`. -/
def write (buf : List α) (off : Nat) (xs : List α) : Option (List α) :=
  if off + xs.length ≤ buf.length then
    some (buf.take off ++ xs ++ buf.drop (off + xs.length))
  else none

/-- Copy `n` cells between two different buffers. -/
def copy (dst : List α) (dstOff : Nat) (src : List α) (srcOff n : Nat) : Option (List α) :=
  (read src srcOff n).bind (write dst dstOff)

/-- Copy `n` cells inside one buffer; the two windows must not overlap. -/
def copyWithin (buf : List α) (dstOff srcOff n : Nat) : Option (List α) :=
  if dstOff + n ≤ srcOff ∨ srcOff + n ≤ dstOff then (read buf srcOff n).bind (write buf dstOff)
  else none

/-- Slot `i` of a buffer of slots of `s` cells. -/
def slot (s : Nat) (buf : List α) (i : Nat) : List α := (buf.drop (i * s)).take s

/-- Put `xs` into slot `i`. -/
def setSlot (s : Nat) (buf : List α) (i : Nat) (xs : List α) : List α :=
  buf.take (i * s) ++ xs ++ buf.drop (i * s + s)

variable {s n i j : Nat} {buf xs : List α}

/-! ## Bounds -/

/-- A slot below `n` ends inside a buffer of `n` slots. -/
theorem slot_end_le (s : Nat) (hi : i < n) : i * s + s ≤ n * s := by
  have h := Nat.mul_le_mul_right s (Nat.succ_le_of_lt hi)
  rwa [Nat.succ_mul] at h

/-- Different slots are apart. -/
theorem slot_apart (s : Nat) (h : i < j) : i * s + s ≤ j * s := slot_end_le s h

theorem slots_apart (s : Nat) (hne : i ≠ j) : i * s + s ≤ j * s ∨ j * s + s ≤ i * s := by
  rcases Nat.lt_or_gt_of_ne hne with h | h
  · exact Or.inl (slot_apart s h)
  · exact Or.inr (slot_apart s h)

/-! ## Checked accesses to slots -/

theorem read_slot (hn : n * s ≤ buf.length) (hi : i < n) :
    read buf (i * s) s = some (slot s buf i) := by
  have hend := slot_end_le s hi
  rw [read, if_pos (by omega), slot]

theorem write_slot (hn : n * s ≤ buf.length) (hi : i < n) (hxs : xs.length = s) :
    write buf (i * s) xs = some (setSlot s buf i xs) := by
  have hend := slot_end_le s hi
  rw [write, hxs, if_pos (by omega), setSlot]

theorem read_whole (hxs : xs.length = s) : read xs 0 s = some xs := by
  subst hxs
  simp [read]

theorem write_whole (hbuf : buf.length = s) (hxs : xs.length = s) : write buf 0 xs = some xs := by
  simp [write, hbuf, hxs]

/-- Copying one element into a slot. -/
theorem copy_to_slot (hn : n * s ≤ buf.length) (hi : i < n) (hxs : xs.length = s) :
    copy buf (i * s) xs 0 s = some (setSlot s buf i xs) := by
  rw [copy, read_whole hxs, Option.bind_some, write_slot hn hi hxs]

/-- A whole element copied anywhere inside a buffer. -/
theorem exists_copy {off : Nat} (hoff : off + s ≤ buf.length) (hxs : xs.length = s) :
    ∃ buf', copy buf off xs 0 s = some buf' ∧ buf'.length = buf.length := by
  refine ⟨buf.take off ++ xs ++ buf.drop (off + xs.length), ?_, ?_⟩
  · rw [copy, read_whole hxs, Option.bind_some, write, if_pos (by omega)]
  · rw [List.length_append, List.length_append, List.length_take, List.length_drop]
    omega

theorem length_slot (hn : n * s ≤ buf.length) (hi : i < n) : (slot s buf i).length = s := by
  have hend := slot_end_le s hi
  rw [slot, List.length_take, List.length_drop]
  omega

/-- Copying a slot out into an element. -/
theorem copy_from_slot (hn : n * s ≤ buf.length) (hi : i < n) {out : List α}
    (hout : out.length = s) : copy out 0 buf (i * s) s = some (slot s buf i) := by
  rw [copy, read_slot hn hi, Option.bind_some, write_whole hout (length_slot hn hi)]

/-- Copying one slot onto another. -/
theorem copyWithin_slot (hn : n * s ≤ buf.length) (hi : i < n) (hj : j < n) (hne : i ≠ j) :
    copyWithin buf (i * s) (j * s) s = some (setSlot s buf i (slot s buf j)) := by
  rw [copyWithin, if_pos (slots_apart s hne), read_slot hn hj, Option.bind_some,
    write_slot hn hi (length_slot hn hj)]

/-! ## Cells

A slot is a window, and writing it replaces the cells of that window; a cell lies in front of it,
in it or behind it.
-/

theorem getElem?_slot (s : Nat) (buf : List α) (i p : Nat) :
    (slot s buf i)[p]? = if p < s then buf[i * s + p]? else none := by
  rw [slot, List.getElem?_take, List.getElem?_drop]

theorem getElem?_setSlot (hn : n * s ≤ buf.length) (hi : i < n) (hxs : xs.length = s) (p : Nat) :
    (setSlot s buf i xs)[p]?
      = if i * s ≤ p ∧ p < i * s + s then xs[p - i * s]? else buf[p]? := by
  have hend := slot_end_le s hi
  have hpre : (buf.take (i * s)).length = i * s := by
    rw [List.length_take]; omega
  have hlen : (buf.take (i * s) ++ xs).length = i * s + s := by
    rw [List.length_append, hpre, hxs]
  rw [setSlot]
  rcases Nat.lt_or_ge p (i * s) with hlt | hge
  · rw [if_neg (by omega), List.getElem?_append_left (by omega),
      List.getElem?_append_left (by omega), List.getElem?_take_of_lt hlt]
  rcases Nat.lt_or_ge p (i * s + s) with hin | hout
  · rw [if_pos ⟨hge, hin⟩, List.getElem?_append_left (by omega),
      List.getElem?_append_right (by omega), hpre]
  · rw [if_neg (by omega), List.getElem?_append_right (by omega), hlen, List.getElem?_drop]
    congr 1
    omega

/-! ## Reading what was written

The two laws of a store, for slots. With `Function.update` they are one equation about the
sequence of the slots.
-/

theorem length_setSlot (hn : n * s ≤ buf.length) (hi : i < n) (hxs : xs.length = s) :
    (setSlot s buf i xs).length = buf.length := by
  have hend := slot_end_le s hi
  simp only [setSlot, List.length_append, List.length_take, List.length_drop, hxs]
  omega

theorem slot_setSlot_self (hn : n * s ≤ buf.length) (hi : i < n) (hxs : xs.length = s) :
    slot s (setSlot s buf i xs) i = xs := by
  have hend := slot_end_le s hi
  have hpre : (buf.take (i * s)).length = i * s := by
    rw [List.length_take]; omega
  rw [slot, setSlot, List.append_assoc, List.drop_append_of_le_length (by omega),
    List.drop_of_length_le (by omega), List.nil_append, List.take_append_of_le_length (by omega),
    List.take_of_length_le (by omega)]

theorem slot_setSlot_of_ne (hn : n * s ≤ buf.length) (hi : i < n) (hxs : xs.length = s)
    (hne : j ≠ i) : slot s (setSlot s buf i xs) j = slot s buf j := by
  have hend := slot_end_le s hi
  have hpre : (buf.take (i * s)).length = i * s := by
    rw [List.length_take]; omega
  rw [slot, slot, setSlot]
  rcases Nat.lt_or_gt_of_ne hne with h | h
  · -- slot `j` lies in the part before slot `i`
    have happ := slot_apart s h
    rw [List.append_assoc, List.drop_append_of_le_length (by omega),
      List.take_append_of_le_length (by rw [List.length_drop]; omega), List.drop_take,
      List.take_take]
    congr 1
    omega
  · -- slot `j` lies in the part after slot `i`
    have happ := slot_apart s h
    have hlen : (buf.take (i * s) ++ xs).length = i * s + s := by
      rw [List.length_append, hpre, hxs]
    rw [List.drop_append, List.drop_of_length_le (by omega), List.nil_append, hlen, List.drop_drop]
    congr 2
    omega

/-- The slots of a buffer, as a sequence, after one is written. -/
theorem slot_setSlot (hn : n * s ≤ buf.length) (hi : i < n) (hxs : xs.length = s) :
    slot s (setSlot s buf i xs) = Function.update (slot s buf) i xs := by
  funext j
  by_cases hj : j = i
  · rw [hj, Function.update_self, slot_setSlot_self hn hi hxs]
  · rw [Function.update_of_ne hj, slot_setSlot_of_ne hn hi hxs hj]

end Slots
