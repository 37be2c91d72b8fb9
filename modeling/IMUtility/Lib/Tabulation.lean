import Mathlib.Data.Finmap
import Mathlib.Data.Finset.Card
import Mathlib.Data.Fintype.BigOperators

/-! # A finite map listed in a table

`Tabulates keyAt valueAt n m` says that the first `n` rows of a table list the finite map `m`,
each key in one row. A table that keeps this may look a key up in any row that holds it. Where the
keys are strings of one length over a finite alphabet, there are only so many rows to fill. -/

variable {κ ν : Type}

/-- The rows below `n` list the entries of `m`, without repetition of a key. -/
structure Tabulates (keyAt : Nat → κ) (valueAt : Nat → ν) [DecidableEq κ] (n : Nat)
    (m : Finmap fun _ : κ => ν) : Prop where
  distinct : ∀ i < n, ∀ j < n, keyAt i = keyAt j → i = j
  lookup_eq : ∀ i < n, m.lookup (keyAt i) = some (valueAt i)
  listed : ∀ k ∈ m, ∃ i < n, keyAt i = k

namespace Tabulates

variable [DecidableEq κ] {keyAt : Nat → κ} {valueAt : Nat → ν} {n : Nat}
  {m : Finmap fun _ : κ => ν}

theorem empty (keyAt : Nat → κ) (valueAt : Nat → ν) : Tabulates keyAt valueAt 0 ∅ where
  distinct := by intro i hi; omega
  lookup_eq := by intro i hi; omega
  listed := fun k hk => absurd hk Finmap.notMem_empty

/-- There are as many rows as keys. -/
theorem card_keys (h : Tabulates keyAt valueAt n m) : m.keys.card = n := by
  -- the keys are the image of the rows, and no two rows have one key
  have himage : m.keys = (Finset.range n).image keyAt := by
    ext k
    rw [Finmap.mem_keys, Finset.mem_image]
    constructor
    · intro hk
      obtain ⟨i, hi, heq⟩ := h.listed k hk
      exact ⟨i, Finset.mem_range.mpr hi, heq⟩
    · rintro ⟨i, hi, rfl⟩
      exact Finmap.mem_of_lookup_eq_some (h.lookup_eq i (Finset.mem_range.mp hi))
  rw [himage, Finset.card_image_of_injOn, Finset.card_range]
  intro i hi j hj
  exact h.distinct i (by simpa using hi) j (by simpa using hj)

theorem notMem_of_forall_ne (h : Tabulates keyAt valueAt n m) {k : κ}
    (hk : ∀ i < n, keyAt i ≠ k) : k ∉ m := by
  intro hmem
  obtain ⟨i, hi, heq⟩ := h.listed k hmem
  exact hk i hi heq

/-- A new value in the row of its key. -/
theorem overwrite (h : Tabulates keyAt valueAt n m) {j : Nat} (hj : j < n) (v : ν) :
    Tabulates keyAt (Function.update valueAt j v) n (m.insert (keyAt j) v) where
  distinct := h.distinct
  lookup_eq := by
    intro i hi
    by_cases hij : i = j
    · subst hij
      rw [Finmap.lookup_insert, Function.update_self]
    · have hne : keyAt i ≠ keyAt j := fun heq => hij (h.distinct i hi j hj heq)
      rw [Finmap.lookup_insert_of_ne m hne, Function.update_of_ne hij, h.lookup_eq i hi]
  listed := by
    intro k hk
    rcases Finmap.mem_insert.mp hk with rfl | hk
    · exact ⟨j, hj, rfl⟩
    · exact h.listed k hk

/-- A new key in the next row. -/
theorem append (h : Tabulates keyAt valueAt n m) {k : κ} (hk : k ∉ m) (v : ν) :
    Tabulates (Function.update keyAt n k) (Function.update valueAt n v) (n + 1)
      (m.insert k v) where
  distinct := by
    -- the new key is in no row, so the two updates do not disturb the old ones
    have hnew : ∀ i < n, keyAt i ≠ k := by
      rintro i hi rfl
      exact hk (Finmap.mem_of_lookup_eq_some (h.lookup_eq i hi))
    intro i hi j hj heq
    rcases Nat.lt_succ_iff_lt_or_eq.mp hi with hin | rfl <;>
      rcases Nat.lt_succ_iff_lt_or_eq.mp hj with hjn | rfl
    · rw [Function.update_of_ne hin.ne, Function.update_of_ne hjn.ne] at heq
      exact h.distinct i hin j hjn heq
    · rw [Function.update_of_ne hin.ne, Function.update_self] at heq
      exact absurd heq (hnew i hin)
    · rw [Function.update_of_ne hjn.ne, Function.update_self] at heq
      exact absurd heq.symm (hnew j hjn)
    · rfl
  lookup_eq := by
    intro i hi
    rcases Nat.lt_succ_iff_lt_or_eq.mp hi with hin | rfl
    · have hne : keyAt i ≠ k := by
        rintro rfl
        exact hk (Finmap.mem_of_lookup_eq_some (h.lookup_eq i hin))
      rw [Function.update_of_ne hin.ne, Function.update_of_ne hin.ne,
        Finmap.lookup_insert_of_ne m hne, h.lookup_eq i hin]
    · rw [Function.update_self, Function.update_self, Finmap.lookup_insert]
  listed := by
    intro k' hk'
    rcases Finmap.mem_insert.mp hk' with rfl | hk'
    · exact ⟨n, Nat.lt_succ_self n, Function.update_self ..⟩
    · obtain ⟨i, hi, heq⟩ := h.listed k' hk'
      exact ⟨i, Nat.lt_succ_of_lt hi, by rw [Function.update_of_ne hi.ne, heq]⟩

end Tabulates

/-! ## Keys of one length

Over a finite alphabet the strings of one length are finitely many, so a table of such keys is
bounded by their number, and while it is not that long there is a key for one more row.
-/

section FixedLength

variable {α : Type} [Fintype α] [DecidableEq α] {m : Finmap fun _ : List α => ν} {n : Nat}

/-- The strings of length `n`. -/
def listsOfLength (α : Type) [Fintype α] [DecidableEq α] (n : Nat) : Finset (List α) :=
  (Finset.univ : Finset (Fin n → α)).image List.ofFn

theorem mem_listsOfLength {l : List α} : l ∈ listsOfLength α n ↔ l.length = n := by
  rw [listsOfLength, Finset.mem_image]
  constructor
  · rintro ⟨f, -, rfl⟩
    exact List.length_ofFn
  · intro hl
    subst hl
    exact ⟨l.get, Finset.mem_univ _, List.ofFn_get l⟩

theorem card_listsOfLength (n : Nat) : (listsOfLength α n).card = Fintype.card α ^ n := by
  rw [listsOfLength, Finset.card_image_of_injective _ List.ofFn_injective, Finset.card_univ,
    Fintype.card_fun, Fintype.card_fin]

/-- There are no more keys than strings. -/
theorem card_keys_le_of_length (h : ∀ k ∈ m, k.length = n) :
    m.keys.card ≤ Fintype.card α ^ n := by
  rw [← card_listsOfLength]
  apply Finset.card_le_card
  intro k hk
  exact mem_listsOfLength.mpr (h k (Finmap.mem_keys.mp hk))

/-- While there are fewer keys than strings, there is a new one. -/
theorem exists_notMem_of_card_lt (h : m.keys.card < Fintype.card α ^ n) :
    ∃ k : List α, k.length = n ∧ k ∉ m := by
  rw [← card_listsOfLength] at h
  -- by the pigeonhole principle some string is not among the keys
  obtain ⟨k, hk, hnew⟩ := Finset.exists_mem_notMem_of_card_lt_card h
  exact ⟨k, mem_listsOfLength.mp hk, fun hmem => hnew (Finmap.mem_keys.mpr hmem)⟩

end FixedLength
