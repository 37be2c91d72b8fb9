import IMUtility.Map.Refinement

/-! # The order of the entries

An entry never moves: the rows of the two arrays list the keys in the order in which they were
first inserted, and each stands beside the value of its last insert. So the live part of both
arrays is told from the history of the calls. -/

namespace IMUtility

namespace BoundedMap

open Refinement (Reply specRun specRun_cons)

variable {κ ν : Type} [DecidableEq κ] {bound : Nat} {m : Finmap fun _ : κ => ν} {k : κ} {v : ν}

/-! ## The order in a history

The order is told from the calls and their replies: a key is noted when an insert of it succeeds
for the first time. The specification is made to carry it along, which changes nothing else of it.
-/

/-- What one call and its reply add to the keys. -/
def noteKey (order : List κ) (e : Call κ ν × Reply ν) : List κ :=
  match insertedKey e with
  | some k => if k ∈ order then order else order ++ [k]
  | none => order

/-- The keys that were inserted, in the order of their first insert. -/
def insertionOrder (trace : List (Call κ ν × Reply ν)) : List κ := trace.foldl noteKey []

/-- The bounded map that also notes the order of its keys. -/
def orderedStep (bound : Nat) (s : (Finmap fun _ : κ => ν) × List κ) (call : Call κ ν) :
    Reply ν × (Finmap fun _ : κ => ν) × List κ :=
  ((step bound s.1 call).1, (step bound s.1 call).2,
    noteKey s.2 (call, (step bound s.1 call).1))

/-- Noting the order changes no reply and no value. By induction on the calls. -/
theorem specRun_orderedStep (m : Finmap fun _ : κ => ν) (order : List κ)
    (calls : List (Call κ ν)) :
    specRun (orderedStep bound) (m, order) calls
      = ((specRun (step bound) m calls).1, (specRun (step bound) m calls).2,
          (calls.zip (specRun (step bound) m calls).1).foldl noteKey order) := by
  induction calls generalizing m order with
  | nil => rfl
  | cons call calls ih =>
      have hrest := ih (step bound m call).2 (noteKey order (call, (step bound m call).1))
      rw [specRun_cons, specRun_cons, List.zip_cons_cons, List.foldl_cons, orderedStep, hrest]

/-! ## The number of keys

Whether an insert brought a new key shows in the number of keys. The code has only this number, in
`current_size`, and the two lemmas turn it into what is noted.
-/

theorem card_keys_insert_of_mem (hk : k ∈ m) : (m.insert k v).keys.card = m.keys.card := by
  have hkeys : (m.insert k v).keys = m.keys := by
    ext k'
    rw [Finmap.mem_keys, Finmap.mem_keys, Finmap.mem_insert]
    constructor
    · rintro (rfl | hk')
      · exact hk
      · exact hk'
    · exact Or.inr
  rw [hkeys]

/-- An insert that leaves as many keys as there were brought no new one. -/
theorem noteKey_of_card_eq {order : List κ} (horder : ∀ k, k ∈ order ↔ k ∈ m)
    (hcard : (step bound m (.insert k v)).2.keys.card = m.keys.card) :
    noteKey order (.insert k v, (step bound m (.insert k v)).1) = order := by
  simp only [step] at hcard ⊢
  split at hcard
  case isTrue haccept =>
    rw [if_pos haccept]
    -- a new key would make the set of keys greater
    have hmem : k ∈ m := by
      by_contra hnew
      have hsub : m.keys ⊂ (m.insert k v).keys := by
        refine Finset.ssubset_iff_subset_ne.mpr ⟨?_, ?_⟩
        · intro k' hk'
          exact Finmap.mem_keys.mpr (Finmap.mem_insert.mpr (Or.inr (Finmap.mem_keys.mp hk')))
        · intro heq
          apply hnew
          rw [← Finmap.mem_keys, heq, Finmap.mem_keys]
          exact Finmap.mem_insert.mpr (Or.inl rfl)
      exact absurd hcard (Finset.card_lt_card hsub).ne'
    simp [noteKey, insertedKey, (horder k).mpr hmem]
  case isFalse hrefuse =>
    rw [if_neg hrefuse]
    rfl

/-- An insert that leaves one more key brought a new one. -/
theorem noteKey_of_card_succ {order : List κ} (horder : ∀ k, k ∈ order ↔ k ∈ m)
    (hcard : (step bound m (.insert k v)).2.keys.card = m.keys.card + 1) :
    noteKey order (.insert k v, (step bound m (.insert k v)).1) = order ++ [k] := by
  simp only [step] at hcard ⊢
  split at hcard
  case isTrue haccept =>
    rw [if_pos haccept]
    have hnew : k ∉ order := by
      rw [horder]
      intro hmem
      rw [card_keys_insert_of_mem hmem] at hcard
      omega
    simp [noteKey, insertedKey, hnew]
  case isFalse hrefuse => exact absurd hcard (Nat.lt_succ_self _).ne

end BoundedMap

namespace Map

open BoundedMap
open Refinement (Reply)

variable {key_size value_size bound : Nat} {map map' : Map}
  {m : Finmap fun _ : List Byte => List Byte} {key value : List Byte} {status : Bool}

/-- The keys in the order of their rows. -/
def keysInOrder (map : Map) : List (List Byte) :=
  (List.range map.currentSize.toNat).map map.keyAt

/-- The entries in the order of their rows. -/
def entries (map : Map) : List (List Byte × List Byte) :=
  (List.range map.currentSize.toNat).map fun i => (map.keyAt i, map.valueAt i)

/-! ## What an insert does to the keys

`Map_insert` leaves the array of keys as it is, or writes one key into the row at `current_size`.
Nothing moves an entry, so the keys in their rows are the keys that were noted.
-/

/-- The keys stay, or one is copied behind them. -/
theorem insert_cases (h : insert (some map) key value = some (status, some map')) :
    (map'.keys = map.keys ∧ map'.keySize = map.keySize ∧ map'.currentSize = map.currentSize) ∨
      copyTo map.keys map.currentSize map.keySize key = some map'.keys ∧
        map'.keySize = map.keySize ∧ map'.currentSize = map.currentSize + 1 := by
  obtain ⟨index, -, h⟩ := Option.bind_eq_some_iff.mp h
  split at h
  · split at h
    · obtain ⟨keys, hkeys, h⟩ := Option.bind_eq_some_iff.mp h
      obtain ⟨values, -, h⟩ := Option.bind_eq_some_iff.mp h
      obtain ⟨current_size, hsize, h⟩ := Option.bind_eq_some_iff.mp h
      cases h
      refine Or.inr ⟨hkeys, rfl, ?_⟩
      unfold int32 at hsize
      split at hsize
      · exact (Option.some.inj hsize).symm
      · cases hsize
    · cases h
      exact Or.inl ⟨rfl, rfl, rfl⟩
  · obtain ⟨values, -, h⟩ := Option.bind_eq_some_iff.mp h
    cases h
    exact Or.inl ⟨rfl, rfl, rfl⟩

namespace Represents

theorem length_keysInOrder (h : Represents key_size value_size bound map m) :
    (keysInOrder map).length = m.keys.card := by
  rw [keysInOrder, List.length_map, List.length_range, h.current_size_eq, Int.toNat_natCast]

theorem mem_keysInOrder (h : Represents key_size value_size bound map m) (k : List Byte) :
    k ∈ keysInOrder map ↔ k ∈ m := by
  rw [keysInOrder, List.mem_map, h.current_size_eq, Int.toNat_natCast]
  constructor
  · rintro ⟨i, hi, rfl⟩
    exact Finmap.mem_of_lookup_eq_some (h.tabulates.lookup_eq i (List.mem_range.mp hi))
  · intro hk
    obtain ⟨i, hi, heq⟩ := h.tabulates.listed k hk
    exact ⟨i, List.mem_range.mpr hi, heq⟩

/-- One insert, on the keys in their order. -/
theorem keysInOrder_insert (h : Represents key_size value_size bound map m)
    (hkey : key.length = key_size)
    (hinsert : Map.insert (some map) key value = some (status, some map'))
    (h' : Represents key_size value_size bound map'
      (BoundedMap.step bound m (.insert key value)).2) :
    keysInOrder map'
      = noteKey (keysInOrder map) (.insert key value,
          (BoundedMap.step bound m (.insert key value)).1) := by
  have hcard := h.current_size_eq
  have hcard' := h'.current_size_eq
  rcases insert_cases hinsert with ⟨hkeys, hsize, hcurrent⟩ | ⟨hcopy, hsize, hcurrent⟩
  -- the keys as they were, or one more behind them
  · rw [noteKey_of_card_eq h.mem_keysInOrder (by omega), keysInOrder, keysInOrder, hcurrent]
    apply List.map_congr_left
    intro i _
    rw [keyAt, keyAt, hkeys, hsize]
  · have hroom : m.keys.card < bound := by
      have := h'.card_le
      omega
    rw [noteKey_of_card_succ h.mem_keysInOrder (by omega)]
    have hfit := (offsetsFit_of_mul_lt h.keys_lt).lt hroom
    rw [hcard, h.key_size_eq, copyTo_eq hfit h.keys_le hroom hkey] at hcopy
    have hrow : map'.keyAt = Function.update map.keyAt m.keys.card key := by
      rw [keyAt_eq h'.key_size_eq, keyAt_eq h.key_size_eq, ← Option.some.inj hcopy,
        Slots.slot_setSlot h.keys_le hroom hkey]
    have hsucc : map'.currentSize.toNat = m.keys.card + 1 := by omega
    have hlen : map.currentSize.toNat = m.keys.card := by omega
    rw [keysInOrder, keysInOrder, hsucc, hlen, List.range_succ, List.map_append, hrow,
      List.map_singleton, Function.update_self]
    congr 1
    apply List.map_congr_left
    intro i hi
    exact Function.update_of_ne (List.mem_range.mp hi).ne _ _

end Represents

/-! ## All runs

The relation of the refinement, with the order beside the finite map.
-/

theorem orderedStep_refines :
    Refinement.StepRefines step (orderedStep bound) (HasSizes key_size value_size)
      (fun ptr s => ∃ map, ptr = some map ∧ Represents key_size value_size bound map s.1 ∧
        keysInOrder map = s.2) := by
  rintro _ ⟨m, order⟩ call ⟨map, rfl, h, rfl⟩ hsizes
  obtain ⟨_, hstep, map', rfl, h'⟩ := step_refines (some map) m call ⟨map, rfl, h⟩ hsizes
  refine ⟨some map', hstep, map', rfl, h', ?_⟩
  cases call with
  | insert key value =>
      obtain ⟨⟨status, ptr⟩, hinsert, heq⟩ := Option.bind_eq_some_iff.mp hstep
      obtain rfl : ptr = some map' := (Prod.mk.inj (Option.some.inj heq)).2
      exact h.keysInOrder_insert hsizes.1 hinsert h'
  | getValue key out =>
      obtain ⟨⟨status, out'⟩, -, heq⟩ := Option.bind_eq_some_iff.mp hstep
      obtain rfl : map = map' := Option.some.inj (Prod.mk.inj (Option.some.inj heq)).2
      rfl

theorem Represents.entries_eq (h : Represents key_size value_size bound map m) :
    (entries map).map (fun e => (e.1, some e.2))
      = (keysInOrder map).map fun k => (k, m.lookup k) := by
  rw [entries, keysInOrder, List.map_map, List.map_map]
  apply List.map_congr_left
  intro i hi
  rw [h.current_size_eq, Int.toNat_natCast] at hi
  show (map.keyAt i, some (map.valueAt i)) = (map.keyAt i, m.lookup (map.keyAt i))
  rw [h.tabulates.lookup_eq i (List.mem_range.mp hi)]

/-- **The arrays are told from the history.** After every run the entries stand in the order in
which their keys were first inserted, each with the value of its last insert. -/
theorem entries_eq_history (map : Map) (keys values : List Byte)
    (key_size value_size max_map_size : Nat) (hkey : 1 ≤ key_size) (hvalue : 1 ≤ value_size)
    (hmax : 1 ≤ max_map_size) (hkeys_le : max_map_size * key_size ≤ 2 ^ 31 - 1)
    (hvalues_le : max_map_size * value_size ≤ 2 ^ 31 - 1)
    (hkeys : max_map_size * key_size ≤ keys.length)
    (hvalues : max_map_size * value_size ≤ values.length)
    (calls : List (Call (List Byte) (List Byte)))
    (hcalls : ∀ c ∈ calls, HasSizes key_size value_size c) :
    ∃ map₀ map' replies,
      init map (some keys) (some values) key_size value_size max_map_size = (true, map₀) ∧
      Refinement.run step (some map₀) calls = some (replies, some map') ∧
      (entries map').map (fun e => (e.1, some e.2))
        = (insertionOrder (calls.zip replies)).map fun k =>
            (k, lastInserted k (calls.zip replies)) := by
  obtain ⟨map₀, hinit, h₀⟩ := represents_init map hkey hvalue hmax (by omega) (by omega)
    hkeys hvalues
  have hnone : keysInOrder map₀ = [] := List.eq_nil_of_length_eq_zero h₀.length_keysInOrder
  obtain ⟨_, hrun, map', rfl, h', horder⟩ :=
    Refinement.run_refines orderedStep_refines (t := (∅, [])) ⟨map₀, rfl, h₀, hnone⟩ calls hcalls
  rw [specRun_orderedStep] at hrun h' horder
  refine ⟨map₀, map', _, hinit, hrun, ?_⟩
  rw [h'.entries_eq, horder]
  apply List.map_congr_left
  intro k _
  rw [lookup_specRun]
  rfl

/-- One-byte keys and values: an overwritten key keeps its row. -/
theorem entries_eq_history_overwritten :
    ∃ map₀ map' replies,
      init ⟨[], [], 0, 0, 0, 0⟩ (some [0, 0]) (some [0, 0]) 1 1 2 = (true, map₀) ∧
      Refinement.run step (some map₀)
        [.insert [2#8] [20#8], .insert [1#8] [10#8], .insert [2#8] [21#8]]
        = some (replies, some map') ∧
      (entries map').map (fun e => (e.1, some e.2))
        = (insertionOrder ([Call.insert [2#8] [20#8], .insert [1#8] [10#8],
            .insert [2#8] [21#8]].zip replies)).map fun k =>
              (k, lastInserted k ([Call.insert [2#8] [20#8], .insert [1#8] [10#8],
                .insert [2#8] [21#8]].zip replies)) :=
  entries_eq_history ⟨[], [], 0, 0, 0, 0⟩ [0, 0] [0, 0] 1 1 2 (by decide) (by decide) (by decide)
    (by decide) (by decide) (by decide) (by decide)
    [.insert [2#8] [20#8], .insert [1#8] [10#8], .insert [2#8] [21#8]] (by simp [HasSizes])

end Map
end IMUtility
