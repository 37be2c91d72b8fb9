import IMUtility.Lib.Refinement
import IMUtility.Lib.Tabulation
import IMUtility.Map.Basic

/-! # The map is a bounded finite map

The specification is a finite map that takes a new key only while it holds fewer than `bound`
keys. The two arrays list it (`Tabulates`), a key being the bytes of its slot. What a key maps to
is then also told from the history alone: `lastInserted` is the value of its last insert that
succeeded. -/

namespace IMUtility

/-! ## The specification

Keys and values may be anything here. A reply to `getValue` hands the client's object back when
there is nothing to copy into it, as the C function leaves it alone.

What a history says is defined beside the map, from the calls and replies alone, and
`lookup_specRun` shows that the two agree: a client need not know the finite map to know what it
will be told.
-/

namespace BoundedMap

open Refinement (Reply specRun)

variable {κ ν : Type} [DecidableEq κ]

/-- The calls of a client. `getValue` brings the object the value is copied to. -/
inductive Call (κ ν : Type) where
  | insert (key : κ) (value : ν)
  | getValue (key : κ) (value : ν)

/-- The bounded map. -/
def step (bound : Nat) (m : Finmap fun _ : κ => ν) :
    Call κ ν → Reply ν × Finmap fun _ : κ => ν
  | .insert k v =>
    if (m.lookup k).isSome ∨ m.keys.card ≠ bound then (⟨true, none⟩, Finmap.insert k v m)
    else (⟨false, none⟩, m)
  | .getValue k out =>
    match m.lookup k with
    | some v => (⟨true, some v⟩, m)
    | none => (⟨false, some out⟩, m)

/-- The client's object before a call that copies into it. -/
def Call.out? : Call κ ν → Option ν
  | .getValue _ out => some out
  | .insert _ _ => none

/-- The key of a call. -/
def Call.key : Call κ ν → κ
  | .insert key _ | .getValue key _ => key

/-- What one call and its reply say about the value of `k`. -/
def record (k : κ) (found : Option ν) : Call κ ν × Reply ν → Option ν
  | (.insert k' v, reply) => if k' = k ∧ reply.status = true then some v else found
  | (.getValue _ _, _) => found

/-- The value of the last insert of `k` that succeeded. -/
def lastInserted (k : κ) (trace : List (Call κ ν × Reply ν)) : Option ν :=
  trace.foldl (record k) none

/-- The key of a call that inserted one. -/
def insertedKey : Call κ ν × Reply ν → Option κ
  | (.insert k _, reply) => if reply.status = true then some k else none
  | (.getValue _ _, _) => none

/-- The distinct keys of the inserts that succeeded. -/
def storedKeys (trace : List (Call κ ν × Reply ν)) : Finset κ :=
  (trace.filterMap insertedKey).toFinset

theorem isSome_record (k : κ) (found : Option ν) (e : Call κ ν × Reply ν) :
    (record k found e).isSome = true ↔ insertedKey e = some k ∨ found.isSome = true := by
  obtain ⟨call, reply⟩ := e
  cases call with
  | insert k' v =>
      simp only [record, insertedKey]
      by_cases hk : k' = k <;> by_cases hs : reply.status = true <;> simp [hk, hs]
  | getValue k' out => simp [record, insertedKey]

theorem isSome_foldl_record (k : κ) (found : Option ν) (trace : List (Call κ ν × Reply ν)) :
    (trace.foldl (record k) found).isSome = true
      ↔ k ∈ trace.filterMap insertedKey ∨ found.isSome = true := by
  induction trace generalizing found with
  | nil => simp
  | cons e trace ih =>
      rw [List.foldl_cons, ih, isSome_record, List.mem_filterMap, List.mem_filterMap]
      simp only [List.mem_cons, exists_eq_or_imp]
      rw [or_left_comm, or_assoc]

theorem mem_storedKeys (k : κ) (trace : List (Call κ ν × Reply ν)) :
    k ∈ storedKeys trace ↔ (lastInserted k trace).isSome = true := by
  rw [storedKeys, List.mem_toFinset, lastInserted, isSome_foldl_record]
  simp

theorem lookup_step (bound : Nat) (m : Finmap fun _ : κ => ν) (call : Call κ ν) (k : κ) :
    (step bound m call).2.lookup k = record k (m.lookup k) (call, (step bound m call).1) := by
  cases call with
  | insert k' v =>
      simp only [step, record]
      split
      -- the key that was inserted, or another
      · by_cases hk : k' = k
        · subst hk
          rw [Finmap.lookup_insert, if_pos ⟨rfl, rfl⟩]
        · rw [Finmap.lookup_insert_of_ne m (Ne.symm hk), if_neg fun h => hk h.1]
      · rw [if_neg fun h => Bool.false_ne_true h.2]
  | getValue k' out =>
      simp only [step, record]
      split <;> rfl

/-- **The map is determined by its history.** By induction on the calls. -/
theorem lookup_specRun (bound : Nat) (m : Finmap fun _ : κ => ν) (calls : List (Call κ ν)) (k : κ) :
    (specRun (step bound) m calls).2.lookup k
      = (calls.zip (specRun (step bound) m calls).1).foldl (record k) (m.lookup k) := by
  induction calls generalizing m with
  | nil => rfl
  | cons call calls ih =>
      rw [Refinement.specRun_cons]
      simp only [List.zip_cons_cons, List.foldl_cons]
      rw [← lookup_step, ← ih]

end BoundedMap

namespace Map

open BoundedMap
open Refinement (Reply succeeds_true succeeds_bind eq_of_guarded_false)

/-- One call of the C interface. -/
def step (map : Ptr Map) :
    Call (List Byte) (List Byte) → Option (Reply (List Byte) × Ptr Map)
  | .insert key value => do
    let (status, map) ← insert map key value
    some (⟨status, none⟩, map)
  | .getValue key value => do
    let (status, value) ← getValue map key value
    some (⟨status, some value⟩, map)

/-! ## Entries

In range the accesses of the source are those of slots, and do not fail.
-/

section Entries

variable {n s i : Nat} {buf x : List Byte}

theorem offset_eq (hoff : i * s < 2 ^ 31) : offset i s = some (i * s) := by
  have hmul : (i : Int) * (s : Int) = ((i * s : Nat) : Int) := (Int.natCast_mul i s).symm
  rw [offset, hmul, int32_of_nonneg (by omega) (by omega), Option.bind_eq_bind, Option.bind_some,
    if_pos (by omega), Int.toNat_natCast]

theorem sizeT_eq (s : Nat) : sizeT s = some s := by
  rw [sizeT, if_pos (by omega), Int.toNat_natCast]

theorem equalAt_eq (hoff : i * s < 2 ^ 31) (hbuf : n * s ≤ buf.length) (hi : i < n)
    (hx : x.length = s) : equalAt buf i s x = some (Slots.slot s buf i == x) := by
  simp [equalAt, offset_eq hoff, sizeT_eq, Slots.read_slot hbuf hi, Slots.read_whole hx]

theorem copyTo_eq (hoff : i * s < 2 ^ 31) (hbuf : n * s ≤ buf.length) (hi : i < n)
    (hx : x.length = s) : copyTo buf i s x = some (Slots.setSlot s buf i x) := by
  simp [copyTo, offset_eq hoff, sizeT_eq, Slots.copy_to_slot hbuf hi hx]

theorem copyFrom_eq (hoff : i * s < 2 ^ 31) (hbuf : n * s ≤ buf.length) (hi : i < n)
    (hx : x.length = s) : copyFrom x buf i s = some (Slots.slot s buf i) := by
  simp [copyFrom, offset_eq hoff, sizeT_eq, Slots.copy_from_slot hbuf hi hx]

end Entries

/-! ## The invariant

`Lists` asks for no offset to fit: which of them have to is a matter of the rows that a call uses,
and is a hypothesis of the operations below. `Represents` adds that every offset up to the bound
fits, which is what a client is told to ask for. The runs under weaker conditions are in
`IMUtility.Map.Bounds`.
-/

/-- Key `i` of the map, and its value. -/
def keyAt (map : Map) (i : Nat) : List Byte := Slots.slot map.keySize.toNat map.keys i

@[inherit_doc keyAt]
def valueAt (map : Map) (i : Nat) : List Byte := Slots.slot map.valueSize.toNat map.values i

/-- The offsets of the first `n` slots of `size` bytes fit an `int32_t`. -/
def OffsetsFit (n size : Nat) : Prop := (n - 1) * size < 2 ^ 31

instance (n size : Nat) : Decidable (OffsetsFit n size) := inferInstanceAs (Decidable (_ < _))

theorem OffsetsFit.lt {n i size : Nat} (h : OffsetsFit n size) (hi : i < n) : i * size < 2 ^ 31 :=
  lt_of_le_of_lt (Nat.mul_le_mul_right size (by omega)) h

theorem OffsetsFit.mono {m n size : Nat} (h : OffsetsFit n size) (hle : m ≤ n) :
    OffsetsFit m size := lt_of_le_of_lt (Nat.mul_le_mul_right size (Nat.sub_le_sub_right hle 1)) h

theorem offsetsFit_of_mul_lt {n size : Nat} (h : n * size < 2 ^ 31) : OffsetsFit n size :=
  lt_of_le_of_lt (Nat.mul_le_mul_right size (Nat.sub_le n 1)) h

/-- The invariant: the two arrays have room for `bound` entries, and list the finite map `m`. -/
structure Lists (key_size value_size bound : Nat) (map : Map)
    (m : Finmap fun _ : List Byte => List Byte) : Prop where
  key_size_eq : map.keySize = key_size
  value_size_eq : map.valueSize = value_size
  max_map_size_eq : map.maxMapSize = bound
  bound_lt : bound < 2 ^ 31
  keys_le : bound * key_size ≤ map.keys.length
  values_le : bound * value_size ≤ map.values.length
  card_le : m.keys.card ≤ bound
  current_size_eq : map.currentSize = m.keys.card
  tabulates : Tabulates map.keyAt map.valueAt m.keys.card m

/-- The invariant where `bound` entries have offsets that fit. -/
structure Represents (key_size value_size bound : Nat) (map : Map)
    (m : Finmap fun _ : List Byte => List Byte) : Prop
    extends Lists key_size value_size bound map m where
  keys_lt : bound * key_size < 2 ^ 31
  values_lt : bound * value_size < 2 ^ 31

variable {key_size value_size bound : Nat} {map : Map} {m : Finmap fun _ : List Byte => List Byte}
  {key value : List Byte}

theorem keyAt_eq (h : map.keySize = key_size) : map.keyAt = Slots.slot key_size map.keys := by
  funext i
  rw [keyAt, h, Int.toNat_natCast]

theorem valueAt_eq (h : map.valueSize = value_size) :
    map.valueAt = Slots.slot value_size map.values := by
  funext i
  rw [valueAt, h, Int.toNat_natCast]

/-! ## The operations

`GetIndex` is a linear search and finds the first row with an equal key. That there is only one
such row is `Tabulates`, and comes from the inserts: a key is written into a new row only after
the search has not found it.
-/

/-! ### Their branches -/

section Branches

variable {out values : List Byte} {index : Int}

theorem insert_of_found (hindex : getIndex map key map.currentSize = some index)
    (hfound : index ≠ indexNotFound)
    (hcopy : copyTo map.values index map.valueSize value = some values) :
    insert (some map) key value = some (true, some { map with values := values }) := by
  simp only [insert, hindex, Option.bind_eq_bind, Option.bind_some]
  rw [if_neg hfound, hcopy]
  rfl

theorem insert_of_full (hindex : getIndex map key map.currentSize = some indexNotFound)
    (hfull : map.currentSize = map.maxMapSize) :
    insert (some map) key value = some (false, some map) := by
  simp only [insert, hindex, Option.bind_eq_bind, Option.bind_some, if_true]
  rw [if_neg fun hne => hne hfull]

theorem insert_of_room {keys : List Byte}
    (hindex : getIndex map key map.currentSize = some indexNotFound)
    (hroom : map.currentSize ≠ map.maxMapSize)
    (hkeys : copyTo map.keys map.currentSize map.keySize key = some keys)
    (hvalues : copyTo map.values map.currentSize map.valueSize value = some values)
    (hsucc : int32 (map.currentSize + 1) = some (map.currentSize + 1)) :
    insert (some map) key value
      = some (true, some { map with
          keys := keys, values := values, currentSize := map.currentSize + 1 }) := by
  simp only [insert, hindex, Option.bind_eq_bind, Option.bind_some, if_true]
  rw [if_pos hroom, hkeys, hvalues, hsucc]
  rfl

theorem getValue_of_found (hindex : getIndex map key map.currentSize = some index)
    (hfound : index ≠ indexNotFound)
    (hcopy : copyFrom out map.values index map.valueSize = some value) :
    getValue (some map) key out = some (true, value) := by
  simp only [getValue, hindex, Option.bind_eq_bind, Option.bind_some]
  rw [if_pos hfound, hcopy]
  rfl

theorem getValue_of_not_found (hindex : getIndex map key map.currentSize = some indexNotFound) :
    getValue (some map) key out = some (false, out) := by
  simp only [getValue, hindex, Option.bind_eq_bind, Option.bind_some]
  rfl

/-- No index of an entry is `INDEX_NOT_FOUND`. -/
theorem natCast_ne_indexNotFound (j : Nat) : (j : Int) ≠ indexNotFound := by
  rw [indexNotFound]
  omega

end Branches

/-! ### In the invariant

The search compares the keys of the entries that there are, and an insert uses one row more when
its key is new and there is room for it. The offsets of `r` rows have to fit, which are all that
the call uses. -/

namespace Lists

variable (h : Lists key_size value_size bound map m)
include h

/-- The search from `i` on: the index of an equal key, or `INDEX_NOT_FOUND` and no key is equal.
By induction on the passes left. -/
theorem getIndexLoop_spec (hfit : OffsetsFit m.keys.card key_size) (hkey : key.length = key_size)
    (n i : Nat) (hn : i + n ≤ m.keys.card) :
    (∃ j, i ≤ j ∧ j < i + n ∧ getIndexLoop map key i n = some (j : Int) ∧ map.keyAt j = key) ∨
      (getIndexLoop map key i n = some indexNotFound ∧
        ∀ j, i ≤ j → j < i + n → map.keyAt j ≠ key) := by
  induction n generalizing i with
  | zero => exact Or.inr ⟨rfl, fun j _ _ => by omega⟩
  | succ n ih =>
      have hcard := h.card_le
      have hequal : equalAt map.keys i map.keySize key = some (map.keyAt i == key) := by
        rw [h.key_size_eq, equalAt_eq (hfit.lt (by omega)) h.keys_le (by omega) hkey,
          keyAt_eq h.key_size_eq]
      have hstep : getIndexLoop map key i (n + 1)
          = if map.keyAt i = key then some (i : Int) else getIndexLoop map key (i + 1 : Nat) n := by
        simp [getIndexLoop, hequal]
      -- the row of this pass, and then the rows behind it
      by_cases hi : map.keyAt i = key
      · exact Or.inl ⟨i, le_rfl, by omega, by rw [hstep, if_pos hi], hi⟩
      · rw [hstep, if_neg hi]
        rcases ih (i + 1) (by omega) with ⟨j, hle, hlt, hrun, hj⟩ | ⟨hrun, hnone⟩
        · exact Or.inl ⟨j, by omega, by omega, hrun, hj⟩
        · refine Or.inr ⟨hrun, ?_⟩
          intro j hle hlt
          rcases Nat.eq_or_lt_of_le hle with rfl | hlt'
          · exact hi
          · exact hnone j hlt' (by omega)

/-- `GetIndex` finds the row of a key of the map, and no row of any other. -/
theorem getIndex_spec (hfit : OffsetsFit m.keys.card key_size) (hkey : key.length = key_size) :
    (∃ j < m.keys.card, getIndex map key map.currentSize = some (j : Int) ∧ map.keyAt j = key) ∨
      (getIndex map key map.currentSize = some indexNotFound ∧ key ∉ m) := by
  have hrun : getIndex map key map.currentSize = getIndexLoop map key (0 : Nat) m.keys.card := by
    rw [getIndex, h.current_size_eq, Int.toNat_natCast, Int.natCast_zero]
  rw [hrun]
  rcases h.getIndexLoop_spec hfit hkey m.keys.card 0 (by omega)
    with ⟨j, -, hj, hfound⟩ | ⟨hnot, hnone⟩
  · exact Or.inl ⟨j, by omega, hfound⟩
  · exact Or.inr ⟨hnot, h.tabulates.notMem_of_forall_ne fun i hi => hnone i (by omega) (by omega)⟩

/-- An overwritten value. -/
theorem setValue (hvalue : value.length = value_size) {j : Nat} (hj : j < m.keys.card) :
    Lists key_size value_size bound
      { map with values := Slots.setSlot value_size map.values j value }
      (m.insert (map.keyAt j) value) := by
  have hjb : j < bound := lt_of_lt_of_le hj h.card_le
  have hlen := Slots.length_setSlot h.values_le hjb hvalue
  let map' := { map with values := Slots.setSlot value_size map.values j value }
  have hsize : map'.valueSize = value_size := h.value_size_eq
  have htab : Tabulates map'.keyAt map'.valueAt m.keys.card (m.insert (map.keyAt j) value) := by
    rw [valueAt_eq hsize, Slots.slot_setSlot h.values_le hjb hvalue, ← valueAt_eq h.value_size_eq]
    exact h.tabulates.overwrite hj value
  have hcard := htab.card_keys
  exact { h with
    values_le := by rw [hlen]; exact h.values_le
    card_le := by rw [hcard]; exact h.card_le
    current_size_eq := by rw [hcard]; exact h.current_size_eq
    tabulates := by rw [hcard]; exact htab }

/-- A new entry behind the last one. -/
theorem addEntry (hkey : key.length = key_size) (hvalue : value.length = value_size)
    (hnew : key ∉ m) (hroom : m.keys.card < bound) :
    Lists key_size value_size bound
      { map with keys := Slots.setSlot key_size map.keys m.keys.card key,
                 values := Slots.setSlot value_size map.values m.keys.card value,
                 currentSize := map.currentSize + 1 }
      (m.insert key value) := by
  have hklen := Slots.length_setSlot h.keys_le hroom hkey
  have hvlen := Slots.length_setSlot h.values_le hroom hvalue
  let map' := { map with keys := Slots.setSlot key_size map.keys m.keys.card key,
                         values := Slots.setSlot value_size map.values m.keys.card value,
                         currentSize := map.currentSize + 1 }
  have hksize : map'.keySize = key_size := h.key_size_eq
  have hvsize : map'.valueSize = value_size := h.value_size_eq
  have htab : Tabulates map'.keyAt map'.valueAt (m.keys.card + 1) (m.insert key value) := by
    rw [keyAt_eq hksize, valueAt_eq hvsize, Slots.slot_setSlot h.keys_le hroom hkey,
      Slots.slot_setSlot h.values_le hroom hvalue, ← keyAt_eq h.key_size_eq,
      ← valueAt_eq h.value_size_eq]
    exact h.tabulates.append hnew value
  have hcard := htab.card_keys
  exact { h with
    keys_le := by rw [hklen]; exact h.keys_le
    values_le := by rw [hvlen]; exact h.values_le
    card_le := by rw [hcard]; exact hroom
    current_size_eq := by
      rw [hcard, h.current_size_eq]
      exact (Int.natCast_succ m.keys.card).symm
    tabulates := by rw [hcard]; exact htab }

variable {r : Nat} (hkeys : OffsetsFit r key_size) (hvalues : OffsetsFit r value_size)
  (hrows : m.keys.card ≤ r)
include hkeys hvalues hrows

theorem insert (hnext : key ∉ m → m.keys.card < bound → m.keys.card < r)
    (hkey : key.length = key_size) (hvalue : value.length = value_size) :
    ∃ map', Map.insert (some map) key value
        = some ((BoundedMap.step bound m (.insert key value)).1.status, some map') ∧
      Lists key_size value_size bound map' (BoundedMap.step bound m (.insert key value)).2 := by
  rw [BoundedMap.step]
  rcases h.getIndex_spec (hkeys.mono hrows) hkey with ⟨j, hj, hindex, rfl⟩ | ⟨hindex, hnew⟩
  -- the key is in row `j`, or in none
  · have hfound : (m.lookup (map.keyAt j)).isSome = true :=
      Option.isSome_of_eq_some (h.tabulates.lookup_eq j hj)
    have hcopy := copyTo_eq (hvalues.lt (lt_of_lt_of_le hj hrows)) h.values_le
      (lt_of_lt_of_le hj h.card_le) hvalue
    rw [← h.value_size_eq] at hcopy
    rw [if_pos (Or.inl hfound)]
    exact ⟨_, insert_of_found hindex (natCast_ne_indexNotFound j) hcopy, h.setValue hvalue hj⟩
  · have hnone : ¬ (m.lookup key).isSome = true := by
      rw [Finmap.lookup_isSome]
      exact hnew
    by_cases hfull : m.keys.card = bound
    · rw [if_neg (by rintro (hsome | hne); exacts [hnone hsome, hne hfull])]
      exact ⟨map, insert_of_full hindex (by
        rw [h.current_size_eq, h.max_map_size_eq, hfull]), h⟩
    · have hroom : m.keys.card < bound := lt_of_le_of_ne h.card_le hfull
      have hsize : map.currentSize ≠ map.maxMapSize := by
        rw [h.current_size_eq, h.max_map_size_eq]
        exact fun heq => hfull (Int.natCast_inj.mp heq)
      have hkcopy := copyTo_eq (hkeys.lt (hnext hnew hroom)) h.keys_le hroom hkey
      have hvcopy := copyTo_eq (hvalues.lt (hnext hnew hroom)) h.values_le hroom hvalue
      rw [← h.current_size_eq, ← h.key_size_eq] at hkcopy
      rw [← h.current_size_eq, ← h.value_size_eq] at hvcopy
      have hsucc : int32 (map.currentSize + 1) = some (map.currentSize + 1) := by
        have hcur := h.current_size_eq
        have hbound := h.bound_lt
        exact int32_of_nonneg (by omega) (by omega)
      rw [if_pos (Or.inr hfull)]
      exact ⟨_, insert_of_room hindex hsize hkcopy hvcopy hsucc,
        h.addEntry hkey hvalue hnew hroom⟩

theorem getValue (hkey : key.length = key_size) {out : List Byte} (hout : out.length = value_size) :
    Map.getValue (some map) key out
      = some (match m.lookup key with | some v => (true, v) | none => (false, out)) := by
  rcases h.getIndex_spec (hkeys.mono hrows) hkey with ⟨j, hj, hindex, rfl⟩ | ⟨hindex, hnew⟩
  · have hcopy := copyFrom_eq (hvalues.lt (lt_of_lt_of_le hj hrows)) h.values_le
      (lt_of_lt_of_le hj h.card_le) hout
    rw [← h.value_size_eq, ← valueAt_eq h.value_size_eq] at hcopy
    rw [h.tabulates.lookup_eq j hj]
    exact getValue_of_found hindex (natCast_ne_indexNotFound j) hcopy
  · rw [Finmap.lookup_eq_none.mpr hnew]
    exact getValue_of_not_found hindex

end Lists

/-- The key and the object a call brings have the sizes of the map. -/
def HasSizes (key_size value_size : Nat) : Call (List Byte) (List Byte) → Prop
  | .insert key value | .getValue key value => key.length = key_size ∧ value.length = value_size

/-- **One call**, in the invariant: the reply of the bounded map, and the invariant again. -/
theorem Lists.step {call : Call (List Byte) (List Byte)} {r : Nat}
    (h : Lists key_size value_size bound map m) (hkeys : OffsetsFit r key_size)
    (hvalues : OffsetsFit r value_size) (hrows : m.keys.card ≤ r)
    (hnext : call.key ∉ m → m.keys.card < bound → m.keys.card < r)
    (hsizes : HasSizes key_size value_size call) :
    ∃ map', Map.step (some map) call = some ((BoundedMap.step bound m call).1, some map') ∧
      Lists key_size value_size bound map' (BoundedMap.step bound m call).2 := by
  cases call with
  | insert key value =>
      have hnext : key ∉ m → m.keys.card < bound → m.keys.card < r := hnext
      obtain ⟨map', hinsert, h'⟩ := h.insert hkeys hvalues hrows hnext hsizes.1 hsizes.2
      refine ⟨map', ?_, h'⟩
      rw [Map.step, hinsert]
      simp only [Option.bind_eq_bind, Option.bind_some, BoundedMap.step]
      split <;> rfl
  | getValue key out =>
      have hget := h.getValue hkeys hvalues hrows hsizes.1 hsizes.2
      refine ⟨map, ?_, ?_⟩
      · rw [Map.step, hget, BoundedMap.step]
        cases m.lookup key <;> rfl
      · rw [BoundedMap.step]
        cases m.lookup key <;> exact h

/-! ### Where every offset below the bound fits -/

namespace Represents

variable (h : Represents key_size value_size bound map m)
include h

theorem insert (hkey : key.length = key_size) (hvalue : value.length = value_size) :
    ∃ map', Map.insert (some map) key value
        = some ((BoundedMap.step bound m (.insert key value)).1.status, some map') ∧
      Represents key_size value_size bound map'
        (BoundedMap.step bound m (.insert key value)).2 := by
  obtain ⟨map', hinsert, h'⟩ := h.toLists.insert (offsetsFit_of_mul_lt h.keys_lt)
    (offsetsFit_of_mul_lt h.values_lt) h.card_le (fun _ hroom => hroom) hkey hvalue
  exact ⟨map', hinsert, h', h.keys_lt, h.values_lt⟩

theorem getValue (hkey : key.length = key_size) {out : List Byte} (hout : out.length = value_size) :
    Map.getValue (some map) key out
      = some (match m.lookup key with | some v => (true, v) | none => (false, out)) :=
  h.toLists.getValue (offsetsFit_of_mul_lt h.keys_lt)
    (offsetsFit_of_mul_lt h.values_lt) h.card_le hkey hout

end Represents

/-! ## All runs

One call refines one step, so a run refines a run (`Refinement.run_refines`), from the empty map
that `Map_init` leaves.
-/

theorem step_refines :
    Refinement.StepRefines step (BoundedMap.step bound) (HasSizes key_size value_size)
      (fun ptr m => ∃ map, ptr = some map ∧ Represents key_size value_size bound map m) := by
  rintro _ m call ⟨map, rfl, h⟩ hsizes
  obtain ⟨map', hstep, h'⟩ := h.toLists.step (offsetsFit_of_mul_lt h.keys_lt)
    (offsetsFit_of_mul_lt h.values_lt) h.card_le (fun _ hroom => hroom) hsizes
  exact ⟨some map', hstep, map', rfl, h', h.keys_lt, h.values_lt⟩

/-- `Map_init` establishes the invariant for the empty map. -/
theorem lists_init (map : Map) {keys values : List Byte} (hkey : 0 < key_size)
    (hvalue : 0 < value_size) (hbound : 0 < bound) (hbound_lt : bound < 2 ^ 31)
    (hkeys : bound * key_size ≤ keys.length) (hvalues : bound * value_size ≤ values.length) :
    ∃ map', init map (some keys) (some values) key_size value_size bound = (true, map') ∧
      Lists key_size value_size bound map' ∅ := by
  have hargs : (key_size : Int) ≠ 0 ∧ (value_size : Int) ≠ 0 ∧ (bound : Int) ≠ 0 := by omega
  refine ⟨_, if_pos hargs, ⟨rfl, rfl, rfl, hbound_lt, hkeys, hvalues, ?_, ?_, ?_⟩⟩
  · exact Nat.zero_le _
  · rfl
  · exact Tabulates.empty _ _

theorem represents_init (map : Map) {keys values : List Byte} (hkey : 0 < key_size)
    (hvalue : 0 < value_size) (hbound : 0 < bound) (hkeys_lt : bound * key_size < 2 ^ 31)
    (hvalues_lt : bound * value_size < 2 ^ 31) (hkeys : bound * key_size ≤ keys.length)
    (hvalues : bound * value_size ≤ values.length) :
    ∃ map', init map (some keys) (some values) key_size value_size bound = (true, map') ∧
      Represents key_size value_size bound map' ∅ := by
  have hbound_lt : bound < 2 ^ 31 := lt_of_le_of_lt (Nat.le_mul_of_pos_right bound hkey) hkeys_lt
  obtain ⟨map', hinit, h⟩ := lists_init map hkey hvalue hbound hbound_lt hkeys hvalues
  exact ⟨map', hinit, h, hkeys_lt, hvalues_lt⟩

/-! ### Failing calls -/

theorem insert_false {map' : Ptr Map} (h : insert (some map) key value = some (false, map')) :
    map' = some map := by
  obtain ⟨index, -, h⟩ := Option.bind_eq_some_iff.mp h
  split at h
  · exact eq_of_guarded_false
      (succeeds_bind fun _ => succeeds_bind fun _ => succeeds_bind fun _ => succeeds_true _) h
  · exact absurd h (succeeds_bind (fun _ => succeeds_true _) map')

theorem getValue_false {out out' : List Byte}
    (h : getValue (some map) key out = some (false, out')) : out' = out := by
  obtain ⟨index, -, h⟩ := Option.bind_eq_some_iff.mp h
  exact eq_of_guarded_false (succeeds_bind fun _ => succeeds_true _) h

/-- A call with a false status changes neither the map nor the client's object. -/
theorem step_false {map' : Ptr Map} {call : Call (List Byte) (List Byte)}
    {reply : Reply (List Byte)} (hstep : step (some map) call = some (reply, map'))
    (hfalse : reply.status = false) : map' = some map ∧ reply.element = call.out? := by
  cases call with
  | insert key value =>
      obtain ⟨⟨status, q⟩, hop, heq⟩ := Option.bind_eq_some_iff.mp hstep
      cases heq
      cases hfalse
      exact ⟨insert_false hop, rfl⟩
  | getValue key out =>
      obtain ⟨⟨status, out'⟩, hop, heq⟩ := Option.bind_eq_some_iff.mp hstep
      cases heq
      cases hfalse
      exact ⟨rfl, by rw [getValue_false hop]; rfl⟩

/-- What a client may rely on in a state `map` with the history `trace`. -/
structure Serves (key_size value_size bound : Nat) (map : Map)
    (trace : List (Call (List Byte) (List Byte) × Reply (List Byte))) : Prop where
  /-- A key is found exactly if it was inserted, and with the last value. -/
  found : ∀ key out, key.length = key_size → out.length = value_size →
    getValue (some map) key out
      = some (match lastInserted key trace with | some v => (true, v) | none => (false, out))
  /-- An insert is refused exactly if its key is new and `bound` keys are stored. -/
  refused : ∀ key value, key.length = key_size → value.length = value_size →
    ∃ status map', insert (some map) key value = some (status, some map') ∧
      (status = false ↔ lastInserted key trace = none ∧ (storedKeys trace).card = bound)
  /-- An insert does not change what is found for another key. -/
  others : ∀ key value status map', key.length = key_size → value.length = value_size →
    insert (some map) key value = some (status, some map') →
    ∀ key' out, key' ≠ key → key'.length = key_size → out.length = value_size →
      getValue (some map') key' out = getValue (some map) key' out
  /-- A failing call changes nothing. -/
  unchanged : ∀ call reply map', step (some map) call = some (reply, map') →
    reply.status = false → map' = some map ∧ reply.element = call.out?
  /-- The stored keys are the first `current_size` slots, pairwise distinct. -/
  stored : map.currentSize = (storedKeys trace).card ∧
    (∀ i < (storedKeys trace).card, map.keyAt i ∈ storedKeys trace) ∧
    ∀ i < (storedKeys trace).card, ∀ j < (storedKeys trace).card,
      map.keyAt i = map.keyAt j → i = j

/-- The invariant serves every history that leads to its finite map. -/
theorem Represents.serves (h : Represents key_size value_size bound map m)
    {trace : List (Call (List Byte) (List Byte) × Reply (List Byte))}
    (htrace : ∀ k, m.lookup k = lastInserted k trace) :
    Serves key_size value_size bound map trace := by
  have hkeys : storedKeys trace = m.keys := by
    ext k
    rw [mem_storedKeys, ← htrace, Finmap.lookup_isSome, Finmap.mem_keys]
  constructor
  case found =>
    intro key out hkey hout
    rw [h.getValue hkey hout, htrace]
  case refused =>
    intro key value hkey hvalue
    obtain ⟨map', hinsert, -⟩ := h.insert hkey hvalue
    refine ⟨_, map', hinsert, ?_⟩
    rw [← htrace, hkeys, BoundedMap.step]
    by_cases hsome : (m.lookup key).isSome = true
    · rw [if_pos (Or.inl hsome)]
      simp [Option.isSome_iff_ne_none.mp hsome]
    · by_cases hcard : m.keys.card = bound
      · simp [hcard, Option.not_isSome_iff_eq_none.mp hsome]
      · simp [hcard]
  case others =>
    intro key value status map' hkey hvalue hinsert key' out hne hkey' hout
    obtain ⟨map'', hinsert', h'⟩ := h.insert hkey hvalue
    -- the invariant speaks about the state that `Map_insert` really reaches
    obtain rfl : map' = map'' := by
      rw [hinsert] at hinsert'
      exact Option.some.inj (Prod.mk.inj (Option.some.inj hinsert')).2
    have hlookup : (BoundedMap.step bound m (.insert key value)).2.lookup key' = m.lookup key' := by
      rw [lookup_step, record, if_neg fun hk => hne hk.1.symm]
    rw [h'.getValue hkey' hout, h.getValue hkey' hout, hlookup]
  case unchanged => exact fun call reply map' hstep hfalse => step_false hstep hfalse
  case stored =>
    rw [hkeys]
    refine ⟨h.current_size_eq, ?_, h.tabulates.distinct⟩
    intro i hi
    exact Finmap.mem_keys.mpr (Finmap.mem_of_lookup_eq_some (h.tabulates.lookup_eq i hi))

/-- **The map refines a bounded finite map.** After `Map_init` with arrays of `max_map_size` slots
or more, every sequence of calls gets the replies of the bounded map, and the state it reaches
serves its own history. -/
theorem map_refines_boundedMap (map : Map) (keys values : List Byte)
    (key_size value_size max_map_size : Nat) (hkey : 1 ≤ key_size) (hvalue : 1 ≤ value_size)
    (hmax : 1 ≤ max_map_size) (hkeys_le : max_map_size * key_size ≤ 2 ^ 31 - 1)
    (hvalues_le : max_map_size * value_size ≤ 2 ^ 31 - 1)
    (hkeys : max_map_size * key_size ≤ keys.length)
    (hvalues : max_map_size * value_size ≤ values.length)
    (calls : List (Call (List Byte) (List Byte)))
    (hcalls : ∀ c ∈ calls, HasSizes key_size value_size c) :
    ∃ map₀ map' replies,
      init map (some keys) (some values) key_size value_size max_map_size = (true, map₀) ∧
      Refinement.run step (some map₀) calls = some (replies, some map') ∧
      (Refinement.specRun (BoundedMap.step max_map_size) ∅ calls).1 = replies ∧
      Serves key_size value_size max_map_size map' (calls.zip replies) := by
  obtain ⟨map₀, hinit, h₀⟩ := represents_init map hkey hvalue hmax (by omega) (by omega)
    hkeys hvalues
  obtain ⟨_, hrun, map', rfl, h'⟩ :=
    Refinement.run_refines step_refines ⟨map₀, rfl, h₀⟩ calls hcalls
  exact ⟨map₀, map', _, hinit, hrun, rfl, h'.serves fun k => lookup_specRun max_map_size ∅ calls k⟩

/-- One-byte keys and values, two entries: a third key is refused, and an inserted key may still
be overwritten. -/
theorem map_refines_boundedMap_full :
    ∃ map', Refinement.run step (some ⟨[0, 0], [0, 0], 1, 1, 2, 0⟩)
        [.insert [1#8] [10#8], .insert [2#8] [20#8], .insert [3#8] [30#8], .insert [1#8] [11#8],
          .getValue [1#8] [0#8], .getValue [3#8] [9#8]]
      = some ([⟨true, none⟩, ⟨true, none⟩, ⟨false, none⟩, ⟨true, none⟩, ⟨true, some [11#8]⟩,
          ⟨false, some [9#8]⟩], map') := by
  obtain ⟨map₀, map', replies, hinit, hrun, hspec, -⟩ := map_refines_boundedMap
    ⟨[], [], 0, 0, 0, 0⟩ [0, 0] [0, 0] 1 1 2 (by decide) (by decide) (by decide) (by decide)
    (by decide) (by decide) (by decide)
    [.insert [1#8] [10#8], .insert [2#8] [20#8], .insert [3#8] [30#8], .insert [1#8] [11#8],
      .getValue [1#8] [0#8], .getValue [3#8] [9#8]]
    (by simp [HasSizes])
  cases hinit
  cases hspec
  exact ⟨some map', hrun⟩

end Map
end IMUtility
