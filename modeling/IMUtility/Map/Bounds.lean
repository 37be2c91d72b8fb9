import Mathlib.Data.FinEnum
import IMUtility.Lib.Footprint
import IMUtility.Map.Refinement

/-! # How far the offsets of a map go

`Map_init` refuses a size of 0 and nothing else. Whether the runs behind it keep `current_size`
below `max_map_size`, and every subscript `index * size` in its array and in an `int32_t`, depends
on the three sizes alone (`Admissible`): they are positive, and the subscripts of the entries that
a run can reach fit. A run reaches at most `max_map_size` entries, and at most as many as there are
keys of `key_size` bytes. -/

namespace IMUtility
namespace Map

open BoundedMap (Call)

/-! ## The subscripts of a call

Read off the source, in the order in which the call computes them. A call that fails half way has
computed a first part of its list only.
-/

/-- A subscript `index * size` of `keys` or `values`. -/
structure Subscript where
  index : Int
  size : Int

/-- It is computed without overflow, and lies between 0 and `max_map_size` times the size. -/
def Subscript.InBounds (max_map_size : Int) (u : Subscript) : Prop :=
  int32 (u.index * u.size) = some (u.index * u.size) ∧
    0 ≤ u.index * u.size ∧ u.index * u.size ≤ max_map_size * u.size

/-- Those of the loop of `GetIndex` from `i` on, with `n` passes left. -/
def getIndexSubscripts (map : Map) (key : List Byte) (i : Int) : Nat → List Subscript
  | 0 => []
  | n + 1 =>
    ⟨i, map.keySize⟩ ::
      if equalAt map.keys i map.keySize key = some false then
        getIndexSubscripts map key (i + 1) n
      else []

/-- Those of `Map_insert`. -/
def insertSubscripts (map : Map) (key : List Byte) : List Subscript :=
  getIndexSubscripts map key 0 map.currentSize.toNat ++
    match getIndex map key map.currentSize with
    | none => []
    | some index =>
      if index = indexNotFound then
        if map.currentSize ≠ map.maxMapSize then
          [⟨map.currentSize, map.keySize⟩, ⟨map.currentSize, map.valueSize⟩]
        else []
      else [⟨index, map.valueSize⟩]

/-- Those of `Map_getValue`. -/
def getValueSubscripts (map : Map) (key : List Byte) : List Subscript :=
  getIndexSubscripts map key 0 map.currentSize.toNat ++
    match getIndex map key map.currentSize with
    | none => []
    | some index => if index ≠ indexNotFound then [⟨index, map.valueSize⟩] else []

/-- Those of a call. -/
def subscripts (map : Map) : Call (List Byte) (List Byte) → List Subscript
  | .insert key _ => insertSubscripts map key
  | .getValue key _ => getValueSubscripts map key

/-! ## What a configuration promises

A configuration is the three sizes that `Map_init` was given. The statement is about every state
that a run of calls with keys and values of these sizes reaches, and the next call from there;
`maxEntries` is how many rows such a run can fill at all, for a map with keys of one byte holds
at most 256 of them however large `max_map_size` is.
-/

/-- The calls of a client of `map`. A size below 0 asks for no bytes here. -/
def Admits (map : Map) (call : Call (List Byte) (List Byte)) : Prop :=
  HasSizes map.keySize.toNat map.valueSize.toNat call

/-- The states of the runs from `map₀`. -/
def Reaches (map₀ map : Map) : Prop :=
  Refinement.Reaches step (Admits map₀) (some map₀) (some map)

/-- In every state that is reached, the size and the subscripts of the next call are in bounds. -/
structure StaysInBounds (map₀ : Map) : Prop where
  size : ∀ map, Reaches map₀ map → 0 ≤ map.currentSize ∧ map.currentSize ≤ map₀.maxMapSize
  subscripts : ∀ map call, Reaches map₀ map → Admits map₀ call →
    ∀ u ∈ subscripts map call, u.InBounds map₀.maxMapSize

/-- The number of entries that a run can reach. -/
def maxEntries (key_size max_map_size : Nat) : Nat := min max_map_size (256 ^ key_size)

/-- The sizes for which every run stays in bounds. -/
def Admissible (key_size value_size max_map_size : Int) : Prop :=
  0 < key_size ∧ 0 < value_size ∧ 0 < max_map_size ∧
    OffsetsFit (maxEntries key_size.toNat max_map_size.toNat) key_size.toNat ∧
    OffsetsFit (maxEntries key_size.toNat max_map_size.toNat) value_size.toNat

instance (key_size value_size max_map_size : Int) :
    Decidable (Admissible key_size value_size max_map_size) :=
  inferInstanceAs (Decidable (_ ∧ _ ∧ _ ∧ _ ∧ _))

variable {key_size value_size bound : Nat} {map map₀ : Map}
  {m : Finmap fun _ : List Byte => List Byte} {key : List Byte}

/-! ## Subscripts of rows

A subscript of a row, with sizes that are not negative, is in bounds if its offset fits an
`int32_t`. Back from the bounds comes the offset again, and, from row 0, that the size is not
negative.
-/

theorem Subscript.inBounds_natCast {i s : Nat} (hi : i ≤ bound) (hoff : i * s < 2 ^ 31) :
    Subscript.InBounds bound ⟨i, s⟩ := by
  have hmul : (i : Int) * (s : Int) = ((i * s : Nat) : Int) := (Int.natCast_mul i s).symm
  have hle : (i : Int) * (s : Int) ≤ (bound : Int) * (s : Int) := by
    rw [hmul, ← Int.natCast_mul]
    exact Int.ofNat_le.mpr (Nat.mul_le_mul_right s hi)
  refine ⟨?_, ?_, hle⟩
  · show int32 ((i : Int) * (s : Int)) = some ((i : Int) * (s : Int))
    rw [hmul]
    exact int32_of_nonneg (by omega) (by omega)
  · show 0 ≤ (i : Int) * (s : Int)
    rw [hmul]
    exact Int.natCast_nonneg _

theorem Subscript.InBounds.offset_lt {i s : Nat} {max_map_size : Int}
    (h : Subscript.InBounds max_map_size ⟨i, s⟩) : i * s < 2 ^ 31 := by
  have hint : int32 ((i : Int) * (s : Int)) = some ((i : Int) * (s : Int)) := h.1
  -- a product that is out of range has no value, so the second case is none
  rw [int32, ← Int.natCast_mul] at hint
  split at hint
  · omega
  · cases hint

/-- There is nothing between 0 and a negative size. -/
theorem Subscript.InBounds.size_nonneg {max_map_size size : Int} (hmax : 0 < max_map_size)
    (h : Subscript.InBounds max_map_size ⟨0, size⟩) : 0 ≤ size := by
  have hle : 0 * size ≤ max_map_size * size := h.2.2
  rw [Int.zero_mul, ← Int.mul_zero max_map_size] at hle
  exact Int.le_of_mul_le_mul_left hle hmax

/-! ## The branches of a call

Which subscripts a call has depends on what the search answered and on whether there is room. One
equation for each case, so that the proofs below split on the case and not on the definition.
-/

section Branches

variable {index : Int}

theorem insertSubscripts_of_found (hindex : getIndex map key map.currentSize = some index)
    (hfound : index ≠ indexNotFound) :
    insertSubscripts map key = getIndexSubscripts map key 0 map.currentSize.toNat ++
      [⟨index, map.valueSize⟩] := by
  unfold insertSubscripts
  rw [hindex]
  show _ ++ (if index = indexNotFound then _ else _) = _
  rw [if_neg hfound]

theorem insertSubscripts_of_full (hindex : getIndex map key map.currentSize = some indexNotFound)
    (hfull : map.currentSize = map.maxMapSize) :
    insertSubscripts map key = getIndexSubscripts map key 0 map.currentSize.toNat := by
  unfold insertSubscripts
  rw [hindex]
  show _ ++ (if map.currentSize ≠ map.maxMapSize then _ else []) = _
  rw [if_neg fun hne => hne hfull, List.append_nil]

theorem insertSubscripts_of_room (hindex : getIndex map key map.currentSize = some indexNotFound)
    (hroom : map.currentSize ≠ map.maxMapSize) :
    insertSubscripts map key = getIndexSubscripts map key 0 map.currentSize.toNat ++
      [⟨map.currentSize, map.keySize⟩, ⟨map.currentSize, map.valueSize⟩] := by
  unfold insertSubscripts
  rw [hindex]
  show _ ++ (if map.currentSize ≠ map.maxMapSize then _ else _) = _
  rw [if_pos hroom]

theorem getValueSubscripts_of_found (hindex : getIndex map key map.currentSize = some index)
    (hfound : index ≠ indexNotFound) :
    getValueSubscripts map key = getIndexSubscripts map key 0 map.currentSize.toNat ++
      [⟨index, map.valueSize⟩] := by
  unfold getValueSubscripts
  rw [hindex]
  show _ ++ (if index ≠ indexNotFound then _ else _) = _
  rw [if_pos hfound]

theorem getValueSubscripts_of_not_found
    (hindex : getIndex map key map.currentSize = some indexNotFound) :
    getValueSubscripts map key = getIndexSubscripts map key 0 map.currentSize.toNat := by
  unfold getValueSubscripts
  rw [hindex]
  exact List.append_nil _

end Branches

/-! ## What a call does at its subscripts

The subscripts of a call were listed from its text. Each is one of an access to an entry: a
comparison of its key, which answers as the loop of `GetIndex` goes on, or a copy. `CallsAt` ties
the lists to the calls: the accesses with these subscripts, in this order, are what a call does to
the arrays and to the value that the client has brought. -/

/-- An access to an entry. -/
inductive Access where
  /-- `memcmp` of a key, with its answer. -/
  | compareKey (u : Subscript) (equal : Bool)
  /-- `memcpy` of the client's key into `keys`. -/
  | storeKey (u : Subscript)
  /-- `memcpy` of the client's value into `values`. -/
  | storeValue (u : Subscript)
  /-- `memcpy` out of `values` into the client's value. -/
  | fetchValue (u : Subscript)

namespace Access

/-- The subscript that is computed. -/
def subscript : Access → Subscript
  | .compareKey u _ | .storeKey u | .storeValue u | .fetchValue u => u

/-- What it does to `keys`, `values` and the client's value. A comparison that answers otherwise is
none of the call. -/
def perform (key : List Byte) :
    Access → List Byte × List Byte × List Byte → Option (List Byte × List Byte × List Byte)
  | .compareKey u equal, (keys, values, value) => do
    let answer ← equalAt keys u.index u.size key
    if answer = equal then some (keys, values, value) else none
  | .storeKey u, (keys, values, value) => do
    let keys ← copyTo keys u.index u.size key
    some (keys, values, value)
  | .storeValue u, (keys, values, value) => do
    let values ← copyTo values u.index u.size value
    some (keys, values, value)
  | .fetchValue u, (keys, values, value) => do
    let value ← copyFrom value values u.index u.size
    some (keys, values, value)

end Access

/-- Accesses with these subscripts, in this order, lead from one state of the arrays and the
client's value to another. -/
abbrev CallsAt (key : List Byte) : List Subscript → List Byte × List Byte × List Byte →
    List Byte × List Byte × List Byte → Prop :=
  Footprint.Follows (Access.perform key) fun access => [access.subscript]

section CallsAt

variable {keys keys' values values' value value' : List Byte} {u : Subscript} {status : Bool}
  {index : Int} {map' : Map}

theorem CallsAt.compareKey {equal : Bool} (h : equalAt keys u.index u.size key = some equal) :
    CallsAt key [u] (keys, values, value) (keys, values, value) := by
  have hperform : (Access.compareKey u equal).perform key (keys, values, value)
      = some (keys, values, value) := by
    rw [Access.perform, h]
    exact if_pos rfl
  exact Footprint.Follows.single hperform

theorem CallsAt.storeKey (h : copyTo keys u.index u.size key = some keys') :
    CallsAt key [u] (keys, values, value) (keys', values, value) := by
  have hperform : (Access.storeKey u).perform key (keys, values, value)
      = some (keys', values, value) := by
    rw [Access.perform, h]
    rfl
  exact Footprint.Follows.single hperform

theorem CallsAt.storeValue (h : copyTo values u.index u.size value = some values') :
    CallsAt key [u] (keys, values, value) (keys, values', value) := by
  have hperform : (Access.storeValue u).perform key (keys, values, value)
      = some (keys, values', value) := by
    rw [Access.perform, h]
    rfl
  exact Footprint.Follows.single hperform

theorem CallsAt.fetchValue (h : copyFrom value values u.index u.size = some value') :
    CallsAt key [u] (keys, values, value) (keys, values, value') := by
  have hperform : (Access.fetchValue u).perform key (keys, values, value)
      = some (keys, values, value') := by
    rw [Access.perform, h]
    rfl
  exact Footprint.Follows.single hperform

/-- The loop of `GetIndex` compares until a key is equal. By induction on the passes left. -/
theorem getIndexLoop_callsAt (values value : List Byte) {n : Nat} {i : Int}
    (h : getIndexLoop map key i n = some index) :
    CallsAt key (getIndexSubscripts map key i n) (map.keys, values, value)
      (map.keys, values, value) := by
  induction n generalizing i with
  | zero => exact Footprint.Follows.nil _ _ _
  | succ n ih =>
      obtain ⟨equal, hequal, hrest⟩ := Option.bind_eq_some_iff.mp h
      have hfirst : CallsAt key [⟨i, map.keySize⟩] (map.keys, values, value)
          (map.keys, values, value) := CallsAt.compareKey hequal
      rw [getIndexSubscripts, hequal]
      cases equal with
      | true => exact hfirst
      | false => exact hfirst.append (ih hrest)

theorem insert_callsAt (h : insert (some map) key value = some (status, some map')) :
    CallsAt key (insertSubscripts map key) (map.keys, map.values, value)
      (map'.keys, map'.values, value) := by
  obtain ⟨index, hindex, h⟩ := Option.bind_eq_some_iff.mp h
  have hsearch := getIndexLoop_callsAt map.values value hindex
  split at h
  case isTrue hnot =>
    subst hnot
    split at h
    case isTrue hroom =>
      -- a new entry, key and value
      obtain ⟨keys, hkeys, h⟩ := Option.bind_eq_some_iff.mp h
      obtain ⟨values, hvalues, h⟩ := Option.bind_eq_some_iff.mp h
      obtain ⟨current_size, -, h⟩ := Option.bind_eq_some_iff.mp h
      cases h
      have hkey : CallsAt key [⟨map.currentSize, map.keySize⟩] (map.keys, map.values, value)
          (keys, map.values, value) := CallsAt.storeKey hkeys
      have hvalue : CallsAt key [⟨map.currentSize, map.valueSize⟩] (keys, map.values, value)
          (keys, values, value) := CallsAt.storeValue hvalues
      rw [insertSubscripts_of_room hindex hroom]
      exact hsearch.append (hkey.append hvalue)
    case isFalse hfull =>
      cases h
      rw [insertSubscripts_of_full hindex (not_not.mp hfull)]
      exact hsearch
  case isFalse hfound =>
    obtain ⟨values, hvalues, h⟩ := Option.bind_eq_some_iff.mp h
    cases h
    have hvalue : CallsAt key [⟨index, map.valueSize⟩] (map.keys, map.values, value)
        (map.keys, values, value) := CallsAt.storeValue hvalues
    rw [insertSubscripts_of_found hindex hfound]
    exact hsearch.append hvalue

theorem getValue_callsAt (h : getValue (some map) key value = some (status, value')) :
    CallsAt key (getValueSubscripts map key) (map.keys, map.values, value)
      (map.keys, map.values, value') := by
  obtain ⟨index, hindex, h⟩ := Option.bind_eq_some_iff.mp h
  have hsearch := getIndexLoop_callsAt map.values value hindex
  split at h
  case isTrue hfound =>
    obtain ⟨value', hvalues, h⟩ := Option.bind_eq_some_iff.mp h
    cases h
    have hvalue : CallsAt key [⟨index, map.valueSize⟩] (map.keys, map.values, value)
        (map.keys, map.values, value') := CallsAt.fetchValue hvalues
    rw [getValueSubscripts_of_found hindex hfound]
    exact hsearch.append hvalue
  case isFalse hnot =>
    cases h
    rw [getValueSubscripts_of_not_found (not_not.mp hnot ▸ hindex)]
    exact hsearch

/-- The value that the client brings: to be stored, or to be overwritten. -/
def broughtValue : Call (List Byte) (List Byte) → List Byte
  | .insert _ value | .getValue _ value => value

/-- **The subscripts of a call are those of its accesses**, and these make up what it does. -/
theorem step_callsAt {call : Call (List Byte) (List Byte)} {reply}
    (hstep : step (some map) call = some (reply, some map')) :
    CallsAt call.key (subscripts map call) (map.keys, map.values, broughtValue call)
      (map'.keys, map'.values, reply.element.getD (broughtValue call)) := by
  cases call with
  | insert key value =>
      obtain ⟨⟨status, ptr⟩, hop, heq⟩ := Option.bind_eq_some_iff.mp hstep
      cases heq
      exact insert_callsAt hop
  | getValue key out =>
      obtain ⟨⟨status, out'⟩, hop, heq⟩ := Option.bind_eq_some_iff.mp hstep
      cases heq
      exact getValue_callsAt hop

end CallsAt

/-! ## The subscripts in the invariant

With the invariant of the refinement the search looks at rows that there are, and a new entry goes
into the row behind the last one. The subscripts are in bounds as soon as the offsets of `r` rows
fit, `r` counting the rows that there are and one more if the call uses it.
-/

namespace Lists

variable (h : Lists key_size value_size bound map m)
include h

/-- The search looks at rows that there are. By induction on the passes left. -/
theorem getIndexSubscripts_inBounds (hfit : OffsetsFit m.keys.card key_size) (n i : Nat)
    (hn : i + n ≤ m.keys.card) :
    ∀ u ∈ getIndexSubscripts map key (i : Int) n, u.InBounds bound := by
  induction n generalizing i with
  | zero =>
      intro u hu
      cases hu
  | succ n ih =>
      intro u hu
      rw [getIndexSubscripts] at hu
      rcases List.mem_cons.mp hu with rfl | hu
      · have hcard := h.card_le
        rw [h.key_size_eq]
        exact Subscript.inBounds_natCast (by omega) (hfit.lt (by omega))
      · split at hu
        · exact ih (i + 1) (by omega) u hu
        · cases hu

theorem search_inBounds (hfit : OffsetsFit m.keys.card key_size) :
    ∀ u ∈ getIndexSubscripts map key 0 map.currentSize.toNat, u.InBounds bound := by
  rw [h.current_size_eq, Int.toNat_natCast]
  exact h.getIndexSubscripts_inBounds hfit m.keys.card 0 (by omega)

theorem found_inBounds (hfit : OffsetsFit m.keys.card key_size) {j : Nat} (hj : j < m.keys.card)
    (hoff : j * value_size < 2 ^ 31) :
    ∀ u ∈ getIndexSubscripts map key 0 map.currentSize.toNat ++ [⟨j, map.valueSize⟩],
      u.InBounds bound := by
  have hcard := h.card_le
  apply List.forall_mem_append.mpr ⟨h.search_inBounds hfit, ?_⟩
  rw [List.forall_mem_singleton, h.value_size_eq]
  exact Subscript.inBounds_natCast (by omega) hoff

/-- A new key goes into the row behind the last one, if there is room. -/
theorem insertSubscripts_of_new (hfit : OffsetsFit m.keys.card key_size)
    (hkey : key.length = key_size) (hnew : key ∉ m) (hroom : m.keys.card < bound) :
    insertSubscripts map key = getIndexSubscripts map key 0 map.currentSize.toNat ++
      [⟨m.keys.card, key_size⟩, ⟨m.keys.card, value_size⟩] := by
  have hindex : getIndex map key map.currentSize = some indexNotFound := by
    rcases h.getIndex_spec hfit hkey with ⟨j, hj, -, rfl⟩ | ⟨hindex, -⟩
    · exact absurd (Finmap.mem_of_lookup_eq_some (h.tabulates.lookup_eq j hj)) hnew
    · exact hindex
  have hsize : map.currentSize ≠ map.maxMapSize := by
    rw [h.current_size_eq, h.max_map_size_eq]
    omega
  rw [insertSubscripts_of_room hindex hsize, h.current_size_eq, h.key_size_eq, h.value_size_eq]

/-- **The subscripts of one call**, when the offsets of the rows that it uses fit. -/
theorem subscripts_inBounds {call : Call (List Byte) (List Byte)} {r : Nat}
    (hkeys : OffsetsFit r key_size) (hvalues : OffsetsFit r value_size) (hrows : m.keys.card ≤ r)
    (hnext : call.key ∉ m → m.keys.card < bound → m.keys.card < r)
    (hsizes : HasSizes key_size value_size call) :
    ∀ u ∈ subscripts map call, u.InBounds bound := by
  have hcard := h.card_le
  have hfit := hkeys.mono hrows
  cases call with
  | insert key value =>
      show ∀ u ∈ insertSubscripts map key, u.InBounds bound
      -- a known key uses its row, a new one the next row or, without room, none
      rcases h.getIndex_spec hfit hsizes.1 with ⟨j, hj, hindex, -⟩ | ⟨hindex, hnew⟩
      · rw [insertSubscripts_of_found hindex (natCast_ne_indexNotFound j)]
        exact h.found_inBounds hfit hj (hvalues.lt (lt_of_lt_of_le hj hrows))
      · by_cases hfull : m.keys.card = bound
        · rw [insertSubscripts_of_full hindex
            (by rw [h.current_size_eq, h.max_map_size_eq, hfull])]
          exact h.search_inBounds hfit
        · have hroom : m.keys.card < bound := lt_of_le_of_ne hcard hfull
          have hlt : m.keys.card < r := hnext hnew hroom
          rw [h.insertSubscripts_of_new hfit hsizes.1 hnew hroom]
          apply List.forall_mem_append.mpr ⟨h.search_inBounds hfit, ?_⟩
          rw [List.forall_mem_cons, List.forall_mem_singleton]
          exact ⟨Subscript.inBounds_natCast hcard (hkeys.lt hlt),
            Subscript.inBounds_natCast hcard (hvalues.lt hlt)⟩
  | getValue key out =>
      show ∀ u ∈ getValueSubscripts map key, u.InBounds bound
      rcases h.getIndex_spec hfit hsizes.1 with ⟨j, hj, hindex, -⟩ | ⟨hindex, -⟩
      · rw [getValueSubscripts_of_found hindex (natCast_ne_indexNotFound j)]
        exact h.found_inBounds hfit hj (hvalues.lt (lt_of_lt_of_le hj hrows))
      · rw [getValueSubscripts_of_not_found hindex]
        exact h.search_inBounds hfit

end Lists

/-! ## The entries a run can reach

The stored keys are distinct and have `key_size` bytes each, so there are at most `256 ^ key_size`
of them. This is why the bound on the offsets need not go up to `max_map_size`.
-/

theorem card_byte : Fintype.card Byte = 256 := FinEnum.card_eq_fintypeCard.symm

namespace Lists

variable (h : Lists key_size value_size bound map m)
include h

theorem length_of_mem (k : List Byte) (hk : k ∈ m) : k.length = key_size := by
  obtain ⟨i, hi, rfl⟩ := h.tabulates.listed k hk
  rw [keyAt_eq h.key_size_eq]
  exact Slots.length_slot h.keys_le (lt_of_lt_of_le hi h.card_le)

theorem card_le_maxEntries : m.keys.card ≤ maxEntries key_size bound := by
  have hcard := card_keys_le_of_length h.length_of_mem
  rw [card_byte] at hcard
  exact Nat.le_min.mpr ⟨h.card_le, hcard⟩

/-- A new key leaves room for itself. -/
theorem card_lt_maxEntries (hkey : key.length = key_size) (hnew : key ∉ m)
    (hroom : m.keys.card < bound) : m.keys.card < maxEntries key_size bound := by
  have hlength : ∀ k ∈ m.insert key [], k.length = key_size := by
    intro k hk
    rcases Finmap.mem_insert.mp hk with rfl | hk
    · exact hkey
    · exact h.length_of_mem k hk
  -- the count is taken with the new key in the map
  have hcard := card_keys_le_of_length hlength
  rw [(h.tabulates.append hnew []).card_keys, card_byte] at hcard
  exact Nat.lt_min.mpr ⟨hroom, hcard⟩

end Lists

/-- Where the subscripts of all reachable entries fit, the code keeps the invariant. -/
theorem step_lists (hkeys : OffsetsFit (maxEntries key_size bound) key_size)
    (hvalues : OffsetsFit (maxEntries key_size bound) value_size) :
    Refinement.StepRefines step (BoundedMap.step bound) (HasSizes key_size value_size)
      (fun ptr m => ∃ map, ptr = some map ∧ Lists key_size value_size bound map m) := by
  rintro _ m call ⟨map, rfl, h⟩ hsizes
  have hnext : call.key ∉ m → m.keys.card < bound → m.keys.card < maxEntries key_size bound := by
    apply h.card_lt_maxEntries
    cases call <;> exact hsizes.1
  obtain ⟨map', hstep, h'⟩ := h.step hkeys hvalues h.card_le_maxEntries hnext hsizes
  exact ⟨some map', hstep, map', rfl, h'⟩

/-! ## All runs

One direction is the invariant over a run. For the other every entry that counts has to be
reached: a run of inserts of new keys fills one row after the other, and its last insert has the
subscript of the last row.
-/

section Runs

variable (h₀ : Lists key_size value_size bound map₀ ∅)
include h₀

theorem admits_iff (call : Call (List Byte) (List Byte)) :
    Admits map₀ call ↔ HasSizes key_size value_size call := by
  rw [Admits, h₀.key_size_eq, h₀.value_size_eq, Int.toNat_natCast, Int.toNat_natCast]

/-- A run under `Admissible` sizes does not fail, and keeps the invariant. -/
theorem run_lists (hkeys : OffsetsFit (maxEntries key_size bound) key_size)
    (hvalues : OffsetsFit (maxEntries key_size bound) value_size)
    {calls : List (Call (List Byte) (List Byte))} (hcalls : ∀ c ∈ calls, Admits map₀ c) :
    ∃ replies map m, Refinement.run step (some map₀) calls = some (replies, some map) ∧
      Lists key_size value_size bound map m := by
  have hsizes : ∀ c ∈ calls, HasSizes key_size value_size c :=
    fun c hc => (admits_iff h₀ c).mp (hcalls c hc)
  obtain ⟨_, hrun, map, rfl, h⟩ :=
    Refinement.run_refines (step_lists hkeys hvalues) ⟨map₀, rfl, h₀⟩ calls hsizes
  exact ⟨_, map, _, hrun, h⟩

theorem staysInBounds_of_offsetsFit (hkeys : OffsetsFit (maxEntries key_size bound) key_size)
    (hvalues : OffsetsFit (maxEntries key_size bound) value_size) : StaysInBounds map₀ := by
  have hlists : ∀ map, Reaches map₀ map → ∃ m, Lists key_size value_size bound map m := by
    -- the run that reached the state is the run of the refinement
    rintro map ⟨calls, replies, hcalls, hrun⟩
    obtain ⟨replies', map', m, hrun', h⟩ := run_lists h₀ hkeys hvalues hcalls
    rw [hrun] at hrun'
    cases hrun'
    exact ⟨m, h⟩
  constructor
  case size =>
    intro map hreach
    obtain ⟨m, h⟩ := hlists map hreach
    have hcard := h.card_le
    rw [h.current_size_eq, h₀.max_map_size_eq]
    omega
  case subscripts =>
    intro map call hreach hcall
    obtain ⟨m, h⟩ := hlists map hreach
    have hsizes := (admits_iff h₀ call).mp hcall
    rw [h₀.max_map_size_eq]
    refine h.subscripts_inBounds hkeys hvalues h.card_le_maxEntries ?_ hsizes
    apply h.card_lt_maxEntries
    cases call <;> exact hsizes.1

end Runs

/-- **Every entry can be reached**, one new key after the other, and the subscripts of the insert
that brings it are in bounds. By induction on the entries. -/
theorem exists_reaches (h₀ : Lists key_size value_size bound map₀ ∅) (hstays : StaysInBounds map₀)
    (n : Nat) (hn : n ≤ maxEntries key_size bound) :
    OffsetsFit n key_size ∧ OffsetsFit n value_size ∧
      ∃ map m, Reaches map₀ map ∧ Lists key_size value_size bound map m ∧ m.keys.card = n := by
  induction n with
  | zero =>
      exact ⟨offsetsFit_of_mul_lt (by omega), offsetsFit_of_mul_lt (by omega), map₀, ∅,
        Refinement.reaches_refl _ _ _, h₀, rfl⟩
  | succ n ih =>
      obtain ⟨hkeys, hvalues, map, m, hreach, h, hcard⟩ := ih (by omega)
      obtain ⟨hbound, hpow⟩ := Nat.lt_min.mp (show n < min bound (256 ^ key_size) from hn)
      obtain ⟨key, hkey, hnew⟩ : ∃ k : List Byte, k.length = key_size ∧ k ∉ m := by
        apply exists_notMem_of_card_lt
        rw [hcard, card_byte]
        exact hpow
      let call : Call (List Byte) (List Byte) := .insert key (List.replicate value_size 0)
      have hsizes : HasSizes key_size value_size call := ⟨hkey, List.length_replicate⟩
      have hadmits := (admits_iff h₀ call).mpr hsizes
      subst hcard
      -- the new entry goes into row `n`
      have hrows := h.insertSubscripts_of_new hkeys hkey hnew hbound
      have hmem : ∀ u ∈ subscripts map call, u.InBounds map₀.maxMapSize :=
        hstays.subscripts map call hreach hadmits
      rw [subscripts, hrows] at hmem
      have hkoff := (hmem ⟨m.keys.card, key_size⟩ (by simp)).offset_lt
      have hvoff := (hmem ⟨m.keys.card, value_size⟩ (by simp)).offset_lt
      have hkeys' : OffsetsFit (m.keys.card + 1) key_size := hkoff
      have hvalues' : OffsetsFit (m.keys.card + 1) value_size := hvoff
      obtain ⟨map', hstep, h'⟩ := h.step hkeys' hvalues' (Nat.le_succ _)
        (fun _ _ => Nat.lt_succ_self _) hsizes
      have hspec : (BoundedMap.step bound m call).2
          = m.insert key (List.replicate value_size 0) := by
        show (if _ then _ else _ : Refinement.Reply _ × _).2 = _
        rw [if_pos (Or.inr (by omega))]
      rw [hspec] at h'
      exact ⟨hkeys', hvalues', map', _, Refinement.Reaches.tail hreach hadmits hstep, h',
        (h.tabulates.append hnew _).card_keys⟩

/-! ## The admissible sizes -/

/-- Sizes for which a run stays in bounds are above 0: the size of the empty map is at least 0, and
the subscripts of the first insert are 0. -/
theorem pos_of_staysInBounds {key_size value_size max_map_size : Int} {keys values : List Byte}
    (hinit : init map (some keys) (some values) key_size value_size max_map_size = (true, map₀))
    (hstays : StaysInBounds map₀) : 0 < key_size ∧ 0 < value_size ∧ 0 < max_map_size := by
  rw [init] at hinit
  split at hinit
  case isFalse => cases hinit
  case isTrue hne =>
    obtain ⟨hkey, hvalue, hmax⟩ := hne
    cases hinit
    -- the size of the empty map is below the bound, so this one is positive
    have hsize := (hstays.size _ (Refinement.reaches_refl _ _ _)).2
    have hmax_pos : 0 < max_map_size := lt_of_le_of_ne hsize (Ne.symm hmax)
    let call : Call (List Byte) (List Byte) :=
      .insert (List.replicate key_size.toNat 0) (List.replicate value_size.toNat 0)
    have hmem := hstays.subscripts _ call (Refinement.reaches_refl _ _ _)
      ⟨List.length_replicate, List.length_replicate⟩
    -- and the first insert has a subscript in row 0 of each array
    have hfirst : subscripts ⟨keys, values, key_size, value_size, max_map_size, 0⟩ call
        = [⟨0, key_size⟩, ⟨0, value_size⟩] := by
      show (if (0 : Int) ≠ max_map_size then _ else _ : List Subscript) = _
      rw [if_pos (Ne.symm hmax)]
    rw [hfirst] at hmem
    have hkpos := (hmem ⟨0, key_size⟩ (by simp)).size_nonneg hmax_pos
    have hvpos := (hmem ⟨0, value_size⟩ (by simp)).size_nonneg hmax_pos
    exact ⟨lt_of_le_of_ne hkpos (Ne.symm hkey), lt_of_le_of_ne hvpos (Ne.symm hvalue), hmax_pos⟩

/-- **Which sizes keep every run in bounds.** After a successful `Map_init` with arrays of
`max_map_size` slots, the runs stay in bounds exactly if the sizes are admissible; then no run
fails either. The subscripts are those of the code: the accesses at the subscripts of a call, in
their order, are what the call does to the arrays and to the client's value. -/
theorem staysInBounds_iff_admissible (map map₀ : Map) (keys values : List Byte)
    (key_size value_size max_map_size : Int) (hmax : max_map_size < 2 ^ 31)
    (hkeys : max_map_size.toNat * key_size.toNat ≤ keys.length)
    (hvalues : max_map_size.toNat * value_size.toNat ≤ values.length)
    (hinit : init map (some keys) (some values) key_size value_size max_map_size = (true, map₀)) :
    (StaysInBounds map₀ ↔ Admissible key_size value_size max_map_size) ∧
      (Admissible key_size value_size max_map_size → ∀ calls, (∀ c ∈ calls, Admits map₀ c) →
        ∃ replies map', Refinement.run step (some map₀) calls = some (replies, some map')) ∧
      ∀ map call reply map', step (some map) call = some (reply, some map') →
        CallsAt call.key (subscripts map call) (map.keys, map.values, broughtValue call)
          (map'.keys, map'.values, reply.element.getD (broughtValue call)) := by
  have hlists : 0 < key_size → 0 < value_size → 0 < max_map_size →
      Lists key_size.toNat value_size.toNat max_map_size.toNat map₀ ∅ := by
    intro hkey hvalue hpos
    obtain ⟨map', hinit', h⟩ := lists_init map (by omega) (by omega) (by omega) (by omega)
      hkeys hvalues
    rw [Int.toNat_of_nonneg hkey.le, Int.toNat_of_nonneg hvalue.le, Int.toNat_of_nonneg hpos.le,
      hinit] at hinit'
    cases hinit'
    exact h
  refine ⟨⟨?_, ?_⟩, ?_, fun _ _ _ _ hstep => step_callsAt hstep⟩
  -- only positive sizes stay in bounds, and with them the invariant is there at the start
  · intro hstays
    obtain ⟨hkey, hvalue, hpos⟩ := pos_of_staysInBounds hinit hstays
    obtain ⟨hkeys_fit, hvalues_fit, -⟩ :=
      exists_reaches (hlists hkey hvalue hpos) hstays _ le_rfl
    exact ⟨hkey, hvalue, hpos, hkeys_fit, hvalues_fit⟩
  · rintro ⟨hkey, hvalue, hpos, hkeys_fit, hvalues_fit⟩
    exact staysInBounds_of_offsetsFit (hlists hkey hvalue hpos) hkeys_fit hvalues_fit
  · rintro ⟨hkey, hvalue, hpos, hkeys_fit, hvalues_fit⟩ calls hcalls
    obtain ⟨replies, map', -, hrun, -⟩ :=
      run_lists (hlists hkey hvalue hpos) hkeys_fit hvalues_fit hcalls
    exact ⟨replies, map', hrun⟩

/-- One-byte keys and values and two entries. -/
theorem staysInBounds_two : StaysInBounds ⟨[0, 0], [0, 0], 1, 1, 2, 0⟩ :=
  (staysInBounds_iff_admissible ⟨[], [], 0, 0, 0, 0⟩ _ [0, 0] [0, 0] 1 1 2 (by decide) (by decide)
    (by decide) rfl).1.mpr (by decide)

/-- A negative `max_map_size` is accepted, and the empty map is already above it. -/
theorem init_admits_negative_max :
    ∃ map₀, init ⟨[], [], 0, 0, 0, 0⟩ (some (List.replicate 20 0)) (some (List.replicate 20 0))
        4 4 (-1) = (true, map₀) ∧ ¬ StaysInBounds map₀ := by
  refine ⟨⟨List.replicate 20 0, List.replicate 20 0, 4, 4, -1, 0⟩, rfl, ?_⟩
  intro hstays
  exact absurd (hstays.size _ (Refinement.reaches_refl _ _ _)).2 (by decide)

end Map
end IMUtility
