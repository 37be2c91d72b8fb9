import IMUtility.Typedefs
import IMUtility.Lib.Footprint
import IMUtility.Lib.Refinement
import IMUtility.Lib.Slots

/-! # Offsets of slots in `uint32_t`

The queues keep their elements in slots of one buffer and compute the offset of a slot as a
`uint32_t` product. An access records which slot is meant and which offset was computed. The two
agree as long as the offset of the last slot fits 32 bits (`slotAt_meets`); then the slots are
apart and inside the buffer (`offsetsExact_of_meets`). That an operation makes the accesses listed
for it, and no others, is what `CopiesAt` says: they are those of the copies that it performs. -/

namespace IMUtility

/-- An access of one element: the slot that is meant, and the offset that is computed. -/
structure SlotAccess where
  index : Nat
  offset : BitVec 32

/-- `&buffer[cursor * element_size]`. -/
def slotAt (cursor element_size : BitVec 32) : SlotAccess :=
  ⟨cursor.toNat, cursor * element_size⟩

/-- The access means a slot of the buffer, and goes there. -/
structure SlotAccess.Meets (capacity element_size : Nat) (a : SlotAccess) : Prop where
  index_lt : a.index < capacity
  offset_eq : a.offset.toNat = a.index * element_size

/-- The offset of the last slot fits `uint32_t`. -/
def LastOffsetFits (capacity element_size : Nat) : Prop := (capacity - 1) * element_size < 2 ^ 32

instance (capacity element_size : Nat) : Decidable (LastOffsetFits capacity element_size) :=
  inferInstanceAs (Decidable (_ < _))

/-! ## Copies

All that the operations do to the bytes of elements is `memcpy`: of the client's object into a slot,
of a slot into the client's object, and of a slot onto another. -/

/-- A `memcpy` of one element. -/
inductive SlotCopy where
  /-- From the client's object into the buffer. -/
  | store (target : SlotAccess)
  /-- From the buffer into the client's object. -/
  | fetch (source : SlotAccess)
  /-- Within the buffer. -/
  | move (target source : SlotAccess)

namespace SlotCopy

/-- The accesses to the buffer. -/
def accesses : SlotCopy → List SlotAccess
  | .store target => [target]
  | .fetch source => [source]
  | .move target source => [target, source]

/-- What it does to the buffer and the client's object. -/
def perform (element_size : Nat) :
    SlotCopy → List Byte × List Byte → Option (List Byte × List Byte)
  | .store target, (buffer, object) => do
    let buffer ← Slots.copy buffer target.offset.toNat object 0 element_size
    some (buffer, object)
  | .fetch source, (buffer, object) => do
    let object ← Slots.copy object 0 buffer source.offset.toNat element_size
    some (buffer, object)
  | .move target source, (buffer, object) => do
    let buffer ← Slots.copyWithin buffer target.offset.toNat source.offset.toNat element_size
    some (buffer, object)

end SlotCopy

/-- The copies with these accesses, in this order, lead from one buffer and object to another. -/
abbrev CopiesAt (element_size : Nat) : List SlotAccess → List Byte × List Byte →
    List Byte × List Byte → Prop :=
  Footprint.Follows (SlotCopy.perform element_size) SlotCopy.accesses

section CopiesAt

variable {n : Nat} {a source : SlotAccess} {buffer buffer' object object' : List Byte}

theorem CopiesAt.store (h : Slots.copy buffer a.offset.toNat object 0 n = some buffer') :
    CopiesAt n [a] (buffer, object) (buffer', object) := by
  -- the object is the client's, and is not changed
  have hperform : (SlotCopy.store a).perform n (buffer, object) = some (buffer', object) := by
    rw [SlotCopy.perform, h]
    rfl
  exact Footprint.Follows.single hperform

theorem CopiesAt.fetch (h : Slots.copy object 0 buffer a.offset.toNat n = some object') :
    CopiesAt n [a] (buffer, object) (buffer, object') := by
  have hperform : (SlotCopy.fetch a).perform n (buffer, object) = some (buffer, object') := by
    rw [SlotCopy.perform, h]
    rfl
  exact Footprint.Follows.single hperform

theorem CopiesAt.move
    (h : Slots.copyWithin buffer a.offset.toNat source.offset.toNat n = some buffer') :
    CopiesAt n [a, source] (buffer, object) (buffer', object) := by
  have hperform : (SlotCopy.move a source).perform n (buffer, object) = some (buffer', object) := by
    rw [SlotCopy.perform, h]
    rfl
  exact Footprint.Follows.single hperform

end CopiesAt

/-! ## Exact offsets

What the two queues have in common. Both prove `Meets` for each access, from which the three
fields of `OffsetsExact` follow; and both refute it from the access to the last slot, when that
slot's offset has wrapped.
-/

section Machine

variable {σ ι ο : Type}

/-- In the states that are reached, the accesses of every call compute the offset of the slot they
mean, stay inside the buffer, and two of them that mean different slots share no byte. -/
structure OffsetsExact (accesses : σ → ι → List SlotAccess) (Reached : σ → Prop) (Ok : ι → Prop)
    (capacity element_size : Nat) : Prop where
  exact : ∀ s c, Reached s → Ok c → ∀ a ∈ accesses s c, a.offset.toNat = a.index * element_size
  inside : ∀ s c, Reached s → Ok c → ∀ a ∈ accesses s c,
    a.offset.toNat + element_size ≤ capacity * element_size
  apart : ∀ s c s' c', Reached s → Ok c → Reached s' → Ok c' →
    ∀ a ∈ accesses s c, ∀ a' ∈ accesses s' c', a.index ≠ a'.index →
      a.offset.toNat + element_size ≤ a'.offset.toNat ∨
        a'.offset.toNat + element_size ≤ a.offset.toNat

variable {accesses : σ → ι → List SlotAccess} {Reached : σ → Prop} {Ok : ι → Prop}
  {capacity element_size : Nat}

theorem offsetsExact_of_meets
    (h : ∀ s c, Reached s → Ok c → ∀ a ∈ accesses s c, a.Meets capacity element_size) :
    OffsetsExact accesses Reached Ok capacity element_size where
  exact s c hs hc a ha := (h s c hs hc a ha).offset_eq
  inside s c hs hc a ha := by
    rw [(h s c hs hc a ha).offset_eq]
    exact Slots.slot_end_le element_size (h s c hs hc a ha).index_lt
  apart s c s' c' hs hc hs' hc' a ha a' ha' hne := by
    rw [(h s c hs hc a ha).offset_eq, (h s' c' hs' hc' a' ha').offset_eq]
    exact Slots.slots_apart element_size hne

end Machine

variable {capacity : Nat} {element_size cursor : BitVec 32}

/-- The offset of no slot wraps when that of the last one does not. -/
theorem LastOffsetFits.mul_lt {n : Nat} (h : LastOffsetFits capacity element_size.toNat)
    (hn : n < capacity) : n * element_size.toNat < 2 ^ 32 :=
  Nat.lt_of_le_of_lt (Nat.mul_le_mul_right _ (Nat.le_sub_one_of_lt hn)) h

theorem slotAt_meets (h : LastOffsetFits capacity element_size.toNat)
    (hcursor : cursor.toNat < capacity) :
    (slotAt cursor element_size).Meets capacity element_size.toNat where
  index_lt := hcursor
  offset_eq := BitVec.toNat_mul_of_lt (h.mul_lt hcursor)

/-- The last slot is reached at its offset only if that offset fits. -/
theorem lastOffsetFits_of_slotAt (hcursor : cursor.toNat = capacity - 1)
    (h : (slotAt cursor element_size).offset.toNat = (slotAt cursor element_size).index
      * element_size.toNat) : LastOffsetFits capacity element_size.toNat := by
  have hlt := (slotAt cursor element_size).offset.isLt
  -- an offset that is computed is below 2^32, so an exact one fits
  rw [h] at hlt
  rwa [LastOffsetFits, ← hcursor]

/-- A wrapped offset is never beyond the true one. -/
theorem slotAt_offset_le (cursor element_size : BitVec 32) :
    (slotAt cursor element_size).offset.toNat ≤ cursor.toNat * element_size.toNat := by
  show (cursor * element_size).toNat ≤ _
  rw [BitVec.toNat_mul]
  exact Nat.mod_le _ _

end IMUtility
