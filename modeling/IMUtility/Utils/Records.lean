import IMUtility.Utils.Serialize

/-! # Records of serialised integers

A record is a list of fields laid back to back from a base offset, each with a width and a byte
order of its own. The fields may be written in any order. `records_lossless` collects what the
functions promise together: what was written is read back, nothing outside the record changes,
the two byte orders mirror each other, and writing what was read changes nothing. -/

namespace IMUtility
namespace Utils

open ByteOrder Patch

/-! ## Kinds of fields

The integers have seven pairs of functions, which differ in width and byte order only. A field
names its pair by these two. A 24-bit field is written from 32 bits and loses the upper byte,
which is what `kept` says.
-/

/-- The suffixes `BE` and `LE`. -/
inductive Endianness where
  | be
  | le
  deriving DecidableEq, Repr

/-- Which pair of functions a field is written and read with. -/
inductive Kind where
  | u8
  | u16 (order : Endianness)
  | u24 (order : Endianness)
  | u32 (order : Endianness)
  deriving DecidableEq, Repr

namespace Kind

/-- The bits of the parameter `value`. -/
def width : Kind → Nat
  | u8 => 8
  | u16 _ => 16
  | u24 _ => 32
  | u32 _ => 32

/-- The bytes in the buffer. -/
def size : Kind → Nat
  | u8 => 1
  | u16 _ => 2
  | u24 _ => 3
  | u32 _ => 4

/-- The matching `Utils_Serialize*`. -/
def serialize : (k : Kind) → List Byte → Nat → BitVec k.width → List Byte
  | u8 => serialize8
  | u16 .be => serialize16BE
  | u16 .le => serialize16LE
  | u24 .be => serialize24BE
  | u24 .le => serialize24LE
  | u32 .be => serialize32BE
  | u32 .le => serialize32LE

/-- The matching `Utils_Deserialize*`. -/
def deserialize : (k : Kind) → List Byte → Nat → BitVec k.width
  | u8 => deserialize8
  | u16 .be => deserialize16BE
  | u16 .le => deserialize16LE
  | u24 .be => deserialize24BE
  | u24 .le => deserialize24LE
  | u32 .be => deserialize32BE
  | u32 .le => deserialize32LE

/-- What is left of a value that was written: all of it, and 24 bits of a 24-bit field. -/
def kept : (k : Kind) → BitVec k.width → BitVec k.width
  | u24 _, value => BitVec.ofNat 32 (value.toNat % 2 ^ 24)
  | u8, value => value
  | u16 _, value => value
  | u32 _, value => value

/-! ## One field

A field is a codec: its writer patches `encode` in, and its reader decodes the window. -/

/-- The byte order of a kind; a single byte has both. -/
def order : Kind → Endianness
  | u8 => .le
  | u16 order => order
  | u24 order => order
  | u32 order => order

/-- The bytes of a value. -/
def encode (k : Kind) (value : BitVec k.width) : List Byte :=
  match k.order with
  | .be => bytesBE k.size value
  | .le => bytesLE k.size value

/-- The value of bytes. -/
def decode (k : Kind) (bytes : List Byte) : BitVec k.width :=
  match k.order with
  | .be => ofBytesBE bytes
  | .le => ofBytesLE bytes

theorem length_encode (k : Kind) (value : BitVec k.width) : (k.encode value).length = k.size := by
  unfold encode
  cases k.order with
  | be => exact length_bytesBE _ _
  | le => exact length_bytesLE _ _

theorem serialize_eq_patch (k : Kind) (buffer : List Byte) (buf : Nat) (value : BitVec k.width) :
    k.serialize buffer buf value = patch buffer buf (k.encode value) := by
  cases k with
  | u8 => exact serialize8_eq value
  | u16 order =>
      cases order with
      | be => exact serialize16BE_eq value
      | le => exact serialize16LE_eq value
  | u24 order =>
      cases order with
      | be => exact serialize24BE_eq value
      | le => exact serialize24LE_eq value
  | u32 order =>
      cases order with
      | be => exact serialize32BE_eq value
      | le => exact serialize32LE_eq value

theorem deserialize_eq_decode (k : Kind) {buffer : List Byte} {buf : Nat}
    (h : buf + k.size ≤ buffer.length) :
    k.deserialize buffer buf = k.decode (window buffer buf k.size) := by
  cases k with
  | u8 => exact deserialize8_eq h
  | u16 order =>
      cases order with
      | be => exact deserialize16BE_eq h
      | le => exact deserialize16LE_eq h
  | u24 order =>
      cases order with
      | be => exact deserialize24BE_eq h
      | le => exact deserialize24LE_eq h
  | u32 order =>
      cases order with
      | be => exact deserialize32BE_eq h
      | le => exact deserialize32LE_eq h

theorem decode_encode_eq_kept (k : Kind) (value : BitVec k.width) :
    k.decode (k.encode value) = k.kept value := by
  have hnat : (k.decode (k.encode value)).toNat = value.toNat % 2 ^ (8 * k.size) := by
    unfold decode encode
    cases k.order with
    | be => exact toNat_ofBytesBE_bytesBE _ _
    | le => exact toNat_ofBytesLE_bytesLE _ _
  apply BitVec.eq_of_toNat_eq
  rw [hnat]
  cases k with
  | u8 => exact Nat.mod_eq_of_lt value.isLt
  | u16 order => exact Nat.mod_eq_of_lt value.isLt
  | u24 order =>
      have hlt : value.toNat % 2 ^ 24 < 2 ^ 32 := by omega
      exact (Nat.mod_eq_of_lt hlt).symm
  | u32 order => exact Nat.mod_eq_of_lt value.isLt

theorem encode_decode (k : Kind) {bytes : List Byte} (h : bytes.length = k.size) :
    k.encode (k.decode bytes) = bytes := by
  -- no field is wider than its word
  have hwidth : 8 * k.size ≤ k.width := by
    cases k <;> simp [size, width]
  unfold decode encode
  cases k.order with
  | be => exact bytesBE_ofBytesBE h hwidth
  | le => exact bytesLE_ofBytesLE h hwidth

end Kind

/-! ## Records

The offsets of a record are computed once and used for writing and for reading. `placed` lays
things with sizes back to back, and says that they are apart; so each write leaves the windows of
the others, and the writes may come in any order.
-/

/-- One field of a record. -/
structure Field where
  kind : Kind
  value : BitVec kind.width

namespace Field

def size (f : Field) : Nat := f.kind.size

def bytes (f : Field) : List Byte := f.kind.encode f.value

/-- The field as it is read back. -/
def kept (f : Field) : Field := ⟨f.kind, f.kind.kept f.value⟩

theorem length_bytes (f : Field) : f.bytes.length = f.size := Kind.length_encode _ _

end Field

/-- The fields back to back from `base` on, each with its offset. -/
def layout (base : Nat) (fields : List Field) : List (Nat × Field) := placed Field.size base fields

/-- Where the record ends. -/
def recordEnd (base : Nat) (fields : List Field) : Nat := base + total Field.size fields

/-- Write fields at their offsets, one call after the other. -/
def serializeAll (buffer : List Byte) (writes : List (Nat × Field)) : List Byte :=
  writes.foldl (fun buffer e => e.2.kind.serialize buffer e.1 e.2.value) buffer

/-- Read the fields of a record, one call after the other. -/
def deserializeAll (buffer : List Byte) : Nat → List Kind → List Field
  | _, []        => []
  | base, k :: ks => ⟨k, k.deserialize buffer base⟩ :: deserializeAll buffer (base + k.size) ks

theorem serializeAll_eq_patchAll (buffer : List Byte) (writes : List (Nat × Field)) :
    serializeAll buffer writes = patchAll Field.bytes buffer writes := by
  unfold serializeAll patchAll
  congr 1
  funext buffer e
  exact Kind.serialize_eq_patch e.2.kind buffer e.1 e.2.value

section Runs

variable {base : Nat} {fields : List Field} {buffer : List Byte} {writes : List (Nat × Field)}

theorem layout_fits (hfit : recordEnd base fields ≤ buffer.length)
    (hperm : writes.Perm (layout base fields)) :
    ∀ e ∈ writes, e.1 + e.2.size ≤ buffer.length := by
  intro e he
  have hb := placed_bounds Field.size (hperm.mem_iff.mp he)
  exact Nat.le_trans hb.2 hfit

/-- Whatever the order of the writes, the window of each field holds its bytes. -/
theorem window_serializeAll (hfit : recordEnd base fields ≤ buffer.length)
    (hperm : writes.Perm (layout base fields)) {e : Nat × Field} (he : e ∈ layout base fields) :
    window (serializeAll buffer writes) e.1 e.2.size = e.2.bytes := by
  have hapart : writes.Pairwise (Apart Field.size) :=
    (hperm.pairwise_iff (Apart.symm Field.size)).mpr (pairwise_placed Field.size base fields)
  rw [serializeAll_eq_patchAll]
  exact window_patchAll Field.length_bytes (layout_fits hfit hperm) hapart (hperm.mem_iff.mpr he)

theorem deserialize_serializeAll (hfit : recordEnd base fields ≤ buffer.length)
    (hperm : writes.Perm (layout base fields)) {e : Nat × Field} (he : e ∈ layout base fields) :
    e.2.kind.deserialize (serializeAll buffer writes) e.1 = e.2.kind.kept e.2.value := by
  have hlen : (serializeAll buffer writes).length = buffer.length := by
    rw [serializeAll_eq_patchAll, length_patchAll]
  have hin : e.1 + e.2.kind.size ≤ (serializeAll buffer writes).length := by
    rw [hlen]
    exact layout_fits hfit hperm e (hperm.mem_iff.mpr he)
  -- the window of the field holds its bytes, whatever was written before and after
  have hwindow : window (serializeAll buffer writes) e.1 e.2.kind.size
      = e.2.kind.encode e.2.value := window_serializeAll hfit hperm he
  rw [Kind.deserialize_eq_decode _ hin, hwindow, Kind.decode_encode_eq_kept]

/-- Reading a record whose fields all read back as kept. -/
theorem deserializeAll_eq_kept
    (h : ∀ e ∈ layout base fields, e.2.kind.deserialize buffer e.1 = e.2.kind.kept e.2.value) :
    deserializeAll buffer base (fields.map Field.kind) = fields.map Field.kept := by
  induction fields generalizing base with
  | nil => rfl
  | cons f fs ih =>
      have hfirst : f.kind.deserialize buffer base = f.kind.kept f.value :=
        h (base, f) List.mem_cons_self
      have hrest : deserializeAll buffer (base + f.kind.size) (fs.map Field.kind)
          = fs.map Field.kept := ih fun e he => h e (List.mem_cons_of_mem _ he)
      rw [List.map_cons, List.map_cons, deserializeAll, hfirst, hrest, Field.kept]

theorem getElem?_serializeAll_outside (hfit : recordEnd base fields ≤ buffer.length)
    (hperm : writes.Perm (layout base fields)) {p : Nat}
    (hp : p < base ∨ recordEnd base fields ≤ p) :
    (serializeAll buffer writes)[p]? = buffer[p]? := by
  rw [serializeAll_eq_patchAll]
  refine getElem?_patchAll Field.length_bytes (layout_fits hfit hperm) ?_
  intro e he
  obtain ⟨hlo, hhi⟩ := placed_bounds Field.size (hperm.mem_iff.mp he)
  have hend : recordEnd base fields = base + total Field.size fields := rfl
  rcases hp with hp | hp
  · exact Or.inl (by omega)
  · exact Or.inr (by omega)

end Runs

/-! ## Writing what was read

The fields that were read carry the values of their windows, so writing them again writes the same
bytes. Into another buffer they bring the record over.
-/

section Reproduce

variable {base : Nat} {kinds : List Kind} {src : List Byte}

/-- Each field of a record that was read has the value its reader returned. -/
theorem value_of_mem_deserializeAll {e : Nat × Field}
    (he : e ∈ layout base (deserializeAll src base kinds)) :
    e.2.value = e.2.kind.deserialize src e.1 := by
  induction kinds generalizing base with
  | nil => exact absurd he List.not_mem_nil
  | cons k ks ih =>
      rcases List.mem_cons.mp he with rfl | he
      · rfl
      · exact ih he

/-- Written anywhere of the same shape, what was read spells the original bytes. -/
theorem getElem?_reproduced {dst : List Byte} {writes : List (Nat × Field)}
    (hsrc : recordEnd base (deserializeAll src base kinds) ≤ src.length)
    (hdst : recordEnd base (deserializeAll src base kinds) ≤ dst.length)
    (hperm : writes.Perm (layout base (deserializeAll src base kinds))) {p : Nat}
    (hlo : base ≤ p) (hhi : p < recordEnd base (deserializeAll src base kinds)) :
    (serializeAll dst writes)[p]? = src[p]? := by
  obtain ⟨e, he, hfrom, hto⟩ := exists_placed Field.size hlo hhi
  have hin : e.1 + e.2.kind.size ≤ src.length := layout_fits hsrc (List.Perm.refl _) e he
  -- the bytes of the field are the window it was read from
  have hbytes : e.2.bytes = window src e.1 e.2.size := by
    rw [Field.bytes, value_of_mem_deserializeAll he, Kind.deserialize_eq_decode _ hin,
      Kind.encode_decode _ (length_window hin)]
    rfl
  have hwindow := congrArg (fun l => l[p - e.1]?) (window_serializeAll hdst hperm he)
  have hpos : e.1 + (p - e.1) = p := by omega
  have hlt : p - e.1 < e.2.size := by omega
  simpa only [hbytes, getElem?_window, hpos, if_pos hlt] using hwindow

theorem serializeAll_deserializeAll {writes : List (Nat × Field)}
    (hsrc : recordEnd base (deserializeAll src base kinds) ≤ src.length)
    (hperm : writes.Perm (layout base (deserializeAll src base kinds))) :
    serializeAll src writes = src := by
  apply List.ext_getElem?
  intro p
  -- inside the record or outside
  by_cases hp : base ≤ p ∧ p < recordEnd base (deserializeAll src base kinds)
  · exact getElem?_reproduced hsrc hsrc hperm hp.1 hp.2
  · exact getElem?_serializeAll_outside hsrc hperm (by omega)

end Reproduce

/-! ## Mirrored bytes

The same value, written by the two functions of a width into the same place: what stands in the
window of one is what stands in that of the other, from the end.
-/

/-- Written at one place in the two byte orders, a value stands mirrored. -/
theorem window_patch_mirror {w n buf : Nat} {buffer : List Byte} (h : buf + n ≤ buffer.length)
    (value : BitVec w) :
    window (patch buffer buf (bytesLE n value)) buf n
      = (window (patch buffer buf (bytesBE n value)) buf n).reverse := by
  have hle : window (patch buffer buf (bytesLE n value)) buf n = bytesLE n value := by
    have hself := window_patch_self (show buf + (bytesLE n value).length ≤ buffer.length by simpa)
    rwa [length_bytesLE] at hself
  have hbe : window (patch buffer buf (bytesBE n value)) buf n = bytesBE n value := by
    have hself := window_patch_self (show buf + (bytesBE n value).length ≤ buffer.length by simpa)
    rwa [length_bytesBE] at hself
  rw [hle, hbe, bytesBE, List.reverse_reverse]

/-- **Records serialise and deserialise losslessly**, in every mix of widths and byte orders and
for every order of the writes. -/
theorem records_lossless :
    (∀ (base : Nat) (fields : List Field) (buffer : List Byte) (writes : List (Nat × Field)),
      recordEnd base fields ≤ buffer.length → writes.Perm (layout base fields) →
      deserializeAll (serializeAll buffer writes) base (fields.map Field.kind)
          = fields.map Field.kept ∧
      ∀ p : Nat, p < base ∨ recordEnd base fields ≤ p →
        (serializeAll buffer writes)[p]? = buffer[p]?) ∧
    (∀ (buffer : List Byte) (buf : Nat),
      (∀ value : BitVec 16, buf + 2 ≤ buffer.length →
        window (serialize16LE buffer buf value) buf 2
          = (window (serialize16BE buffer buf value) buf 2).reverse) ∧
      (∀ value : BitVec 32, buf + 3 ≤ buffer.length →
        window (serialize24LE buffer buf value) buf 3
          = (window (serialize24BE buffer buf value) buf 3).reverse) ∧
      (∀ value : BitVec 32, buf + 4 ≤ buffer.length →
        window (serialize32LE buffer buf value) buf 4
          = (window (serialize32BE buffer buf value) buf 4).reverse)) ∧
    (∀ (base : Nat) (kinds : List Kind) (src : List Byte) (writes : List (Nat × Field)),
      recordEnd base (deserializeAll src base kinds) ≤ src.length →
      writes.Perm (layout base (deserializeAll src base kinds)) →
      serializeAll src writes = src ∧
      ∀ dst : List Byte, recordEnd base (deserializeAll src base kinds) ≤ dst.length →
        ∀ p : Nat, base ≤ p → p < recordEnd base (deserializeAll src base kinds) →
          (serializeAll dst writes)[p]? = src[p]?) := by
  refine ⟨?_, ?_, ?_⟩
  -- what is written is read back
  · intro base fields buffer writes hfit hperm
    exact ⟨deserializeAll_eq_kept fun e he => deserialize_serializeAll hfit hperm he,
      fun p hp => getElem?_serializeAll_outside hfit hperm hp⟩
  -- one order is the mirror of the other
  · intro buffer buf
    refine ⟨?_, ?_, ?_⟩
    · intro value h
      rw [serialize16LE_eq, serialize16BE_eq, window_patch_mirror h]
    · intro value h
      rw [serialize24LE_eq, serialize24BE_eq, window_patch_mirror h]
    · intro value h
      rw [serialize32LE_eq, serialize32BE_eq, window_patch_mirror h]
  -- what is read can be written again
  · intro base kinds src writes hsrc hperm
    exact ⟨serializeAll_deserializeAll hsrc hperm,
      fun dst hdst p hlo hhi => getElem?_reproduced hsrc hdst hperm hlo hhi⟩

/-- Three fields, written last first behind a byte that belongs to none of them. -/
theorem records_lossless_three :
    let fields : List Field := [⟨.u8, 0xA5#8⟩, ⟨.u24 .le, 0x01020304#32⟩, ⟨.u16 .be, 0x0506#16⟩]
    deserializeAll (serializeAll (List.replicate 8 0) (layout 1 fields).reverse) 1
      (fields.map Field.kind) = fields.map Field.kept :=
  (records_lossless.1 1 _ (List.replicate 8 0) _ (by decide) (List.reverse_perm _)).1

end Utils
end IMUtility
