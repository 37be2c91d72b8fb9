import IMUtility.Utils.Blob
import IMUtility.Utils.Records

/-! # Messages of integers and blobs

A message is a list of items back to back, integers and blobs in any mix, each written and read by
its pair of functions at a pointer into one buffer. The blob functions loop to their end without
knowing where the next item starts, and the little-endian ones leave their type if the size is too
large. With sizes that they admit, a message is read back as it was written, whatever the order of
the writes (`message_read_back`). -/

namespace IMUtility
namespace Utils

open Patch

/-! ## Items and their functions

A field goes through one pair of functions, as in a record; a blob brings a source on the way in and
an object on the way out. `Admitted` is the condition on sizes under which a blob's functions work
(`blobsWork_iff`), one for each byte order.
-/

/-- An item of a message. -/
inductive Item
  | field (f : Field)
  | blob (order : Endianness) (src : List Byte)

/-- What the reader of an item knows in advance. -/
inductive Shape
  | field (kind : Kind)
  | blob (order : Endianness) (size : BitVec 32)

namespace Shape

def size : Shape → Nat
  | field kind => kind.size
  | blob _ size => size.toNat

/-- Read an item at `off`. A blob is copied to `dst`, and looked at there. -/
def read (buffer : List Byte) (off : Nat) (dst : List Byte) : Shape → Option Item
  | field kind => some (.field ⟨kind, kind.deserialize buffer off⟩)
  | blob .be size =>
    some (.blob .be (window (deserializeBlobBE (buffer.drop off) dst size) 0 size.toNat))
  | blob .le size => (deserializeBlobLE (buffer.drop off) dst size).map fun dst =>
    .blob .le (window dst 0 size.toNat)

end Shape

namespace Item

def shape : Item → Shape
  | field f => .field f.kind
  | blob order src => .blob order (BitVec.ofNat 32 src.length)

/-- The size is one that the functions of the item admit. -/
def Admitted : Item → Prop
  | field _ => True
  | blob .be src => src.length < 2 ^ 32
  | blob .le src => src.length < 2 ^ 31

instance : DecidablePred Admitted
  | field _ => inferInstanceAs (Decidable True)
  | blob .be src => inferInstanceAs (Decidable (src.length < 2 ^ 32))
  | blob .le src => inferInstanceAs (Decidable (src.length < 2 ^ 31))

def size : Item → Nat
  | field f => f.size
  | blob _ src => src.length

/-- What stands in the buffer. -/
def bytes : Item → List Byte
  | field f => f.bytes
  | blob .be src => src
  | blob .le src => src.reverse

/-- The item as it is read back. -/
def kept : Item → Item
  | field f => .field f.kept
  | blob order src => .blob order src

/-- Write an item at `off`. -/
def write (buffer : List Byte) (off : Nat) : Item → Option (List Byte)
  | field f => some (f.kind.serialize buffer off f.value)
  | blob .be src =>
    some (buffer.take off
      ++ serializeBlobBE (buffer.drop off) src (BitVec.ofNat 32 src.length))
  | blob .le src =>
    (serializeBlobLE (buffer.drop off) src (BitVec.ofNat 32 src.length)).map fun tail =>
      buffer.take off ++ tail

end Item

/-- Write items at their offsets, one call after the other. -/
def writeAll (buffer : List Byte) : List (Nat × Item) → Option (List Byte)
  | [] => some buffer
  | e :: writes => (e.2.write buffer e.1).bind fun buffer => writeAll buffer writes

/-- Read the items of a message, one call after the other. -/
def readAll (buffer dst : List Byte) : Nat → List Shape → Option (List Item)
  | _, [] => some []
  | base, s :: shapes =>
    (s.read buffer base dst).bind fun item =>
      (readAll buffer dst (base + s.size) shapes).map fun items => item :: items

/-- Where the message ends. -/
def messageEnd (base : Nat) (items : List Item) : Nat := base + total Item.size items

variable {buffer src dst : List Byte} {off base : Nat} {item : Item} {items : List Item}
  {writes : List (Nat × Item)}

/-! ## Blobs behind a pointer

A blob function is given a pointer into the buffer and no end of it, so it is followed on the rest
of the buffer. It reads and writes no further than `size`.
-/

/-- The loop reads no more than it copies. -/
theorem copyLoop_take {size : BitVec 32} {n : Nat} {i : BitVec 32} (hi : i.toNat + n = size.toNat)
    (src dst : List Byte) :
    copyLoop size src i dst = copyLoop size (src.take size.toNat) i dst := by
  induction n generalizing i dst with
  | zero =>
      have hnot : ¬ i < size := by
        show ¬ i.toNat < size.toNat
        omega
      rw [copyLoop, if_neg hnot, copyLoop, if_neg hnot]
  | succ n ih =>
      have hlt : i < size := by
        show i.toNat < size.toNat
        omega
      have hnext : (i + 1#32).toNat = i.toNat + 1 := toNat_succ_of_lt (by have := size.isLt; omega)
      have hsame : (src.take size.toNat).getD i.toNat 0 = src.getD i.toNat 0 := by
        rw [List.getD_eq_getElem?_getD, List.getD_eq_getElem?_getD,
          List.getElem?_take_of_lt (by omega)]
      rw [copyLoop, if_pos hlt, ih (by omega), eq_comm, copyLoop, if_pos hlt, hsame]

theorem deserializeBlobBE_eq {size : BitVec 32} (hsrc : size.toNat ≤ src.length)
    (dst : List Byte) : deserializeBlobBE src dst size = patch dst 0 (src.take size.toNat) := by
  have hlen : (src.take size.toNat).length = size.toNat := by
    rw [List.length_take, Nat.min_eq_left hsrc]
  rw [deserializeBlobBE, @copyLoop_take size size.toNat 0#32 (Nat.zero_add _)]
  exact copyLoop_eq_patch hlen size.toNat (Nat.zero_add _) dst

theorem mirror_eq {size : BitVec 32} (h : size.toNat < 2 ^ 31) (hsrc : size.toNat ≤ src.length)
    (dst : List Byte) : (mirrorStart size).bind (fun i => mirrorLoop src i 0 dst)
      = some (patch dst 0 (src.take size.toNat).reverse) := by
  rw [mirrorStart_of_lt h, Option.bind_some]
  exact mirrorLoop_eq_patch hsrc (show 0 + size.toNat < 2 ^ 31 by omega) dst

/-! ## One item

An item is a patch of its bytes when it is written, and is told from its window when it is read.
With this the two kinds of items are alike, and nothing below looks at them again.
-/

theorem Item.length_bytes (item : Item) : item.bytes.length = item.size := by
  cases item with
  | field f => exact f.length_bytes
  | blob order src =>
      cases order with
      | be => rfl
      | le => exact List.length_reverse

theorem Item.size_shape (h : item.Admitted) : item.shape.size = item.size := by
  cases item with
  | field f => rfl
  | blob order src =>
      have hlt : src.length < 2 ^ 32 := by
        cases order with
        | be => exact h
        | le => exact Nat.lt_trans h (by decide)
      exact (BitVec.toNat_ofNat _ _).trans (Nat.mod_eq_of_lt hlt)

/-- **Writing an item is a patch.** -/
theorem Item.write_eq_patch (h : item.Admitted) (hfit : off + item.size ≤ buffer.length) :
    item.write buffer off = some (patch buffer off item.bytes) := by
  have hsize := Item.size_shape h
  cases item with
  | field f => exact congrArg some (Kind.serialize_eq_patch f.kind buffer off f.value)
  | blob order src =>
      have hlen : (BitVec.ofNat 32 src.length).toNat = src.length := hsize
      cases order with
      | be =>
          rw [Item.write, serializeBlobBE_eq hlen.symm, take_append_patch hfit]
          rfl
      | le =>
          -- the little-endian functions lay the source down mirrored
          have hrev : off + src.reverse.length ≤ buffer.length := by
            rwa [List.length_reverse]
          have hlt : (BitVec.ofNat 32 src.length).toNat < 2 ^ 31 := by
            rw [hlen]
            exact h
          rw [Item.write, serializeBlobLE, mirror_eq hlt (Nat.le_of_eq hlen), hlen,
            List.take_length, Option.map_some, take_append_patch hrev]
          rfl

/-- **Reading an item** that stands in the buffer, into a `dst` with room for it. -/
theorem Item.read_eq (h : item.Admitted) (hfit : off + item.size ≤ buffer.length)
    (hwindow : window buffer off item.size = item.bytes) (hdst : item.size ≤ dst.length) :
    item.shape.read buffer off dst = some item.kept := by
  have hsize := Item.size_shape h
  cases item with
  | field f =>
      have hvalue : f.kind.deserialize buffer off = f.kind.kept f.value := by
        have hencode : window buffer off f.kind.size = f.kind.encode f.value := hwindow
        rw [Kind.deserialize_eq_decode f.kind hfit, hencode, Kind.decode_encode_eq_kept]
      rw [Item.shape, Shape.read, hvalue]
      rfl
  | blob order src =>
      have hlen : (BitVec.ofNat 32 src.length).toNat = src.length := hsize
      have hdrop : (BitVec.ofNat 32 src.length).toNat ≤ (buffer.drop off).length := by
        rw [hlen, List.length_drop]
        exact Nat.le_sub_of_add_le (by rwa [Nat.add_comm])
      have hself : ∀ xs : List Byte, xs.length = src.length →
          window (patch dst 0 xs) 0 (BitVec.ofNat 32 src.length).toNat = xs := by
        intro xs hxs
        have hroom : 0 + xs.length ≤ dst.length := by
          rw [Nat.zero_add, hxs]
          exact hdst
        have hpatch := window_patch_self hroom
        rwa [hxs, ← hlen] at hpatch
      cases order with
      | be =>
          have htake : (buffer.drop off).take (BitVec.ofNat 32 src.length).toNat = src := by
            rw [hlen]
            exact hwindow
          rw [Item.shape, Shape.read, deserializeBlobBE_eq hdrop, htake, hself src rfl]
          rfl
      | le =>
          have htake : (buffer.drop off).take (BitVec.ofNat 32 src.length).toNat = src.reverse := by
            rw [hlen]
            exact hwindow
          -- the mirrored copy counts with a signed index, hence the smaller bound
          have hlt : (BitVec.ofNat 32 src.length).toNat < 2 ^ 31 := by
            rw [hlen]
            exact h
          rw [Item.shape, Shape.read, deserializeBlobLE, mirror_eq hlt hdrop, htake,
            List.reverse_reverse, Option.map_some, hself src rfl]
          rfl

/-! ## Whole messages

Items at their places are apart, so the order of the writes does not matter and each window holds
the bytes of its item. That is the argument for records, on items instead of fields.
-/

/-- Writing items is patching them in. By induction on the writes. -/
theorem writeAll_eq_patchAll (h : ∀ e ∈ writes, e.2.Admitted)
    (hfit : ∀ e ∈ writes, e.1 + e.2.size ≤ buffer.length) :
    writeAll buffer writes = some (patchAll Item.bytes buffer writes) := by
  induction writes generalizing buffer with
  | nil => rfl
  | cons e writes ih =>
      have hrest : ∀ e' ∈ writes, e'.1 + e'.2.size ≤ (patch buffer e.1 e.2.bytes).length := by
        intro e' he'
        rw [length_patch]
        exact hfit e' (List.mem_cons_of_mem e he')
      rw [writeAll, Item.write_eq_patch (h e List.mem_cons_self) (hfit e List.mem_cons_self),
        Option.bind_some, ih (fun e' he' => h e' (List.mem_cons_of_mem e he')) hrest]
      rfl

/-- Reading items that all stand in the buffer. By induction on them. -/
theorem readAll_eq (h : ∀ item ∈ items, item.Admitted)
    (hfit : messageEnd base items ≤ buffer.length)
    (hwindow : ∀ e ∈ placed Item.size base items, window buffer e.1 e.2.size = e.2.bytes)
    (hdst : ∀ item ∈ items, item.size ≤ dst.length) :
    readAll buffer dst base (items.map Item.shape) = some (items.map Item.kept) := by
  induction items generalizing base with
  | nil => rfl
  | cons item items ih =>
      have hadmitted := h item List.mem_cons_self
      have hend : messageEnd base (item :: items) = messageEnd (base + item.size) items := by
        rw [messageEnd, messageEnd, total_cons, Nat.add_assoc]
      have hhead : base + item.size ≤ buffer.length := by
        rw [messageEnd, total_cons] at hfit
        omega
      rw [hend] at hfit
      have hfirst := Item.read_eq hadmitted hhead (hwindow (base, item) List.mem_cons_self)
        (hdst item List.mem_cons_self)
      rw [List.map_cons, readAll, hfirst, Option.bind_some, Item.size_shape hadmitted,
        ih (fun i hi => h i (List.mem_cons_of_mem item hi)) hfit
          (fun e he => hwindow e (List.mem_cons_of_mem _ he))
          (fun i hi => hdst i (List.mem_cons_of_mem item hi))]
      rfl

/-- **A message is read back as it was written**, in every mix of integers and blobs of the sizes
that their functions admit, in whatever order the items were written, and nothing outside it
changes. The blobs may all be read into one `dst`. -/
theorem message_read_back (base : Nat) (items : List Item) (buffer : List Byte)
    (writes : List (Nat × Item)) (hadmitted : ∀ item ∈ items, item.Admitted)
    (hfit : messageEnd base items ≤ buffer.length)
    (hperm : writes.Perm (placed Item.size base items)) :
    ∃ buffer', writeAll buffer writes = some buffer' ∧
      (∀ dst : List Byte, (∀ item ∈ items, item.size ≤ dst.length) →
        readAll buffer' dst base (items.map Item.shape) = some (items.map Item.kept)) ∧
      ∀ p, p < base ∨ messageEnd base items ≤ p → buffer'[p]? = buffer[p]? := by
  have hbounds : ∀ e ∈ writes, base ≤ e.1 ∧ e.1 + e.2.size ≤ messageEnd base items :=
    fun e he => placed_bounds Item.size (hperm.mem_iff.mp he)
  have hin : ∀ e ∈ writes, e.1 + e.2.size ≤ buffer.length :=
    fun e he => Nat.le_trans (hbounds e he).2 hfit
  have hall : ∀ e ∈ writes, e.2.Admitted :=
    fun e he => hadmitted e.2 (mem_of_mem_placed Item.size (hperm.mem_iff.mp he))
  -- the places are apart in the order of the items, and so in any other
  have hapart : writes.Pairwise (Apart Item.size) :=
    (hperm.pairwise_iff (Apart.symm Item.size)).mpr (pairwise_placed Item.size base items)
  refine ⟨_, writeAll_eq_patchAll hall hin, ?_, ?_⟩
  · intro dst hdst
    apply readAll_eq hadmitted (by rwa [length_patchAll]) _ hdst
    intro e he
    exact window_patchAll Item.length_bytes hin hapart (hperm.mem_iff.mpr he)
  · intro p hp
    refine getElem?_patchAll Item.length_bytes hin ?_
    intro e he
    obtain ⟨hlo, hhi⟩ := hbounds e he
    omega

/-- A 24-bit field and two blobs of both orders, the last item written first. -/
theorem message_read_back_three :
    let items : List Item := [.field ⟨.u24 .le, 0x01020304#32⟩, .blob .le [1, 2, 3], .blob .be [4]]
    ∃ buffer', writeAll (List.replicate 9 0) (placed Item.size 1 items).reverse = some buffer' ∧
      readAll buffer' (List.replicate 3 0xFF) 1 (items.map Item.shape)
        = some (items.map Item.kept) := by
  intro items
  obtain ⟨buffer', hwrite, hread, -⟩ := message_read_back 1 items (List.replicate 9 0) _
    (by decide) (by decide) (List.reverse_perm _)
  exact ⟨buffer', hwrite, hread _ (by decide)⟩

end Utils
end IMUtility
