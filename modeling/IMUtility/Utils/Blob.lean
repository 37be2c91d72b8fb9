import IMUtility.Typedefs
import IMUtility.Lib.Patch

/-! # `utils.c`: blobs

The blob functions copy `size` bytes, the big-endian ones in order and the little-endian ones
mirrored. The former count in `uint32_t`. The latter count in `int32_t`, from `(int32_t)size - 1`
down to zero, so they work only while the size fits that type (`blobsWork_iff`): from `2 ^ 31 + 1`
on the start is negative and nothing is copied, and at `2 ^ 31` computing it overflows. -/

namespace IMUtility
namespace Utils

open Patch

/-! ## Big endian

The counter is of the type of `size`, and every size works.
-/

/-- The loop `for (uint32_t i = 0; i < size; i++)`. -/
def copyLoop (size : BitVec 32) (src : List Byte) (i : BitVec 32) (dst : List Byte) : List Byte :=
  if i < size then copyLoop size src (i + 1#32) (dst.set i.toNat (src.getD i.toNat 0)) else dst
termination_by size.toNat - i.toNat
decreasing_by
  have hi : i.toNat < size.toNat := by assumption
  rw [toNat_succ_of_lt (by have := size.isLt; omega)]
  omega

/-- `Utils_SerializeBlobBE`. -/
def serializeBlobBE (buf src : List Byte) (size : BitVec 32) : List Byte :=
  copyLoop size src 0#32 buf

/-- `Utils_DeserializeBlobBE`. -/
def deserializeBlobBE (buf dst : List Byte) (size : BitVec 32) : List Byte :=
  copyLoop size buf 0#32 dst

/-! ## Little endian

One index goes down and the other up. Both are `int32_t`, and the cast of `size` is where the type
runs out: it turns the upper half of the sizes negative.
-/

/-- The loop `for (int32_t i = …; i >= 0; --i)`, with `++j` in its body. -/
def mirrorLoop (src : List Byte) (i j : Int) (dst : List Byte) : Option (List Byte) :=
  if 0 ≤ i then
    let dst := dst.set j.toNat (src.getD i.toNat 0)
    (int32 (j + 1)).bind fun j =>
      (int32 (i - 1)).bind fun _ => mirrorLoop src (i - 1) j dst
  else some dst
termination_by (i + 1).toNat
decreasing_by omega

/-- The start `(int32_t)size - 1`. The conversion is modulo `2 ^ 32`, the subtraction is not. -/
def mirrorStart (size : BitVec 32) : Option Int := int32 (size.toInt - 1)

/-- `Utils_SerializeBlobLE`. -/
def serializeBlobLE (buf src : List Byte) (size : BitVec 32) : Option (List Byte) :=
  (mirrorStart size).bind fun i => mirrorLoop src i 0 buf

/-- `Utils_DeserializeBlobLE`. -/
def deserializeBlobLE (buf dst : List Byte) (size : BitVec 32) : Option (List Byte) :=
  (mirrorStart size).bind fun i => mirrorLoop buf i 0 dst

/-! ## The loops as patches

A loop that copies `n` bytes one after the other is a patch of these bytes. By induction on the
bytes left; the mirroring loop takes them from the end.
-/

theorem copyLoop_eq_patch {size : BitVec 32} {src : List Byte} (hsrc : src.length = size.toNat)
    (n : Nat) {i : BitVec 32} (hi : i.toNat + n = size.toNat) (dst : List Byte) :
    copyLoop size src i dst = patch dst i.toNat (src.drop i.toNat) := by
  induction n generalizing i dst with
  | zero =>
      have hnot : ¬ i < size := by
        show ¬ i.toNat < size.toNat
        omega
      rw [copyLoop, if_neg hnot, List.drop_of_length_le (by omega)]
      rfl
  | succ n ih =>
      have hlt : i < size := by
        show i.toNat < size.toNat
        omega
      have hnext : (i + 1#32).toNat = i.toNat + 1 := toNat_succ_of_lt (by have := size.isLt; omega)
      have hin : i.toNat < src.length := by omega
      rw [copyLoop, if_pos hlt, ih (by omega), hnext, List.drop_eq_getElem_cons hin, patch,
        List.getD_eq_getElem _ _ hin]

theorem serializeBlobBE_eq {size : BitVec 32} {src : List Byte} (hsrc : src.length = size.toNat)
    (buf : List Byte) : serializeBlobBE buf src size = patch buf 0 src :=
  copyLoop_eq_patch hsrc size.toNat (Nat.zero_add _) buf

/-- With `n` bytes left, the loop lays them down mirrored. -/
theorem mirrorLoop_eq_patch {src : List Byte} {n : Nat} (hn : n ≤ src.length) {j : Nat}
    (hj : j + n < 2 ^ 31) (dst : List Byte) :
    mirrorLoop src ((n : Int) - 1) j dst = some (patch dst j (src.take n).reverse) := by
  induction n generalizing j dst with
  | zero =>
      rw [mirrorLoop, if_neg (by omega)]
      rfl
  | succ n ih =>
      have hpos : (((n + 1 : Nat) : Int) - 1) = n := by omega
      have hj' : int32 ((j : Int) + 1) = some ((j + 1 : Nat) : Int) :=
        int32_of_nonneg (by omega) (by omega)
      have hi' : int32 ((n : Int) - 1) = some ((n : Int) - 1) := if_pos ⟨by omega, by omega⟩
      have hin : n < src.length := by omega
      have hlast : (src.take (n + 1)).reverse = src[n] :: (src.take n).reverse := by
        rw [List.take_succ_eq_append_getElem hin, List.reverse_concat]
      rw [hpos, mirrorLoop, if_pos (by omega), hj', Option.bind_some, hi', Option.bind_some,
        ih (by omega) (by omega), hlast, patch, Int.toNat_natCast, Int.toNat_natCast,
        List.getD_eq_getElem _ _ hin]

theorem mirrorStart_of_lt {size : BitVec 32} (h : size.toNat < 2 ^ 31) :
    mirrorStart size = some ((size.toNat : Int) - 1) := by
  have hint : size.toInt = size.toNat := BitVec.toInt_eq_toNat_of_lt (by omega)
  rw [mirrorStart, hint]
  exact if_pos ⟨by omega, by omega⟩

/-- A start below zero: the loop is not entered. -/
theorem serializeBlobLE_of_gt {size : BitVec 32} (h : 2 ^ 31 < size.toNat) (buf src : List Byte) :
    serializeBlobLE buf src size = some buf := by
  have hsize := size.isLt
  have hint : size.toInt = size.toNat - 2 ^ 32 := by
    rw [BitVec.toInt_eq_toNat_cond, if_neg (by omega)]
    rfl
  have hstart : mirrorStart size = some ((size.toNat : Int) - 2 ^ 32 - 1) := by
    rw [mirrorStart, hint]
    exact if_pos ⟨by omega, by omega⟩
  rw [serializeBlobLE, hstart, Option.bind_some, mirrorLoop, if_neg (by omega)]

/-- The start is not representable: the subtraction overflows. -/
theorem serializeBlobLE_of_eq {size : BitVec 32} (h : size.toNat = 2 ^ 31) (buf src : List Byte) :
    serializeBlobLE buf src size = none := by
  have hint : size.toInt = -2 ^ 31 := by
    rw [BitVec.toInt_eq_toNat_cond, if_neg (by omega), h]
    rfl
  have hstart : mirrorStart size = none := by
    rw [mirrorStart, hint]
    exact if_neg (by omega)
  rw [serializeBlobLE, hstart]
  rfl

/-! ## What a size promises

The three failures are different: below `2 ^ 31` there is none, at `2 ^ 31` the start of the loop
overflows, and above it the loop is not entered, so that the buffer keeps what it held.
-/

/-- For every source of `size` bytes and every buffer that can hold it: the little-endian writer
mirrors it without an overflow, its reader restores it, and the big-endian writer writes the
mirror image. -/
def BlobsWork (size : BitVec 32) : Prop :=
  ∀ src buf : List Byte, src.length = size.toNat → size.toNat ≤ buf.length →
    ∃ buf', serializeBlobLE buf src size = some buf' ∧
      (∀ k : Nat, k < size.toNat → buf'[k]? = src[size.toNat - 1 - k]?) ∧
      (∀ dst : List Byte, size.toNat ≤ dst.length →
        ∃ dst', deserializeBlobLE buf' dst size = some dst' ∧ window dst' 0 size.toNat = src) ∧
      window (serializeBlobBE buf src size) 0 size.toNat = (window buf' 0 size.toNat).reverse

theorem blobsWork_of_lt {size : BitVec 32} (h : size.toNat < 2 ^ 31) : BlobsWork size := by
  intro src buf hsrc hbuf
  -- both little-endian functions are this loop
  have hmirror : ∀ source into : List Byte, size.toNat ≤ source.length →
      (mirrorStart size).bind (fun i => mirrorLoop source i 0 into)
        = some (patch into 0 (source.take size.toNat).reverse) := by
    intro source into hsource
    rw [mirrorStart_of_lt h, Option.bind_some]
    exact mirrorLoop_eq_patch hsource (show 0 + size.toNat < 2 ^ 31 by omega) into
  have hwrite : serializeBlobLE buf src size = some (patch buf 0 src.reverse) := by
    rw [serializeBlobLE, hmirror src buf (by omega), ← hsrc, List.take_length]
  have hwindow : window (patch buf 0 src.reverse) 0 size.toNat = src.reverse := by
    have hself := window_patch_self (show 0 + src.reverse.length ≤ buf.length by simp; omega)
    rwa [List.length_reverse, hsrc] at hself
  refine ⟨patch buf 0 src.reverse, hwrite, ?_, ?_, ?_⟩
  · intro k hk
    rw [getElem?_patch (by simp; omega), if_pos (by simp; omega), Nat.sub_zero,
      List.getElem?_reverse (by omega), hsrc]
  · intro dst hdst
    refine ⟨patch dst 0 src, ?_, ?_⟩
    · have htake : (patch buf 0 src.reverse).take size.toNat = src.reverse := hwindow
      rw [deserializeBlobLE, hmirror _ dst (by simpa using hbuf), htake, List.reverse_reverse]
    · have hself := window_patch_self (show 0 + src.length ≤ dst.length by omega)
      rwa [hsrc] at hself
  · have hself := window_patch_self (show 0 + src.length ≤ buf.length by omega)
    rw [hsrc] at hself
    rw [serializeBlobBE_eq hsrc, hself, hwindow, List.reverse_reverse]

theorem not_blobsWork_of_eq {size : BitVec 32} (h : size.toNat = 2 ^ 31) : ¬ BlobsWork size := by
  intro hwork
  obtain ⟨buf', hrun, -⟩ := hwork (List.replicate size.toNat 0) (List.replicate size.toNat 0)
    List.length_replicate (by rw [List.length_replicate])
  rw [serializeBlobLE_of_eq h] at hrun
  exact absurd hrun (by simp)

/-- The first byte of the buffer keeps its content. -/
theorem not_blobsWork_of_gt {size : BitVec 32} (h : 2 ^ 31 < size.toNat) : ¬ BlobsWork size := by
  intro hwork
  obtain ⟨buf', hrun, hbytes, -⟩ := hwork (List.replicate size.toNat 1)
    (List.replicate size.toNat 0) List.length_replicate (by rw [List.length_replicate])
  rw [serializeBlobLE_of_gt h] at hrun
  have hfirst := hbytes 0 (by omega)
  rw [← Option.some.inj hrun, List.getElem?_replicate, List.getElem?_replicate,
    if_pos (by omega), if_pos (by omega)] at hfirst
  exact absurd hfirst (by decide)

/-- **Blobs work exactly below `2 ^ 31`**, for half of the sizes their parameter admits. -/
theorem blobsWork_iff (size : BitVec 32) : BlobsWork size ↔ size.toNat < 2 ^ 31 := by
  constructor
  · intro hwork
    rcases Nat.lt_trichotomy size.toNat (2 ^ 31) with hlt | heq | hgt
    · exact hlt
    · exact absurd hwork (not_blobsWork_of_eq heq)
    · exact absurd hwork (not_blobsWork_of_gt hgt)
  · exact blobsWork_of_lt

/-- Of `2 ^ 31 + 1` bytes not one is written, and at `2 ^ 31` the start overflows. -/
theorem blobsWork_fails_above :
    serializeBlobLE (List.replicate (2 ^ 31 + 1) 0) (List.replicate (2 ^ 31 + 1) 1) 0x80000001#32
        = some (List.replicate (2 ^ 31 + 1) 0) ∧
      ¬ BlobsWork 0x80000001#32 ∧ ¬ BlobsWork 0x80000000#32 :=
  ⟨serializeBlobLE_of_gt (by decide) _ _, not_blobsWork_of_gt (by decide),
    not_blobsWork_of_eq (by decide)⟩

end Utils
end IMUtility
