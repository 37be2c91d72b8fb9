import IMUtility.Crc.Variants

/-! # The published CRCs

A CRC is published as a polynomial, an initial value, one flag for the reflection of input and
output, and a final xor. `Parameters.crc` reads such an entry off without a table and without the
settings of the engines, and the results of the module are that each function of the three
families, called once, returns the CRC of its entry.

For that the hand-written tables have to be the calculated ones. The entries are compared as
numbers, against a division register that is itself run on numbers. -/

set_option maxRecDepth 4000

namespace IMUtility.Crc

open DivisionRegister

variable {w : Nat}

/-- One published CRC. The initial value is that of the register before any reflection. -/
structure Parameters (w : Nat) where
  polynomial : BitVec w
  initialValue : BitVec w
  reflect : Bool
  finalXor : BitVec w

/-- The CRC of a message under published parameters. -/
def Parameters.crc (m : Parameters w) (message : List Byte) : BitVec w :=
  let register := feed m.polynomial m.initialValue (messageBits m.reflect message)
  (if m.reflect then register.reverse else register) ^^^ m.finalXor

/-! ## Tables

A table is the calculated one when its numbers are the residues of the numbers below 256. -/

theorem getElem_toNat_of_map {t : Table w} {f : Nat → Nat}
    (h : t.toList.map BitVec.toNat = (List.range 256).map f) {i : Nat} (hi : i < 256) :
    t[i].toNat = f i := by
  have hget := congrArg (fun l => l[i]?) h
  simpa [hi] using hget

theorem eq_tableCalculator (hw : w ≤ 32) (h8 : 8 ≤ w) (g : BitVec w) (t : Table w)
    (h : t.toList.map BitVec.toNat
      = (List.range 256).map fun i => advanceNat w g.toNat 8 (i * 2 ^ (w - 8))) :
    t = tableCalculator (BitVec.intMin w) (w - 8) g := by
  apply Vector.ext
  intro i hi
  have hi' : (BitVec.ofNat 8 i).toNat = i := Nat.mod_eq_of_lt hi
  -- entry `i` of the calculated table, looked up by the byte `i`
  have hcalc : (tableCalculator (BitVec.intMin w) (w - 8) g)[i] = residue g (BitVec.ofNat 8 i) := by
    rw [← at_tableCalculator hw]
    show _ = (tableCalculator (BitVec.intMin w) (w - 8) g)[(BitVec.ofNat 8 i).toNat]
    simp only [hi']
  apply BitVec.eq_of_toNat_eq
  rw [getElem_toNat_of_map h hi, hcalc, toNat_residue g h8, hi']

/-- The CRC-8 tables, each with its polynomial. -/
def tables8 : List (BitVec 8 × Table 8) :=
  [(0x07#8, table8_07), (0x1D#8, table8_1D), (0x2F#8, table8_2F), (0x31#8, table8_31),
   (0x39#8, table8_39), (0x9B#8, table8_9B), (0xD5#8, table8_D5)]

/-- The CRC-16 tables, each with its polynomial. -/
def tables16 : List (BitVec 16 × Table 16) :=
  [(0x0589#16, table16_0589), (0x1021#16, table16_1021), (0x3D65#16, table16_3D65),
   (0x8005#16, table16_8005), (0x8BB7#16, table16_8BB7), (0xA097#16, table16_A097),
   (0xC867#16, table16_C867)]

/-- The CRC-32 tables, each with its polynomial. -/
def tables32 : List (BitVec 32 × Table 32) :=
  [(0x000000AF#32, table32_000000AF), (0x04C11DB7#32, table32_04C11DB7),
   (0x1EDC6F41#32, table32_1EDC6F41), (0x814141AB#32, table32_814141AB),
   (0xA833982B#32, table32_A833982B)]

/-- The numbers of a table are the residues of the numbers below 256. -/
abbrev HoldsResidues (e : BitVec w × Table w) : Prop :=
  e.2.toList.map BitVec.toNat
    = (List.range 256).map fun i => advanceNat w e.1.toNat 8 (i * 2 ^ (w - 8))

theorem tables_holdResidues : (∀ e ∈ tables8, HoldsResidues e) ∧
    (∀ e ∈ tables16, HoldsResidues e) ∧ (∀ e ∈ tables32, HoldsResidues e) := by
  decide +kernel

theorem tables8_eq : ∀ e ∈ tables8, e.2 = crc8BaseTableCalculator e.1 := by
  intro e he
  exact eq_tableCalculator (by omega) (by omega) e.1 e.2 (tables_holdResidues.1 e he)

theorem tables16_eq : ∀ e ∈ tables16, e.2 = crc16BaseTableCalculator e.1 := by
  intro e he
  exact eq_tableCalculator (by omega) (by omega) e.1 e.2 (tables_holdResidues.2.1 e he)

theorem tables32_eq : ∀ e ∈ tables32, e.2 = crc32BaseTableCalculator e.1 := by
  intro e he
  exact eq_tableCalculator (by omega) (by omega) e.1 e.2 (tables_holdResidues.2.2 e he)

/-! ## Engines

`Computes crcBase crc_table g`: with this table the engine is the bitwise CRC of `g`. -/

/-- The engine divides by `g` when it is given `crc_table`. -/
def Computes (crcBase : Engine w) (crc_table : Table w) (g : BitVec w) : Prop :=
  ∀ (message : List Byte) (initial final_xor_value : BitVec w) (ro ri fx : Bool),
    crcBase crc_table message initial final_xor_value ro ri fx
      = bitwise g message initial final_xor_value ro ri fx

theorem computes8 {t : Table 8} {g : BitVec 8} (h : (g, t) ∈ tables8) :
    Computes crc8Base t g := by
  intro message initial final_xor_value ro ri fx
  have heq : t = crc8BaseTableCalculator g := tables8_eq (g, t) h
  rw [heq, crc8Base_eq_bitwise]

theorem computes16 {t : Table 16} {g : BitVec 16} (h : (g, t) ∈ tables16) :
    Computes crc16Base t g := by
  intro message initial final_xor_value ro ri fx
  have heq : t = crc16BaseTableCalculator g := tables16_eq (g, t) h
  rw [heq, crc16Base_eq_bitwise]

theorem computes32 {t : Table 32} {g : BitVec 32} (h : (g, t) ∈ tables32) :
    Computes crc32Base t g := by
  intro message initial final_xor_value ro ri fx
  have heq : t = crc32BaseTableCalculator g := tables32_eq (g, t) h
  rw [heq, crc32Base_eq_bitwise]

/-! ## One call

Called once, with `NULL_PTR` and for the last chunk, the four shapes do the same. -/

/-- The published parameters a variant's `#define`s stand for. -/
def Defines.parameters (d : Defines w) (g : BitVec w) : Parameters w where
  polynomial := g
  initialValue := d.initialCrcValue
  reflect := d.reflectedInput
  finalXor := if d.finalXor then d.finalXorValue else 0#w

section OneCall

variable {crcBase : Engine w} {crc_table : Table w} {g : BitVec w}

theorem plain_eq_crc (hengine : Computes crcBase crc_table g) (d : Defines w)
    (hreflect : d.reflectedOutput = d.reflectedInput) (message : List Byte) :
    plain crcBase crc_table d message nullPtr = (d.parameters g).crc message := by
  unfold plain
  rw [hengine]
  unfold bitwise outputStage Parameters.crc Defines.parameters
  show (if d.finalXor then _ else _) = _
  rw [hreflect]
  -- without the final xor the entry has the value 0 for it
  cases d.finalXor with
  | false => exact (BitVec.xor_zero).symm
  | true => rfl

theorem reflectWhenFinal_eq_crc (hengine : Computes crcBase crc_table g) (d : Defines w)
    (hreflect : d.reflectedOutput = d.reflectedInput) (message : List Byte) :
    reflectWhenFinal crcBase crc_table d message true nullPtr = (d.parameters g).crc message :=
  plain_eq_crc hengine d hreflect message

theorem xorWhenFinal_eq_crc (hengine : Computes crcBase crc_table g) (d : Defines w)
    (hreflect : d.reflectedOutput = d.reflectedInput) (message : List Byte) :
    xorWhenFinal crcBase crc_table d message true nullPtr = (d.parameters g).crc message :=
  plain_eq_crc hengine d hreflect message

theorem reflectAndXorWhenFinal_eq_crc (hengine : Computes crcBase crc_table g) (d : Defines w)
    (hreflect : d.reflectedOutput = d.reflectedInput) (message : List Byte) :
    reflectAndXorWhenFinal crcBase crc_table d message true nullPtr
      = (d.parameters g).crc message :=
  plain_eq_crc hengine d hreflect message

end OneCall

/-! ## The catalogue

The public functions, each with the published entry it is meant to compute.

A catalogue pairs the function with the entry, so that later statements about the published CRCs
are about the functions. That a function's own `#define`s are the entry's is checked by unfolding
both.
-/

/-- The CRC-8 functions. -/
def catalogue8 : List (Variant 8 × Parameters 8) :=
  [(withoutFlag crc8, ⟨0x07#8, 0x00#8, false, 0x00#8⟩),
   (crc8_8h2f, ⟨0x2F#8, 0xFF#8, false, 0xFF#8⟩),
   (withoutFlag crc8Cdma2000, ⟨0x9B#8, 0xFF#8, false, 0x00#8⟩),
   (crc8Darc, ⟨0x39#8, 0x00#8, true, 0x00#8⟩),
   (withoutFlag crc8DvbS2, ⟨0xD5#8, 0x00#8, false, 0x00#8⟩),
   (crc8Ebu, ⟨0x1D#8, 0xFF#8, true, 0x00#8⟩),
   (withoutFlag crc8Icode, ⟨0x1D#8, 0xFD#8, false, 0x00#8⟩),
   (crc8Itu, ⟨0x07#8, 0x00#8, false, 0x55#8⟩),
   (crc8Maxim, ⟨0x31#8, 0x00#8, true, 0x00#8⟩),
   (crc8Rohc, ⟨0x07#8, 0xFF#8, true, 0x00#8⟩),
   (crc8SaeJ1850, ⟨0x1D#8, 0xFF#8, false, 0xFF#8⟩),
   (withoutFlag crc8SaeJ1850Zero, ⟨0x1D#8, 0x00#8, false, 0x00#8⟩),
   (crc8Wcdma, ⟨0x9B#8, 0x00#8, true, 0x00#8⟩)]

/-- The CRC-16 functions. -/
def catalogue16 : List (Variant 16 × Parameters 16) :=
  [(crc16A, ⟨0x1021#16, 0xC6C6#16, true, 0x0000#16⟩),
   (crc16Arc, ⟨0x8005#16, 0x0000#16, true, 0x0000#16⟩),
   (withoutFlag crc16AugCcit, ⟨0x1021#16, 0x1D0F#16, false, 0x0000#16⟩),
   (withoutFlag crc16Buypass, ⟨0x8005#16, 0x0000#16, false, 0x0000#16⟩),
   (withoutFlag crc16CcitFalse, ⟨0x1021#16, 0xFFFF#16, false, 0x0000#16⟩),
   (withoutFlag crc16CcitZero, ⟨0x1021#16, 0x0000#16, false, 0x0000#16⟩),
   (withoutFlag crc16Cdma2000, ⟨0xC867#16, 0xFFFF#16, false, 0x0000#16⟩),
   (withoutFlag crc16Dds110, ⟨0x8005#16, 0x800D#16, false, 0x0000#16⟩),
   (crc16DectR, ⟨0x0589#16, 0x0000#16, false, 0x0001#16⟩),
   (withoutFlag crc16DectX, ⟨0x0589#16, 0x0000#16, false, 0x0000#16⟩),
   (crc16Dnp, ⟨0x3D65#16, 0x0000#16, true, 0xFFFF#16⟩),
   (crc16En13757, ⟨0x3D65#16, 0x0000#16, false, 0xFFFF#16⟩),
   (crc16Genibus, ⟨0x1021#16, 0xFFFF#16, false, 0xFFFF#16⟩),
   (crc16Kermit, ⟨0x1021#16, 0x0000#16, true, 0x0000#16⟩),
   (crc16Maxim, ⟨0x8005#16, 0x0000#16, true, 0xFFFF#16⟩),
   (crc16Mcrf4xx, ⟨0x1021#16, 0xFFFF#16, true, 0x0000#16⟩),
   (crc16Modbus, ⟨0x8005#16, 0xFFFF#16, true, 0x0000#16⟩),
   (crc16Riello, ⟨0x1021#16, 0xB2AA#16, true, 0x0000#16⟩),
   (withoutFlag crc16T10Dif, ⟨0x8BB7#16, 0x0000#16, false, 0x0000#16⟩),
   (withoutFlag crc16Teledisk, ⟨0xA097#16, 0x0000#16, false, 0x0000#16⟩),
   (crc16Tms37157, ⟨0x1021#16, 0x89EC#16, true, 0x0000#16⟩),
   (crc16Usb, ⟨0x8005#16, 0xFFFF#16, true, 0xFFFF#16⟩),
   (crc16X25, ⟨0x1021#16, 0xFFFF#16, true, 0xFFFF#16⟩)]

/-- The CRC-32 functions. -/
def catalogue32 : List (Variant 32 × Parameters 32) :=
  [(crc32, ⟨0x04C11DB7#32, 0xFFFFFFFF#32, true, 0xFFFFFFFF#32⟩),
   (crc32Bzip2, ⟨0x04C11DB7#32, 0xFFFFFFFF#32, false, 0xFFFFFFFF#32⟩),
   (crc32C, ⟨0x1EDC6F41#32, 0xFFFFFFFF#32, true, 0xFFFFFFFF#32⟩),
   (crc32D, ⟨0xA833982B#32, 0xFFFFFFFF#32, true, 0xFFFFFFFF#32⟩),
   (crc32Jamcrc, ⟨0x04C11DB7#32, 0xFFFFFFFF#32, true, 0x00000000#32⟩),
   (withoutFlag crc32Mpeg2, ⟨0x04C11DB7#32, 0xFFFFFFFF#32, false, 0x00000000#32⟩),
   (crc32Posix, ⟨0x04C11DB7#32, 0x00000000#32, false, 0xFFFFFFFF#32⟩),
   (withoutFlag crc32Q, ⟨0x814141AB#32, 0x00000000#32, false, 0x00000000#32⟩),
   (withoutFlag crc32Xfer, ⟨0x000000AF#32, 0x00000000#32, false, 0x00000000#32⟩)]

theorem catalogue8_crc : ∀ e ∈ catalogue8, ∀ message : List Byte,
    e.1 message true nullPtr = e.2.crc message := by
  have h07 : Computes crc8Base table8_07 0x07#8 := computes8 (by simp [tables8])
  have h1D : Computes crc8Base table8_1D 0x1D#8 := computes8 (by simp [tables8])
  have h2F : Computes crc8Base table8_2F 0x2F#8 := computes8 (by simp [tables8])
  have h31 : Computes crc8Base table8_31 0x31#8 := computes8 (by simp [tables8])
  have h39 : Computes crc8Base table8_39 0x39#8 := computes8 (by simp [tables8])
  have h9B : Computes crc8Base table8_9B 0x9B#8 := computes8 (by simp [tables8])
  have hD5 : Computes crc8Base table8_D5 0xD5#8 := computes8 (by simp [tables8])
  simp only [catalogue8, List.forall_mem_cons, withoutFlag]
  exact ⟨plain_eq_crc h07 _ rfl,
    xorWhenFinal_eq_crc h2F _ rfl,
    plain_eq_crc h9B _ rfl,
    reflectWhenFinal_eq_crc h39 _ rfl,
    plain_eq_crc hD5 _ rfl,
    reflectWhenFinal_eq_crc h1D _ rfl,
    plain_eq_crc h1D _ rfl,
    xorWhenFinal_eq_crc h07 _ rfl,
    reflectWhenFinal_eq_crc h31 _ rfl,
    reflectWhenFinal_eq_crc h07 _ rfl,
    xorWhenFinal_eq_crc h1D _ rfl,
    plain_eq_crc h1D _ rfl,
    reflectWhenFinal_eq_crc h9B _ rfl,
    fun _ he => absurd he List.not_mem_nil⟩

theorem catalogue16_crc : ∀ e ∈ catalogue16, ∀ message : List Byte,
    e.1 message true nullPtr = e.2.crc message := by
  have h0589 : Computes crc16Base table16_0589 0x0589#16 :=
    computes16 (by simp [tables16])
  have h1021 : Computes crc16Base table16_1021 0x1021#16 :=
    computes16 (by simp [tables16])
  have h3D65 : Computes crc16Base table16_3D65 0x3D65#16 :=
    computes16 (by simp [tables16])
  have h8005 : Computes crc16Base table16_8005 0x8005#16 :=
    computes16 (by simp [tables16])
  have h8BB7 : Computes crc16Base table16_8BB7 0x8BB7#16 :=
    computes16 (by simp [tables16])
  have hA097 : Computes crc16Base table16_A097 0xA097#16 :=
    computes16 (by simp [tables16])
  have hC867 : Computes crc16Base table16_C867 0xC867#16 :=
    computes16 (by simp [tables16])
  simp only [catalogue16, List.forall_mem_cons, withoutFlag]
  exact ⟨reflectWhenFinal_eq_crc h1021 _ rfl,
    reflectWhenFinal_eq_crc h8005 _ rfl,
    plain_eq_crc h1021 _ rfl,
    plain_eq_crc h8005 _ rfl,
    plain_eq_crc h1021 _ rfl,
    plain_eq_crc h1021 _ rfl,
    plain_eq_crc hC867 _ rfl,
    plain_eq_crc h8005 _ rfl,
    xorWhenFinal_eq_crc h0589 _ rfl,
    plain_eq_crc h0589 _ rfl,
    reflectAndXorWhenFinal_eq_crc h3D65 _ rfl,
    xorWhenFinal_eq_crc h3D65 _ rfl,
    xorWhenFinal_eq_crc h1021 _ rfl,
    reflectWhenFinal_eq_crc h1021 _ rfl,
    reflectAndXorWhenFinal_eq_crc h8005 _ rfl,
    reflectWhenFinal_eq_crc h1021 _ rfl,
    reflectWhenFinal_eq_crc h8005 _ rfl,
    reflectWhenFinal_eq_crc h1021 _ rfl,
    plain_eq_crc h8BB7 _ rfl,
    plain_eq_crc hA097 _ rfl,
    reflectWhenFinal_eq_crc h1021 _ rfl,
    reflectAndXorWhenFinal_eq_crc h8005 _ rfl,
    reflectAndXorWhenFinal_eq_crc h1021 _ rfl,
    fun _ he => absurd he List.not_mem_nil⟩

theorem catalogue32_crc : ∀ e ∈ catalogue32, ∀ message : List Byte,
    e.1 message true nullPtr = e.2.crc message := by
  have h000000AF : Computes crc32Base table32_000000AF 0x000000AF#32 :=
    computes32 (by simp [tables32])
  have h04C11DB7 : Computes crc32Base table32_04C11DB7 0x04C11DB7#32 :=
    computes32 (by simp [tables32])
  have h1EDC6F41 : Computes crc32Base table32_1EDC6F41 0x1EDC6F41#32 :=
    computes32 (by simp [tables32])
  have h814141AB : Computes crc32Base table32_814141AB 0x814141AB#32 :=
    computes32 (by simp [tables32])
  have hA833982B : Computes crc32Base table32_A833982B 0xA833982B#32 :=
    computes32 (by simp [tables32])
  simp only [catalogue32, List.forall_mem_cons, withoutFlag]
  exact ⟨reflectAndXorWhenFinal_eq_crc h04C11DB7 _ rfl,
    xorWhenFinal_eq_crc h04C11DB7 _ rfl,
    reflectAndXorWhenFinal_eq_crc h1EDC6F41 _ rfl,
    reflectAndXorWhenFinal_eq_crc hA833982B _ rfl,
    reflectWhenFinal_eq_crc h04C11DB7 _ rfl,
    plain_eq_crc h04C11DB7 _ rfl,
    xorWhenFinal_eq_crc h04C11DB7 _ rfl,
    plain_eq_crc h814141AB _ rfl,
    plain_eq_crc h000000AF _ rfl,
    fun _ he => absurd he List.not_mem_nil⟩

/-! ## The three families

Here the entries are written out once more, one line a function, in the order of the files.
-/

/-- **The nine CRC-32 functions compute their published CRCs.** -/
theorem crc32_published (message : List Byte) :
    crc32 message true nullPtr
      = Parameters.crc ⟨0x04C11DB7#32, 0xFFFFFFFF#32, true, 0xFFFFFFFF#32⟩ message ∧
    crc32Bzip2 message true nullPtr
      = Parameters.crc ⟨0x04C11DB7#32, 0xFFFFFFFF#32, false, 0xFFFFFFFF#32⟩ message ∧
    crc32C message true nullPtr
      = Parameters.crc ⟨0x1EDC6F41#32, 0xFFFFFFFF#32, true, 0xFFFFFFFF#32⟩ message ∧
    crc32D message true nullPtr
      = Parameters.crc ⟨0xA833982B#32, 0xFFFFFFFF#32, true, 0xFFFFFFFF#32⟩ message ∧
    crc32Jamcrc message true nullPtr
      = Parameters.crc ⟨0x04C11DB7#32, 0xFFFFFFFF#32, true, 0x00000000#32⟩ message ∧
    crc32Mpeg2 message nullPtr
      = Parameters.crc ⟨0x04C11DB7#32, 0xFFFFFFFF#32, false, 0x00000000#32⟩ message ∧
    crc32Posix message true nullPtr
      = Parameters.crc ⟨0x04C11DB7#32, 0x00000000#32, false, 0xFFFFFFFF#32⟩ message ∧
    crc32Q message nullPtr
      = Parameters.crc ⟨0x814141AB#32, 0x00000000#32, false, 0x00000000#32⟩ message ∧
    crc32Xfer message nullPtr
      = Parameters.crc ⟨0x000000AF#32, 0x00000000#32, false, 0x00000000#32⟩ message := by
  have hall := fun e he => catalogue32_crc e he message
  simp only [catalogue32, List.forall_mem_cons, withoutFlag] at hall
  obtain ⟨h1, h2, h3, h4, h5, h6, h7, h8, h9, -⟩ := hall
  exact ⟨h1, h2, h3, h4, h5, h6, h7, h8, h9⟩

/-- **The 23 CRC-16 functions compute their published CRCs.** -/
theorem crc16_published (message : List Byte) :
    crc16A message true nullPtr = Parameters.crc ⟨0x1021#16, 0xC6C6#16, true, 0x0000#16⟩ message ∧
    crc16Arc message true nullPtr
      = Parameters.crc ⟨0x8005#16, 0x0000#16, true, 0x0000#16⟩ message ∧
    crc16AugCcit message nullPtr
      = Parameters.crc ⟨0x1021#16, 0x1D0F#16, false, 0x0000#16⟩ message ∧
    crc16Buypass message nullPtr
      = Parameters.crc ⟨0x8005#16, 0x0000#16, false, 0x0000#16⟩ message ∧
    crc16CcitFalse message nullPtr
      = Parameters.crc ⟨0x1021#16, 0xFFFF#16, false, 0x0000#16⟩ message ∧
    crc16CcitZero message nullPtr
      = Parameters.crc ⟨0x1021#16, 0x0000#16, false, 0x0000#16⟩ message ∧
    crc16Cdma2000 message nullPtr
      = Parameters.crc ⟨0xC867#16, 0xFFFF#16, false, 0x0000#16⟩ message ∧
    crc16Dds110 message nullPtr
      = Parameters.crc ⟨0x8005#16, 0x800D#16, false, 0x0000#16⟩ message ∧
    crc16DectR message true nullPtr
      = Parameters.crc ⟨0x0589#16, 0x0000#16, false, 0x0001#16⟩ message ∧
    crc16DectX message nullPtr = Parameters.crc ⟨0x0589#16, 0x0000#16, false, 0x0000#16⟩ message ∧
    crc16Dnp message true nullPtr
      = Parameters.crc ⟨0x3D65#16, 0x0000#16, true, 0xFFFF#16⟩ message ∧
    crc16En13757 message true nullPtr
      = Parameters.crc ⟨0x3D65#16, 0x0000#16, false, 0xFFFF#16⟩ message ∧
    crc16Genibus message true nullPtr
      = Parameters.crc ⟨0x1021#16, 0xFFFF#16, false, 0xFFFF#16⟩ message ∧
    crc16Kermit message true nullPtr
      = Parameters.crc ⟨0x1021#16, 0x0000#16, true, 0x0000#16⟩ message ∧
    crc16Maxim message true nullPtr
      = Parameters.crc ⟨0x8005#16, 0x0000#16, true, 0xFFFF#16⟩ message ∧
    crc16Mcrf4xx message true nullPtr
      = Parameters.crc ⟨0x1021#16, 0xFFFF#16, true, 0x0000#16⟩ message ∧
    crc16Modbus message true nullPtr
      = Parameters.crc ⟨0x8005#16, 0xFFFF#16, true, 0x0000#16⟩ message ∧
    crc16Riello message true nullPtr
      = Parameters.crc ⟨0x1021#16, 0xB2AA#16, true, 0x0000#16⟩ message ∧
    crc16T10Dif message nullPtr
      = Parameters.crc ⟨0x8BB7#16, 0x0000#16, false, 0x0000#16⟩ message ∧
    crc16Teledisk message nullPtr
      = Parameters.crc ⟨0xA097#16, 0x0000#16, false, 0x0000#16⟩ message ∧
    crc16Tms37157 message true nullPtr
      = Parameters.crc ⟨0x1021#16, 0x89EC#16, true, 0x0000#16⟩ message ∧
    crc16Usb message true nullPtr
      = Parameters.crc ⟨0x8005#16, 0xFFFF#16, true, 0xFFFF#16⟩ message ∧
    crc16X25 message true nullPtr
      = Parameters.crc ⟨0x1021#16, 0xFFFF#16, true, 0xFFFF#16⟩ message := by
  have hall := fun e he => catalogue16_crc e he message
  simp only [catalogue16, List.forall_mem_cons, withoutFlag] at hall
  obtain ⟨h1, h2, h3, h4, h5, h6, h7, h8, h9, h10, h11, h12, h13, h14, h15, h16, h17, h18, h19,
    h20, h21, h22, h23, -⟩ := hall
  exact ⟨h1, h2, h3, h4, h5, h6, h7, h8, h9, h10, h11, h12, h13, h14, h15, h16, h17, h18, h19,
    h20, h21, h22, h23⟩

/-- **The 13 CRC-8 functions compute their published CRCs.** -/
theorem crc8_published (message : List Byte) :
    crc8 message nullPtr = Parameters.crc ⟨0x07#8, 0x00#8, false, 0x00#8⟩ message ∧
    crc8_8h2f message true nullPtr
      = Parameters.crc ⟨0x2F#8, 0xFF#8, false, 0xFF#8⟩ message ∧
    crc8Cdma2000 message nullPtr = Parameters.crc ⟨0x9B#8, 0xFF#8, false, 0x00#8⟩ message ∧
    crc8Darc message true nullPtr = Parameters.crc ⟨0x39#8, 0x00#8, true, 0x00#8⟩ message ∧
    crc8DvbS2 message nullPtr = Parameters.crc ⟨0xD5#8, 0x00#8, false, 0x00#8⟩ message ∧
    crc8Ebu message true nullPtr = Parameters.crc ⟨0x1D#8, 0xFF#8, true, 0x00#8⟩ message ∧
    crc8Icode message nullPtr = Parameters.crc ⟨0x1D#8, 0xFD#8, false, 0x00#8⟩ message ∧
    crc8Itu message true nullPtr = Parameters.crc ⟨0x07#8, 0x00#8, false, 0x55#8⟩ message ∧
    crc8Maxim message true nullPtr = Parameters.crc ⟨0x31#8, 0x00#8, true, 0x00#8⟩ message ∧
    crc8Rohc message true nullPtr = Parameters.crc ⟨0x07#8, 0xFF#8, true, 0x00#8⟩ message ∧
    crc8SaeJ1850 message true nullPtr
      = Parameters.crc ⟨0x1D#8, 0xFF#8, false, 0xFF#8⟩ message ∧
    crc8SaeJ1850Zero message nullPtr
      = Parameters.crc ⟨0x1D#8, 0x00#8, false, 0x00#8⟩ message ∧
    crc8Wcdma message true nullPtr = Parameters.crc ⟨0x9B#8, 0x00#8, true, 0x00#8⟩ message := by
  have hall := fun e he => catalogue8_crc e he message
  simp only [catalogue8, List.forall_mem_cons, withoutFlag] at hall
  obtain ⟨h1, h2, h3, h4, h5, h6, h7, h8, h9, h10, h11, h12, h13, -⟩ := hall
  exact ⟨h1, h2, h3, h4, h5, h6, h7, h8, h9, h10, h11, h12, h13⟩

end IMUtility.Crc
