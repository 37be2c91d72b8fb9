import IMUtility.Crc.Base

/-! # Burst errors

Two messages whose bit streams differ only inside a window as wide as the register have different
CRCs, whatever the settings, as long as the polynomial is odd. The register argument is
`DivisionRegister.feed_ne_of_burst`; what is added here is that the message bits determine the
message and that the output stage is injective. -/

namespace IMUtility.Crc

open DivisionRegister

variable {w : Nat}

/-- `m` and `m'` are different messages of one length whose streams differ only within `width`
consecutive positions. -/
structure Burst (width : Nat) (reflected_input : Bool) (m m' : List Byte) : Prop where
  ne : m ≠ m'
  length_eq : m.length = m'.length
  window : ∃ a, ∀ i : Nat, (messageBits reflected_input m)[i]? ≠ (messageBits reflected_input m')[i]? →
    a ≤ i ∧ i < a + width

theorem msbFirst_injective {k : Nat} : Function.Injective (msbFirst : BitVec k → List Bool) := by
  intro a b h
  apply BitVec.eq_of_getMsbD_eq
  intro i hi
  have hget := congrArg (fun l => l[i]?) h
  simpa [msbFirst, hi] using hget

/-- The stream determines the message. -/
theorem messageBits_injective (ri : Bool) : Function.Injective (messageBits ri) := by
  intro m
  induction m with
  | nil =>
      intro m' h
      have hlen := congrArg List.length h
      rw [length_messageBits, length_messageBits] at hlen
      exact (List.length_eq_zero_iff.mp (by simpa using hlen.symm)).symm
  | cons b bs ih =>
      intro m' h
      cases m' with
      | nil =>
          have hlen := congrArg List.length h
          rw [length_messageBits, length_messageBits] at hlen
          simp at hlen
      | cons b' bs' =>
          rw [messageBits_cons, messageBits_cons] at h
          -- both streams start with the eight bits of a byte
          obtain ⟨hb, hbs⟩ := List.append_inj h (by simp)
          have hbyte : b = b' := by
            have hb := msbFirst_injective hb
            cases ri with
            | false => exact hb
            | true => simpa using congrArg BitVec.reverse hb
          rw [hbyte, ih hbs]

/-- The bitwise CRC detects every burst. -/
theorem bitwise_ne_of_burst {g : BitVec w} (hg : g.getLsbD 0 = true) {ri : Bool}
    {m m' : List Byte} (h : Burst w ri m m') (initial final_xor_value : BitVec w) (ro fx : Bool) :
    bitwise g m initial final_xor_value ro ri fx ≠ bitwise g m' initial final_xor_value ro ri fx := by
  obtain ⟨a, hwin⟩ := h.window
  have hlen : (messageBits ri m).length = (messageBits ri m').length := by
    rw [length_messageBits, length_messageBits, h.length_eq]
  have hne : messageBits ri m ≠ messageBits ri m' := fun heq => h.ne (messageBits_injective ri heq)
  intro heq
  -- equal results mean equal registers, and the register tells the streams apart
  exact feed_ne_of_burst hg initial hlen hne a hwin (outputStage_injective _ _ _ heq)

/-- **Burst-error detection** by the three engines with the calculated table of an odd
polynomial. -/
theorem crcBase_ne_of_burst (ro ri fx : Bool) (m m' : List Byte) :
    (∀ g initial final_xor_value : BitVec 8, g.getLsbD 0 = true → Burst 8 ri m m' →
      crc8Base (crc8BaseTableCalculator g) m initial final_xor_value ro ri fx
        ≠ crc8Base (crc8BaseTableCalculator g) m' initial final_xor_value ro ri fx) ∧
    (∀ g initial final_xor_value : BitVec 16, g.getLsbD 0 = true → Burst 16 ri m m' →
      crc16Base (crc16BaseTableCalculator g) m initial final_xor_value ro ri fx
        ≠ crc16Base (crc16BaseTableCalculator g) m' initial final_xor_value ro ri fx) ∧
    (∀ g initial final_xor_value : BitVec 32, g.getLsbD 0 = true → Burst 32 ri m m' →
      crc32Base (crc32BaseTableCalculator g) m initial final_xor_value ro ri fx
        ≠ crc32Base (crc32BaseTableCalculator g) m' initial final_xor_value ro ri fx) := by
  refine ⟨?_, ?_, ?_⟩
  · intro g initial final_xor_value hg h
    rw [crc8Base_eq_bitwise, crc8Base_eq_bitwise]
    exact bitwise_ne_of_burst hg h initial final_xor_value ro fx
  · intro g initial final_xor_value hg h
    rw [crc16Base_eq_bitwise, crc16Base_eq_bitwise]
    exact bitwise_ne_of_burst hg h initial final_xor_value ro fx
  · intro g initial final_xor_value hg h
    rw [crc32Base_eq_bitwise, crc32Base_eq_bitwise]
    exact bitwise_ne_of_burst hg h initial final_xor_value ro fx

/-- Two messages that differ in seven consecutive bits, at the three widths. -/
theorem burst_of_three_bytes {width : Nat} (h8 : 8 ≤ width) :
    Burst width true [0x12#8, 0x34#8, 0x56#8] [0x12#8, 0x71#8, 0x56#8] := by
  refine ⟨by decide, rfl, 8, ?_⟩
  intro i hi
  have hbyte : 8 ≤ i ∧ i < 16 := by
    -- only the middle byte differs; behind the streams there is nothing to differ
    by_cases hlen : i < 24
    · revert hi
      revert i
      decide
    · rw [List.getElem?_eq_none, List.getElem?_eq_none] at hi
      · exact absurd rfl hi
      · rw [length_messageBits, List.length_cons, List.length_cons, List.length_singleton]; omega
      · rw [length_messageBits, List.length_cons, List.length_cons, List.length_singleton]; omega
  omega

/-- The polynomials of DARC, X.25 and CRC-32 on these messages. -/
theorem crcBase_ne_of_burst_three_bytes :
    crc8Base (crc8BaseTableCalculator 0x39#8) [0x12#8, 0x34#8, 0x56#8] 0x00#8 0x00#8
        true true false
      ≠ crc8Base (crc8BaseTableCalculator 0x39#8) [0x12#8, 0x71#8, 0x56#8] 0x00#8 0x00#8
        true true false ∧
    crc16Base (crc16BaseTableCalculator 0x1021#16) [0x12#8, 0x34#8, 0x56#8] 0xFFFF#16 0xFFFF#16
        true true true
      ≠ crc16Base (crc16BaseTableCalculator 0x1021#16) [0x12#8, 0x71#8, 0x56#8] 0xFFFF#16 0xFFFF#16
        true true true ∧
    crc32Base (crc32BaseTableCalculator 0x04C11DB7#32) [0x12#8, 0x34#8, 0x56#8] 0xFFFFFFFF#32
        0xFFFFFFFF#32 true true true
      ≠ crc32Base (crc32BaseTableCalculator 0x04C11DB7#32) [0x12#8, 0x71#8, 0x56#8] 0xFFFFFFFF#32
        0xFFFFFFFF#32 true true true :=
  ⟨(crcBase_ne_of_burst true true false _ _).1 _ _ _ (by decide) (burst_of_three_bytes (by omega)),
   (crcBase_ne_of_burst true true true _ _).2.1 _ _ _ (by decide) (burst_of_three_bytes (by omega)),
   (crcBase_ne_of_burst true true true _ _).2.2 _ _ _ (by decide) (burst_of_three_bytes (by omega))⟩

end IMUtility.Crc
