import IMUtility.Crc.Burst
import IMUtility.Crc.Chunks
import IMUtility.Crc.Residue
import IMUtility.Lib.RegisterPolynomial

/-! # CRCs as remainders

What an engine computes is a remainder of polynomials over the two-element field: the message,
multiplied by `X ^ w`, by the generator of its table. All polynomials of the 45 functions are odd,
so that a function tells two messages of one length apart exactly when its generator does not
divide their difference (`variants_eq_iff`), and a receiver that compares the CRC of what it got
with the residue accepts the frames of a sender and nothing else (`receivers_accept`). -/

namespace IMUtility.Crc

open DivisionRegister Polynomial ByteOrder

variable {w : Nat}

/-- The polynomial of a message, in the bit order of a function. -/
noncomputable def messagePolynomial (ri : Bool) (m : List Byte) : (ZMod 2)[X] :=
  streamPolynomial (messageBits ri m)

/-! ## The engines

Division by the generator is unique, so the equation with a remainder characterises the register;
the output stage is injective and can be taken off on both sides.
-/

/-- The register before the output stage. -/
theorem bitwise_eq_outputStage_iff (g initial final_xor_value r : BitVec w) (m : List Byte)
    (ro ri fx : Bool) :
    bitwise g m initial final_xor_value ro ri fx = outputStage final_xor_value ro fx r ↔
      polynomial r = (X ^ (8 * m.length) * polynomial initial + X ^ w * messagePolynomial ri m)
        %ₘ generator g := by
  rw [bitwise, (outputStage_injective _ _ _).eq_iff, ← polynomial_injective.eq_iff, polynomial_feed,
    length_messageBits, messagePolynomial, eq_comm]

/-- **Every engine returns a remainder**: what it returns is the output stage of a register `r`
exactly if `r` is the remainder of the initial value and the message by the generator. -/
theorem crcBase_eq_outputStage_iff (m : List Byte) (ro ri fx : Bool) :
    (∀ g initial final_xor_value r : BitVec 8,
      crc8Base (crc8BaseTableCalculator g) m initial final_xor_value ro ri fx
          = outputStage final_xor_value ro fx r ↔
        polynomial r = (X ^ (8 * m.length) * polynomial initial + X ^ 8 * messagePolynomial ri m)
          %ₘ generator g) ∧
    (∀ g initial final_xor_value r : BitVec 16,
      crc16Base (crc16BaseTableCalculator g) m initial final_xor_value ro ri fx
          = outputStage final_xor_value ro fx r ↔
        polynomial r = (X ^ (8 * m.length) * polynomial initial + X ^ 16 * messagePolynomial ri m)
          %ₘ generator g) ∧
    (∀ g initial final_xor_value r : BitVec 32,
      crc32Base (crc32BaseTableCalculator g) m initial final_xor_value ro ri fx
          = outputStage final_xor_value ro fx r ↔
        polynomial r = (X ^ (8 * m.length) * polynomial initial + X ^ 32 * messagePolynomial ri m)
          %ₘ generator g) := by
  refine ⟨?_, ?_, ?_⟩
  · intro g initial final_xor_value r
    rw [crc8Base_eq_bitwise]
    exact bitwise_eq_outputStage_iff g initial final_xor_value r m ro ri fx
  · intro g initial final_xor_value r
    rw [crc16Base_eq_bitwise]
    exact bitwise_eq_outputStage_iff g initial final_xor_value r m ro ri fx
  · intro g initial final_xor_value r
    rw [crc32Base_eq_bitwise]
    exact bitwise_eq_outputStage_iff g initial final_xor_value r m ro ri fx

/-! ## Published CRCs

The polynomials of all 45 entries are odd, as is checked on the catalogues. For odd generators
multiplication by `X ^ w` is no loss, and two messages have one remainder exactly if the generator
divides their difference.
-/

/-- A published CRC is a bitwise one, with one flag for both reflections. -/
theorem crc_eq_bitwise (p : Parameters w) (m : List Byte) :
    p.crc m = bitwise p.polynomial m p.initialValue p.finalXor p.reflect p.reflect true := rfl

/-- **What a CRC with an odd polynomial misses**: the differences its generator divides. -/
theorem crc_eq_iff {p : Parameters w} (hodd : p.polynomial.getLsbD 0 = true) {m m' : List Byte}
    (hlen : m.length = m'.length) :
    p.crc m = p.crc m' ↔
      generator p.polynomial ∣ messagePolynomial p.reflect m - messagePolynomial p.reflect m' := by
  have hbits : (messageBits p.reflect m).length = (messageBits p.reflect m').length := by
    rw [length_messageBits, length_messageBits, hlen]
  rw [crc_eq_bitwise, crc_eq_bitwise, bitwise, bitwise, (outputStage_injective _ _ _).eq_iff]
  exact feed_eq_iff hodd p.initialValue hbits

/-- What holds of the entries of the three catalogues holds of the functions. -/
structure Published (f : Variant w) (p : Parameters w) : Prop where
  crc_eq : ∀ m : List Byte, f m true nullPtr = p.crc m
  odd : p.polynomial.getLsbD 0 = true
  resumable : Resumable f

theorem catalogue8_published : ∀ e ∈ catalogue8, Published e.1 e.2 := by
  have hodd : ∀ e ∈ catalogue8, e.2.polynomial.getLsbD 0 = true := by decide
  have hfun : catalogue8.map Prod.fst = variants8 := rfl
  intro e he
  exact ⟨catalogue8_crc e he, hodd e he,
    variants8_resumable e.1 (hfun ▸ List.mem_map_of_mem he)⟩

theorem catalogue16_published : ∀ e ∈ catalogue16, Published e.1 e.2 := by
  have hodd : ∀ e ∈ catalogue16, e.2.polynomial.getLsbD 0 = true := by decide
  have hfun : catalogue16.map Prod.fst = variants16 := rfl
  intro e he
  exact ⟨catalogue16_crc e he, hodd e he,
    variants16_resumable e.1 (hfun ▸ List.mem_map_of_mem he)⟩

theorem catalogue32_published : ∀ e ∈ catalogue32, Published e.1 e.2 := by
  have hodd : ∀ e ∈ catalogue32, e.2.polynomial.getLsbD 0 = true := by decide
  have hfun : catalogue32.map Prod.fst = variants32 := rfl
  intro e he
  exact ⟨catalogue32_crc e he, hodd e he,
    variants32_resumable e.1 (hfun ▸ List.mem_map_of_mem he)⟩

theorem Published.eq_iff {f : Variant w} {p : Parameters w} (h : Published f p) {m m' : List Byte}
    (hlen : m.length = m'.length) :
    f m true nullPtr = f m' true nullPtr ↔
      generator p.polynomial ∣ messagePolynomial p.reflect m - messagePolynomial p.reflect m' := by
  rw [h.crc_eq, h.crc_eq, crc_eq_iff h.odd hlen]

/-- **Which errors go unnoticed**, of each of the 45 functions: those whose polynomial the
generator divides. -/
theorem variants_eq_iff (m m' : List Byte) (hlen : m.length = m'.length) :
    (∀ e ∈ catalogue8, e.1 m true nullPtr = e.1 m' true nullPtr ↔
      generator e.2.polynomial ∣
        messagePolynomial e.2.reflect m - messagePolynomial e.2.reflect m') ∧
    (∀ e ∈ catalogue16, e.1 m true nullPtr = e.1 m' true nullPtr ↔
      generator e.2.polynomial ∣
        messagePolynomial e.2.reflect m - messagePolynomial e.2.reflect m') ∧
    (∀ e ∈ catalogue32, e.1 m true nullPtr = e.1 m' true nullPtr ↔
      generator e.2.polynomial ∣
        messagePolynomial e.2.reflect m - messagePolynomial e.2.reflect m') :=
  ⟨fun e he => (catalogue8_published e he).eq_iff hlen,
   fun e he => (catalogue16_published e he).eq_iff hlen,
   fun e he => (catalogue32_published e he).eq_iff hlen⟩

/-- Two messages of two bytes. -/
theorem variants_eq_iff_two_bytes :
    [0x12#8, 0x34#8].length = [0x13#8, 0x33#8].length ∧
    ∀ e ∈ catalogue8,
      e.1 [0x12#8, 0x34#8] true nullPtr = e.1 [0x13#8, 0x33#8] true nullPtr ↔
        generator e.2.polynomial ∣ messagePolynomial e.2.reflect [0x12#8, 0x34#8]
          - messagePolynomial e.2.reflect [0x13#8, 0x33#8] :=
  ⟨rfl, (variants_eq_iff [0x12#8, 0x34#8] [0x13#8, 0x33#8] rfl).1⟩

/-! ## Receivers

A frame passes the receiver by its constant residue. What passes is a frame: if the trailer were
another one, the received bytes and the frame of the same message would be two messages that
differ in a burst as wide as the register, with one CRC.
-/

/-- A receiver that runs the function over what it got, in chunks, and compares the result with one
value accepts the frames of a sender and nothing else. -/
def ReceiversAccept (f : Variant w) (reflected_output : Bool) : Prop :=
  ∃ r, ∀ (chunk : List Byte) (chunks : List (List Byte)),
    w / 8 ≤ (chunk ++ chunks.flatten).length →
      (callChunks f nullPtr chunk chunks = r ↔
        ∃ m, chunk ++ chunks.flatten = frame f reflected_output m)

theorem length_crcBytes (ro : Bool) (crc : BitVec w) : (crcBytes ro crc).length = w / 8 := by
  cases ro with
  | false => exact length_bytesBE _ _
  | true => exact length_bytesLE _ _

/-- Two messages that differ only in `w / 8` bytes at the end. -/
theorem burst_of_trailers (hw : 8 * (w / 8) = w) (ri : Bool) (m : List Byte) {t t' : List Byte}
    (ht : t.length = w / 8) (ht' : t'.length = w / 8) (hne : t ≠ t') :
    Burst w ri (m ++ t) (m ++ t') where
  ne := fun h => hne (List.append_cancel_left h)
  length_eq := by rw [List.length_append, List.length_append, ht, ht']
  window := by
    refine ⟨8 * m.length, ?_⟩
    intro i hi
    have happend : ∀ u : List Byte,
        messageBits ri (m ++ u) = messageBits ri m ++ messageBits ri u :=
      fun u => List.flatMap_append
    have hlen : ∀ u : List Byte, u.length = w / 8 →
        (messageBits ri (m ++ u)).length = 8 * m.length + w := by
      intro u hu
      rw [length_messageBits, List.length_append, hu]
      omega
    by_contra hout
    apply hi
    by_cases hlow : i < 8 * m.length
    · have hm : i < (messageBits ri m).length := by rwa [length_messageBits]
      rw [happend, happend, List.getElem?_append_left hm, List.getElem?_append_left hm]
    · -- behind the trailers there is nothing
      have hout' : 8 * m.length + w ≤ i := by omega
      rw [List.getElem?_eq_none (hlen t ht ▸ hout'), List.getElem?_eq_none (hlen t' ht' ▸ hout')]

theorem Published.receiversAccept (hw : 8 * (w / 8) = w) {f : Variant w} {p : Parameters w}
    (h : Published f p) : ReceiversAccept f p.reflect := by
  refine ⟨p.residue, ?_⟩
  intro chunk chunks hlen
  rw [h.resumable.callChunks_eq]
  generalize chunk ++ chunks.flatten = received at hlen ⊢
  constructor
  · intro hres
    -- the message is what stands in front of the last `w / 8` bytes
    refine ⟨received.take (received.length - w / 8), ?_⟩
    generalize hm : received.take (received.length - w / 8) = m
    generalize ht : received.drop (received.length - w / 8) = t
    have hsplit : received = m ++ t := by rw [← hm, ← ht, List.take_append_drop]
    have htlen : t.length = w / 8 := by
      rw [← ht, List.length_drop]
      omega
    rw [hsplit, frame]
    congr 1
    by_contra hne
    have hburst := burst_of_trailers hw p.reflect m htlen
      (length_crcBytes p.reflect (f m true nullPtr)) hne
    apply bitwise_ne_of_burst h.odd hburst p.initialValue p.finalXor p.reflect true
    rw [← crc_eq_bitwise, ← crc_eq_bitwise, ← hsplit, ← h.crc_eq, hres, h.crc_eq,
      crc_append_crcBytes hw]
  · rintro ⟨m, rfl⟩
    rw [frame, h.crc_eq, h.crc_eq, crc_append_crcBytes hw]

theorem receiversAccept_of_catalogue (hw : 8 * (w / 8) = w)
    {catalogue : List (Variant w × Parameters w)} (h : ∀ e ∈ catalogue, Published e.1 e.2) :
    ∀ v ∈ catalogue.map (fun e => (e.1, e.2.reflect)), ReceiversAccept v.1 v.2 := by
  intro v hv
  obtain ⟨e, he, rfl⟩ := List.mem_map.mp hv
  exact (h e he).receiversAccept hw

/-- **What a receiver accepts**, with each of the 45 functions and however the received bytes are
cut. -/
theorem receivers_accept :
    (∀ v ∈ reflectedOutputs8, ReceiversAccept v.1 v.2) ∧
    (∀ v ∈ reflectedOutputs16, ReceiversAccept v.1 v.2) ∧
    (∀ v ∈ reflectedOutputs32, ReceiversAccept v.1 v.2) :=
  ⟨receiversAccept_of_catalogue (by omega) catalogue8_published,
   receiversAccept_of_catalogue (by omega) catalogue16_published,
   receiversAccept_of_catalogue (by omega) catalogue32_published⟩

end IMUtility.Crc
