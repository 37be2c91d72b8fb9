import IMUtility.Crc.Variants

/-! # Chunked calls

A message may be cut into chunks: the first call gets `NULL_PTR`, every later one the result of the
call before it, and only the last one is final. That this is the one-shot CRC needs one thing of a
variant: without `final_crc` it must return the bare register, so that the next call resumes from
it. `Resumable` says so, and each of the four shapes is resumable under the condition on its
`#define`s that it was chosen for. -/

namespace IMUtility.Crc

variable {w : Nat}

/-- The calls for a non-empty list of chunks, `last_crc_ptr` for the first of them. -/
def callChunks (f : Variant w) (last_crc_ptr : Ptr (BitVec w)) :
    List Byte → List (List Byte) → BitVec w
  | chunk, []            => f chunk true last_crc_ptr
  | chunk, next :: chunks => callChunks f (some (f chunk false last_crc_ptr)) next chunks

/-- A call that is not final returns the register, and a final one only adds an output stage. -/
def Resumable (f : Variant w) : Prop :=
  ∃ (initial : BitVec w) (body : BitVec w → Byte → BitVec w) (out : BitVec w → BitVec w),
    (∀ crc_data last_crc_ptr,
      f crc_data false last_crc_ptr = crc_data.foldl body (last_crc_ptr.getD initial)) ∧
    (∀ crc_data last_crc_ptr,
      f crc_data true last_crc_ptr = out (crc_data.foldl body (last_crc_ptr.getD initial)))

/-- **One call for the whole message.** By induction on the chunks that are left. -/
theorem Resumable.callChunks_eq {f : Variant w} (hf : Resumable f) (last_crc_ptr : Ptr (BitVec w))
    (chunk : List Byte) (chunks : List (List Byte)) :
    callChunks f last_crc_ptr chunk chunks = f (chunk ++ chunks.flatten) true last_crc_ptr := by
  obtain ⟨initial, body, out, hmid, hfin⟩ := hf
  induction chunks generalizing last_crc_ptr chunk with
  | nil => rw [callChunks, List.flatten_nil, List.append_nil]
  | cons next chunks ih =>
      -- the fold of the next chunk starts where this one ended
      rw [callChunks, ih, hfin, hfin, hmid, Option.getD_some, List.flatten_cons,
        List.foldl_append, List.foldl_append, List.foldl_append]

/-! ## The shapes

A variant decides by its `final_crc` parameter which of the two output flags it passes on, and
some pass one of them always. Such a flag must be off in the file's `#define`s, otherwise every
call would run the output stage on an unfinished register.
-/

/-- An engine is a fold over the data followed by `finish`. -/
def Engine.Folds (crcBase : Engine w) : Prop :=
  ∃ (bits : BitVec 8) (body : Table w → Bool → BitVec w → Byte → BitVec w),
    ∀ crc_table crc_data initial final_xor_value ro ri fx,
      crcBase crc_table crc_data initial final_xor_value ro ri fx
        = finish bits final_xor_value ro fx (crc_data.foldl (body crc_table ri) initial)

theorem crc8Base_folds : Engine.Folds crc8Base :=
  ⟨8#8, fun t ri crc b => byteStep t crc (temp ri b), fun _ _ _ _ _ _ _ => rfl⟩

theorem crc16Base_folds : Engine.Folds crc16Base :=
  ⟨16#8, fun t ri crc b => wideStep 8 t crc (temp ri b), fun _ _ _ _ _ _ _ => rfl⟩

theorem crc32Base_folds : Engine.Folds crc32Base :=
  ⟨32#8, fun t ri crc b => wideStep 24 t crc (temp ri b), fun _ _ _ _ _ _ _ => rfl⟩

@[simp] theorem finish_false (bits : BitVec 8) (final_xor_value crc : BitVec w) :
    finish bits final_xor_value false false crc = crc := rfl

section Shapes

variable {crcBase : Engine w} (hfold : crcBase.Folds) (crc_table : Table w) {d : Defines w}

include hfold

/-- The common argument, for a variant whose flags `ro` and `fx` are off until the last call. -/
theorem resumable_of_flags {f : Variant w} (ro fx : Bool → Bool)
    (hf : ∀ crc_data final_crc last_crc_ptr,
      f crc_data final_crc last_crc_ptr = crcBase crc_table crc_data (d.startFrom last_crc_ptr)
        d.finalXorValue (ro final_crc) d.reflectedInput (fx final_crc))
    (hro : ro false = false) (hfx : fx false = false) : Resumable f := by
  obtain ⟨bits, body, hbase⟩ := hfold
  refine ⟨d.initialCrcValue, body crc_table d.reflectedInput,
    finish bits d.finalXorValue (ro true) (fx true), ?_, ?_⟩
  -- not final: both flags are off, and `finish` is the identity
  · intro crc_data last_crc_ptr
    rw [hf, hbase, hro, hfx, finish_false, Defines.startFrom]
  -- final: the flags are whatever the variant makes of `true`
  · intro crc_data last_crc_ptr
    rw [hf, hbase, Defines.startFrom]

/-- Without the parameter there must be no output stage at all. -/
theorem plain_resumable (hro : d.reflectedOutput = false) (hfx : d.finalXor = false) :
    Resumable (withoutFlag (plain crcBase crc_table d)) :=
  resumable_of_flags hfold crc_table (fun _ => d.reflectedOutput) (fun _ => d.finalXor)
    (fun _ _ _ => rfl) hro hfx

theorem reflectWhenFinal_resumable (hfx : d.finalXor = false) :
    Resumable (reflectWhenFinal crcBase crc_table d) :=
  resumable_of_flags hfold crc_table (fun final_crc => if final_crc then d.reflectedOutput else false)
    (fun _ => d.finalXor) (fun _ _ _ => rfl) rfl hfx

theorem xorWhenFinal_resumable (hro : d.reflectedOutput = false) :
    Resumable (xorWhenFinal crcBase crc_table d) :=
  resumable_of_flags hfold crc_table (fun _ => d.reflectedOutput)
    (fun final_crc => if final_crc then d.finalXor else false) (fun _ _ _ => rfl) hro rfl

theorem reflectAndXorWhenFinal_resumable : Resumable (reflectAndXorWhenFinal crcBase crc_table d) :=
  resumable_of_flags hfold crc_table (fun final_crc => if final_crc then d.reflectedOutput else false)
    (fun final_crc => if final_crc then d.finalXor else false) (fun _ _ _ => rfl) rfl rfl

end Shapes

/-! ## The 45 functions

One conjunct a function, in the order of its list; the conditions of its shape are checked on its
own `#define`s. -/

theorem variants8_resumable : ∀ f ∈ variants8, Resumable f := by
  have h := crc8Base_folds
  simp only [variants8, List.forall_mem_cons]
  -- by the stages each function leaves to the last call
  refine ⟨plain_resumable h _ rfl rfl,
    xorWhenFinal_resumable h _ rfl,
    plain_resumable h _ rfl rfl,
    reflectWhenFinal_resumable h _ rfl,
    plain_resumable h _ rfl rfl,
    reflectWhenFinal_resumable h _ rfl,
    plain_resumable h _ rfl rfl,
    xorWhenFinal_resumable h _ rfl,
    reflectWhenFinal_resumable h _ rfl,
    reflectWhenFinal_resumable h _ rfl,
    xorWhenFinal_resumable h _ rfl,
    plain_resumable h _ rfl rfl,
    reflectWhenFinal_resumable h _ rfl,
    by simp⟩

theorem variants16_resumable : ∀ f ∈ variants16, Resumable f := by
  have h := crc16Base_folds
  simp only [variants16, List.forall_mem_cons]
  refine ⟨reflectWhenFinal_resumable h _ rfl,
    reflectWhenFinal_resumable h _ rfl,
    plain_resumable h _ rfl rfl,
    plain_resumable h _ rfl rfl,
    plain_resumable h _ rfl rfl,
    plain_resumable h _ rfl rfl,
    plain_resumable h _ rfl rfl,
    plain_resumable h _ rfl rfl,
    xorWhenFinal_resumable h _ rfl,
    plain_resumable h _ rfl rfl,
    reflectAndXorWhenFinal_resumable h _,
    xorWhenFinal_resumable h _ rfl,
    xorWhenFinal_resumable h _ rfl,
    reflectWhenFinal_resumable h _ rfl,
    reflectAndXorWhenFinal_resumable h _,
    reflectWhenFinal_resumable h _ rfl,
    reflectWhenFinal_resumable h _ rfl,
    reflectWhenFinal_resumable h _ rfl,
    plain_resumable h _ rfl rfl,
    plain_resumable h _ rfl rfl,
    reflectWhenFinal_resumable h _ rfl,
    reflectAndXorWhenFinal_resumable h _,
    reflectAndXorWhenFinal_resumable h _,
    by simp⟩

theorem variants32_resumable : ∀ f ∈ variants32, Resumable f := by
  have h := crc32Base_folds
  simp only [variants32, List.forall_mem_cons]
  refine ⟨reflectAndXorWhenFinal_resumable h _,
    xorWhenFinal_resumable h _ rfl,
    reflectAndXorWhenFinal_resumable h _,
    reflectAndXorWhenFinal_resumable h _,
    reflectWhenFinal_resumable h _ rfl,
    plain_resumable h _ rfl rfl,
    xorWhenFinal_resumable h _ rfl,
    plain_resumable h _ rfl rfl,
    plain_resumable h _ rfl rfl,
    by simp⟩

/-- **Chunked is one-shot.** However a message is cut, each of the 45 functions called chunk by
chunk returns what one call on the whole message returns. -/
theorem callChunks_eq_call (chunk : List Byte) (chunks : List (List Byte)) :
    (∀ f ∈ variants8, callChunks f nullPtr chunk chunks = f (chunk ++ chunks.flatten) true nullPtr) ∧
    (∀ f ∈ variants16,
      callChunks f nullPtr chunk chunks = f (chunk ++ chunks.flatten) true nullPtr) ∧
    (∀ f ∈ variants32,
      callChunks f nullPtr chunk chunks = f (chunk ++ chunks.flatten) true nullPtr) :=
  ⟨fun f hf => (variants8_resumable f hf).callChunks_eq nullPtr chunk chunks,
   fun f hf => (variants16_resumable f hf).callChunks_eq nullPtr chunk chunks,
   fun f hf => (variants32_resumable f hf).callChunks_eq nullPtr chunk chunks⟩

end IMUtility.Crc
