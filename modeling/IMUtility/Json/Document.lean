import IMUtility.Json.Builder

/-! # What the builder writes

Every function of the builder appends to the text in the buffer, the bytes in front of the first
NUL. `Extends t xs` says what appending `xs` does to the object; the spec lemma of a function says
which `xs` it appends, and that it is defined exactly when they fit with their NUL. -/

namespace IMUtility
namespace Json

/-! ## The text

The interface works on C strings, so the invariant is about the text in front of the first NUL and
says nothing of what is behind it. `Extends` has a frame besides: the length of the object and the
byte in front stay, and stores stay below any bound that the new text stays below.
-/

/-- The text in the buffer. -/
def Storage.text (buffer : Storage) : List Byte := buffer.bytes.takeWhile (· ≠ 0)

/-- A member of the object. -/
def member (key value : CString) : List Byte :=
  [quote] ++ key.chars ++ [quote, colon, quote] ++ value.chars ++ [quote]

/-- The text of an object that is not closed yet. -/
def document (members : List (CString × CString)) : List Byte :=
  openBrace :: [comma].intercalate (members.map fun m => member m.1 m.2)

/-- The text of a whole object. -/
def object (members : List (CString × CString)) : List Byte := document members ++ [closeBrace]

/-- `t` is the C string at the start of the buffer. -/
structure Holds (buffer : Storage) (t : List Byte) : Prop where
  no_nul : (0 : Byte) ∉ t
  bytes_eq : ∃ rest, buffer.bytes = t ++ 0 :: rest

/-- What an operation that appends `xs` to the text `t` does to the object. -/
structure Extends (t xs : List Byte) (buffer buffer' : Storage) : Prop where
  holds : Holds buffer' (t ++ xs)
  length_eq : buffer'.bytes.length = buffer.bytes.length
  before_eq : buffer'.before = buffer.before
  below : ∀ n, (∀ i ∈ buffer.stores, i < n) → (t ++ xs).length < n → ∀ i ∈ buffer'.stores, i < n

variable {buffer buffer' buffer'' : Storage} {t xs ys : List Byte}

namespace Holds

theorem text_eq (h : Holds buffer t) : buffer.text = t := by
  obtain ⟨rest, hbytes⟩ := h.bytes_eq
  have hnul : ∀ c ∈ t, decide (c ≠ 0) = true := by
    intro c hc
    rw [decide_eq_true_iff]
    rintro rfl
    exact h.no_nul hc
  rw [Storage.text, hbytes, List.takeWhile_append_of_pos hnul]
  simp

theorem length_lt (h : Holds buffer t) : t.length < buffer.bytes.length := by
  obtain ⟨rest, hbytes⟩ := h.bytes_eq
  rw [hbytes, List.length_append, List.length_cons]
  omega

/-- The end of the text is marked below any bound behind it. -/
theorem nul_mem_take (h : Holds buffer t) {n : Nat} (hn : t.length < n) :
    (0 : Byte) ∈ buffer.bytes.take n := by
  obtain ⟨rest, hbytes⟩ := h.bytes_eq
  obtain ⟨k, rfl⟩ := Nat.exists_eq_add_of_lt hn
  rw [hbytes, List.take_append, Nat.add_assoc, Nat.add_sub_cancel_left, List.take_succ_cons]
  exact List.mem_append_right _ List.mem_cons_self

theorem with_loads (h : Holds buffer t) (loads : List Int) :
    Holds { buffer with loads := loads } t := ⟨h.no_nul, h.bytes_eq⟩

theorem extends_nil (h : Holds buffer t) : Extends t [] buffer buffer where
  holds := by
    rw [List.append_nil]
    exact h
  length_eq := rfl
  before_eq := rfl
  below := fun _ hbelow _ => hbelow

end Holds

/-- Loads do not count. -/
theorem Extends.of_loads {loads : List Int}
    (h : Extends t xs { buffer with loads := loads } buffer') : Extends t xs buffer buffer' :=
  ⟨h.holds, h.length_eq, h.before_eq, h.below⟩

theorem Extends.trans (h : Extends t xs buffer buffer')
    (h' : Extends (t ++ xs) ys buffer' buffer'') : Extends t (xs ++ ys) buffer buffer'' where
  holds := by
    rw [← List.append_assoc]
    exact h'.holds
  length_eq := h'.length_eq.trans h.length_eq
  before_eq := h'.before_eq.trans h.before_eq
  below := by
    intro n hbelow hn
    rw [← List.append_assoc] at hn
    have hn' : (t ++ xs).length < n := by
      rw [List.length_append] at hn
      omega
    exact h'.below n (h.below n hbelow hn') hn

/-! ## The string functions

One lemma a function, for an object that holds a text. Each is followed by the condition under
which a copy fails, since the results about a run need both directions.
-/

theorem Holds.strlen_eq (h : Holds buffer t) :
    ∃ loads, buffer.strlen = some (t.length, { buffer with loads := loads }) := by
  obtain ⟨rest, hbytes⟩ := h.bytes_eq
  -- the first NUL stands behind the text, because the text has none
  have hindex : buffer.bytes.idxOf? 0 = some t.length := by
    rw [List.idxOf?_eq_some_iff]
    refine ⟨h.length_lt, ?_, ?_⟩
    · simp [hbytes]
    · intro j hj hzero
      apply h.no_nul
      simp only [hbytes, List.getElem_append_left hj] at hzero
      rw [← hzero]
      exact List.getElem_mem hj
  exact ⟨_, by rw [Storage.strlen, hindex]; rfl⟩

/-- The character in front of the end of the text; of an empty text, the byte in front. -/
def Storage.last (buffer : Storage) (t : List Byte) : Byte := t.getLast?.getD buffer.before

/-- A load inside the object. -/
theorem Storage.load_eq {i : Nat} {c : Byte} (h : buffer.bytes[i]? = some c) :
    buffer.load (i : Int) = some (c, { buffer with loads := (i : Int) :: buffer.loads }) := by
  have hfront : ¬ (i : Int) = -1 := by omega
  unfold Storage.load
  rw [if_neg hfront, if_pos (Int.natCast_nonneg i), Int.toNat_natCast, h]
  rfl

theorem Holds.load_last (h : Holds buffer t) :
    ∃ loads, buffer.load ((t.length : Int) - 1)
      = some (buffer.last t, { buffer with loads := loads }) := by
  obtain ⟨rest, hbytes⟩ := h.bytes_eq
  -- an empty text has no last character: the index is -1
  rcases List.eq_nil_or_concat t with rfl | ⟨u, c, hconcat⟩
  · exact ⟨_, rfl⟩
  · rw [List.concat_eq_append] at hconcat
    subst hconcat
    have hindex : ((u ++ [c]).length : Int) - 1 = (u.length : Int) := by
      rw [List.length_append, List.length_singleton]
      omega
    have hget : buffer.bytes[u.length]? = some c := by
      rw [hbytes, List.append_assoc, List.getElem?_append_right le_rfl, Nat.sub_self]
      rfl
    rw [hindex, Storage.load_eq hget, Storage.last, List.getLast?_concat]
    exact ⟨_, rfl⟩

theorem Holds.isQuote_eq (h : Holds buffer t) :
    ∃ loads, buffer.isQuote ((t.length : Int) - 1)
      = some (buffer.last t == quote, { buffer with loads := loads }) := by
  obtain ⟨rest, hbytes⟩ := h.bytes_eq
  obtain ⟨loads, hlast⟩ := h.load_last
  have hend : buffer.bytes[t.length]? = some 0 := by
    rw [hbytes, List.getElem?_append_right le_rfl, Nat.sub_self]
    rfl
  unfold Storage.isQuote
  rw [hlast, Option.bind_eq_bind, Option.bind_some, Int.sub_add_cancel]
  dsimp only
  by_cases hquote : buffer.last t = quote
  · -- behind the quote stands the NUL, so the strings are equal
    have hload : Storage.load { buffer with loads := loads } (t.length : Int) = _ :=
      Storage.load_eq hend
    rw [if_pos hquote, hload, hquote]
    exact ⟨_, rfl⟩
  · rw [if_neg hquote, beq_eq_false_iff_ne.mpr hquote]
    exact ⟨_, rfl⟩

/-- Copying behind a string without NULs appends, if there is room for the new NUL as well. -/
theorem Storage.strcpy_eq (hpre : t <+: buffer.bytes) (ht : (0 : Byte) ∉ t)
    (hxs : (0 : Byte) ∉ xs) (hroom : (t ++ xs).length < buffer.bytes.length) :
    ∃ buffer', buffer.strcpy t.length xs = some buffer' ∧ Extends t xs buffer buffer' := by
  obtain ⟨rest, hbytes⟩ := hpre
  rw [List.length_append] at hroom
  have hlen : t.length + (xs ++ [0]).length ≤ buffer.bytes.length := by
    rw [List.length_append, List.length_singleton]
    omega
  have hwrite : Slots.write buffer.bytes t.length (xs ++ [0])
      = some (t ++ (xs ++ [0]) ++ buffer.bytes.drop (t.length + (xs ++ [0]).length)) := by
    rw [Slots.write, if_pos hlen, ← hbytes, List.take_left]
  have hstrcpy : buffer.strcpy t.length xs = some { buffer with
      bytes := t ++ (xs ++ [0]) ++ buffer.bytes.drop (t.length + (xs ++ [0]).length),
      stores := List.range' t.length (xs.length + 1) ++ buffer.stores } := by
    rw [Storage.strcpy, hwrite]
    rfl
  refine ⟨_, hstrcpy, ?_, ?_, rfl, ?_⟩
  · constructor
    · rw [List.mem_append, not_or]
      exact ⟨ht, hxs⟩
    · refine ⟨buffer.bytes.drop (t.length + (xs ++ [0]).length), ?_⟩
      simp
  · simp only [List.length_append, List.length_drop] at hlen ⊢
    omega
  · intro n hbelow hn i hi
    rw [List.length_append] at hn
    -- new stores lie between the old end and the new NUL
    rcases List.mem_append.mp hi with hi | hi
    · rw [List.mem_range'_1] at hi
      omega
    · exact hbelow i hi

theorem Holds.strcpy_eq (h : Holds buffer t) (hxs : (0 : Byte) ∉ xs)
    (hroom : (t ++ xs).length < buffer.bytes.length) :
    ∃ buffer', buffer.strcpy t.length xs = some buffer' ∧ Extends t xs buffer buffer' := by
  obtain ⟨rest, hbytes⟩ := h.bytes_eq
  exact Storage.strcpy_eq ⟨0 :: rest, hbytes.symm⟩ h.no_nul hxs hroom

theorem Storage.strcpy_eq_none {i : Nat} (hroom : buffer.bytes.length ≤ i + xs.length) :
    buffer.strcpy i xs = none := by
  have hlen : ¬ i + (xs ++ [0]).length ≤ buffer.bytes.length := by
    rw [List.length_append, List.length_singleton]
    omega
  rw [Storage.strcpy, Slots.write, if_neg hlen]
  rfl

theorem Storage.length_strcpy {i : Nat} (h : buffer.strcpy i xs = some buffer') :
    buffer'.bytes.length = buffer.bytes.length := by
  obtain ⟨bytes, hwrite, heq⟩ := Option.bind_eq_some_iff.mp h
  cases heq
  unfold Slots.write at hwrite
  split at hwrite
  case isTrue hroom =>
    cases hwrite
    simp only [List.length_append, List.length_take, List.length_drop] at hroom ⊢
    omega
  case isFalse => cases hwrite

/-! ## Members

Five copies, each at the end of the text that the one before has left. They make one extension by
the whole member, by `Extends.trans`; only the offsets have to be added up.
-/

section Calls

variable {p : Platform} {buffer_size : Nat} {key value : CString}

theorem length_member (key value : CString) :
    (member key value).length = 5 + key.strlen + value.strlen := by
  simp only [member, CString.strlen, List.length_append, List.length_cons, List.length_nil]
  omega

/-- With room for the member and its NUL, the five copies append the member. -/
theorem Holds.copyMember_eq (h : Holds buffer t)
    (hroom : (t ++ member key value).length < buffer.bytes.length) :
    ∃ buffer', copyMember buffer t.length key value = some buffer' ∧
      Extends t (member key value) buffer buffer' := by
  have hquote : (0 : Byte) ∉ [quote] := by decide
  have hcolon : (0 : Byte) ∉ [quote, colon, quote] := by decide
  rw [List.length_append, length_member] at hroom
  unfold CString.strlen at hroom
  -- where the pieces end
  have i₁ : (t ++ [quote]).length = t.length + 1 := by simp
  have i₂ : (t ++ ([quote] ++ key.chars)).length = t.length + 1 + key.strlen := by
    simp [CString.strlen]
    omega
  have i₃ : (t ++ ([quote] ++ key.chars ++ [quote, colon, quote])).length
      = t.length + 1 + key.strlen + 3 := by
    simp [CString.strlen]
    omega
  have i₄ : (t ++ ([quote] ++ key.chars ++ [quote, colon, quote] ++ value.chars)).length
      = t.length + 1 + key.strlen + 3 + value.strlen := by
    simp [CString.strlen]
    omega
  -- the copies, one behind the other
  obtain ⟨b₁, h₁, e₁⟩ := h.strcpy_eq hquote (by grind)
  obtain ⟨b₂, h₂, e₂⟩ := e₁.holds.strcpy_eq key.no_nul (by grind [e₁.length_eq])
  have e₂ := e₁.trans e₂
  obtain ⟨b₃, h₃, e₃⟩ := e₂.holds.strcpy_eq hcolon (by grind [e₂.length_eq])
  have e₃ := e₂.trans e₃
  obtain ⟨b₄, h₄, e₄⟩ := e₃.holds.strcpy_eq value.no_nul (by grind [e₃.length_eq])
  have e₄ := e₃.trans e₄
  obtain ⟨b₅, h₅, e₅⟩ := e₄.holds.strcpy_eq hquote (by grind [e₄.length_eq])
  rw [i₁] at h₂
  rw [i₂] at h₃
  rw [i₃] at h₄
  rw [i₄] at h₅
  refine ⟨b₅, ?_, e₄.trans e₅⟩
  simp only [copyMember, h₁, h₂, h₃, h₄, h₅, Option.bind_eq_bind, Option.bind_some]

/-- Without that room, one of the copies leaves the object. -/
theorem copyMember_eq_none {index : Nat}
    (hroom : buffer.bytes.length ≤ index + (member key value).length) :
    copyMember buffer index key value = none := by
  rw [Option.eq_none_iff_forall_ne_some]
  intro buffer' hcopy
  obtain ⟨b₁, h₁, hcopy⟩ := Option.bind_eq_some_iff.mp hcopy
  obtain ⟨b₂, h₂, hcopy⟩ := Option.bind_eq_some_iff.mp hcopy
  obtain ⟨b₃, h₃, hcopy⟩ := Option.bind_eq_some_iff.mp hcopy
  obtain ⟨b₄, h₄, hcopy⟩ := Option.bind_eq_some_iff.mp hcopy
  -- no copy changes the length of the object, so the last one has no room
  have hlen : b₄.bytes.length = buffer.bytes.length := by
    rw [Storage.length_strcpy h₄, Storage.length_strcpy h₃, Storage.length_strcpy h₂,
      Storage.length_strcpy h₁]
  rw [length_member] at hroom
  rw [Storage.strcpy_eq_none] at hcopy
  · cases hcopy
  · rw [hlen, List.length_singleton]
    omega

/-! ## `Json_addData`

What a call appends is decided by the character in front of the NUL and by the check. `addChecked`
is the part behind the comma, with the text and the index as the comma has left them.
-/

/-- What is written before the capacity is checked. -/
def separator (buffer : Storage) (t : List Byte) : List Byte :=
  if buffer.last t = quote then [comma] else []

/-- All that a call appends. -/
def added (p : Platform) (buffer : Storage) (t : List Byte) (buffer_size : Nat)
    (key value : CString) : List Byte :=
  separator buffer t ++
    if hasRoom p buffer_size (t ++ separator buffer t).length key value then member key value
    else []

/-- `Json_addData` from the check on. -/
def addChecked (p : Platform) (buffer_size : Nat) (key value : CString) (buffer : Storage)
    (index : Nat) : Option (Bool × Storage) :=
  if hasRoom p buffer_size index key value then
    (copyMember buffer index key value).bind fun buffer => some (true, buffer)
  else some (false, buffer)

/-- `Json_addData` is a comma, where one is needed, and the rest. -/
theorem Holds.addData_eq_addChecked (h : Holds buffer t) :
    ∃ loads, addData p buffer buffer_size key value =
      if buffer.last t = quote then
        (Storage.strcpy { buffer with loads := loads } t.length [comma]).bind fun buffer =>
          addChecked p buffer_size key value buffer (t.length + 1)
      else addChecked p buffer_size key value { buffer with loads := loads } t.length := by
  obtain ⟨loads, hstrlen⟩ := h.strlen_eq
  obtain ⟨loads', hquote⟩ := (h.with_loads loads).isQuote_eq
  refine ⟨loads', ?_⟩
  simp only [addData, hstrlen, hquote, Option.bind_eq_bind, Option.bind_some]
  by_cases hlast : buffer.last t = quote
  · have hbeq : (Storage.last { buffer with loads := loads } t == quote) = true :=
      beq_iff_eq.mpr hlast
    rw [hbeq, if_pos hlast, if_pos rfl]
    rfl
  · have hbeq : (Storage.last { buffer with loads := loads } t == quote) = false :=
      beq_eq_false_iff_ne.mpr hlast
    rw [hbeq, if_neg hlast, if_neg Bool.false_ne_true]
    rfl

/-- The comma takes one place more. -/
theorem Holds.addData_eq_of_separator (h : Holds buffer t)
    (hroom : (t ++ separator buffer t).length < buffer.bytes.length) :
    ∃ buffer', Extends t (separator buffer t) buffer buffer' ∧
      addData p buffer buffer_size key value
        = addChecked p buffer_size key value buffer' (t ++ separator buffer t).length := by
  obtain ⟨loads, heq⟩ := h.addData_eq_addChecked
  have h' := h.with_loads loads
  rw [heq]
  unfold separator at hroom ⊢
  split
  case isTrue hlast =>
    rw [if_pos hlast] at hroom
    obtain ⟨buffer', hcopy, hextends⟩ := h'.strcpy_eq (by decide) hroom
    refine ⟨buffer', hextends.of_loads, ?_⟩
    rw [hcopy, List.length_append]
    rfl
  case isFalse hlast =>
    rw [List.append_nil]
    exact ⟨_, h'.extends_nil.of_loads, rfl⟩

/-- **`Json_addData`** appends what `added` says, if there is room for it and its NUL. -/
theorem Holds.addData_eq (h : Holds buffer t)
    (hroom : (t ++ added p buffer t buffer_size key value).length < buffer.bytes.length) :
    ∃ buffer', addData p buffer buffer_size key value
        = some (hasRoom p buffer_size (t ++ separator buffer t).length key value, buffer') ∧
      Extends t (added p buffer t buffer_size key value) buffer buffer' := by
  unfold added at hroom ⊢
  have hfirst : (t ++ separator buffer t).length < buffer.bytes.length := by
    simp only [List.length_append] at hroom ⊢
    omega
  obtain ⟨b₁, e₁, heq⟩ := h.addData_eq_of_separator hfirst
  rw [heq, addChecked]
  split
  case isTrue hcheck =>
    rw [if_pos hcheck, ← List.append_assoc, ← e₁.length_eq] at hroom
    obtain ⟨b₂, hcopy, e₂⟩ := e₁.holds.copyMember_eq hroom
    rw [hcopy, hcheck]
    exact ⟨b₂, rfl, e₁.trans e₂⟩
  -- refused: the comma alone stays, if there was one
  case isFalse hcheck =>
    rw [List.append_nil, eq_false_of_ne_true hcheck]
    exact ⟨b₁, rfl, e₁⟩

/-- Without that room it leaves the object. -/
theorem Holds.addData_eq_none (h : Holds buffer t)
    (hroom : buffer.bytes.length ≤ (t ++ added p buffer t buffer_size key value).length) :
    addData p buffer buffer_size key value = none := by
  unfold added at hroom
  by_cases hfirst : (t ++ separator buffer t).length < buffer.bytes.length
  · obtain ⟨b₁, e₁, heq⟩ := h.addData_eq_of_separator hfirst
    rw [heq, addChecked]
    split
    case isTrue hcheck =>
      rw [if_pos hcheck, ← List.append_assoc, ← e₁.length_eq, List.length_append] at hroom
      rw [copyMember_eq_none hroom]
      rfl
    case isFalse hcheck =>
      -- the check fails, so only the comma is written, and it fits
      rw [if_neg hcheck, List.append_nil] at hroom
      omega
  · -- not even the comma fits
    obtain ⟨loads, heq⟩ := h.addData_eq_addChecked
    have hlt := h.length_lt
    unfold separator at hfirst
    split at hfirst
    case isTrue hlast =>
      rw [List.length_append] at hfirst
      have hcopy : Storage.strcpy { buffer with loads := loads } t.length [comma] = none :=
        Storage.strcpy_eq_none (Nat.le_of_not_lt hfirst)
      rw [heq, if_pos hlast, hcopy]
      rfl
    case isFalse =>
      rw [List.append_nil] at hfirst
      omega

/-! ## `Json_startString` and `Json_endString`

The first function looks at nothing in the object, so it is described as an extension of the empty
text.
-/

/-- `Json_startString` appends to nothing, whatever the buffer holds. -/
theorem startString_eq (hsize : 2 ≤ buffer_size) (hroom : 2 ≤ buffer.bytes.length) :
    ∃ buffer', startString buffer buffer_size = some (true, buffer') ∧
      Extends [] [openBrace] buffer buffer' := by
  have hbrace : (0 : Byte) ∉ [openBrace] := by decide
  obtain ⟨buffer', hcopy, hextends⟩ :=
    Storage.strcpy_eq (List.nil_prefix (l := buffer.bytes)) List.not_mem_nil hbrace hroom
  refine ⟨buffer', ?_, hextends⟩
  rw [startString, if_pos hsize]
  show (buffer.strcpy ([] : List Byte).length [openBrace]).bind _ = _
  rw [hcopy]
  rfl

/-- What `Json_endString` appends. -/
def closing (p : Platform) (t : List Byte) (buffer_size : Nat) : List Byte :=
  if p.sizeT (2 + t.length) ≤ buffer_size then [closeBrace] else []

/-- **`Json_endString`** appends what `closing` says, if there is room for it and its NUL. -/
theorem Holds.endString_eq (h : Holds buffer t)
    (hroom : (t ++ closing p t buffer_size).length < buffer.bytes.length) :
    ∃ buffer', endString p buffer buffer_size
        = some (decide (p.sizeT (2 + t.length) ≤ buffer_size), buffer') ∧
      Extends t (closing p t buffer_size) buffer buffer' := by
  obtain ⟨loads, hstrlen⟩ := h.strlen_eq
  have h' := h.with_loads loads
  simp only [endString, hstrlen, Option.bind_eq_bind, Option.bind_some]
  unfold closing at hroom ⊢
  split
  case isTrue hcheck =>
    rw [if_pos hcheck] at hroom
    have hbrace : (0 : Byte) ∉ [closeBrace] := by decide
    obtain ⟨buffer', hcopy, hextends⟩ := h'.strcpy_eq hbrace hroom
    rw [hcopy, decide_eq_true hcheck]
    exact ⟨buffer', rfl, hextends.of_loads⟩
  case isFalse hcheck =>
    rw [decide_eq_false hcheck]
    exact ⟨_, rfl, h'.extends_nil.of_loads⟩

/-- Without that room it leaves the object. -/
theorem Holds.endString_eq_none (h : Holds buffer t)
    (hroom : buffer.bytes.length ≤ (t ++ closing p t buffer_size).length) :
    endString p buffer buffer_size = none := by
  obtain ⟨loads, hstrlen⟩ := h.strlen_eq
  have hlt := h.length_lt
  simp only [endString, hstrlen, Option.bind_eq_bind, Option.bind_some]
  unfold closing at hroom
  split
  case isTrue hcheck =>
    rw [if_pos hcheck, List.length_append] at hroom
    have hcopy : Storage.strcpy { buffer with loads := loads } t.length [closeBrace] = none :=
      Storage.strcpy_eq_none hroom
    rw [hcopy]
    rfl
  case isFalse hcheck =>
    rw [if_neg hcheck, List.append_nil] at hroom
    omega

end Calls

end Json
end IMUtility
