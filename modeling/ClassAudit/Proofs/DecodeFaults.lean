import ClassAudit.Proofs.LayoutDecoding

/-!
# Why code is refused

Decoding looks at bytes through readers that say where they stand, so that a message
can. That place is only right if the bytes they are given are those which stand there,
and a reader that is given no bytes would call any code cut off. This file goes
through the readers with the whole code in view: each of them is given what is left of
it from its position on, and positions never run away, for a position is either near
the opcode or behind a field that was there.

So a fault says something that is so (`DecodeFault.Justified`): the opcodes and numbers
that it names are spelled in the code, where the format has them. In particular a field
that is missed starts less than four bytes from the end of the code. However many cases
a switch announces, nothing further away is ever asked for.
-/

namespace ClassAudit

/-! ## Faults -/

/-- The code spells a number of 32 bits at a place. -/
def WordAt (code : List UInt8) (place : Nat) (value : Int32) : Prop :=
  big32 value.toUInt32 <+: code.drop place

/-- The first multiple of four behind an offset, where the fields of a switch start. -/
def alignedBehind (offset : Nat) : Nat := 4 * (offset / 4 + 1)

/-- The distances to targets that the code spells behind an opcode at `offset`: one
behind a branch, and behind a switch the default and one for each case that is
announced. -/
inductive DistanceAt (code : List UInt8) (offset : Nat) : Int → Prop
  | short {opcode : Opcode} {distance : Int16}
    (hat : code[offset]? = some opcode.toByte) (hlayout : opcode.layout = .branch16)
    (hspelled : big16 distance.toUInt16 <+: code.drop (offset + 1)) :
    DistanceAt code offset distance.toInt
  | long {opcode : Opcode} {distance : Int32}
    (hat : code[offset]? = some opcode.toByte) (hlayout : opcode.layout = .branch32)
    (hspelled : WordAt code (offset + 1) distance) :
    DistanceAt code offset distance.toInt
  | default {opcode : Opcode} {distance : Int32}
    (hat : code[offset]? = some opcode.toByte)
    (hswitch : opcode = .tableswitch ∨ opcode = .lookupswitch)
    (hspelled : WordAt code (alignedBehind offset) distance) :
    DistanceAt code offset distance.toInt
  | table {low high distance : Int32} {k : Nat}
    (hat : code[offset]? = some Opcode.tableswitch.toByte)
    (hlow : WordAt code (alignedBehind offset + 4) low)
    (hhigh : WordAt code (alignedBehind offset + 8) high)
    (hcase : low.toInt + k ≤ high.toInt)
    (hspelled : WordAt code (alignedBehind offset + 12 + 4 * k) distance) :
    DistanceAt code offset distance.toInt
  | pair {count distance : Int32} {k : Nat}
    (hat : code[offset]? = some Opcode.lookupswitch.toByte)
    (hcount : WordAt code (alignedBehind offset + 4) count)
    (hcase : k < count.toInt)
    (hspelled : WordAt code (alignedBehind offset + 12 + 8 * k) distance) :
    DistanceAt code offset distance.toInt

/-- What a fault in the instruction at `offset` says of the code is so. -/
def DecodeFault.Justified (code : List UInt8) (offset : Nat) : DecodeFault → Prop
  | .truncated position =>
    offset < position ∧ position < code.length + 4 ∧ code.length < position + 4
  | .pastEnd opcode =>
    code[offset]? = some opcode.toByte ∧ offset + 3 ≤ code.length ∧
      code.length < offset + 5
  | .targetOutOfRange target =>
    (∃ distance, DistanceAt code offset distance ∧ target = offset + distance) ∧
      (target < 0 ∨ UInt32.size ≤ target)
  | .emptyRange low high =>
    code[offset]? = some Opcode.tableswitch.toByte ∧
      WordAt code (alignedBehind offset + 4) low ∧
      WordAt code (alignedBehind offset + 8) high ∧ high.toInt + 1 < low.toInt
  | .negativePairs count =>
    code[offset]? = some Opcode.lookupswitch.toByte ∧
      WordAt code (alignedBehind offset + 4) count ∧ count.toInt < 0
  | .notWidenable opcode =>
    code[offset]? = some Opcode.wide.toByte ∧ code[offset + 1]? = some opcode.toByte ∧
      opcode.layout ≠ .slot8 ∧ opcode.layout ≠ .increment8

/-- A computation that fails only with faults that satisfy `p`. -/
def FailsWith {α : Type} (p : DecodeFault → Prop) (m : Except DecodeFault α) : Prop :=
  ∀ fault, m = .error fault → p fault

namespace FailsWith

variable {α β : Type} {p : DecodeFault → Prop}

theorem pure (a : α) : FailsWith p (Pure.pure a : Except DecodeFault α) := nofun

theorem throw {fault : DecodeFault} (h : p fault) :
    FailsWith p (MonadExcept.throw fault : Except DecodeFault α) := by
  intro other hother
  cases hother
  exact h

theorem bind {m : Except DecodeFault α} {f : α → Except DecodeFault β}
    (hm : FailsWith p m) (hf : ∀ a, m = .ok a → FailsWith p (f a)) :
    FailsWith p (m >>= f) := by
  intro fault h
  cases m with
  | error other =>
      cases h
      exact hm _ rfl
  | ok a => exact hf a rfl fault h

end FailsWith

namespace Decode

/-! ## Fields -/

/-- Reads fields of some width, up to four bytes: if there are enough of them, and
else it says where it stands. -/
structure ReadsField {α : Type} (width : Nat)
    (read : Nat → List UInt8 → Except DecodeFault α) : Prop where
  bounds : 0 < width ∧ width ≤ 4
  enough : ∀ {position bytes value}, read position bytes = .ok value →
    width ≤ bytes.length
  short : ∀ {position bytes fault}, read position bytes = .error fault →
    fault = .truncated position ∧ bytes.length < width

theorem readsField_u8 : ReadsField 1 u8 where
  bounds := by omega
  enough := by
    intro position bytes value h
    cases bytes with
    | nil => cases h
    | cons a rest => simp
  short := by
    intro position bytes fault h
    cases bytes with
    | nil =>
        cases h
        exact ⟨rfl, by simp⟩
    | cons a rest => cases h

theorem readsField_u16 : ReadsField 2 u16 where
  bounds := by omega
  enough := by
    intro position bytes value h
    unfold u16 at h
    split at h
    · simp
    · cases h
  short := by
    intro position bytes fault h
    match bytes with
    | [] | [_] =>
        cases h
        exact ⟨rfl, by simp⟩
    | _ :: _ :: _ => cases h

theorem readsField_u32 : ReadsField 4 u32 where
  bounds := by omega
  enough := by
    intro position bytes value h
    unfold u32 at h
    split at h
    · simp
    · cases h
  short := by
    intro position bytes fault h
    match bytes with
    | [] | [_] | [_, _] | [_, _, _] =>
        cases h
        exact ⟨rfl, by simp⟩
    | _ :: _ :: _ :: _ :: _ => cases h

theorem readsField_i32 : ReadsField 4 i32 where
  bounds := by omega
  enough := by
    intro position bytes value h
    obtain ⟨word, hword, _⟩ := bind_eq_ok.1 h
    exact readsField_u32.enough hword
  short := by
    intro position bytes fault h
    cases hword : u32 position bytes with
    | error other =>
        rw [i32, hword] at h
        cases h
        exact readsField_u32.short hword
    | ok word =>
        rw [i32, hword] at h
        cases h

section Code

variable {code : List UInt8} {offset position count : Nat}

/-- A field is read from what is left of the code at a position near its end or
before it. Either it is all there, or it is missed for a reason. -/
theorem failsWith_field {α β : Type} {width : Nat}
    {read : Nat → List UInt8 → Except DecodeFault α}
    {f : α → Except DecodeFault β} (hread : ReadsField width read)
    (hbehind : offset < position) (hnear : position < code.length + 4)
    (hf : ∀ value, read position (code.drop position) = .ok value →
      position + width ≤ code.length →
      FailsWith (DecodeFault.Justified code offset) (f value)) :
    FailsWith (DecodeFault.Justified code offset)
      (read position (code.drop position) >>= f) := by
  have hwidth := hread.bounds
  refine .bind ?_ fun value hvalue => hf value hvalue ?_
  · intro fault h
    obtain ⟨rfl, hshort⟩ := hread.short h
    rw [List.length_drop] at hshort
    exact ⟨hbehind, hnear, by omega⟩
  · have henough := hread.enough hvalue
    rw [List.length_drop] at henough
    omega

theorem wordAt_of_i32 {value : Int32}
    (h : i32 position (code.drop position) = .ok value) :
    WordAt code position value := by
  obtain ⟨rest, hrest⟩ := i32_eq_ok.1 h
  exact ⟨rest, hrest.symm⟩

theorem failsWith_target {distance : Int}
    (hspelled : DistanceAt code offset distance) :
    FailsWith (DecodeFault.Justified code offset) (target offset distance) := by
  intro fault h
  unfold target at h
  dsimp only at h
  split at h
  · cases h
  · next hrange =>
      cases h
      refine ⟨⟨distance, hspelled, rfl⟩, ?_⟩
      omega

theorem failsWith_tableTargets (hbehind : offset < position)
    (hnear : position < code.length + 4)
    (hspelled : ∀ k < count, ∀ distance, WordAt code (position + 4 * k) distance →
      DistanceAt code offset distance.toInt) :
    FailsWith (DecodeFault.Justified code offset)
      (tableTargets offset count position (code.drop position)) := by
  induction count generalizing position with
  | zero => exact .pure _
  | succ count ih =>
      rw [tableTargets, List.drop_drop]
      refine failsWith_field readsField_i32 hbehind hnear fun distance hread _ => ?_
      have hfirst := hspelled 0 (by omega) distance (wordAt_of_i32 hread)
      refine (failsWith_target hfirst).bind fun first _ => ?_
      refine (ih (by omega) (by omega) fun k hk => ?_).bind fun rest _ => .pure _
      have hnext := hspelled (k + 1) (by omega)
      rwa [Nat.mul_succ, Nat.add_comm (4 * k), ← Nat.add_assoc] at hnext

theorem failsWith_pairTargets (hbehind : offset < position)
    (hnear : position < code.length + 4)
    (hspelled : ∀ k < count, ∀ distance, WordAt code (position + 4 + 8 * k) distance →
      DistanceAt code offset distance.toInt) :
    FailsWith (DecodeFault.Justified code offset)
      (pairTargets offset count position (code.drop position)) := by
  induction count generalizing position with
  | zero => exact .pure _
  | succ count ih =>
      rw [pairTargets, List.drop_drop, List.drop_drop]
      refine failsWith_field readsField_u32 hbehind hnear fun key _ _ => ?_
      refine failsWith_field readsField_i32 (by omega) (by omega)
        fun distance hread _ => ?_
      have hfirst := hspelled 0 (by omega) distance (wordAt_of_i32 hread)
      refine (failsWith_target hfirst).bind fun first _ => ?_
      refine (ih (by omega) (by omega) fun k hk => ?_).bind fun rest _ => .pure _
      have hnext := hspelled (k + 1) (by omega)
      have hplace : position + 4 + 8 * (k + 1) = position + 8 + 4 + 8 * k := by omega
      rwa [hplace] at hnext

/-! ## Instructions -/

theorem padding_lt (offset : Nat) : padding offset < 4 := by
  unfold padding
  omega

theorem alignedBehind_eq (offset : Nat) :
    alignedBehind offset = offset + 1 + padding offset := by
  unfold alignedBehind padding
  omega

theorem failsWith_tableswitch (hat : code[offset]? = some Opcode.tableswitch.toByte) :
    FailsWith (DecodeFault.Justified code offset)
      (operands offset .tableswitch (code.drop (offset + 1))) := by
  obtain ⟨hinside, _⟩ := List.getElem?_eq_some_iff.1 hat
  have hpad := padding_lt offset
  have hplace := alignedBehind_eq offset
  unfold operands
  simp only [Opcode.layout, List.drop_drop, ← hplace]
  refine failsWith_field readsField_i32 (by omega) (by omega) fun first hfirst _ => ?_
  refine failsWith_field readsField_i32 (by omega) (by omega) fun low hlow _ => ?_
  refine failsWith_field readsField_i32 (by omega) (by omega) fun high hhigh _ => ?_
  split
  · next hcount =>
      exact .throw ⟨hat, wordAt_of_i32 hlow, wordAt_of_i32 hhigh, by omega⟩
  · refine (failsWith_target (.default hat (.inl rfl) (wordAt_of_i32 hfirst))).bind
      fun first _ => ?_
    refine (failsWith_tableTargets (by omega) (by omega)
      fun k hk distance hspelled => ?_).bind fun cases _ => .pure _
    exact .table hat (wordAt_of_i32 hlow) (wordAt_of_i32 hhigh) (by omega) hspelled

theorem failsWith_lookupswitch
    (hat : code[offset]? = some Opcode.lookupswitch.toByte) :
    FailsWith (DecodeFault.Justified code offset)
      (operands offset .lookupswitch (code.drop (offset + 1))) := by
  obtain ⟨hinside, _⟩ := List.getElem?_eq_some_iff.1 hat
  have hpad := padding_lt offset
  have hplace := alignedBehind_eq offset
  unfold operands
  simp only [Opcode.layout, List.drop_drop, ← hplace]
  refine failsWith_field readsField_i32 (by omega) (by omega) fun first hfirst _ => ?_
  refine failsWith_field readsField_i32 (by omega) (by omega) fun count hcount _ => ?_
  split
  · next hnegative => exact .throw ⟨hat, wordAt_of_i32 hcount, hnegative⟩
  · refine (failsWith_target (.default hat (.inr rfl) (wordAt_of_i32 hfirst))).bind
      fun first _ => ?_
    refine (failsWith_pairTargets (by omega) (by omega)
      fun k hk distance hspelled => ?_).bind fun cases _ => .pure _
    exact .pair hat (wordAt_of_i32 hcount) (by omega) hspelled

theorem failsWith_operands {opcode : Opcode}
    (hat : code[offset]? = some opcode.toByte) :
    FailsWith (DecodeFault.Justified code offset)
      (operands offset opcode (code.drop (offset + 1))) := by
  obtain ⟨hinside, _⟩ := List.getElem?_eq_some_iff.1 hat
  cases hlayout : opcode.layout with
  | tableswitch =>
      obtain rfl := layout_eq_tableswitch hlayout
      exact failsWith_tableswitch hat
  | lookupswitch =>
      obtain rfl := layout_eq_lookupswitch hlayout
      exact failsWith_lookupswitch hat
  | empty | widened =>
      simp only [operands, hlayout]
      exact .pure _
  | literal8 | pool8 | slot8 | elementType =>
      simp only [operands, hlayout]
      exact failsWith_field readsField_u8 (by omega) (by omega) fun _ _ _ => .pure _
  | literal16 | pool16 =>
      simp only [operands, hlayout]
      exact failsWith_field readsField_u16 (by omega) (by omega) fun _ _ _ => .pure _
  | poolPadded =>
      simp only [operands, hlayout, List.drop_drop]
      refine failsWith_field readsField_u16 (by omega) (by omega)
        fun index _ hindex => ?_
      have hlength := List.length_drop (i := offset + 1 + 2) (l := code)
      generalize code.drop (offset + 1 + 2) = behind at hlength ⊢
      match behind with
      | [] | [_] =>
          simp only [List.length_nil, List.length_cons] at hlength
          exact .throw ⟨hat, by omega, by omega⟩
      | _ :: _ :: _ => exact .pure _
  | increment8 =>
      simp only [operands, hlayout, List.drop_drop]
      refine failsWith_field readsField_u8 (by omega) (by omega) fun index _ _ => ?_
      exact failsWith_field readsField_u8 (by omega) (by omega) fun _ _ _ => .pure _
  | multiArray =>
      simp only [operands, hlayout, List.drop_drop]
      refine failsWith_field readsField_u16 (by omega) (by omega) fun index _ _ => ?_
      exact failsWith_field readsField_u8 (by omega) (by omega) fun _ _ _ => .pure _
  | branch16 =>
      simp only [operands, hlayout]
      refine failsWith_field readsField_u16 (by omega) (by omega)
        fun distance hread _ => ?_
      obtain ⟨rest, hrest⟩ := u16_eq_ok.1 hread
      have hspelled : DistanceAt code offset distance.toInt16.toInt :=
        .short hat hlayout ⟨rest, hrest.symm⟩
      exact (failsWith_target hspelled).bind fun _ _ => .pure _
  | branch32 =>
      simp only [operands, hlayout]
      refine failsWith_field readsField_i32 (by omega) (by omega)
        fun distance hread _ => ?_
      have hspelled := DistanceAt.long hat hlayout (wordAt_of_i32 hread)
      exact (failsWith_target hspelled).bind fun _ _ => .pure _

theorem failsWith_widened (hat : code[offset]? = some Opcode.wide.toByte) :
    FailsWith (DecodeFault.Justified code offset)
      (widened offset (code.drop (offset + 1))) := by
  obtain ⟨hinside, _⟩ := List.getElem?_eq_some_iff.1 hat
  unfold widened
  simp only [List.drop_drop]
  refine failsWith_field readsField_u8 (by omega) (by omega) fun byte hread _ => ?_
  split
  · exact failsWith_field readsField_u16 (by omega) (by omega) fun _ _ _ => .pure _
  · refine failsWith_field readsField_u16 (by omega) (by omega) fun index _ _ => ?_
    exact failsWith_field readsField_u16 (by omega) (by omega) fun _ _ _ => .pure _
  · next hslot hincrement =>
      obtain ⟨rest, hrest⟩ := u8_eq_ok.1 hread
      have hbyte : code[offset + 1]? = some (Opcode.ofByte byte).toByte := by
        rw [Opcode.toByte_ofByte, ← List.head?_drop, hrest]
        rfl
      exact .throw ⟨hat, hbyte, hslot, hincrement⟩

theorem failsWith_instruction {byte : UInt8} (hat : code[offset]? = some byte) :
    FailsWith (DecodeFault.Justified code offset)
      (instruction offset byte (code.drop (offset + 1))) := by
  have hopcode : code[offset]? = some (Opcode.ofByte byte).toByte := by
    rw [Opcode.toByte_ofByte, hat]
  unfold instruction
  dsimp only
  split
  · next hwide =>
      rw [hwide] at hopcode
      exact (failsWith_widened hopcode).bind fun _ _ => .pure _
  · exact (failsWith_operands hopcode).bind fun _ _ => .pure _

/-! ## Bodies -/

theorem drop_eq_cons {byte : UInt8} {bytes : List UInt8}
    (h : code.drop offset = byte :: bytes) :
    code[offset]? = some byte ∧ code.drop (offset + 1) = bytes := by
  constructor
  · rw [← List.head?_drop, h]
    rfl
  · rw [← List.drop_drop, h]
    rfl

/-- If a body is refused, then for a reason, at an opcode that is there. -/
theorem tile_eq_error {error : DecodeError}
    (h : tile instruction offset (code.drop offset) = .error error) :
    error.offset < code.length ∧ error.fault.Justified code error.offset := by
  generalize hbytes : code.drop offset = bytes at h
  fun_induction tile instruction offset bytes with
  | case1 => cases h
  | case2 offset byte bytes fault hread =>
      cases h
      obtain ⟨hat, rfl⟩ := drop_eq_cons hbytes
      exact ⟨(List.getElem?_eq_some_iff.1 hat).1,
        failsWith_instruction hat fault hread⟩
  | case3 offset byte bytes first used hread other hrest ih =>
      cases h
      obtain ⟨_, rfl⟩ := drop_eq_cons hbytes
      exact ih (by rw [List.drop_drop]) hrest
  | case4 => cases h

end Code

end Decode

theorem decode_eq_error {code : List UInt8} {error : DecodeError}
    (h : decode code = .error error) :
    error.offset < code.length ∧ error.fault.Justified code error.offset := by
  have htile : Decode.tile Decode.instruction 0 (code.drop 0) = .error error := h
  exact Decode.tile_eq_error htile

end ClassAudit
