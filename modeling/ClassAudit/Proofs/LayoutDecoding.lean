import ClassAudit.Proofs.DecodedBody
import ClassAudit.Proofs.InstructionFormat

/-!
# Decoding reads the instruction format

Decoding is the inverse of laying out. It reads back what was laid out, whatever
follows (`instruction_eq`), and what it accepts was laid out
(`encoded_of_instruction`). Each reader has a lemma that says so for its own bytes,
and a body is put together from those, since a reader says how many bytes it used
and they are as many as the fields have.
-/

namespace ClassAudit

namespace Decode

/-! ## Numbers -/

theorem u8_eq_ok {position : Nat} {bytes : List UInt8} {value : UInt8} :
    u8 position bytes = .ok value ↔ ∃ rest, bytes = value :: rest := by
  constructor
  · intro h
    cases bytes with
    | nil => cases h
    | cons a rest =>
        cases h
        exact ⟨rest, rfl⟩
  · rintro ⟨rest, rfl⟩
    rfl

theorem big16_ofNat (a b : UInt8) :
    big16 (.ofNat (a.toNat * 256 + b.toNat)) = [a, b] := by
  have ha := a.toNat_lt
  have hb := b.toNat_lt
  simp only [big16, List.cons.injEq, and_true, ← UInt8.toNat_inj,
    UInt8.toNat_ofNat', UInt16.toNat_ofNat']
  omega

theorem u16_big16 (position : Nat) (value : UInt16) (rest : List UInt8) :
    u16 position (big16 value ++ rest) = .ok value := by
  have hvalue := value.toNat_lt
  simp only [big16, List.cons_append, u16, Except.ok.injEq, ← UInt16.toNat_inj,
    UInt8.toNat_ofNat', UInt16.toNat_ofNat']
  omega

theorem u16_eq_ok {position : Nat} {bytes : List UInt8} {value : UInt16} :
    u16 position bytes = .ok value ↔ ∃ rest, bytes = big16 value ++ rest := by
  constructor
  · intro h
    unfold u16 at h
    split at h
    · next a b rest =>
        cases h
        exact ⟨rest, by rw [big16_ofNat]; rfl⟩
    · cases h
  · rintro ⟨rest, rfl⟩
    exact u16_big16 position value rest

theorem big32_ofNat (a b c d : UInt8) :
    big32 (.ofNat (((a.toNat * 256 + b.toNat) * 256 + c.toNat) * 256 + d.toNat)) =
      [a, b, c, d] := by
  have ha := a.toNat_lt
  have hb := b.toNat_lt
  have hc := c.toNat_lt
  have hd := d.toNat_lt
  simp only [big32, List.cons.injEq, and_true, ← UInt8.toNat_inj,
    UInt8.toNat_ofNat', UInt32.toNat_ofNat']
  omega

theorem u32_big32 (position : Nat) (value : UInt32) (rest : List UInt8) :
    u32 position (big32 value ++ rest) = .ok value := by
  have hvalue := value.toNat_lt
  simp only [big32, List.cons_append, u32, Except.ok.injEq, ← UInt32.toNat_inj,
    UInt8.toNat_ofNat', UInt32.toNat_ofNat']
  omega

theorem u32_eq_ok {position : Nat} {bytes : List UInt8} {value : UInt32} :
    u32 position bytes = .ok value ↔ ∃ rest, bytes = big32 value ++ rest := by
  constructor
  · intro h
    unfold u32 at h
    split at h
    · next a b c d rest =>
        cases h
        exact ⟨rest, by rw [big32_ofNat]; rfl⟩
    · cases h
  · rintro ⟨rest, rfl⟩
    exact u32_big32 position value rest

theorem i32_eq_ok {position : Nat} {bytes : List UInt8} {value : Int32} :
    i32 position bytes = .ok value ↔
      ∃ rest, bytes = big32 value.toUInt32 ++ rest := by
  constructor
  · intro h
    obtain ⟨word, hword, h⟩ := bind_eq_ok.1 h
    cases h
    exact u32_eq_ok.1 hword
  · intro h
    exact bind_eq_ok.2 ⟨_, u32_eq_ok.2 h, rfl⟩

theorem target_eq_ok {offset : Nat} {relative : Int} {absolute : Nat} :
    target offset relative = .ok absolute ↔ Lands offset relative absolute := by
  unfold target Lands
  dsimp only
  split
  · next h =>
      rw [Except.ok.injEq]
      omega
  · next h =>
      refine ⟨nofun, fun hlands => absurd ?_ h⟩
      omega

theorem aligns_iff {offset : Nat} {pad : List UInt8} :
    Aligns offset pad ↔ pad.length = padding offset := by
  unfold Aligns padding
  omega

/-- What stands behind the padding of a switch is behind bytes that align it. -/
theorem exists_pad {offset : Nat} {bytes fields : List UInt8}
    (h : bytes.drop (padding offset) = fields) (hfields : fields ≠ []) :
    ∃ pad, Aligns offset pad ∧ bytes = pad ++ fields := by
  have hlength : padding offset < bytes.length := by
    rw [← h, ne_eq, List.drop_eq_nil_iff, Nat.not_le] at hfields
    exact hfields
  refine ⟨bytes.take (padding offset), aligns_iff.2 ?_, ?_⟩
  · rw [List.length_take]
    omega
  · rw [← h, List.take_append_drop]

/-! ## Tables of targets -/

@[simp] theorem length_big32 (value : UInt32) : (big32 value).length = 4 := rfl

@[simp] theorem length_matchCase (c : MatchCase) : c.bytes.length = 8 := rfl

/-- The bytes start with `count` cases of a switch at `offset`, spelled one by one,
that jump to the targets. -/
def StartsWithCases {α : Type} (spell : α → List UInt8) (relative : α → Int32)
    (offset count : Nat) (bytes : List UInt8) (targets : List Nat) : Prop :=
  ∃ (cases : List α) (rest : List UInt8), cases.length = count ∧
    bytes = cases.flatMap spell ++ rest ∧
    cases.Forall₂ (fun case => Lands offset (relative case).toInt) targets

section Cases

variable {α : Type} {spell : α → List UInt8} {relative : α → Int32}
  {offset count position : Nat} {bytes : List UInt8} {targets : List Nat}

theorem startsWithCases_zero :
    StartsWithCases spell relative offset 0 bytes targets ↔ targets = [] := by
  constructor
  · rintro ⟨cases, rest, hlength, _, hland⟩
    obtain rfl := List.eq_nil_of_length_eq_zero hlength
    cases hland
    rfl
  · rintro rfl
    exact ⟨[], bytes, rfl, rfl, .nil⟩

theorem startsWithCases_succ :
    StartsWithCases spell relative offset (count + 1) bytes targets ↔
      ∃ case first others more, targets = first :: others ∧
        bytes = spell case ++ more ∧ Lands offset (relative case).toInt first ∧
        StartsWithCases spell relative offset count more others := by
  constructor
  · rintro ⟨cases, rest, hlength, rfl, hland⟩
    cases hland with
    | nil => cases hlength
    | @cons case first cases others hfirst hland =>
        refine ⟨case, first, others, cases.flatMap spell ++ rest, rfl, ?_, hfirst,
          cases, rest, Nat.succ.inj hlength, rfl, hland⟩
        rw [List.flatMap_cons, List.append_assoc]
  · rintro ⟨case, first, others, more, rfl, rfl, hfirst, cases, rest, hlength, rfl,
      hland⟩
    refine ⟨case :: cases, rest, congrArg (· + 1) hlength, ?_,
      .cons hfirst hland⟩
    rw [List.flatMap_cons, List.append_assoc]

theorem tableTargets_eq_ok :
    tableTargets offset count position bytes = .ok targets ↔
      StartsWithCases (big32 ·.toUInt32) id offset count bytes targets := by
  induction count generalizing position bytes targets with
  | zero => rw [tableTargets, startsWithCases_zero, Except.ok.injEq, eq_comm]
  | succ count ih =>
      rw [tableTargets, startsWithCases_succ]
      constructor
      · intro h
        obtain ⟨case, hcase, h⟩ := bind_eq_ok.1 h
        obtain ⟨first, hfirst, h⟩ := bind_eq_ok.1 h
        obtain ⟨others, hothers, h⟩ := bind_eq_ok.1 h
        cases h
        obtain ⟨more, rfl⟩ := i32_eq_ok.1 hcase
        exact ⟨case, first, others, more, rfl, rfl, target_eq_ok.1 hfirst,
          ih.1 hothers⟩
      · rintro ⟨case, first, others, more, rfl, rfl, hfirst, hothers⟩
        refine bind_eq_ok.2 ⟨case, i32_eq_ok.2 ⟨more, rfl⟩, ?_⟩
        refine bind_eq_ok.2 ⟨first, target_eq_ok.2 hfirst, ?_⟩
        exact bind_eq_ok.2 ⟨others, ih.2 hothers, rfl⟩

theorem pairTargets_eq_ok :
    pairTargets offset count position bytes = .ok targets ↔
      StartsWithCases MatchCase.bytes MatchCase.relative offset count bytes
        targets := by
  induction count generalizing position bytes targets with
  | zero => rw [pairTargets, startsWithCases_zero, Except.ok.injEq, eq_comm]
  | succ count ih =>
      rw [pairTargets, startsWithCases_succ]
      constructor
      · intro h
        obtain ⟨key, hkey, h⟩ := bind_eq_ok.1 h
        obtain ⟨relative, hrelative, h⟩ := bind_eq_ok.1 h
        obtain ⟨first, hfirst, h⟩ := bind_eq_ok.1 h
        obtain ⟨others, hothers, h⟩ := bind_eq_ok.1 h
        cases h
        obtain ⟨behind, rfl⟩ := u32_eq_ok.1 hkey
        obtain ⟨more, rfl⟩ : ∃ more, behind = big32 relative.toUInt32 ++ more :=
          i32_eq_ok.1 hrelative
        exact ⟨⟨key.toInt32, relative⟩, first, others, more, rfl,
          (List.append_assoc ..).symm, target_eq_ok.1 hfirst, ih.1 hothers⟩
      · rintro ⟨case, first, others, more, rfl, rfl, hfirst, hothers⟩
        rw [MatchCase.bytes, List.append_assoc]
        refine bind_eq_ok.2 ⟨_, u32_eq_ok.2 ⟨_, rfl⟩, ?_⟩
        refine bind_eq_ok.2 ⟨case.relative, i32_eq_ok.2 ⟨more, rfl⟩, ?_⟩
        refine bind_eq_ok.2 ⟨first, target_eq_ok.2 hfirst, ?_⟩
        exact bind_eq_ok.2 ⟨others, ih.2 hothers, rfl⟩

end Cases

/-! ## Operands -/

theorem length_tableswitch (pad : List UInt8) (default low high : UInt32)
    (cases : List Int32) :
    (pad ++ (big32 default ++ (big32 low ++ (big32 high ++
      cases.flatMap (big32 ·.toUInt32))))).length =
        pad.length + 12 + 4 * cases.length := by
  simp only [List.length_append, length_big32, List.length_flatMap,
    List.map_const', List.sum_replicate_nat]
  omega

theorem length_lookupswitch (pad : List UInt8) (default count : UInt32)
    (cases : List MatchCase) :
    (pad ++ (big32 default ++ (big32 count ++
      cases.flatMap MatchCase.bytes))).length =
        pad.length + 8 + 8 * cases.length := by
  simp only [List.length_append, length_big32, List.length_flatMap,
    length_matchCase, List.map_const', List.sum_replicate_nat]
  omega

/-- Operands are read back from the bytes that spell them. -/
theorem operands_eq {offset : Nat} {opcode : Opcode} {ops : Operands}
    {fields : List UInt8} (h : Fields offset opcode.layout ops fields)
    (rest : List UInt8) :
    operands offset opcode (fields ++ rest) = .ok (ops, fields.length) := by
  unfold operands
  generalize opcode.layout = layout at h
  cases h with
  | empty => rfl
  | literal8 value | pool8 index | slot8 index | elementType code =>
      exact bind_eq_ok.2 ⟨_, rfl, rfl⟩
  | literal16 value | pool16 index =>
      exact bind_eq_ok.2 ⟨_, u16_big16 _ _ _, rfl⟩
  | poolPadded index x y =>
      rw [List.append_assoc]
      exact bind_eq_ok.2 ⟨index, u16_big16 _ _ _, rfl⟩
  | increment8 index delta =>
      exact bind_eq_ok.2 ⟨index, rfl, rfl⟩
  | branch16 relative lands =>
      refine bind_eq_ok.2 ⟨_, u16_big16 _ _ _, ?_⟩
      exact bind_eq_ok.2 ⟨_, target_eq_ok.2 lands, rfl⟩
  | branch32 relative lands =>
      refine bind_eq_ok.2 ⟨relative, i32_eq_ok.2 ⟨rest, rfl⟩, ?_⟩
      exact bind_eq_ok.2 ⟨_, target_eq_ok.2 lands, rfl⟩
  | tableswitch aligns default low high cases range lands land =>
      have hpad := aligns_iff.1 aligns
      simp only [List.append_assoc, ← hpad, List.drop_left]
      refine bind_eq_ok.2 ⟨default, i32_eq_ok.2 ⟨_, rfl⟩, ?_⟩
      refine bind_eq_ok.2 ⟨low, i32_eq_ok.2 ⟨_, rfl⟩, ?_⟩
      refine bind_eq_ok.2 ⟨high, i32_eq_ok.2 ⟨_, rfl⟩, ?_⟩
      rw [← range, if_neg (by omega), Int.toNat_natCast]
      refine bind_eq_ok.2 ⟨_, target_eq_ok.2 lands, ?_⟩
      refine bind_eq_ok.2 ⟨_, tableTargets_eq_ok.2 ⟨cases, rest, rfl, rfl, land⟩, ?_⟩
      rw [length_tableswitch]
      rfl
  | lookupswitch aligns default count cases counted lands land =>
      have hpad := aligns_iff.1 aligns
      simp only [List.append_assoc, ← hpad, List.drop_left]
      refine bind_eq_ok.2 ⟨default, i32_eq_ok.2 ⟨_, rfl⟩, ?_⟩
      refine bind_eq_ok.2 ⟨count, i32_eq_ok.2 ⟨_, rfl⟩, ?_⟩
      rw [← counted, if_neg (by omega), Int.toNat_natCast]
      refine bind_eq_ok.2 ⟨_, target_eq_ok.2 lands, ?_⟩
      refine bind_eq_ok.2 ⟨_, pairTargets_eq_ok.2 ⟨cases, rest, rfl, rfl, land⟩, ?_⟩
      rw [length_lookupswitch]
      rfl
  | multiArray index dimensions =>
      rw [List.append_assoc]
      exact bind_eq_ok.2 ⟨index, u16_big16 _ _ _, rfl⟩

section Switches

variable {offset position position' position'' : Nat} {bytes : List UInt8}
  {default low high count : Int32} {first : Nat} {targets : List Nat}

/-- The fields of a `tableswitch`, put together from what was read behind its
padding. What was skipped stays unknown until the end: any bytes align. -/
theorem fields_tableswitch
    (hdefault : i32 position (bytes.drop (padding offset)) = .ok default)
    (hlow : i32 position' ((bytes.drop (padding offset)).drop 4) = .ok low)
    (hhigh : i32 position'' ((bytes.drop (padding offset)).drop 8) = .ok high)
    (hcount : ¬ high.toInt - low.toInt + 1 < 0)
    (hfirst : target offset default.toInt = .ok first)
    {behind : Nat}
    (htargets : tableTargets offset (high.toInt - low.toInt + 1).toNat behind
      ((bytes.drop (padding offset)).drop 12) = .ok targets) :
    ∃ fields rest, bytes = fields ++ rest ∧
      fields.length =
        padding offset + 12 + 4 * (high.toInt - low.toInt + 1).toNat ∧
      Fields offset .tableswitch (.switch (first :: targets)) fields := by
  obtain ⟨more, hfields⟩ := i32_eq_ok.1 hdefault
  rw [hfields] at hlow hhigh htargets
  obtain ⟨more, rfl⟩ : ∃ rest, more = big32 low.toUInt32 ++ rest :=
    i32_eq_ok.1 hlow
  obtain ⟨more, rfl⟩ : ∃ rest, more = big32 high.toUInt32 ++ rest :=
    i32_eq_ok.1 hhigh
  obtain ⟨cases, rest, hlength, hrest, hland⟩ := tableTargets_eq_ok.1 htargets
  obtain rfl : more = cases.flatMap (big32 ·.toUInt32) ++ rest := hrest
  obtain ⟨pad, haligns, rfl⟩ := exists_pad hfields (List.cons_ne_nil _ _)
  refine ⟨_, rest, ?_, ?_, .tableswitch haligns default low high cases (by omega)
    (target_eq_ok.1 hfirst) hland⟩
  · simp only [List.append_assoc]
  · rw [← hlength, ← aligns_iff.1 haligns, length_tableswitch]

theorem fields_lookupswitch
    (hdefault : i32 position (bytes.drop (padding offset)) = .ok default)
    (hcount : i32 position' ((bytes.drop (padding offset)).drop 4) = .ok count)
    (hnegative : ¬ count.toInt < 0)
    (hfirst : target offset default.toInt = .ok first)
    (htargets : pairTargets offset count.toInt.toNat position''
      ((bytes.drop (padding offset)).drop 8) = .ok targets) :
    ∃ fields rest, bytes = fields ++ rest ∧
      fields.length = padding offset + 8 + 8 * count.toInt.toNat ∧
      Fields offset .lookupswitch (.switch (first :: targets)) fields := by
  obtain ⟨more, hfields⟩ := i32_eq_ok.1 hdefault
  rw [hfields] at hcount htargets
  obtain ⟨more, rfl⟩ : ∃ rest, more = big32 count.toUInt32 ++ rest :=
    i32_eq_ok.1 hcount
  obtain ⟨cases, rest, hlength, hrest, hland⟩ := pairTargets_eq_ok.1 htargets
  obtain rfl : more = cases.flatMap MatchCase.bytes ++ rest := hrest
  obtain ⟨pad, haligns, rfl⟩ := exists_pad hfields (List.cons_ne_nil _ _)
  refine ⟨_, rest, ?_, ?_, .lookupswitch haligns default count cases (by omega)
    (target_eq_ok.1 hfirst) hland⟩
  · simp only [List.append_assoc]
  · rw [← hlength, ← aligns_iff.1 haligns, length_lookupswitch]

end Switches

/-- Operands that are read are spelled by the bytes that were used for them. -/
theorem fields_of_operands {offset : Nat} {opcode : Opcode} {bytes : List UInt8}
    {ops : Operands} {used : Nat} (hwide : opcode ≠ .wide)
    (h : operands offset opcode bytes = .ok (ops, used)) :
    ∃ fields rest, bytes = fields ++ rest ∧ fields.length = used ∧
      Fields offset opcode.layout ops fields := by
  unfold operands at h
  cases hlayout : opcode.layout <;> rw [hlayout] at h <;> dsimp only at h
  case widened => exact absurd (layout_eq_widened hlayout) hwide
  case empty =>
    cases h
    exact ⟨[], bytes, rfl, rfl, .empty⟩
  case literal8 =>
    obtain ⟨byte, hbyte, h⟩ := bind_eq_ok.1 h
    cases h
    obtain ⟨rest, rfl⟩ := u8_eq_ok.1 hbyte
    exact ⟨[byte], rest, rfl, rfl, .literal8 byte.toInt8⟩
  case literal16 =>
    obtain ⟨word, hword, h⟩ := bind_eq_ok.1 h
    cases h
    obtain ⟨rest, rfl⟩ := u16_eq_ok.1 hword
    exact ⟨big16 word, rest, rfl, rfl, .literal16 word.toInt16⟩
  case pool8 =>
    obtain ⟨index, hindex, h⟩ := bind_eq_ok.1 h
    cases h
    obtain ⟨rest, rfl⟩ := u8_eq_ok.1 hindex
    exact ⟨[index], rest, rfl, rfl, .pool8 index⟩
  case slot8 =>
    obtain ⟨index, hindex, h⟩ := bind_eq_ok.1 h
    cases h
    obtain ⟨rest, rfl⟩ := u8_eq_ok.1 hindex
    exact ⟨[index], rest, rfl, rfl, .slot8 index⟩
  case elementType =>
    obtain ⟨code, hcode, h⟩ := bind_eq_ok.1 h
    cases h
    obtain ⟨rest, rfl⟩ := u8_eq_ok.1 hcode
    exact ⟨[code], rest, rfl, rfl, .elementType code⟩
  case pool16 =>
    obtain ⟨index, hindex, h⟩ := bind_eq_ok.1 h
    cases h
    obtain ⟨rest, rfl⟩ := u16_eq_ok.1 hindex
    exact ⟨big16 index, rest, rfl, rfl, .pool16 index⟩
  case poolPadded =>
    obtain ⟨index, hindex, h⟩ := bind_eq_ok.1 h
    split at h
    · next x y rest hbehind =>
        cases h
        obtain ⟨behind, rfl⟩ := u16_eq_ok.1 hindex
        obtain rfl : behind = x :: y :: rest := hbehind
        exact ⟨big16 index ++ [x, y], rest, by simp, rfl, .poolPadded index x y⟩
    · cases h
  case increment8 =>
    obtain ⟨index, hindex, h⟩ := bind_eq_ok.1 h
    obtain ⟨delta, hdelta, h⟩ := bind_eq_ok.1 h
    cases h
    obtain ⟨behind, rfl⟩ := u8_eq_ok.1 hindex
    obtain ⟨rest, rfl⟩ : ∃ rest, behind = delta :: rest := u8_eq_ok.1 hdelta
    exact ⟨[index, delta], rest, rfl, rfl, .increment8 index delta.toInt8⟩
  case multiArray =>
    obtain ⟨index, hindex, h⟩ := bind_eq_ok.1 h
    obtain ⟨dimensions, hdimensions, h⟩ := bind_eq_ok.1 h
    cases h
    obtain ⟨behind, rfl⟩ := u16_eq_ok.1 hindex
    obtain ⟨rest, rfl⟩ : ∃ rest, behind = dimensions :: rest :=
      u8_eq_ok.1 hdimensions
    exact ⟨big16 index ++ [dimensions], rest, by simp, rfl,
      .multiArray index dimensions⟩
  case branch16 =>
    obtain ⟨word, hword, h⟩ := bind_eq_ok.1 h
    obtain ⟨absolute, habsolute, h⟩ := bind_eq_ok.1 h
    cases h
    obtain ⟨rest, rfl⟩ := u16_eq_ok.1 hword
    exact ⟨big16 word, rest, rfl, rfl,
      .branch16 word.toInt16 (target_eq_ok.1 habsolute)⟩
  case branch32 =>
    obtain ⟨relative, hrelative, h⟩ := bind_eq_ok.1 h
    obtain ⟨absolute, habsolute, h⟩ := bind_eq_ok.1 h
    cases h
    obtain ⟨rest, rfl⟩ := i32_eq_ok.1 hrelative
    exact ⟨big32 relative.toUInt32, rest, rfl, rfl,
      .branch32 relative (target_eq_ok.1 habsolute)⟩
  case tableswitch =>
    obtain ⟨default, hdefault, h⟩ := bind_eq_ok.1 h
    obtain ⟨low, hlow, h⟩ := bind_eq_ok.1 h
    obtain ⟨high, hhigh, h⟩ := bind_eq_ok.1 h
    split at h
    · cases h
    · next hcount =>
        obtain ⟨first, hfirst, h⟩ := bind_eq_ok.1 h
        obtain ⟨targets, htargets, h⟩ := bind_eq_ok.1 h
        cases h
        exact fields_tableswitch hdefault hlow hhigh hcount hfirst htargets
  case lookupswitch =>
    obtain ⟨default, hdefault, h⟩ := bind_eq_ok.1 h
    obtain ⟨count, hcount, h⟩ := bind_eq_ok.1 h
    split at h
    · cases h
    · next hnegative =>
        obtain ⟨first, hfirst, h⟩ := bind_eq_ok.1 h
        obtain ⟨targets, htargets, h⟩ := bind_eq_ok.1 h
        cases h
        exact fields_lookupswitch hdefault hcount hnegative hfirst htargets

/-! ## Instructions -/

theorem layout_of_format {opcode : Opcode} {layout : OperandLayout}
    (h : format? opcode.toNat = some (opcode.mnemonic, layout)) :
    opcode.layout = layout := by
  rw [format?_toNat] at h
  cases h
  rfl

/-- An instruction is read back from the bytes that spell it. -/
theorem instruction_eq {offset : Nat} {i : Instruction} {bytes : List UInt8}
    (h : Encoded offset i bytes) (rest : List UInt8) :
    ∃ byte more, bytes = byte :: more ∧
      instruction offset byte (more ++ rest) = .ok (i, more.length) := by
  cases h with
  | @plain opcode layout operands fields format spelled =>
      refine ⟨opcode.toByte, fields, rfl, ?_⟩
      have format := layout_of_format format
      subst format
      have hwide : opcode ≠ .wide := by
        rintro rfl
        cases spelled
      rw [instruction, Opcode.ofByte_toByte, if_neg hwide]
      exact bind_eq_ok.2 ⟨_, operands_eq spelled rest, rfl⟩
  | @wideSlot opcode format index =>
      refine ⟨_, _, rfl, ?_⟩
      have format := layout_of_format format
      rw [instruction, Opcode.ofByte_toByte, if_pos rfl]
      refine bind_eq_ok.2 ⟨(opcode, .slot index, 3), ?_, rfl⟩
      refine bind_eq_ok.2 ⟨opcode.toByte, rfl, ?_⟩
      simp only [Opcode.ofByte_toByte, format]
      exact bind_eq_ok.2 ⟨index, u16_big16 _ _ _, rfl⟩
  | @wideIncrement opcode format index delta =>
      refine ⟨_, _, rfl, ?_⟩
      have format := layout_of_format format
      rw [instruction, Opcode.ofByte_toByte, if_pos rfl]
      refine bind_eq_ok.2 ⟨(opcode, .increment index delta, 5), ?_, rfl⟩
      refine bind_eq_ok.2 ⟨opcode.toByte, rfl, ?_⟩
      simp only [Opcode.ofByte_toByte, format]
      refine bind_eq_ok.2 ⟨index, u16_big16 _ _ _, ?_⟩
      exact bind_eq_ok.2 ⟨_, u16_big16 _ _ _, rfl⟩

theorem encoded_of_widened {offset : Nat} {bytes : List UInt8} {opcode : Opcode}
    {ops : Operands} {used : Nat}
    (h : widened offset bytes = .ok (opcode, ops, used)) :
    ∃ more rest, bytes = more ++ rest ∧ more.length = used ∧
      Encoded offset ⟨offset, opcode, ops⟩ (Opcode.wide.toByte :: more) := by
  obtain ⟨byte, hbyte, h⟩ := bind_eq_ok.1 h
  obtain ⟨behind, rfl⟩ := u8_eq_ok.1 hbyte
  obtain ⟨named, rfl⟩ : ∃ named : Opcode, byte = named.toByte :=
    ⟨Opcode.ofByte byte, (Opcode.toByte_ofByte byte).symm⟩
  simp only [Opcode.ofByte_toByte] at h
  split at h
  · next hlayout =>
      obtain ⟨index, hindex, h⟩ := bind_eq_ok.1 h
      cases h
      obtain ⟨rest, rfl⟩ : ∃ rest, behind = big16 index ++ rest :=
        u16_eq_ok.1 hindex
      refine ⟨opcode.toByte :: big16 index, rest, rfl, rfl, .wideSlot ?_ index⟩
      rw [format?_toNat, hlayout]
  · next hlayout =>
      obtain ⟨index, hindex, h⟩ := bind_eq_ok.1 h
      obtain ⟨delta, hdelta, h⟩ := bind_eq_ok.1 h
      cases h
      obtain ⟨behindIndex, rfl⟩ : ∃ more, behind = big16 index ++ more :=
        u16_eq_ok.1 hindex
      obtain ⟨rest, rfl⟩ : ∃ rest, behindIndex = big16 delta ++ rest :=
        u16_eq_ok.1 hdelta
      refine ⟨opcode.toByte :: (big16 index ++ big16 delta), rest, ?_, rfl,
        .wideIncrement ?_ index delta.toInt16⟩
      · rw [List.cons_append, List.append_assoc]
      · rw [format?_toNat, hlayout]
  · cases h

/-- An instruction that is read is spelled by the bytes that were used for it. -/
theorem encoded_of_instruction {offset : Nat} {byte : UInt8} {bytes : List UInt8}
    {i : Instruction} {used : Nat}
    (h : instruction offset byte bytes = .ok (i, used)) :
    ∃ more rest, bytes = more ++ rest ∧ more.length = used ∧
      Encoded offset i (byte :: more) := by
  obtain ⟨opcode, rfl⟩ : ∃ opcode : Opcode, byte = opcode.toByte :=
    ⟨Opcode.ofByte byte, (Opcode.toByte_ofByte byte).symm⟩
  rw [instruction, Opcode.ofByte_toByte] at h
  split at h
  · next hwide =>
      subst hwide
      obtain ⟨⟨opcode, ops, _⟩, hwidened, h⟩ := bind_eq_ok.1 h
      cases h
      exact encoded_of_widened hwidened
  · next hwide =>
      obtain ⟨⟨ops, _⟩, hops, h⟩ := bind_eq_ok.1 h
      cases h
      obtain ⟨fields, rest, hbytes, hlength, hspelled⟩ :=
        fields_of_operands hwide hops
      exact ⟨fields, rest, hbytes, hlength, .plain (format?_toNat opcode) hspelled⟩

/-! ## Bodies -/

theorem tile_laidOut {offset : Nat} {body : List Instruction} {bytes : List UInt8}
    (h : LaidOut offset body bytes) :
    tile instruction offset bytes = .ok body := by
  induction h with
  | nil => rw [tile]
  | @cons offset i bytes rest body first _ ih =>
      obtain ⟨byte, more, rfl, hread⟩ := instruction_eq first rest
      have hnext : offset + 1 + more.length = offset + (byte :: more).length := by
        rw [List.length_cons]
        omega
      rw [List.cons_append, tile, hread]
      dsimp only
      rw [hnext, List.drop_left, ih]

theorem laidOut_of_tile {offset : Nat} {body : List Instruction}
    {bytes : List UInt8} (h : tile instruction offset bytes = .ok body) :
    LaidOut offset body bytes := by
  induction body generalizing offset bytes with
  | nil =>
      rcases tile_eq_ok h with ⟨rfl, _⟩ | ⟨_, _, _, _, _, _, hcons, _⟩
      · exact .nil
      · cases hcons
  | cons i body ih =>
      rcases tile_eq_ok h with ⟨_, hnil⟩ |
        ⟨byte, behind, _, used, _, rfl, hcons, hread, hrest⟩
      · cases hnil
      · cases hcons
        obtain ⟨more, rest, rfl, rfl, hencoded⟩ := encoded_of_instruction hread
        have hnext : offset + 1 + more.length = offset + (byte :: more).length := by
          rw [List.length_cons]
          omega
        rw [List.drop_left, hnext] at hrest
        exact .cons hencoded (ih hrest)

end Decode

/-- Decoding reads the instruction format, all of it and nothing else: the bytes
that a body is laid out in are decoded into that body, with its offsets, opcodes and
operands, and a body is decoded only from bytes that it is laid out in. -/
theorem decode_iff_laidOut (code : List UInt8) (body : List Instruction) :
    decode code = .ok body ↔ LaidOut 0 body code :=
  ⟨Decode.laidOut_of_tile, Decode.tile_laidOut⟩

/-- A wide increment of local variable 300 by -2, and a jump back to it. -/
example : LaidOut 0 [⟨0, .iinc, .increment 300 (-2)⟩, ⟨6, .goto, .branch 0⟩]
    ([0xc4, 0x84, 0x01, 0x2c, 0xff, 0xfe] ++ ([0xa7, 0xff, 0xfa] ++ [])) :=
  .cons (.wideIncrement rfl 300 (-2))
    (.cons (.plain rfl (.branch16 (-6) ⟨rfl, by decide⟩)) .nil)

end ClassAudit
