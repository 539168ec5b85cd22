import ClassAudit.Proofs.InstructionTiling

/-!
# Switch tables

A switch announces in its own bytes how many targets follow: a `tableswitch` by the
lowest and the highest value that it has a case for, a `lookupswitch` by a number of
pairs. The announced numbers are not kept, so what was decoded is compared here with
the code: `signedAt?` reads the four bytes at a place of it, and the places follow
from where the switch stands.

The bounds are numbers of 32 bits with a sign, and how many values lie between them
need not be one. Nothing of it is lost: a range of all values would have to be spelled
out in the code, and a range that ends before it starts is refused, except for one
that ends right before it (`empty_table_accepted`).
-/

namespace ClassAudit

/-! ## Words of the code -/

/-- The number that the four bytes at a place of the code spell, the highest byte first
and with a sign, if they are there. -/
def signedAt? (code : List UInt8) (place : Nat) : Option Int :=
  match code.drop place with
  | a :: b :: c :: d :: _ =>
    let value : Nat := a.toNat * 16777216 + b.toNat * 65536 + c.toNat * 256 + d.toNat
    some (if value < 2147483648 then (value : Int) else value - 4294967296)
  | _ => none

/-- The four bytes at a place of the code lead from an instruction at `offset` to
`target`. -/
def JumpAt (code : List UInt8) (offset place target : Nat) : Prop :=
  ∃ relative, signedAt? code place = some relative ∧ (target : Int) = offset + relative

theorem int32_toInt_eq (v : Int32) :
    v.toInt = if v.toUInt32.toNat < 2147483648 then (v.toUInt32.toNat : Int)
      else v.toUInt32.toNat - 4294967296 := by
  have hcond := BitVec.toInt_eq_toNat_cond v.toBitVec
  have hnat : v.toUInt32.toNat = v.toBitVec.toNat := rfl
  rw [Int32.toInt, hcond, hnat]
  split <;> split <;> omega

section Places

variable {code rest : List UInt8} {offset place : Nat} {v : Int32}

/-- A number is found where its bytes stand. -/
theorem signedAt?_big32 (hcode : code.drop place = big32 v.toUInt32 ++ rest) :
    signedAt? code place = some v.toInt := by
  have hlt := v.toUInt32.toNat_lt
  have hvalue : v.toUInt32.toNat / 16777216 % 256 * 16777216 +
      v.toUInt32.toNat / 65536 % 256 * 65536 +
      v.toUInt32.toNat / 256 % 256 * 256 + v.toUInt32.toNat % 256 =
        v.toUInt32.toNat := by omega
  rw [signedAt?, hcode, int32_toInt_eq]
  simp only [big32, List.cons_append, UInt8.toNat_ofNat']
  rw [hvalue]

theorem jumpAt_big32 {target : Nat} (hlands : Lands offset v.toInt target)
    (hcode : code.drop place = big32 v.toUInt32 ++ rest) :
    JumpAt code offset place target :=
  ⟨v.toInt, signedAt?_big32 hcode, hlands.1.symm⟩

/-- Behind a field stands what follows it. -/
theorem drop_behind {field : List UInt8} (h : code.drop place = field ++ rest) :
    code.drop (place + field.length) = rest := by
  rw [← List.drop_drop, h, List.drop_left]

/-- What stands behind the bytes that align a switch starts at a multiple of four. -/
theorem Aligns.drop_alignedBehind {front pad : List UInt8} (byte : UInt8)
    (h : Aligns front.length pad) (fields : List UInt8) :
    (front ++ byte :: (pad ++ fields)).drop (alignedBehind front.length) = fields := by
  have hplace : alignedBehind front.length = front.length + (1 + pad.length) := by
    have hlength := h.length_eq
    rw [alignedBehind]
    omega
  rw [hplace, ← List.drop_drop, List.drop_left, Nat.add_comm, List.drop_succ_cons,
    List.drop_left]

end Places

/-- Cases that are spelled with the same number of bytes each stand at equal
distances. -/
theorem exists_case {α : Type} (spell : α → List UInt8) {width : Nat}
    (hwidth : ∀ case, (spell case).length = width) {R : α → Nat → Prop}
    {cases : List α} {targets : List Nat} (hcases : cases.Forall₂ R targets)
    {k target : Nat} (hk : targets[k]? = some target) :
    ∃ case before after, R case target ∧
      cases.flatMap spell = before ++ (spell case ++ after) ∧
      before.length = width * k := by
  induction hcases generalizing k with
  | nil => cases hk
  | @cons first other cases targets hfirst _ ih =>
      cases k with
      | zero =>
          obtain rfl : other = target := by simpa using hk
          exact ⟨first, [], cases.flatMap spell, hfirst, List.flatMap_cons, rfl⟩
      | succ k =>
          obtain ⟨case, before, after, hcase, hspelled, hlength⟩ :=
            ih (by simpa using hk)
          refine ⟨case, spell first ++ before, after, hcase, ?_, ?_⟩
          · rw [List.flatMap_cons, hspelled, List.append_assoc]
          · rw [List.length_append, hwidth, hlength, Nat.mul_succ, Nat.add_comm]

/-! ## Tables -/

/-- What the code spells behind a `tableswitch` at `offset`: the bounds, where it leads
by default, and where it leads for each value from the lowest to the highest. -/
structure TableAt (code : List UInt8) (offset : Nat) (low high : Int)
    (targets : List Nat) : Prop where
  low_at : signedAt? code (alignedBehind offset + 4) = some low
  high_at : signedAt? code (alignedBehind offset + 8) = some high
  default_at : ∃ target, targets[0]? = some target ∧
    JumpAt code offset (alignedBehind offset) target
  case_at : ∀ value, low ≤ value → value ≤ high →
    ∃ target, targets[(value - low).toNat + 1]? = some target ∧
      JumpAt code offset (alignedBehind offset + 12 + 4 * (value - low).toNat) target

/-- What the code spells behind a `lookupswitch` at `offset`: the number of pairs,
where it leads by default, and where each pair leads. -/
structure PairsAt (code : List UInt8) (offset : Nat) (count : Int)
    (targets : List Nat) : Prop where
  count_at : signedAt? code (alignedBehind offset + 4) = some count
  default_at : ∃ target, targets[0]? = some target ∧
    JumpAt code offset (alignedBehind offset) target
  pair_at : ∀ k : Nat, k < count →
    ∃ target, targets[k + 1]? = some target ∧
      JumpAt code offset (alignedBehind offset + 12 + 8 * k) target

section Tables

variable {code more : List UInt8} {offset first : Nat} {targets : List Nat}
  {default low high count : Int32}

/-- A table is read off the bytes from the default on. -/
theorem tableAt_of_drop {cases : List Int32}
    (hdefault : code.drop (alignedBehind offset) = big32 default.toUInt32 ++
      (big32 low.toUInt32 ++ (big32 high.toUInt32 ++
        (cases.flatMap (big32 ·.toUInt32) ++ more))))
    (range : (cases.length : Int) = high.toInt - low.toInt + 1)
    (lands : Lands offset default.toInt first)
    (land : cases.Forall₂ (fun case => Lands offset case.toInt) targets) :
    TableAt code offset low.toInt high.toInt (first :: targets) := by
  have hlow := drop_behind hdefault
  have hhigh := drop_behind hlow
  have hcases := drop_behind hhigh
  constructor
  case low_at => exact signedAt?_big32 hlow
  case high_at => exact signedAt?_big32 hhigh
  case default_at => exact ⟨first, rfl, jumpAt_big32 lands hdefault⟩
  case case_at =>
    intro value hfrom hto
    have hlength := land.length_eq
    have hk : (value - low.toInt).toNat < targets.length := by omega
    obtain ⟨case, before, after, hcase, hspelled, hbefore⟩ :=
      exists_case (big32 ·.toUInt32) (fun _ => Decode.length_big32 _) land
        (List.getElem?_eq_getElem hk)
    rw [hspelled, List.append_assoc, List.append_assoc] at hcases
    have hplace := drop_behind hcases
    rw [hbefore] at hplace
    exact ⟨_, List.getElem?_eq_getElem hk, jumpAt_big32 hcase hplace⟩

theorem pairsAt_of_drop {cases : List MatchCase}
    (hdefault : code.drop (alignedBehind offset) = big32 default.toUInt32 ++
      (big32 count.toUInt32 ++ (cases.flatMap MatchCase.bytes ++ more)))
    (counted : (cases.length : Int) = count.toInt)
    (lands : Lands offset default.toInt first)
    (land : cases.Forall₂ (fun case => Lands offset case.relative.toInt) targets) :
    PairsAt code offset count.toInt (first :: targets) := by
  have hcount := drop_behind hdefault
  have hcases := drop_behind hcount
  constructor
  case count_at => exact signedAt?_big32 hcount
  case default_at => exact ⟨first, rfl, jumpAt_big32 lands hdefault⟩
  case pair_at =>
    intro k hcounted
    have hlength := land.length_eq
    have hk : k < targets.length := by omega
    obtain ⟨case, before, after, hcase, hspelled, hbefore⟩ :=
      exists_case MatchCase.bytes Decode.length_matchCase land
        (List.getElem?_eq_getElem hk)
    -- The key of a pair stands in front of its target.
    rw [hspelled, MatchCase.bytes, List.append_assoc, List.append_assoc,
      List.append_assoc] at hcases
    have hplace := drop_behind (drop_behind hcases)
    rw [hbefore, Nat.add_right_comm _ (8 * k)] at hplace
    exact ⟨_, List.getElem?_eq_getElem hk, jumpAt_big32 hcase hplace⟩

end Tables

section Fields

variable {front more fields : List UInt8} {byte : UInt8} {operands : Operands}

/-- The fields of a `tableswitch` are its table, and it has a target for every value of
the range and one more. -/
theorem Fields.tableAt (h : Fields front.length .tableswitch operands fields) :
    ∃ low high targets, operands = .switch targets ∧
      TableAt (front ++ byte :: (fields ++ more)) front.length low high targets ∧
      (targets.length : Int) = high - low + 2 := by
  cases h with
  | @tableswitch pad aligns default low high cases range first lands targets land =>
      have hlength := land.length_eq
      refine ⟨low.toInt, high.toInt, first :: targets, rfl, ?_, ?_⟩
      · simp only [List.append_assoc]
        exact tableAt_of_drop (aligns.drop_alignedBehind byte _) range lands land
      · rw [List.length_cons]
        omega

/-- The fields of a `lookupswitch` are its pairs, and it has a target for each of them
and one more. -/
theorem Fields.pairsAt (h : Fields front.length .lookupswitch operands fields) :
    ∃ count targets, operands = .switch targets ∧
      PairsAt (front ++ byte :: (fields ++ more)) front.length count targets ∧
      0 ≤ count ∧ (targets.length : Int) = count + 1 := by
  cases h with
  | @lookupswitch pad aligns default count cases counted first lands targets land =>
      have hlength := land.length_eq
      refine ⟨count.toInt, first :: targets, rfl, ?_, by omega, ?_⟩
      · simp only [List.append_assoc]
        exact pairsAt_of_drop (aligns.drop_alignedBehind byte _) counted lands land
      · rw [List.length_cons]
        omega

end Fields

/-! ## Decoded switches -/

/-- Only switches with a table are decoded. A `tableswitch` has a target for the
default and one for each value between its bounds, in order, and its bounds are in
order unless there is no value between them and it has only the default. A
`lookupswitch` has a target for the default and one for each of its pairs, whose number
is not negative. -/
theorem switch_tables_valid {code : List UInt8} {body : List Instruction}
    (h : decode code = .ok body) {i : Instruction} (hi : i ∈ body) :
    (i.opcode = .tableswitch → ∃ low high targets, i.operands = .switch targets ∧
      TableAt code i.offset low high targets ∧
      (targets.length : Int) = high - low + 2 ∧
      (low ≤ high ∨ low = high + 1 ∧ targets.length = 1)) ∧
    (i.opcode = .lookupswitch → ∃ count targets, i.operands = .switch targets ∧
      PairsAt code i.offset count targets ∧ 0 ≤ count ∧
      (targets.length : Int) = count + 1) := by
  obtain ⟨front, bytes, more, rfl, hat, hencoded⟩ :=
    (Decode.laidOut_of_tile h).exists_encoded hi
  rw [Nat.zero_add] at hat
  rw [hat] at hencoded ⊢
  cases hencoded with
  | @plain opcode layout operands fields format spelled =>
      have hlayout := Decode.layout_of_format format
      refine ⟨?_, ?_⟩
      · rintro rfl
        subst hlayout
        obtain ⟨low, high, targets, hoperands, htable, hlength⟩ := spelled.tableAt
        refine ⟨low, high, targets, hoperands, htable, hlength, ?_⟩
        obtain ⟨target, hfirst, _⟩ := htable.default_at
        have hpos : 0 < targets.length := (List.getElem?_eq_some_iff.1 hfirst).1
        omega
      · rintro rfl
        subst hlayout
        exact spelled.pairsAt
  | @wideSlot opcode format index =>
      have hlayout := Decode.layout_of_format format
      refine ⟨?_, ?_⟩ <;>
      · rintro rfl
        cases hlayout
  | @wideIncrement opcode format index delta =>
      have hlayout := Decode.layout_of_format format
      refine ⟨?_, ?_⟩ <;>
      · rintro rfl
        cases hlayout

/-- A table for the two highest values, and a list of one pair. -/
def highestCode : List UInt8 :=
  [ 0xaa, 0, 0, 0, 0, 0, 0, 44, 0x7f, 0xff, 0xff, 0xfe, 0x7f, 0xff, 0xff, 0xff
  , 0, 0, 0, 44, 0, 0, 0, 24, 0xab, 0, 0, 0, 0, 0, 0, 20, 0, 0, 0, 1
  , 0xff, 0xff, 0xff, 0xff, 0, 0, 0, 20, 0xb1 ]

def highestBody : List Instruction :=
  [⟨0, .tableswitch, .switch [44, 44, 24]⟩, ⟨24, .lookupswitch, .switch [44, 44]⟩,
    ⟨44, .voidReturn, .none⟩]

theorem switch_tables_valid_highest :
    decode highestCode = .ok highestBody ∧
      TableAt highestCode 0 2147483646 2147483647 [44, 44, 24] ∧
      PairsAt highestCode 24 1 [44, 44] := by
  have hdecode : decode highestCode = .ok highestBody :=
    decode_of_toOption (by decide +kernel)
  have hlow : signedAt? highestCode (alignedBehind 0 + 4) = some 2147483646 := by
    decide +kernel
  have hhigh : signedAt? highestCode (alignedBehind 0 + 8) = some 2147483647 := by
    decide +kernel
  have hcount : signedAt? highestCode (alignedBehind 24 + 4) = some 1 := by
    decide +kernel
  refine ⟨hdecode, ?_, ?_⟩
  · obtain ⟨low, high, targets, hoperands, htable, _⟩ :=
      (switch_tables_valid hdecode (.head _)).1 rfl
    cases hoperands
    obtain rfl : low = 2147483646 := Option.some.inj (htable.low_at.symm.trans hlow)
    obtain rfl : high = 2147483647 := Option.some.inj (htable.high_at.symm.trans hhigh)
    exact htable
  · obtain ⟨count, targets, hoperands, hpairs, _⟩ :=
      (switch_tables_valid hdecode (.tail _ (.head _))).2 rfl
    cases hoperands
    obtain rfl : count = 1 := Option.some.inj (hpairs.count_at.symm.trans hcount)
    exact hpairs

/-- A table for the values from 1 to 0. -/
def emptyTableCode : List UInt8 :=
  [0xaa, 0, 0, 0, 0, 0, 0, 16, 0, 0, 0, 1, 0, 0, 0, 0, 0xb1]

/-- Bounds that are not in order are not always refused. -/
theorem empty_table_accepted :
    ¬ ∀ code body i low high, decode code = .ok body → i ∈ body →
      i.opcode = .tableswitch →
      signedAt? code (alignedBehind i.offset + 4) = some low →
      signedAt? code (alignedBehind i.offset + 8) = some high → low ≤ high := by
  intro h
  have hdecode : decode emptyTableCode =
      .ok [⟨0, .tableswitch, .switch [16]⟩, ⟨16, .voidReturn, .none⟩] :=
    decode_of_toOption (by decide +kernel)
  have hle := h emptyTableCode _ _ 1 0 hdecode (.head _) rfl (by decide +kernel)
    (by decide +kernel)
  omega

end ClassAudit
