import ClassAudit.Opcode.Code
import Mathlib.Data.List.Basic

/-!
# Opcodes and their numbers

`Opcode.toNat` numbers opcodes by arithmetic and `Opcode.ofByte` looks them up in a
table. That the two fit together takes two facts about the table: that it has every
opcode (`mem_table`), and that the entries stand at their numbers (`toNat_table`).
The first one goes by families, so that no lookup is evaluated for it; the second
is one evaluation of the whole table.
-/

namespace ClassAudit.Opcode

/-- Every opcode is in the table, in the block of its family. -/
theorem mem_table (op : Opcode) : op ∈ table.toList := by
  unfold table
  simp only [List.mem_append]
  cases op with
  | iconst n | lconst n | fconst n | dconst n | unassigned n =>
      simp only [List.mem_map_of_mem (List.mem_finRange n), or_true, true_or]
  | load k | store k | valueReturn k =>
      have hk : k ∈ Kind.all := by cases k <;> decide
      simp only [List.mem_map_of_mem hk, or_true, true_or]
  | loadFrom k n | storeTo k n =>
      have hk : k ∈ Kind.all := by cases k <;> decide
      have hmem {f : Kind → Fin 4 → Opcode} :
          f k n ∈ Kind.all.flatMap fun k => (List.finRange 4).map (f k) :=
        List.mem_flatMap_of_mem hk (List.mem_map_of_mem (List.mem_finRange n))
      simp only [hmem, or_true, true_or]
  | arrayLoad c | arrayStore c =>
      have hc : c ∈ Component.all := by cases c <;> decide
      simp only [List.mem_map_of_mem hc, or_true, true_or]
  | arithmetic o k =>
      have hmem : arithmetic o k ∈
          ArithmeticOp.all.flatMap fun o => NumericKind.all.map (arithmetic o) := by
        cases o <;> cases k <;> decide
      simp only [hmem, or_true, true_or]
  | negate k =>
      have hk : k ∈ NumericKind.all := by cases k <;> decide
      simp only [List.mem_map_of_mem hk, or_true, true_or]
  | bitwise o k =>
      have hmem : bitwise o k ∈
          BitwiseOp.all.flatMap fun o => IntegralKind.all.map (bitwise o) := by
        cases o <;> cases k <;> decide
      simp only [hmem, or_true, true_or]
  | convert c =>
      have hc : c ∈ Conversion.all := by cases c <;> decide
      simp only [List.mem_map_of_mem hc, or_true, true_or]
  | compare c =>
      have hc : c ∈ Comparison.all := by cases c <;> decide
      simp only [List.mem_map_of_mem hc, or_true, true_or]
  | ifZero c | ifInt c =>
      have hc : c ∈ Condition.all := by cases c <;> decide
      simp only [List.mem_map_of_mem hc, or_true, true_or]
  | invoke i =>
      have hi : i ∈ Invocation.all := by cases i <;> decide
      simp only [List.mem_map_of_mem hi, or_true, true_or]
  | ifSame b | ifNull b =>
      cases b <;> simp only [List.mem_cons, or_true, true_or]
  | _ => simp only [List.mem_cons, or_true, true_or]

/-- The number of the entry at a position is that position. -/
theorem toNat_table : table.toList.map toNat = List.range 256 := by
  decide +kernel

/-- Every opcode stands in the table at its number. -/
theorem table_toNat (op : Opcode) : table[op.toNat]? = some op := by
  obtain ⟨i, hi⟩ := List.mem_iff_getElem?.1 (mem_table op)
  have hcode : (table.toList.map toNat)[i]? = some op.toNat := by
    rw [List.getElem?_map, hi, Option.map_some]
  rw [toNat_table] at hcode
  obtain ⟨_, hcode⟩ := List.getElem?_eq_some_iff.1 hcode
  rw [List.getElem_range] at hcode
  rw [← hcode, ← Array.getElem?_toList, hi]

/-- The number of an opcode fits a byte. -/
theorem toNat_lt (op : Opcode) : op.toNat < 256 := by
  have hmem : op.toNat ∈ table.toList.map toNat :=
    List.mem_map_of_mem (mem_table op)
  rw [toNat_table] at hmem
  exact List.mem_range.1 hmem

theorem toNat_toByte (op : Opcode) : op.toByte.toNat = op.toNat := by
  rw [toByte, UInt8.toNat_ofNat', Nat.mod_eq_of_lt op.toNat_lt]

theorem ofByte_toByte (op : Opcode) : ofByte op.toByte = op := by
  unfold ofByte
  rw [toNat_toByte, table_toNat, Option.getD_some]

theorem toByte_ofByte (byte : UInt8) : (ofByte byte).toByte = byte := by
  have hsize : table.toList.length = 256 := by
    rw [← List.length_map toNat, toNat_table, List.length_range]
  have hlt : byte.toNat < table.toList.length := hsize ▸ byte.toNat_lt
  have hread : table[byte.toNat]? = some table.toList[byte.toNat] := by
    rw [← Array.getElem?_toList, List.getElem?_eq_getElem hlt]
  have hcode : (table.toList.map toNat)[byte.toNat]? =
      some table.toList[byte.toNat].toNat := by
    rw [List.getElem?_map, List.getElem?_eq_getElem hlt, Option.map_some]
  rw [toNat_table, List.getElem?_range byte.toNat_lt, Option.some_inj] at hcode
  unfold ofByte
  rw [hread, Option.getD_some, toByte, ← hcode, UInt8.ofNat_toNat]

end ClassAudit.Opcode
