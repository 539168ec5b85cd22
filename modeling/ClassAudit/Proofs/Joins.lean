import ClassAudit.Proofs.BasicBlocks
import ClassAudit.Proofs.OperandShapes
import Mathlib.Data.List.Nodup

/-!
# Where control flow joins

A walk keeps what it knows from one instruction to the next unless a block starts
there. That is right only if nothing else leads to the second instruction, and the
first leads nowhere else. Blocks are found by looking at the form of operands; where
control goes is a matter of opcodes and bytes. `Flows` has the edges of the machine
from that other side: what falls through and what jumps is decided by the opcode, and
the targets of a jump are those that the bytes behind it spell (`Names`), whatever they
were decoded into.

So a target that was lost in decoding would still be an edge here, and a missing start
of a block would show. There is none (`joins_are_leaders`).
-/

namespace ClassAudit

namespace Machine

/-- The targets that code names behind the opcode of an instruction. -/
def Names (code : List UInt8) (i : Instruction) (target : Nat) : Prop :=
  ∃ operands fields more, Fields i.offset i.opcode.formatLayout operands fields ∧
    code.drop (i.offset + 1) = fields ++ more ∧ HasTarget operands target

/-- The edges of control flow in code with a body, with the targets that the code
names. -/
abbrev Flows (code : List UInt8) (body : List Instruction) :
    Passage → Instruction → Nat → Prop :=
  Flow (Names code) body

end Machine

open Machine

/-! ## Targets -/

theorem Opcode.formatLayout_eq (opcode : Opcode) :
    opcode.formatLayout = opcode.layout :=
  formatLayout_of_format (format?_toNat opcode)

/-- An opcode that has no targets and no exit only leads on. -/
theorem Machine.fallsThrough_of_plain {opcode : Opcode}
    (hbranch : opcode.isBranch = false) (hswitch : opcode.isSwitch = false)
    (hexit : opcode.isExit = false) :
    fallsThrough opcode = true ∧ jumps opcode = false := by
  cases opcode with
  | ifZero _ | ifInt _ | ifSame _ | ifNull _ | goto | gotoW | jsr | jsrW =>
      cases hbranch
  | tableswitch | lookupswitch => cases hswitch
  | valueReturn _ | voidReturn | athrow | ret => cases hexit
  | _ => exact ⟨rfl, rfl⟩

/-- If operands with a target are spelled behind the opcode of an instruction, they are
its own. Nothing that has a target can stand behind a `wide`. -/
theorem Encoded.operands_eq {offset target : Nat} {i : Instruction}
    {bytes more fields more' : List UInt8} {operands : Operands}
    (h : Encoded offset i bytes)
    (hspelled : Fields offset i.opcode.formatLayout operands fields)
    (hbehind : (bytes ++ more).drop 1 = fields ++ more')
    (htarget : HasTarget operands target) : i.operands = operands := by
  cases h with
  | @plain opcode layout operands' fields' format spelled =>
      have hplain : Encoded offset ⟨offset, opcode, operands⟩
          (opcode.toByte :: fields) := by
        refine .plain (format?_toNat opcode) ?_
        rwa [← opcode.formatLayout_eq]
      have hwhole : (opcode.toByte :: fields') ++ more =
          (opcode.toByte :: fields) ++ more' := by
        rw [List.cons_append, List.cons_append, ← hbehind]
        rfl
      have hsame := (Encoded.plain format spelled).prefix_unique hplain hwhole
      exact congrArg Instruction.operands hsame.1
  | wideSlot format _ =>
      rw [formatLayout_of_format format] at hspelled
      cases hspelled
      cases htarget
  | wideIncrement format _ _ =>
      rw [formatLayout_of_format format] at hspelled
      cases hspelled
      cases htarget

section Decoded

variable {code : List UInt8} {body : List Instruction} {i j k : Instruction}
  {target : Nat} (h : decode code = .ok body)

include h

/-- Decoding loses no target and adds none. -/
theorem names_iff (hi : i ∈ body) :
    Names code i target ↔ HasTarget i.operands target := by
  obtain ⟨front, bytes, more, rfl, hat, hencoded⟩ :=
    (Decode.laidOut_of_tile h).exists_encoded hi
  have hbehind : (front ++ (bytes ++ more)).drop (i.offset + 1) =
      (bytes ++ more).drop 1 := by
    rw [hat, Nat.zero_add, ← List.drop_drop, List.drop_left]
  rw [Names, hbehind]
  constructor
  · rintro ⟨operands, fields, more', hspelled, hcode, htarget⟩
    rwa [hencoded.operands_eq hspelled hcode htarget]
  · intro htarget
    generalize hoffset : i.offset = offset at hencoded
    cases hencoded with
    | @plain opcode layout operands fields format spelled =>
        refine ⟨operands, fields, more, ?_, rfl, htarget⟩
        rwa [formatLayout_of_format format]
    | wideSlot _ _ => cases htarget
    | wideIncrement _ _ _ => cases htarget

omit h in
theorem Machine.Follows.mem_right (hj : Follows body i j) : j ∈ body := by
  obtain ⟨before, after, rfl⟩ := hj
  simp

omit h in
theorem Machine.Follows.exists_index (hj : Follows body i j) :
    ∃ n, body[n]? = some i ∧ body[n + 1]? = some j := by
  obtain ⟨before, after, rfl⟩ := hj
  exact ⟨before.length, by simp, by simp⟩

/-! ## Neighbours -/

theorem offset_injOn (hi : i ∈ body) (hj : j ∈ body) (heq : i.offset = j.offset) :
    i = j :=
  List.inj_on_of_nodup_map (decode_offsets_nodup h) hi hj heq

/-- An instruction has at most one neighbour on each side. -/
theorem follows_unique {i' j' : Instruction} (hj : Follows body i j)
    (hj' : Follows body i' j') : i = i' ↔ j = j' := by
  have hnodup := (decode_offsets_nodup h).of_map
  obtain ⟨m, hi, hj⟩ := hj.exists_index
  obtain ⟨n, hi', hj'⟩ := hj'.exists_index
  have hm := (List.getElem?_eq_some_iff.1 hj).1
  constructor
  · rintro rfl
    obtain rfl : m = n := (List.getElem?_inj (by omega) hnodup).1 (hi.trans hi'.symm)
    exact Option.some.inj (hj.symm.trans hj')
  · rintro rfl
    have hsame : m + 1 = n + 1 := (List.getElem?_inj hm hnodup).1 (hj.trans hj'.symm)
    obtain rfl : m = n := by omega
    exact Option.some.inj (hi.symm.trans hi')

/-- Every instruction but the one at the start has one in front of it. -/
theorem exists_follows (hj : j ∈ body) (hstart : j.offset ≠ 0) :
    ∃ i, Follows body i j := by
  obtain ⟨before, after, rfl⟩ := List.append_of_mem hj
  rcases List.eq_nil_or_concat before with rfl | ⟨before, i, rfl⟩
  · exact absurd (decode_head h) hstart
  · refine ⟨i, before, after, ?_⟩
    simp

/-! ## Blocks -/

/-- Behind an instruction that does not end a block, control goes on, and it goes
nowhere else. -/
theorem fallsThrough_of_not_endsBlock (hi : i ∈ body) (hends : i.endsBlock = false) :
    fallsThrough i.opcode = true ∧ jumps i.opcode = false := by
  have hadmitted := decode_admitted h hi
  unfold Instruction.endsBlock at hends
  split at hends
  · cases hends
  · cases hends
  · next hbranch hswitch =>
      refine fallsThrough_of_plain ?_ ?_ hends
      · rw [← Bool.not_eq_true, ← branch_iff_of_admitted hadmitted]
        rintro ⟨target, ho⟩
        exact hbranch target ho
      · rw [← Bool.not_eq_true, ← switch_iff_of_admitted hadmitted]
        rintro ⟨targets, ho⟩
        exact hswitch targets ho

end Decoded

/-- Where no block starts, control comes from the instruction in front and from nowhere
else. -/
theorem exists_sole_predecessor {code : List UInt8} {body : List Instruction}
    (h : decode code = .ok body) {j : Instruction} (hj : j ∈ body)
    (hleader : j.offset ∉ blockLeaders body) :
    ∃ i, Follows body i j ∧ fallsThrough i.opcode = true ∧ jumps i.opcode = false ∧
      ∀ way k, Flows code body way k j.offset → way = .next ∧ k = i := by
  have hstart : j.offset ≠ 0 := fun hzero => hleader (mem_blockLeaders.2 (.inl hzero))
  obtain ⟨i, hfollows⟩ := exists_follows h hj hstart
  have hends : i.endsBlock = false := by
    rw [← Bool.not_eq_true]
    intro hends
    exact hleader (mem_blockLeaders.2 (.inr (leadersOf_next hfollows hends)))
  obtain ⟨hfalls, hjumps⟩ := fallsThrough_of_not_endsBlock h hfollows.mem hends
  refine ⟨i, hfollows, hfalls, hjumps, fun way k hflows => ?_⟩
  have hway : way = .next := by
    by_contra hway
    exact hleader (hflows.leader h (fun _ hi _ => (names_iff h hi).1) hway)
  refine ⟨hway, ?_⟩
  subst hway
  generalize hoffset : j.offset = offset at hflows
  cases hflows with
  | @next _ j' _ hfollows' =>
      obtain rfl : j = j' := offset_injOn h hj hfollows'.mem_right hoffset
      exact (follows_unique h hfollows' hfollows).2 rfl

/-- In code that can be decoded, the targets that the bytes name are those of the
decoded instructions. Where no block starts, control comes from the instruction in
front and from nowhere else, and that instruction leads nowhere else: among all edges,
the one between the two is the only one that ends at the second, and the only one that
starts at the first. -/
theorem joins_are_leaders {code : List UInt8} {body : List Instruction}
    (h : decode code = .ok body) :
    (∀ i ∈ body, ∀ target, Names code i target ↔ HasTarget i.operands target) ∧
    ∀ j ∈ body, j.offset ∉ blockLeaders body →
      ∃ i, Follows body i j ∧ Flows code body .next i j.offset ∧
        (∀ way k, Flows code body way k j.offset → way = .next ∧ k = i) ∧
        ∀ way offset, Flows code body way i offset →
          way = .next ∧ offset = j.offset := by
  refine ⟨fun i hi target => names_iff h hi, fun j hj hleader => ?_⟩
  obtain ⟨i, hfollows, hfalls, hjumps, hsole⟩ := exists_sole_predecessor h hj hleader
  refine ⟨i, hfollows, .next hfalls hfollows, hsole, fun way offset hflows => ?_⟩
  cases hflows with
  | next _ hfollows' =>
      rw [(follows_unique h hfollows' hfollows).1 rfl]
      exact ⟨rfl, rfl⟩
  | jump _ hjump _ =>
      rw [hjumps] at hjump
      cases hjump
  | back _ hret _ _ =>
      rw [hret] at hfalls
      cases hfalls

/-- A subroutine that is called once and returned from by a wide `ret`. -/
def callingCode : List UInt8 := [0xa8, 0, 6, 0x10, 1, 0xb1, 0xc4, 0xa9, 0, 1]

def callingBody : List Instruction :=
  [⟨0, .jsr, .branch 6⟩, ⟨3, .bipush, .literal 1⟩, ⟨5, .voidReturn, .none⟩,
    ⟨6, .ret, .slot 1⟩]

/-- The subroutine comes back to the instruction behind the call, where a block starts.
None starts behind that one, and only it leads there. -/
theorem joins_are_leaders_calling :
    decode callingCode = .ok callingBody ∧
    Flows callingCode callingBody .back ⟨6, .ret, .slot 1⟩ 3 ∧
    3 ∈ blockLeaders callingBody ∧ 5 ∉ blockLeaders callingBody ∧
    ∀ way k, Flows callingCode callingBody way k 5 →
      way = .next ∧ k = ⟨3, .bipush, .literal 1⟩ := by
  have hdecode : decode callingCode = .ok callingBody :=
    decode_of_toOption (by decide +kernel)
  have hleader : 5 ∉ blockLeaders callingBody := by
    rw [mem_blockLeaders]
    decide
  have hfollows : Follows callingBody ⟨0, .jsr, .branch 6⟩ ⟨3, .bipush, .literal 1⟩ :=
    ⟨[], [⟨5, .voidReturn, .none⟩, ⟨6, .ret, .slot 1⟩], rfl⟩
  have hbehind : Flows callingCode callingBody .next ⟨3, .bipush, .literal 1⟩ 5 :=
    .next (j := ⟨5, .voidReturn, .none⟩) rfl
      ⟨[⟨0, .jsr, .branch 6⟩], [⟨6, .ret, .slot 1⟩], rfl⟩
  obtain ⟨i, _, _, hsole, _⟩ := (joins_are_leaders hdecode).2
    ⟨5, .voidReturn, .none⟩ (by simp [callingBody]) hleader
  refine ⟨hdecode, .back (by simp [callingBody]) rfl (by simp) hfollows, ?_,
    hleader, ?_⟩
  · rw [mem_blockLeaders]
    decide
  · intro way k hflows
    obtain ⟨hway, rfl⟩ := hsole way k hflows
    exact ⟨hway, (hsole _ _ hbehind).2.symm⟩

end ClassAudit
