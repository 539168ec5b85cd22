import ClassAudit.Instruction.Decode

/-!
# What decoding promises about a body

Bytes come apart into instructions one behind the other, and three facts about
that are all that control flow needs. The first instruction stands at offset
zero; offsets grow from one instruction to the next, so an offset names at most
one; and the operands of an instruction have the form that the layout of its
opcode prescribes, so that whatever should have a target has one.

The first two hold of `tile` with any reader that keeps the offset it is given,
since it hands on an offset that is larger by at least the byte it looked at.
The third is a matter of looking at each layout.
-/

namespace ClassAudit

/-- Whether operands have the form that a layout is read into. Nothing is left of
`wide`: it is read as the instruction it modifies. -/
def OperandLayout.Admits : OperandLayout → Operands → Prop
  | .empty, .none => True
  | .literal8, .literal _ | .literal16, .literal _ => True
  | .pool8, .pool _ | .pool16, .pool _ | .poolPadded, .pool _ => True
  | .slot8, .slot _ => True
  | .increment8, .increment _ _ => True
  | .branch16, .branch _ | .branch32, .branch _ => True
  | .tableswitch, .switch _ | .lookupswitch, .switch _ => True
  | .elementType, .elementType _ => True
  | .multiArray, .multiArray _ _ => True
  | _, _ => False

theorem OperandLayout.Admits.branch {layout : OperandLayout} {ops : Operands}
    (h : layout.Admits ops) (hlayout : layout = .branch16 ∨ layout = .branch32) :
    ∃ target, ops = .branch target := by
  cases ops with
  | branch target => exact ⟨target, rfl⟩
  | _ => rcases hlayout with rfl | rfl <;> cases h

theorem bind_eq_ok {ε α β : Type} {m : Except ε α} {f : α → Except ε β}
    {b : β} : (m >>= f) = .ok b ↔ ∃ a, m = .ok a ∧ f a = .ok b := by
  cases m with
  | error fault => exact ⟨(nomatch ·), fun ⟨_, h, _⟩ => (nomatch h)⟩
  | ok a =>
      constructor
      · exact fun h => ⟨a, rfl, h⟩
      · rintro ⟨a', ha, h⟩
        cases ha
        exact h

namespace Decode

/-! ## Operands -/

theorem layout_eq_widened {opcode : Opcode} (h : opcode.layout = .widened) :
    opcode = .wide := by
  unfold Opcode.layout at h
  split at h <;> cases h
  rfl

theorem layout_eq_tableswitch {opcode : Opcode} (h : opcode.layout = .tableswitch) :
    opcode = .tableswitch := by
  unfold Opcode.layout at h
  split at h <;> cases h
  rfl

theorem layout_eq_lookupswitch {opcode : Opcode} (h : opcode.layout = .lookupswitch) :
    opcode = .lookupswitch := by
  unfold Opcode.layout at h
  split at h <;> cases h
  rfl

theorem operands_admitted {offset : Nat} {opcode : Opcode} {bytes : List UInt8}
    {ops : Operands} {used : Nat} (hwide : opcode ≠ .wide)
    (h : operands offset opcode bytes = .ok (ops, used)) :
    opcode.layout.Admits ops := by
  unfold operands at h
  cases hlayout : opcode.layout <;> rw [hlayout] at h <;> dsimp only at h
  case widened => exact absurd (layout_eq_widened hlayout) hwide
  case empty =>
    cases h
    trivial
  case literal8 | literal16 | pool8 | pool16 | slot8 | elementType =>
    obtain ⟨_, _, h⟩ := bind_eq_ok.1 h
    cases h
    trivial
  case poolPadded =>
    obtain ⟨_, _, h⟩ := bind_eq_ok.1 h
    split at h <;> cases h
    trivial
  case branch16 | branch32 | increment8 | multiArray =>
    obtain ⟨_, _, h⟩ := bind_eq_ok.1 h
    obtain ⟨_, _, h⟩ := bind_eq_ok.1 h
    cases h
    trivial
  case tableswitch =>
    obtain ⟨_, _, h⟩ := bind_eq_ok.1 h
    obtain ⟨_, _, h⟩ := bind_eq_ok.1 h
    obtain ⟨_, _, h⟩ := bind_eq_ok.1 h
    split at h
    · cases h
    · obtain ⟨_, _, h⟩ := bind_eq_ok.1 h
      obtain ⟨_, _, h⟩ := bind_eq_ok.1 h
      cases h
      trivial
  case lookupswitch =>
    obtain ⟨_, _, h⟩ := bind_eq_ok.1 h
    obtain ⟨_, _, h⟩ := bind_eq_ok.1 h
    split at h
    · cases h
    · obtain ⟨_, _, h⟩ := bind_eq_ok.1 h
      obtain ⟨_, _, h⟩ := bind_eq_ok.1 h
      cases h
      trivial

theorem widened_admitted {offset : Nat} {bytes : List UInt8} {opcode : Opcode}
    {ops : Operands} {used : Nat}
    (h : widened offset bytes = .ok (opcode, ops, used)) :
    opcode.layout.Admits ops := by
  obtain ⟨byte, _, h⟩ := bind_eq_ok.1 h
  dsimp only at h
  split at h
  · next hlayout =>
      obtain ⟨_, _, h⟩ := bind_eq_ok.1 h
      cases h
      rw [hlayout]
      trivial
  · next hlayout =>
      obtain ⟨_, _, h⟩ := bind_eq_ok.1 h
      obtain ⟨_, _, h⟩ := bind_eq_ok.1 h
      cases h
      rw [hlayout]
      trivial
  · cases h

/-- A decoded instruction stands where it was read, with operands that fit. -/
theorem instruction_ok {offset : Nat} {byte : UInt8} {bytes : List UInt8}
    {i : Instruction} {used : Nat}
    (h : instruction offset byte bytes = .ok (i, used)) :
    i.offset = offset ∧ i.opcode.layout.Admits i.operands := by
  unfold instruction at h
  dsimp only at h
  split at h
  · obtain ⟨⟨opcode, ops, used'⟩, hread, h⟩ := bind_eq_ok.1 h
    cases h
    exact ⟨rfl, widened_admitted hread⟩
  · next hwide =>
      obtain ⟨⟨ops, used'⟩, hread, h⟩ := bind_eq_ok.1 h
      cases h
      exact ⟨rfl, operands_admitted hwide hread⟩

/-! ## Offsets -/

/-- What a tiling is: nothing, or an item and the tiling of what is left behind
it. -/
theorem tile_eq_ok {α : Type}
    {read : Nat → UInt8 → List UInt8 → Except DecodeFault (α × Nat)}
    {offset : Nat} {bytes : List UInt8} {items : List α}
    (h : tile read offset bytes = .ok items) :
    (bytes = [] ∧ items = []) ∨
      ∃ byte more first used rest, bytes = byte :: more ∧ items = first :: rest ∧
        read offset byte more = .ok (first, used) ∧
        tile read (offset + 1 + used) (more.drop used) = .ok rest := by
  cases bytes with
  | nil =>
      rw [tile] at h
      cases h
      exact .inl ⟨rfl, rfl⟩
  | cons byte more =>
      rw [tile] at h
      split at h
      · cases h
      · next first used hread =>
          split at h
          · cases h
          · next rest hrest =>
              cases h
              exact .inr ⟨byte, more, first, used, rest, rfl, rfl, hread, hrest⟩

theorem tile_offsets {offset : Nat} {bytes : List UInt8}
    {body : List Instruction} (h : tile instruction offset bytes = .ok body) :
    (∀ i ∈ body, offset ≤ i.offset) ∧
      body.Pairwise fun i j => i.offset < j.offset := by
  induction body generalizing offset bytes with
  | nil => exact ⟨by simp, .nil⟩
  | cons i rest ih =>
      rcases tile_eq_ok h with ⟨_, hnil⟩ |
        ⟨byte, more, _, used, _, _, hcons, hread, hrest⟩
      · cases hnil
      · cases hcons
        obtain ⟨hfar, hpairwise⟩ := ih hrest
        have hat := (instruction_ok hread).1
        constructor
        · intro j hj
          rcases List.mem_cons.1 hj with rfl | hj
          · omega
          · have := hfar j hj
            omega
        · refine List.pairwise_cons.2 ⟨fun j hj => ?_, hpairwise⟩
          have := hfar j hj
          omega

theorem tile_admitted {offset : Nat} {bytes : List UInt8}
    {body : List Instruction} (h : tile instruction offset bytes = .ok body)
    {i : Instruction} (hi : i ∈ body) : i.opcode.layout.Admits i.operands := by
  induction body generalizing offset bytes with
  | nil => cases hi
  | cons j rest ih =>
      rcases tile_eq_ok h with ⟨_, hnil⟩ |
        ⟨byte, more, _, used, _, _, hcons, hread, hrest⟩
      · cases hnil
      · cases hcons
        rcases List.mem_cons.1 hi with rfl | hi
        · exact (instruction_ok hread).2
        · exact ih hrest hi

end Decode

/-! ## Bodies -/

section Bodies

variable {code : List UInt8} {body : List Instruction}

theorem decode_of_toOption (h : (decode code).toOption = some body) :
    decode code = .ok body := by
  cases hdecode : decode code with
  | error fault =>
      rw [hdecode] at h
      cases h
  | ok decoded =>
      rw [hdecode] at h
      cases h
      rfl

/-- Offsets grow along a body. -/
theorem decode_offsets (h : decode code = .ok body) :
    body.Pairwise fun i j => i.offset < j.offset :=
  (Decode.tile_offsets h).2

theorem decode_offsets_nodup (h : decode code = .ok body) :
    (body.map Instruction.offset).Nodup := by
  rw [List.Nodup, List.pairwise_map]
  exact (decode_offsets h).imp Nat.ne_of_lt

theorem decode_head {i : Instruction} {rest : List Instruction}
    (h : decode code = .ok (i :: rest)) : i.offset = 0 := by
  rcases Decode.tile_eq_ok h with ⟨_, hnil⟩ |
    ⟨byte, more, _, used, _, _, hcons, hread, _⟩
  · cases hnil
  · cases hcons
    exact (Decode.instruction_ok hread).1

theorem decode_admitted (h : decode code = .ok body) {i : Instruction}
    (hi : i ∈ body) : i.opcode.layout.Admits i.operands :=
  Decode.tile_admitted h hi

/-- A subroutine call has a target. -/
theorem decode_call (h : decode code = .ok body) {i : Instruction}
    (hi : i ∈ body) (hcall : i.opcode ∈ [.jsr, .jsrW]) :
    ∃ target, i.operands = .branch target := by
  refine (decode_admitted h hi).branch ?_
  simp only [List.mem_cons, List.not_mem_nil, or_false] at hcall
  rcases hcall with hcall | hcall
  · exact .inl (congrArg Opcode.layout hcall)
  · exact .inr (congrArg Opcode.layout hcall)

end Bodies

end ClassAudit
