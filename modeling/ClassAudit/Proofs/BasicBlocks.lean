import ClassAudit.Proofs.DecodedBody
import ClassAudit.Proofs.Machine

/-!
# Blocks cover every join

A walk throws away what it knows where a block starts, and is right to keep it
elsewhere only if control cannot come from anywhere but the instruction before.
That is what this file says (`Flow.leader`): an edge of control either leads to
the start of a block or goes to the next instruction.

The rule with an argument is the end of a subroutine, which can go behind any
call of one. Such a call ends a block because it has a target, and it has one
because it was decoded; in a body that no decoder would produce it might not.
-/

namespace ClassAudit

open Machine

variable {body : List Instruction} {i j : Instruction} {offset : Nat}

theorem mem_blockLeaders :
    offset ∈ blockLeaders body ↔ offset = 0 ∨ offset ∈ leadersOf body := by
  simp [blockLeaders, Std.TreeSet.mem_ofList]

theorem leadersOf_tail (h : offset ∈ leadersOf body) :
    offset ∈ leadersOf (i :: body) := by
  cases body with
  | nil => cases h
  | cons j rest => exact List.mem_append.2 (.inr h)

theorem leadersOf_targets (hi : i ∈ body) (h : offset ∈ i.targets) :
    offset ∈ leadersOf body := by
  induction body with
  | nil => cases hi
  | cons first rest ih =>
      rcases List.mem_cons.1 hi with rfl | hi
      · cases rest with
        | nil => exact h
        | cons second rest => simp [leadersOf, h]
      · exact leadersOf_tail (ih hi)

theorem leadersOf_next (hj : Follows body i j) (h : i.endsBlock = true) :
    j.offset ∈ leadersOf body := by
  obtain ⟨before, after, rfl⟩ := hj
  induction before with
  | nil => simp [leadersOf, h]
  | cons first before ih => exact leadersOf_tail ih

theorem Machine.Follows.mem (hj : Follows body i j) : i ∈ body := by
  obtain ⟨before, after, rfl⟩ := hj
  simp

theorem Machine.HasTarget.mem_targets (h : HasTarget i.operands offset) :
    offset ∈ i.targets := by
  rw [Instruction.targets]
  cases hoperands : i.operands with
  | branch target =>
      rw [hoperands] at h
      cases h
      exact List.mem_singleton_self offset
  | switch targets =>
      rw [hoperands] at h
      cases h with
      | switch hmem => exact hmem
  | _ =>
      rw [hoperands] at h
      cases h

section Decoded

variable {code : List UInt8} (hcode : decode code = .ok body)

include hcode

/-- All ways of control but the one to the next instruction lead to where a block
starts, as long as the targets that are named are those of the operands. -/
theorem Machine.Flow.leader {names : Instruction → Nat → Prop} {way : Passage}
    (hnames : ∀ i ∈ body, ∀ target, names i target → HasTarget i.operands target)
    (hflow : Flow names body way i offset) (hway : way ≠ .next) :
    offset ∈ blockLeaders body := by
  rw [mem_blockLeaders]
  right
  cases hflow with
  | next _ _ => exact absurd rfl hway
  | jump hi _ ht => exact leadersOf_targets hi (hnames i hi offset ht).mem_targets
  | @back _ call next _ _ hcall hnext =>
      obtain ⟨target, ho⟩ := decode_call hcode hnext.mem hcall
      refine leadersOf_next hnext ?_
      simp [Instruction.endsBlock, ho]

/-- Control goes to where a block starts or to the next instruction. -/
theorem Machine.Goes.leader_or_follows (hg : Goes body i offset) :
    offset ∈ blockLeaders body ∨ ∃ j, Follows body i j ∧ j.offset = offset := by
  obtain ⟨way, hflow⟩ := hg
  by_cases hway : way = .next
  · subst hway
    cases hflow with
    | next _ hj => exact .inr ⟨_, hj, rfl⟩
  · exact .inl (hflow.leader hcode (fun _ _ _ ht => ht) hway)

end Decoded

end ClassAudit
