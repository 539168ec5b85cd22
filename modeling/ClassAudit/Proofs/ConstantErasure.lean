import ClassAudit.Proofs.ParallelRuns

/-!
# Folding has no influence on types and faults

Knowing a constant only ever leads to knowing more constants. Forget them all at
the start, and every instruction still faults where it did and as it did, and
leaves values of the same signatures, with null where null was.

Two runs are compared, from stacks that are the same but for their constants. The
one place where they can drift apart is a folded result, and there both push a
value of the signature that the instruction states: whether the constant is
computed, cannot be computed or does not fit the signature, `ofFolded` erases to
the same.
-/

namespace ClassAudit

/-- The value without its constant. -/
def StackValue.erase : StackValue → StackValue
  | typed signature => typed signature
  | known signature _ => typed signature
  | null => null

/-- The stack with no constant known. -/
def OperandStack.erase (stack : OperandStack) : OperandStack :=
  { stack with values := stack.values.map StackValue.erase }

namespace StackValue

theorem erase_erase (v : StackValue) : v.erase.erase = v.erase := by
  cases v <;> rfl

theorem signature_erase (v : StackValue) : v.erase.signature = v.signature := by
  cases v <;> rfl

theorem erase_ofFolded (signature : String) (folded : Option Constant) :
    (ofFolded signature folded).erase = .typed signature := by
  cases folded with
  | none => rfl
  | some constant =>
      rw [ofFolded, Option.bind_some, withConstant?]
      split <;> rfl

end StackValue

theorem likeness_erase : Likeness fun v w => v.erase = w.erase where
  signature {v w} h := by
    rw [← v.signature_erase, ← w.signature_erase, h]
  typed _ := rfl
  constant _ := rfl
  null := rfl
  arithmetic _ _ _ _ := by rw [StackValue.erase_ofFolded, StackValue.erase_ofFolded]
  negate _ _ := by rw [StackValue.erase_ofFolded, StackValue.erase_ofFolded]
  bitwise _ _ _ _ := by rw [StackValue.erase_ofFolded, StackValue.erase_ofFolded]
  convert _ _ := by rw [StackValue.erase_ofFolded, StackValue.erase_ofFolded]
  compare _ _ _ := by rw [StackValue.erase_ofFolded, StackValue.erase_ofFolded]

namespace OperandStack

theorem erase_eq_iff {stack other : OperandStack} :
    stack.erase = other.erase ↔
      stack.valid = other.valid ∧
        List.Forall₂ (fun v w => v.erase = w.erase) stack.values other.values := by
  have hmap : List.Forall₂ (fun v w => StackValue.erase v = StackValue.erase w)
      stack.values other.values ↔
        stack.values.map StackValue.erase = other.values.map StackValue.erase := by
    rw [← List.forall₂_eq_eq_eq, List.forall₂_map_left_iff,
      List.forall₂_map_right_iff]
  rw [hmap, erase, erase, OperandStack.mk.injEq, And.comm]

theorem erase_erase (stack : OperandStack) : stack.erase.erase = stack.erase := by
  rw [erase, erase, List.map_map]
  congr 2
  funext v
  exact v.erase_erase

/-- One step from stacks that are the same but for constants. -/
theorem step_erase {stack other : OperandStack} (h : stack.erase = other.erase)
    (i : Instruction) (pool : ConstantPool) (locals : LocalVariables) :
    (stack.step i pool locals).1.erase = (other.step i pool locals).1.erase ∧
      (stack.step i pool locals).2 = (other.step i pool locals).2 := by
  obtain ⟨hvalid, hvalues⟩ := erase_eq_iff.1 h
  obtain ⟨s, t, hstep, hother, hst⟩ | ⟨fault, hstep, hother⟩ | ⟨hbelow, _⟩ :=
    step_parallel likeness_erase hvalues (List.append_nil _).symm i pool locals
  · rw [hstep, hother, List.append_nil]
    exact ⟨erase_eq_iff.2 ⟨hvalid, hst⟩, rfl⟩
  · rw [hstep, hother]
    exact ⟨rfl, rfl⟩
  · exact absurd rfl hbelow

theorem outcomes_erase {stack other : OperandStack} (h : stack.erase = other.erase)
    (code : List Instruction) (pool : ConstantPool) (locals : LocalVariables) :
    (stack.outcomes pool locals code).map (Prod.map erase id) =
      (other.outcomes pool locals code).map (Prod.map erase id) := by
  induction code generalizing stack other with
  | nil => rfl
  | cons i code ih =>
      obtain ⟨hafter, hfault⟩ := step_erase h i pool locals
      rw [outcomes, outcomes, List.map_cons, List.map_cons, ih hafter]
      rw [Prod.map, Prod.map, hafter, hfault]

end OperandStack

/-- Whatever the instructions, a run from a stack and one from the same stack
without its constants raise the same faults at the same instructions, and after
each instruction their stacks are the same but for constants, validity
included. -/
theorem folding_has_no_influence (pool : ConstantPool) (locals : LocalVariables)
    (stack : OperandStack) (code : List Instruction) :
    (stack.erase.outcomes pool locals code).map (Prod.map OperandStack.erase id) =
      (stack.outcomes pool locals code).map (Prod.map OperandStack.erase id) :=
  OperandStack.outcomes_erase stack.erase_erase code pool locals

end ClassAudit
