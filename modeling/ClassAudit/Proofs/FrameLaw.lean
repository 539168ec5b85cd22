import ClassAudit.Proofs.ParallelRuns
import ClassAudit.Proofs.TypedExecution

/-!
# The frame law

What lies below the values that an instruction uses has no part in its effect. So
a sequence that raises no fault from some stack raises none from the same stack
put on top of other values, and leaves those as they were. A walk starts every
block with nothing on the stack; by this law it goes on as it would from whatever
the block really starts with, until it asks for a value that it does not have.

Only that can end differently. A fault for any other reason is raised on top of
other values too, and it is the same fault.
-/

namespace ClassAudit

theorem likeness_eq : Likeness Eq where
  signature := congrArg StackValue.signature
  typed _ := rfl
  constant _ := rfl
  null := rfl
  arithmetic _ _ hl hr := by rw [hl, hr]
  negate _ h := by rw [h]
  bitwise _ _ hl hr := by rw [hl, hr]
  convert _ h := by rw [h]
  compare _ hl hr := by rw [hl, hr]

namespace OperandStack

/-- The stack with other values under its own. -/
def above (stack : OperandStack) (below : List StackValue) : OperandStack :=
  { stack with values := stack.values ++ below }

theorem values_above (stack : OperandStack) (below : List StackValue) :
    (stack.above below).values = stack.values ++ below := rfl

/-- No instruction of a sequence faults. -/
def Faultless (stack : OperandStack) (code : List Instruction)
    (pool : ConstantPool) (locals : LocalVariables) : Prop :=
  ∀ outcome ∈ stack.outcomes pool locals code, outcome.2 = none

variable {pool : ConstantPool} {locals : LocalVariables} {stack : OperandStack}
  {i : Instruction} {code : List Instruction}

theorem faultless_cons :
    stack.Faultless (i :: code) pool locals ↔
      (stack.step i pool locals).2 = none ∧
        (stack.step i pool locals).1.Faultless code pool locals :=
  List.forall_mem_cons

theorem step_above (below : List StackValue)
    (h : (stack.step i pool locals).2 = none) :
    (stack.above below).step i pool locals =
      ((stack.step i pool locals).1.above below, none) := by
  obtain ⟨s, t, hstep, habove, hst⟩ | ⟨fault, hstep, _⟩ | ⟨_, _, _, hstep⟩ :=
    step_parallel likeness_eq (List.forall₂_same.2 fun _ _ => rfl)
      (stack.values_above below) i pool locals
  · rw [List.forall₂_eq_eq_eq] at hst
    rw [hstep, habove, hst]
    rfl
  · rw [hstep] at h
    cases h
  · rw [hstep] at h
    cases h

theorem step_above_fault (below : List StackValue) {fault : Fault}
    (h : (stack.step i pool locals).2 = some fault)
    (hfault : ∀ needed available, fault ≠ .underflow needed available) :
    ((stack.above below).step i pool locals).2 = some fault := by
  obtain ⟨s, t, hstep, _, _⟩ | ⟨other, hstep, habove⟩ |
      ⟨_, needed, available, hstep⟩ :=
    step_parallel likeness_eq (List.forall₂_same.2 fun _ _ => rfl)
      (stack.values_above below) i pool locals
  · rw [hstep] at h
    cases h
  · rw [hstep] at h
    rw [habove]
    exact h
  · rw [hstep] at h
    cases h
    exact absurd rfl (hfault needed available)

theorem run_above (below : List StackValue)
    (h : stack.Faultless code pool locals) :
    (stack.above below).Faultless code pool locals ∧
      (stack.above below).run code pool locals =
        (stack.run code pool locals).above below := by
  induction code generalizing stack with
  | nil =>
      refine ⟨fun outcome hmem => ?_, rfl⟩
      cases hmem
  | cons i code ih =>
      obtain ⟨hfirst, hrest⟩ := faultless_cons.1 h
      have hstep := step_above below hfirst
      obtain ⟨hclean, hrun⟩ := ih hrest
      refine ⟨faultless_cons.2 ?_, ?_⟩
      · rw [hstep]
        exact ⟨rfl, hclean⟩
      · rw [run, List.foldl_cons, hstep]
        exact hrun

end OperandStack

/-- What runs without a fault from a stack runs without a fault from the same
stack on top of other values, and ends in what it ended in on top of the same
values. A fault that is no lack of values is raised there too. -/
theorem frame_law (pool : ConstantPool) (locals : LocalVariables)
    (stack : OperandStack) (below : List StackValue) :
    (∀ code, stack.Faultless code pool locals →
      (stack.above below).Faultless code pool locals ∧
        (stack.above below).run code pool locals =
          (stack.run code pool locals).above below) ∧
    ∀ i fault, (stack.step i pool locals).2 = some fault →
      (∀ needed available, fault ≠ .underflow needed available) →
      ((stack.above below).step i pool locals).2 = some fault := by
  refine ⟨fun code h => ?_, fun i fault h hfault => ?_⟩
  · exact OperandStack.run_above below h
  · exact OperandStack.step_above_fault below h hfault

/-- Code that copies a wide value below another and calls a method, on top of a
`long` and null: what it finds there stays. And where an array is asked for, an
`int` is one fault on any stack. -/
theorem frame_law_chimera :
    OperandStack.fresh.Faultless chimeraCode chimeraPool [] ∧
    (OperandStack.mk [.typed "J", .null] true).Faultless chimeraCode chimeraPool [] ∧
    ((OperandStack.mk [.typed "J", .null] true).run chimeraCode chimeraPool
      []).values = [.typed "D", .typed "D", .typed "Ljava/lang/String;",
        .ofConstant (.int 2), .typed "J", .null] ∧
    ((OperandStack.mk [.typed "I", .typed "J", .null] true).step
      ⟨0, .arraylength, .none⟩ chimeraPool []).2 =
        some (.kindMismatch .reference "I") := by
  have hclean : OperandStack.fresh.Faultless chimeraCode chimeraPool [] := by
    unfold OperandStack.Faultless
    decide +kernel
  obtain ⟨hframed, hrun⟩ :=
    (frame_law chimeraPool [] .fresh [.typed "J", .null]).1 chimeraCode hclean
  have hend : (OperandStack.fresh.run chimeraCode chimeraPool []).values =
      [.typed "D", .typed "D", .typed "Ljava/lang/String;", .ofConstant (.int 2)] := by
    decide +kernel
  refine ⟨hclean, hframed, ?_, ?_⟩
  · have hvalues := congrArg OperandStack.values hrun
    rw [OperandStack.values_above, hend] at hvalues
    exact hvalues
  · refine (frame_law chimeraPool [] ⟨[.typed "I"], true⟩ [.typed "J", .null]).2
      ⟨0, .arraylength, .none⟩ _ ?_ ?_
    · decide +kernel
    · intro needed available
      simp

end ClassAudit
