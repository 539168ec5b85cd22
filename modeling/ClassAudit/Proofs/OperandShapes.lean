import ClassAudit.Proofs.InstructionTiling
import ClassAudit.Proofs.ParallelRuns

/-!
# Decoding and execution agree on operands

The form of operands is not part of the type of an instruction, so two places decide
on it by opcode: decoding, which chooses a form, and the effect of an instruction,
which looks for one. They were written apart. Here the two choices stand next to each
other as `OperandLayout.Admits` and `Instruction.Readable`, and comparing them is all
that is left to do.

What makes `Readable` the right table for the effect is that an instruction looks at
its operands before it looks at the stack. So whether it finds fault with them does
not depend on the stack: it does exactly if they are not readable
(`effect_malformed_iff`). The one thing that decoding lets through is a type code
that stands for no type.
-/

namespace ClassAudit

/-! ## What is looked for -/

/-- Whether the operands are what the effect of the instruction looks for. Most
instructions look for nothing. -/
def Instruction.Readable (i : Instruction) : Prop :=
  match i.opcode with
  | .bipush | .sipush => ∃ value, i.operands = .literal value
  | .load _ => ∃ index, i.operands = .slot index
  | .ldc | .ldcW | .ldc2W | .getstatic | .putstatic | .getfield | .putfield
  | .invoke _ | .new | .anewarray => ∃ index, i.operands = .pool index
  | .newarray => ∃ code signature, i.operands = .elementType code ∧
      arrayOfTypeCode? code = some signature
  | _ => True

/-- A computation that finds no fault with operands, whatever is on the stack. -/
def Content {α : Type} (m : StackM α) : Prop :=
  ∀ values, m values ≠ .error .malformedOperands

namespace Content

variable {α β : Type}

theorem pure (a : α) : Content (Pure.pure a : StackM α) := by
  intro values heq
  cases heq

theorem throw {fault : Fault} (h : fault ≠ .malformedOperands) :
    Content (MonadExcept.throw fault : StackM α) := by
  intro values heq
  exact h (Except.error.inj heq)

theorem bind {m : StackM α} {f : α → StackM β} (hm : Content m)
    (hf : ∀ a, Content (f a)) : Content (m >>= f) := by
  intro values heq
  rw [StackM.bind_apply] at heq
  cases hfirst : m values with
  | error fault =>
      rw [hfirst] at heq
      cases heq
      exact hm values hfirst
  | ok result =>
      rw [hfirst] at heq
      exact hf result.1 result.2 heq

/-- All that can go wrong is that there are too few values. -/
theorem checked {needed : Nat} {f : List StackValue → α × List StackValue}
    {m : StackM α}
    (hm : ∀ values, m values = if values.length < needed then
      .error (.underflow needed values.length) else .ok (f values)) : Content m := by
  intro values heq
  rw [hm] at heq
  split at heq <;> cases heq

theorem push (value : StackValue) : Content (StackM.push value) := by
  intro values heq
  cases heq

theorem pop : Content StackM.pop := by
  intro values heq
  cases values <;> cases heq

theorem popKind (kind : Kind) : Content (StackM.popKind kind) := by
  refine pop.bind fun value => ?_
  split
  · exact pure value
  · exact throw Fault.noConfusion

theorem drop (count : Nat) : Content (StackM.drop count) :=
  checked (StackM.drop_eq count)

theorem pairAt (depth : Nat) : Content (StackM.pairAt depth) :=
  checked (StackM.pairAt_eq depth)

theorem duplicate (copied skipped : Nat) :
    Content (StackM.duplicate copied skipped) :=
  checked (StackM.duplicate_eq copied skipped)

theorem exchange : Content StackM.exchange := checked StackM.exchange_eq

theorem pop_bind {kind : Kind} {f : StackValue → StackM β}
    (hf : ∀ value, Content (f value)) : Content (StackM.popKind kind >>= f) :=
  (popKind kind).bind hf

end Content

namespace Instruction

variable {i : Instruction} {pool : ConstantPool} {locals : LocalVariables}

theorem fieldKind_content (descriptor : String) : Content (fieldKind descriptor) := by
  unfold fieldKind
  split
  · exact .pure _
  · exact .throw Fault.noConfusion

theorem shapeOf_content (descriptor : String) : Content (shapeOf descriptor) := by
  unfold shapeOf
  split
  · exact .pure _
  · exact .throw Fault.noConfusion

section Pool

variable {index : UInt16} (h : i.operands = .pool index)

include h

theorem poolIndex_content : Content i.poolIndex := by
  rw [poolIndex, h]
  exact .pure index

theorem member_content (pool : ConstantPool) : Content (i.member pool) := by
  refine (poolIndex_content h).bind fun index => ?_
  split
  · exact .pure _
  · exact .throw Fault.noConfusion

theorem className_content (pool : ConstantPool) : Content (i.className pool) := by
  refine (poolIndex_content h).bind fun index => ?_
  split
  · exact .pure _
  · exact .throw Fault.noConfusion

theorem invokedDescriptor_content (pool : ConstantPool) (invocation : Invocation) :
    Content (i.invokedDescriptor pool invocation) := by
  unfold invokedDescriptor
  split
  · refine (poolIndex_content h).bind fun index => ?_
    split
    · exact .pure _
    · exact .throw Fault.noConfusion
  · exact (member_content h pool).bind fun member => .pure _

end Pool

/-- With readable operands, no instruction finds fault with them. -/
theorem Readable.content (h : i.Readable) (pool : ConstantPool)
    (locals : LocalVariables) : Content (i.effect pool locals) := by
  unfold Readable at h
  cases hop : i.opcode with
  | nop | goto | gotoW | ret | voidReturn | iinc | athrow | checkcast =>
      simp only [effect, hop]
      exact .pure ()
  | aconstNull | iconst _ | lconst _ | fconst _ | dconst _ | loadFrom _ _ =>
      simp only [effect, hop]
      exact .push _
  | bipush | sipush =>
      rw [hop] at h
      obtain ⟨value, ho⟩ := h
      simp only [effect, hop, ho]
      exact .push _
  | ldc | ldcW | ldc2W =>
      rw [hop] at h
      obtain ⟨index, ho⟩ := h
      simp only [effect, hop]
      refine (poolIndex_content ho).bind fun index => ?_
      split
      · exact .push _
      · exact .throw Fault.noConfusion
  | load kind =>
      rw [hop] at h
      obtain ⟨index, ho⟩ := h
      simp only [effect, hop, ho]
      exact .push _
  | store _ | storeTo _ _ | valueReturn _ | ifZero _ | tableswitch | lookupswitch
  | ifNull _ | monitorenter | monitorexit =>
      simp only [effect, hop]
      exact .pop_bind fun _ => .pure ()
  | arrayStore component =>
      simp only [effect, hop]
      exact .pop_bind fun _ => .pop_bind fun _ => .pop_bind fun _ => .pure ()
  | pop =>
      simp only [effect, hop]
      exact Content.pop.bind fun _ => .pure ()
  | pop2 =>
      simp only [effect, hop]
      exact (Content.pairAt 0).bind fun count => .drop count
  | dup | dupX1 =>
      simp only [effect, hop]
      exact .duplicate _ _
  | dupX2 | dup2 | dup2X1 =>
      simp only [effect, hop]
      exact (Content.pairAt _).bind fun count => .duplicate _ _
  | dup2X2 =>
      simp only [effect, hop]
      refine (Content.pairAt 0).bind fun copied => ?_
      exact (Content.pairAt copied).bind fun skipped => .duplicate copied skipped
  | swap =>
      simp only [effect, hop]
      exact .exchange
  | arrayLoad _ | arithmetic _ _ | bitwise _ _ | compare _ =>
      simp only [effect, hop]
      exact .pop_bind fun _ => .pop_bind fun _ => .push _
  | negate _ | convert _ | arraylength | instanceof =>
      simp only [effect, hop]
      exact .pop_bind fun _ => .push _
  | ifInt _ | ifSame _ =>
      simp only [effect, hop]
      exact .pop_bind fun _ => .pop_bind fun _ => .pure ()
  | getstatic =>
      rw [hop] at h
      obtain ⟨index, ho⟩ := h
      simp only [effect, hop]
      exact (member_content ho pool).bind fun member => .push _
  | putstatic =>
      rw [hop] at h
      obtain ⟨index, ho⟩ := h
      simp only [effect, hop]
      refine (member_content ho pool).bind fun member => ?_
      refine (fieldKind_content member.descriptor).bind fun kind => ?_
      exact .pop_bind fun _ => .pure ()
  | getfield =>
      rw [hop] at h
      obtain ⟨index, ho⟩ := h
      simp only [effect, hop]
      exact (member_content ho pool).bind fun member => .pop_bind fun _ => .push _
  | putfield =>
      rw [hop] at h
      obtain ⟨index, ho⟩ := h
      simp only [effect, hop]
      refine (member_content ho pool).bind fun member => ?_
      refine (fieldKind_content member.descriptor).bind fun kind => ?_
      exact .pop_bind fun _ => .pop_bind fun _ => .pure ()
  | invoke invocation =>
      rw [hop] at h
      obtain ⟨index, ho⟩ := h
      simp only [effect, hop]
      refine (invokedDescriptor_content ho pool invocation).bind fun descriptor => ?_
      refine (shapeOf_content descriptor).bind fun shape => ?_
      refine (Content.drop _).bind fun _ => ?_
      split
      · exact .push _
      · exact .pure ()
  | new =>
      rw [hop] at h
      obtain ⟨index, ho⟩ := h
      simp only [effect, hop]
      exact (className_content ho pool).bind fun name => .push _
  | newarray =>
      rw [hop] at h
      obtain ⟨code, signature, ho, hcode⟩ := h
      simp only [effect, hop, ho, hcode]
      exact .pop_bind fun _ => .push _
  | anewarray =>
      rw [hop] at h
      obtain ⟨index, ho⟩ := h
      simp only [effect, hop]
      exact (className_content ho pool).bind fun name => .pop_bind fun _ => .push _
  | jsr | jsrW | wide | multianewarray | breakpoint | unassigned _ | impdep1
  | impdep2 =>
      simp only [effect, hop]
      exact .throw Fault.noConfusion

theorem poolIndex_eq_throw (h : ¬ ∃ index, i.operands = .pool index) :
    i.poolIndex = throw .malformedOperands := by
  unfold poolIndex
  split
  · next index ho => exact absurd ⟨index, ho⟩ h
  · rfl

/-- With other operands, an instruction finds fault with them on every stack. -/
theorem effect_of_not_readable (h : ¬ i.Readable) (pool : ConstantPool)
    (locals : LocalVariables) :
    i.effect pool locals = throw .malformedOperands := by
  unfold Readable at h
  cases hop : i.opcode with
  | bipush | sipush | load _ =>
      rw [hop] at h
      simp only [effect, hop]
      split
      · next ho => exact absurd ⟨_, ho⟩ h
      · rfl
  | ldc | ldcW | ldc2W =>
      rw [hop] at h
      simp only [effect, hop, poolIndex_eq_throw h]
      rfl
  | getstatic | putstatic | getfield | putfield =>
      rw [hop] at h
      simp only [effect, hop, member, poolIndex_eq_throw h]
      rfl
  | new | anewarray =>
      rw [hop] at h
      simp only [effect, hop, className, poolIndex_eq_throw h]
      rfl
  | invoke invocation =>
      rw [hop] at h
      simp only [effect, hop, invokedDescriptor, member, poolIndex_eq_throw h]
      split <;> rfl
  | newarray =>
      rw [hop] at h
      simp only [effect, hop]
      split
      · next code ho =>
          split
          · next signature hcode => exact absurd ⟨code, signature, ho, hcode⟩ h
          · rfl
      · rfl
  | _ =>
      rw [hop] at h
      exact absurd trivial h

theorem effect_malformed_iff {values : List StackValue} :
    i.effect pool locals values = .error .malformedOperands ↔ ¬ i.Readable := by
  constructor
  · intro hfault hreadable
    exact hreadable.content pool locals values hfault
  · intro h
    rw [effect_of_not_readable h pool locals]
    rfl

end Instruction

theorem OperandStack.step_malformed_iff {i : Instruction} {pool : ConstantPool}
    {locals : LocalVariables} {stack : OperandStack} :
    (stack.step i pool locals).2 = some .malformedOperands ↔ ¬ i.Readable := by
  have heffect : i.effect pool locals stack.values = .error .malformedOperands ↔
      ¬ i.Readable := Instruction.effect_malformed_iff
  rw [← heffect, step]
  split
  · next h => simp [h]
  · next fault h => simp [h]

/-! ## What is decoded -/

theorem arrayOfTypeCode?_eq_none {code : UInt8} :
    arrayOfTypeCode? code = none ↔ code.toNat < 4 ∨ 11 < code.toNat := by
  unfold arrayOfTypeCode?
  generalize code.toNat = n
  split <;> grind

/-- Whether an instruction goes to one target that it names, or may go there. -/
def Opcode.isBranch : Opcode → Bool
  | .ifZero _ | .ifInt _ | .ifSame _ | .ifNull _ | .goto | .gotoW | .jsr | .jsrW =>
      true
  | _ => false

/-- Whether an instruction chooses among targets. -/
def Opcode.isSwitch : Opcode → Bool
  | .tableswitch | .lookupswitch => true
  | _ => false

section Admitted

variable {i : Instruction} (h : i.opcode.layout.Admits i.operands)

include h

/-- Of what a layout admits, only a type code can be unreadable. -/
theorem readable_of_admitted
    (hcode : ∀ code, i.operands = .elementType code → arrayOfTypeCode? code ≠ none) :
    i.Readable := by
  obtain ⟨offset, opcode, operands⟩ := i
  cases opcode with
  | bipush | sipush =>
      cases operands with
      | literal value => exact ⟨value, rfl⟩
      | _ => cases h
  | load _ =>
      cases operands with
      | slot index => exact ⟨index, rfl⟩
      | _ => cases h
  | ldc | ldcW | ldc2W | getstatic | putstatic | getfield | putfield | new
  | anewarray =>
      cases operands with
      | pool index => exact ⟨index, rfl⟩
      | _ => cases h
  | invoke invocation =>
      cases operands with
      | pool index => exact ⟨index, rfl⟩
      | _ => cases invocation <;> cases h
  | newarray =>
      cases operands with
      | elementType code =>
          obtain ⟨signature, hsome⟩ := Option.ne_none_iff_exists'.1 (hcode code rfl)
          exact ⟨code, signature, rfl, hsome⟩
      | _ => cases h
  | _ => trivial

theorem newarray_of_admitted {code : UInt8} (ho : i.operands = .elementType code) :
    i.opcode = .newarray := by
  obtain ⟨offset, opcode, operands⟩ := i
  obtain rfl : operands = .elementType code := ho
  cases opcode with
  | newarray => rfl
  | invoke invocation => cases invocation <;> cases h
  | _ => cases h

theorem branch_iff_of_admitted :
    (∃ target, i.operands = .branch target) ↔ i.opcode.isBranch = true := by
  obtain ⟨offset, opcode, operands⟩ := i
  constructor
  · rintro ⟨target, ho⟩
    obtain rfl : operands = .branch target := ho
    cases opcode with
    | ifZero _ | ifInt _ | ifSame _ | ifNull _ | goto | gotoW | jsr | jsrW => rfl
    | invoke invocation => cases invocation <;> cases h
    | _ => cases h
  · intro hbranch
    cases opcode with
    | ifZero _ | ifInt _ | ifSame _ | ifNull _ | goto | jsr =>
        exact h.branch (.inl rfl)
    | gotoW | jsrW => exact h.branch (.inr rfl)
    | _ => cases hbranch

theorem switch_iff_of_admitted :
    (∃ targets, i.operands = .switch targets) ↔ i.opcode.isSwitch = true := by
  obtain ⟨offset, opcode, operands⟩ := i
  constructor
  · rintro ⟨targets, ho⟩
    obtain rfl : operands = .switch targets := ho
    cases opcode with
    | tableswitch | lookupswitch => rfl
    | invoke invocation => cases invocation <;> cases h
    | _ => cases h
  · intro hswitch
    cases opcode with
    | tableswitch | lookupswitch =>
        cases operands with
        | switch targets => exact ⟨targets, rfl⟩
        | _ => cases h
    | _ => cases hswitch

end Admitted

theorem Encoded.switch_ne_nil {offset : Nat} {i : Instruction} {bytes : List UInt8}
    (h : Encoded offset i bytes) : i.operands ≠ .switch [] := by
  intro ho
  cases h with
  | plain _ spelled =>
      obtain rfl := ho
      cases spelled
  | wideSlot | wideIncrement => cases ho

/-- What decoding makes of operands is what execution looks for. A decoded instruction
finds fault with its operands only if it is a `newarray` with a type code that stands
for no type, and then on every stack. It has one target exactly if it is a branch, and
a list of targets exactly if it is a switch, and such a list is never empty. -/
theorem operand_shapes_agree {code : List UInt8} {body : List Instruction}
    (h : decode code = .ok body) {i : Instruction} (hi : i ∈ body) :
    (∀ pool locals stack,
      (OperandStack.step stack i pool locals).2 = some .malformedOperands ↔
        i.opcode = .newarray ∧ ∃ type : UInt8, i.operands = .elementType type ∧
          (type.toNat < 4 ∨ 11 < type.toNat)) ∧
    ((∃ target, i.operands = .branch target) ↔ i.opcode.isBranch = true) ∧
    ((∃ first rest, i.operands = .switch (first :: rest)) ↔ i.opcode.isSwitch = true) ∧
    i.operands ≠ .switch [] := by
  have hadmitted := decode_admitted h hi
  have hnonempty : i.operands ≠ .switch [] := by
    obtain ⟨_, _, _, _, _, hencoded⟩ := (Decode.laidOut_of_tile h).exists_encoded hi
    exact hencoded.switch_ne_nil
  refine ⟨fun pool locals stack => ?_, branch_iff_of_admitted hadmitted, ?_, hnonempty⟩
  · rw [OperandStack.step_malformed_iff]
    constructor
    · intro hunreadable
      by_contra hfine
      refine hunreadable (readable_of_admitted hadmitted fun type ho hnone => hfine ?_)
      exact ⟨newarray_of_admitted hadmitted ho, type, ho,
        arrayOfTypeCode?_eq_none.1 hnone⟩
    · rintro ⟨hop, type, ho, hrange⟩ hreadable
      rw [Instruction.Readable, hop] at hreadable
      obtain ⟨other, signature, ho', hsome⟩ := hreadable
      obtain rfl : type = other := Operands.elementType.inj (ho.symm.trans ho')
      rw [arrayOfTypeCode?_eq_none.2 hrange] at hsome
      cases hsome
  · rw [← switch_iff_of_admitted hadmitted]
    constructor
    · rintro ⟨first, rest, ho⟩
      exact ⟨first :: rest, ho⟩
    · rintro ⟨targets, ho⟩
      cases targets with
      | nil => exact absurd ho hnonempty
      | cons first rest => exact ⟨first, rest, ho⟩

/-- An array of a type that there is not, a switch without cases and a wide branch. -/
def oddCode : List UInt8 :=
  [0xbc, 3, 0xab, 0, 0, 0, 0, 10, 0, 0, 0, 0, 0xc8, 0xff, 0xff, 0xff, 0xf4]

def oddBody : List Instruction :=
  [⟨0, .newarray, .elementType 3⟩, ⟨2, .lookupswitch, .switch [12]⟩,
    ⟨12, .gotoW, .branch 0⟩]

/-- The type code is found fault with on every stack, and nothing else is. -/
theorem operand_shapes_agree_odd :
    decode oddCode = .ok oddBody ∧
    (∀ stack, (OperandStack.step stack ⟨0, .newarray, .elementType 3⟩ .empty []).2 =
      some .malformedOperands) ∧
    (∀ stack, (OperandStack.step stack ⟨2, .lookupswitch, .switch [12]⟩ .empty []).2 ≠
      some .malformedOperands) ∧
    ∀ stack, (OperandStack.step stack ⟨12, .gotoW, .branch 0⟩ .empty []).2 ≠
      some .malformedOperands := by
  have hdecode : decode oddCode = .ok oddBody := decode_of_toOption (by decide +kernel)
  obtain ⟨harray, _⟩ :=
    operand_shapes_agree hdecode (i := ⟨0, .newarray, .elementType 3⟩)
    (by simp [oddBody])
  obtain ⟨hswitch, _⟩ := operand_shapes_agree hdecode
    (i := ⟨2, .lookupswitch, .switch [12]⟩) (by simp [oddBody])
  obtain ⟨hbranch, _⟩ := operand_shapes_agree hdecode (i := ⟨12, .gotoW, .branch 0⟩)
    (by simp [oddBody])
  refine ⟨hdecode, fun stack => ?_, fun stack => ?_, fun stack => ?_⟩
  · exact (harray .empty [] stack).2 ⟨rfl, 3, rfl, .inl (by decide)⟩
  · rw [ne_eq, hswitch]
    rintro ⟨hop, _⟩
    cases hop
  · rw [ne_eq, hbranch]
    rintro ⟨hop, _⟩
    cases hop

end ClassAudit
