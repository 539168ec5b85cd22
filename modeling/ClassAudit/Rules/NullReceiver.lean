import ClassAudit.Rules.Finding
import ClassAudit.Walk

/-!
# Null receivers

Reading or writing a field, calling a method, throwing, locking and taking a length all
need an object. On the null literal they always throw.
-/

namespace ClassAudit.NullReceiver

/-- The member that the operands of an instruction refer to. -/
def memberOf? (instruction : Instruction) (pool : ConstantPool) : Option Member :=
  match instruction.operands with
  | .pool index => pool.member? index
  | _ => none

/-- How far below the top the dereferenced value lies. A call finds its receiver below
all arguments. -/
def receiverDepth? (instruction : Instruction) (pool : ConstantPool) : Option Nat :=
  match instruction.opcode with
  | .getfield | .arraylength | .athrow | .monitorenter => some 0
  | .putfield => some 1
  | .invoke .virtual | .invoke .interface => do
    let member ← memberOf? instruction pool
    let shape ← (MethodShape.ofDescriptor member.descriptor).toOption
    return shape.arity
  | _ => none

/-- The finding at one stop of a walk. -/
def check (pool : ConstantPool) (visit : Visit) : Option MethodFinding := do
  let depth ← receiverDepth? visit.instruction pool
  let receiver ← visit.stack.itemAt? depth
  if receiver.isNull then
    some ⟨visit.instruction.offset,
      .nullDereference visit.instruction.opcode (memberOf? visit.instruction pool)⟩
  else none

end ClassAudit.NullReceiver
