import ClassAudit.Rules.Finding
import ClassAudit.Walk

/-!
# Division by constant zero

An integer division or remainder whose divisor is known to be zero always throws.
-/

namespace ClassAudit.DivideByZero

/-- Whether an opcode divides integers. Dividing floating point numbers by zero is
harmless. -/
def divides : Opcode → Bool
  | .arithmetic .div .int | .arithmetic .rem .int => true
  | .arithmetic .div .long | .arithmetic .rem .long => true
  | _ => false

/-- Whether a value is known to be an integral zero. -/
def isZero (value : StackValue) : Bool := value.int? == some 0 || value.long? == some 0

/-- The finding at one stop of a walk. -/
def check (visit : Visit) : Option MethodFinding :=
  if divides visit.instruction.opcode && (visit.stack.itemAt? 0).any isZero then
    some ⟨visit.instruction.offset, .zeroDivisor visit.instruction.opcode⟩
  else none

end ClassAudit.DivideByZero
