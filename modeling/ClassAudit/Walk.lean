import ClassAudit.ControlFlow
import ClassAudit.Event
import ClassAudit.OperandStack.Step

/-!
# Walking a method

A walk goes through a body in the order of its instructions and notes the operand stack
before each one. Nothing is known where control can arrive from more than one place, so
the stack starts afresh at every block, and at the entry of a handler it holds the
caught exception.
-/

namespace ClassAudit

/-- One stop of a walk: an instruction, the stack before it, and the fault it
raised. -/
structure Visit where
  instruction : Instruction
  stack : OperandStack
  fault : Option Fault

namespace Method

/-- The stack with which a walk arrives at an offset, given the one it brings along. -/
def arrive (leaders : Std.TreeSet Nat) (entries : Std.TreeMap Nat (Option String))
    (stack : OperandStack) (offset : Nat) : OperandStack :=
  match entries[offset]? with
  | some catchType => .caught catchType
  | none => if offset ≠ 0 ∧ offset ∈ leaders then .fresh else stack

/-- The stops of a walk through the rest of a body. -/
def visitsFrom (leaders : Std.TreeSet Nat) (entries : Std.TreeMap Nat (Option String))
    (pool : ConstantPool) (locals : LocalVariables) (stack : OperandStack) :
    List Instruction → List Visit
  | [] => []
  | instruction :: rest =>
    let before := arrive leaders entries stack instruction.offset
    let (after, fault) := before.step instruction pool locals
    ⟨instruction, before, fault⟩ :: visitsFrom leaders entries pool locals after rest

/-- The stops of a walk through a method of a class with the given pool. -/
def visits (method : Method) (pool : ConstantPool) : List Visit :=
  visitsFrom (blockLeaders method.body) (handlerEntries method.handlers) pool
    method.locals .fresh
    method.body

end Method

/-- The event of a stop, if its instruction raised a fault. -/
def Visit.event? (visit : Visit) : Option Event :=
  visit.fault.map (.stackCleared visit.instruction)

/-- The events of a walk. -/
def walkEvents (visits : List Visit) : List Event := visits.filterMap Visit.event?

end ClassAudit
