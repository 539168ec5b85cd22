import ClassAudit.Folding
import ClassAudit.OperandStack.Basic

/-!
# The effect of an instruction

`Instruction.effect` says what each instruction does to the operand stack. Values come
from literals, the constant pool, declared local variables, fields, results of calls
and array components; where all operands of an operation are known, the result is
computed. Instructions that only move control have no effect here. Subroutine calls,
multi-dimensional array creation and codes without a meaning are not supported.
-/

namespace ClassAudit

namespace Instruction

open StackM

/-- The pool index among the operands. -/
def poolIndex (instruction : Instruction) : StackM UInt16 :=
  match instruction.operands with
  | .pool index => return index
  | _ => throw .malformedOperands

/-- The member that the operands refer to. -/
def member (instruction : Instruction) (pool : ConstantPool) : StackM Member := do
  let index ← instruction.poolIndex
  match pool.member? index with
  | some member => return member
  | none => throw (.badPoolEntry index)

/-- The class that the operands refer to. -/
def className (instruction : Instruction) (pool : ConstantPool) : StackM String := do
  let index ← instruction.poolIndex
  match pool.className? index with
  | some name => return name
  | none => throw (.badPoolEntry index)

/-- The kind of a field with this descriptor. -/
def fieldKind (descriptor : String) : StackM Kind :=
  match Kind.ofSignature? descriptor with
  | some kind => return kind
  | none => throw (.badDescriptor descriptor)

/-- What a load from the constant pool pushes. -/
def loadedValue : Loadable → StackValue
  | .constant value => .ofConstant value
  | .classObject _ => .typed "Ljava/lang/Class;"
  | .methodType => .typed "Ljava/lang/invoke/MethodType;"
  | .methodHandle => .typed "Ljava/lang/invoke/MethodHandle;"
  | .dynamic descriptor => .typed descriptor

/-- The value of a local variable: its declared signature if that is of the kind
loaded. -/
def localValue (locals : LocalVariables) (kind : Kind) (slot : UInt16) (offset : Nat) :
    StackValue :=
  let declared := (locals.signatureAt? slot offset).filter fun signature =>
    Kind.ofSignature? signature == some kind
  .typed (declared.getD kind.signature)

/-- The value of an array component: the array's own component signature if that is of
the kind loaded. -/
def componentValue (component : Component) (array : StackValue) : StackValue :=
  match array.signature.toList with
  | '[' :: element =>
    let element := String.ofList element
    if Kind.ofSignature? element = some component.toKind then .typed element
    else .typed component.signature
  | _ => .typed component.signature

/-- The descriptor of the method that an invocation calls. -/
def invokedDescriptor (instruction : Instruction) (pool : ConstantPool)
    (invocation : Invocation) : StackM String := do
  if invocation = .dynamic then
    let index ← instruction.poolIndex
    match pool.dynamicDescriptor? index with
    | some descriptor => return descriptor
    | none => throw (.badPoolEntry index)
  else
    return (← instruction.member pool).descriptor

/-- The shape of the method with this descriptor. -/
def shapeOf (descriptor : String) : StackM MethodShape :=
  match MethodShape.ofDescriptor descriptor with
  | .ok shape => return shape
  | .error _ => throw (.badDescriptor descriptor)

/-- What an instruction does to the values on the stack. -/
def effect (instruction : Instruction) (pool : ConstantPool)
    (locals : LocalVariables) : StackM Unit :=
  match instruction.opcode with
  | .nop | .goto | .gotoW | .ret | .voidReturn | .iinc | .athrow | .checkcast => return
  | .aconstNull => push .null
  | .iconst n => push (.ofConstant (.int (Opcode.iconstValue n)))
  | .lconst n => push (.ofConstant (.long (.ofNat n.val)))
  | .fconst n => push (.ofConstant (.float (.ofNat n.val)))
  | .dconst n => push (.ofConstant (.double (.ofNat n.val)))
  | .bipush | .sipush =>
    match instruction.operands with
    | .literal value => push (.ofConstant (.int value))
    | _ => throw .malformedOperands
  | .ldc | .ldcW | .ldc2W => do
    let index ← instruction.poolIndex
    match pool.loadable? index with
    | some loadable => push (loadedValue loadable)
    | none => throw (.badPoolEntry index)
  | .load kind =>
    match instruction.operands with
    | .slot index => push (localValue locals kind index instruction.offset)
    | _ => throw .malformedOperands
  | .loadFrom kind slot =>
    push (localValue locals kind (UInt16.ofNat slot.val) instruction.offset)
  | .arrayLoad component => do
    let _ ← popKind .int
    let array ← popKind .reference
    push (componentValue component array)
  | .store kind | .storeTo kind _ | .valueReturn kind => do
    let _ ← popKind kind
  | .arrayStore component => do
    let _ ← popKind component.toKind
    let _ ← popKind .int
    let _ ← popKind .reference
  | .pop => do
    let _ ← pop
  | .pop2 => do drop (← pairAt 0)
  | .dup => duplicate 1 0
  | .dupX1 => duplicate 1 1
  | .dupX2 => do duplicate 1 (← pairAt 1)
  | .dup2 => do duplicate (← pairAt 0) 0
  | .dup2X1 => do duplicate (← pairAt 0) 1
  | .dup2X2 => do
    let copied ← pairAt 0
    let skipped ← pairAt copied
    duplicate copied skipped
  | .swap => exchange
  | .arithmetic op kind => do
    let right ← popKind kind.toKind
    let left ← popKind kind.toKind
    pushFolded kind.toKind.signature (Folding.arithmetic op kind left right)
  | .negate kind => do
    let value ← popKind kind.toKind
    pushFolded kind.toKind.signature (value.constant?.bind Folding.negate)
  | .bitwise op kind => do
    let right ← popKind (if op.isShift then .int else kind.toKind)
    let left ← popKind kind.toKind
    pushFolded kind.toKind.signature (Folding.bitwise op kind left right)
  | .convert conversion => do
    let value ← popKind conversion.source
    pushFolded conversion.signature (value.constant?.bind (Folding.convert conversion))
  | .compare comparison => do
    let right ← popKind comparison.operandKind
    let left ← popKind comparison.operandKind
    pushFolded "I" (Folding.compare comparison left right)
  | .ifZero _ | .tableswitch | .lookupswitch => do
    let _ ← popKind .int
  | .ifInt _ => do
    let _ ← popKind .int
    let _ ← popKind .int
  | .ifSame _ => do
    let _ ← popKind .reference
    let _ ← popKind .reference
  | .ifNull _ | .monitorenter | .monitorexit => do
    let _ ← popKind .reference
  | .getstatic => do
    let member ← instruction.member pool
    push (.typed member.descriptor)
  | .putstatic => do
    let member ← instruction.member pool
    let _ ← popKind (← fieldKind member.descriptor)
  | .getfield => do
    let member ← instruction.member pool
    let _ ← popKind .reference
    push (.typed member.descriptor)
  | .putfield => do
    let member ← instruction.member pool
    let _ ← popKind (← fieldKind member.descriptor)
    let _ ← popKind .reference
  | .invoke invocation => do
    let shape ← shapeOf (← instruction.invokedDescriptor pool invocation)
    drop (shape.arity + if invocation.hasReceiver then 1 else 0)
    match shape.result with
    | some signature => push (.typed signature)
    | none => return
  | .new => do
    let name ← instruction.className pool
    push (.typed (signatureOfName name))
  | .newarray =>
    match instruction.operands with
    | .elementType code =>
      match arrayOfTypeCode? code with
      | some signature => do
        let _ ← popKind .int
        push (.typed signature)
      | none => throw .malformedOperands
    | _ => throw .malformedOperands
  | .anewarray => do
    let name ← instruction.className pool
    let _ ← popKind .int
    push (.typed ("[" ++ signatureOfName name))
  | .arraylength | .instanceof => do
    let _ ← popKind .reference
    push (.typed "I")
  | .jsr | .jsrW | .wide | .multianewarray | .breakpoint | .unassigned _ | .impdep1
  | .impdep2 =>
    throw .unsupported

end Instruction

namespace OperandStack

/-- The stack after an instruction, and the fault if there was one. A stack that failed
stays marked so even when later instructions succeed. -/
def step (stack : OperandStack) (instruction : Instruction) (pool : ConstantPool)
    (locals : LocalVariables) : OperandStack × Option Fault :=
  match instruction.effect pool locals stack.values with
  | .ok (_, values) => ({ stack with values }, none)
  | .error fault => (failed, some fault)

end OperandStack

end ClassAudit
