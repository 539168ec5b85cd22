import ClassAudit.ClassModel
import ClassAudit.Descriptor

/-!
# The operand stack

A stack of `StackValue`s, the top first, stands for what is known of the machine's
operand stack at one point of a method. Operations on it either succeed or end in a
`Fault`. They are written in `StackM`, which threads the values through and stops at
the first fault.

A fault never leaves the analysis: `OperandStack.failed` has no values, so that nothing
stale is ever shown, and remembers that it did until the next fresh start.
-/

namespace ClassAudit

/-- Why the effect of an instruction is not known. -/
inductive Fault
  | underflow (needed available : Nat)
  | kindMismatch (expected : Kind) (found : String)
  | unsupported
  | malformedOperands
  | badPoolEntry (index : UInt16)
  | badDescriptor (descriptor : String)
  deriving DecidableEq, Repr

/-- The message of a fault raised by an instruction. -/
def Fault.message (instruction : Instruction) (fault : Fault) : String :=
  let mnemonic := instruction.opcode.mnemonic
  match fault with
  | underflow needed available =>
    mnemonic ++ " needs " ++ toString needed
      ++ " stack values but only " ++ toString available
      ++ " are present"
  | kindMismatch expected found =>
    mnemonic ++ " expected a " ++ expected.name ++ " operand but found " ++ found
  | unsupported =>
    "unsupported opcode " ++ mnemonic ++ " (0x"
      ++ Text.hexPadded 2 instruction.opcode.toNat ++ ")"
  | malformedOperands =>
    mnemonic ++ " has malformed operands " ++ instruction.operands.describe
  | badPoolEntry index =>
    mnemonic ++ " refers to unusable constant pool entry #" ++ toString index.toNat
  | badDescriptor descriptor =>
    mnemonic ++ " refers to invalid descriptor " ++ descriptor

/-- Computations that read and change the values on the stack, the top first. -/
abbrev StackM := StateT (List StackValue) (Except Fault)

namespace StackM

/-- Faults unless at least this many values are present. -/
def require (needed : Nat) : StackM Unit := fun values =>
  if values.length < needed then .error (.underflow needed values.length)
  else .ok ((), values)

def push (value : StackValue) : StackM Unit := fun values => .ok ((), value :: values)

def pop : StackM StackValue := fun values =>
  match values with
  | value :: rest => .ok (value, rest)
  | [] => .error (.underflow 1 0)

/-- Pops a value that has to be of the given kind. -/
def popKind (expected : Kind) : StackM StackValue := do
  let value ← pop
  if value.kind? = some expected then return value
  else throw (.kindMismatch expected value.signature)

/-- Drops this many values, which have to be present. -/
def drop (count : Nat) : StackM Unit := do
  require count
  modify (List.drop count)

/-- Whether the value this far below the top fills two machine slots. -/
def wideAt (depth : Nat) : StackM Bool := do
  require (depth + 1)
  return ((← get)[depth]?).any StackValue.isWide

/-- How many values make up two machine slots, this far below the top: one wide value
or two others. -/
def pairAt (depth : Nat) : StackM Nat := return if ← wideAt depth then 1 else 2

/-- Copies the top `copied` values to below the `skipped` values under them. -/
def duplicate (copied skipped : Nat) : StackM Unit := do
  require (copied + skipped)
  modify fun values =>
    values.take (copied + skipped)
      ++ (values.take copied ++ values.drop (copied + skipped))

/-- Exchanges the top two values. -/
def exchange : StackM Unit := do
  require 2
  modify fun values =>
    match values with
    | first :: second :: rest => second :: first :: rest
    | _ => values

/-- Pushes a constant under a signature if there is one that fits, else a value of that
signature. -/
def pushFolded (signature : String) (folded : Option Constant) : StackM Unit :=
  push ((folded.bind (StackValue.withConstant? signature)).getD (.typed signature))

end StackM

/-- The operand stack of a method walk: its values, the top first, and whether they are
all the values since the last fresh start. -/
structure OperandStack where
  values : List StackValue
  valid : Bool

namespace OperandStack

/-- An empty stack of which everything is known. -/
def fresh : OperandStack := ⟨[], true⟩

def depth (stack : OperandStack) : Nat := stack.values.length

/-- The value this far below the top. -/
def itemAt? (stack : OperandStack) (depth : Nat) : Option StackValue :=
  stack.values[depth]?

/-- The stack at the entry of an exception handler: only the caught exception. -/
def caught (catchType : Option String) : OperandStack :=
  let signature := match catchType with
    | some name => signatureOfName name
    | none => "Ljava/lang/Throwable;"
  ⟨[.typed signature], true⟩

/-- The stack after an instruction whose effect is not known. -/
def failed : OperandStack := ⟨[], false⟩

end OperandStack

end ClassAudit
