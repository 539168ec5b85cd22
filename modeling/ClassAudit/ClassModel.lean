import ClassAudit.ConstantPool
import ClassAudit.Instruction.Basic

/-!
# Classes and methods

What analysis keeps of a class: its place in the hierarchy, its constant pool, and the
decoded bodies of its methods with their exception tables and declared local variables.
-/

namespace ClassAudit

/-- A declared local variable: its slot holds a value of this signature while control
is inside a range of the body. -/
structure LocalVariable where
  start : Nat
  length : Nat
  name : String
  signature : String
  slot : UInt16
  deriving DecidableEq, Repr

/-- The first offset behind the range of a declaration. Offsets have 32 bits, and a
range that would leave them ends at the last one. -/
def LocalVariable.stop (declaration : LocalVariable) : Nat :=
  min (declaration.start + declaration.length) (UInt32.size - 1)

/-- Whether a declaration covers an offset. -/
def LocalVariable.covers (declaration : LocalVariable) (offset : Nat) : Bool :=
  declaration.start ≤ offset && offset < declaration.stop

/-- The local variables a method declares; empty when the class was compiled without
them. -/
abbrev LocalVariables := List LocalVariable

/-- The declared signature of a slot at an offset. The first declaration that covers it
counts. -/
def LocalVariables.signatureAt? (locals : LocalVariables) (slot : UInt16)
    (offset : Nat) : Option String :=
  (locals.find? fun declaration =>
    declaration.slot == slot && declaration.covers offset).map
    LocalVariable.signature

/-- One row of an exception table. Without a catch type every throwable is caught. -/
structure ExceptionHandler where
  start : Nat
  stop : Nat
  entry : Nat
  catchType : Option String
  deriving DecidableEq, Repr

/-- A method with its decoded body; abstract methods have an empty one. -/
structure Method where
  name : String
  descriptor : String
  body : List Instruction
  handlers : List ExceptionHandler
  locals : LocalVariables
  deriving DecidableEq, Repr

/-- A class as analysis sees it, and the position of the artifact it was read from. -/
structure ClassModel where
  name : String
  superclass : Option String
  interfaces : List String
  isInterface : Bool
  pool : ConstantPool
  methods : List Method
  artifact : Int

end ClassAudit
