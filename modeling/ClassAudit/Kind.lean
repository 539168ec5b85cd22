/-!
# Value kinds

The operand stack tells five kinds of value apart. A field signature names its kind by
its first character: the narrow integer types all compute as `int`, and every class or
array is a reference. A `long` or a `double` fills two machine slots but is one value
here.
-/

namespace ClassAudit

/-- What the operand stack can tell about a value without knowing its class. The order
is the one in which typed opcodes are numbered. -/
inductive Kind
  | int
  | long
  | float
  | double
  | reference
  deriving DecidableEq, Repr

/-- The signature of `java.lang.Object`. -/
def objectSignature : String := "Ljava/lang/Object;"

/-- The signature of `java.lang.String`. -/
def stringSignature : String := "Ljava/lang/String;"

namespace Kind

/-- Every kind, in opcode order. -/
def all : List Kind := [int, long, float, double, reference]

/-- The position of a kind in opcode order. -/
def index : Kind → Nat
  | int => 0
  | long => 1
  | float => 2
  | double => 3
  | reference => 4

/-- The letter a typed mnemonic starts with. -/
def letter : Kind → String
  | int => "i"
  | long => "l"
  | float => "f"
  | double => "d"
  | reference => "a"

/-- The name used in messages. -/
def name : Kind → String
  | int => "Int"
  | long => "Long"
  | float => "Float"
  | double => "Double"
  | reference => "Reference"

/-- Whether values of this kind fill two machine slots. -/
def isWide : Kind → Bool
  | long | double => true
  | _ => false

/-- The most general signature of a kind. -/
def signature : Kind → String
  | int => "I"
  | long => "J"
  | float => "F"
  | double => "D"
  | reference => objectSignature

/-- The kind a signature starting with this character has. -/
def ofLead? : Char → Option Kind
  | 'I' | 'B' | 'C' | 'S' | 'Z' => some int
  | 'J' => some long
  | 'F' => some float
  | 'D' => some double
  | 'L' | '[' => some reference
  | _ => none

/-- The kind of a signature, decided by its first character alone. There is none for
`V` and for text that starts like no field type. -/
def ofSignature? (signature : String) : Option Kind :=
  signature.toList.head?.bind ofLead?

end Kind

/-- The kinds that carry arithmetic, in opcode order. -/
inductive NumericKind
  | int
  | long
  | float
  | double
  deriving DecidableEq, Repr

namespace NumericKind

def all : List NumericKind := [int, long, float, double]

def index : NumericKind → Nat
  | int => 0
  | long => 1
  | float => 2
  | double => 3

def toKind : NumericKind → Kind
  | int => .int
  | long => .long
  | float => .float
  | double => .double

end NumericKind

/-- The kinds that carry shifts and bitwise operations, in opcode order. -/
inductive IntegralKind
  | int
  | long
  deriving DecidableEq, Repr

namespace IntegralKind

def all : List IntegralKind := [int, long]

def index : IntegralKind → Nat
  | int => 0
  | long => 1

def toKind : IntegralKind → Kind
  | int => .int
  | long => .long

end IntegralKind

/-- The component types that array loads and stores tell apart, in opcode order. Bytes
and booleans share one opcode. -/
inductive Component
  | int
  | long
  | float
  | double
  | reference
  | byte
  | char
  | short
  deriving DecidableEq, Repr

namespace Component

def all : List Component := [int, long, float, double, reference, byte, char, short]

def index : Component → Nat
  | int => 0
  | long => 1
  | float => 2
  | double => 3
  | reference => 4
  | byte => 5
  | char => 6
  | short => 7

def letter : Component → String
  | int => "i"
  | long => "l"
  | float => "f"
  | double => "d"
  | reference => "a"
  | byte => "b"
  | char => "c"
  | short => "s"

/-- The kind of a component once it is on the stack. -/
def toKind : Component → Kind
  | long => .long
  | float => .float
  | double => .double
  | reference => .reference
  | int | byte | char | short => .int

/-- The signature of a component when the array itself says nothing better. -/
def signature : Component → String
  | int => "I"
  | long => "J"
  | float => "F"
  | double => "D"
  | reference => objectSignature
  | byte => "B"
  | char => "C"
  | short => "S"

end Component

end ClassAudit
