import ClassAudit.Kind

/-!
# Opcodes

The instruction set has 256 one-byte codes. Most come in families that differ only in
the kind they work on or in a small literal, so `Opcode` has one constructor for each
family and the family's parameters as arguments. Codes that no instruction uses are
kept too: any byte is an opcode.
-/

namespace ClassAudit

inductive ArithmeticOp
  | add
  | sub
  | mul
  | div
  | rem
  deriving DecidableEq, Repr

namespace ArithmeticOp

def all : List ArithmeticOp := [add, sub, mul, div, rem]

def index : ArithmeticOp → Nat
  | add => 0
  | sub => 1
  | mul => 2
  | div => 3
  | rem => 4

def name : ArithmeticOp → String
  | add => "add"
  | sub => "sub"
  | mul => "mul"
  | div => "div"
  | rem => "rem"

end ArithmeticOp

inductive BitwiseOp
  | shl
  | shr
  | ushr
  | and
  | or
  | xor
  deriving DecidableEq, Repr

namespace BitwiseOp

def all : List BitwiseOp := [shl, shr, ushr, and, or, xor]

def index : BitwiseOp → Nat
  | shl => 0
  | shr => 1
  | ushr => 2
  | and => 3
  | or => 4
  | xor => 5

def name : BitwiseOp → String
  | shl => "shl"
  | shr => "shr"
  | ushr => "ushr"
  | and => "and"
  | or => "or"
  | xor => "xor"

/-- Whether the right operand is a distance, which is an `int` whatever is shifted. -/
def isShift : BitwiseOp → Bool
  | shl | shr | ushr => true
  | _ => false

end BitwiseOp

/-- The conversions between numeric kinds, in opcode order. -/
inductive Conversion
  | i2l
  | i2f
  | i2d
  | l2i
  | l2f
  | l2d
  | f2i
  | f2l
  | f2d
  | d2i
  | d2l
  | d2f
  | i2b
  | i2c
  | i2s
  deriving DecidableEq, Repr

namespace Conversion

def all : List Conversion :=
  [i2l, i2f, i2d, l2i, l2f, l2d, f2i, f2l, f2d, d2i, d2l, d2f, i2b, i2c, i2s]

def index : Conversion → Nat
  | i2l => 0
  | i2f => 1
  | i2d => 2
  | l2i => 3
  | l2f => 4
  | l2d => 5
  | f2i => 6
  | f2l => 7
  | f2d => 8
  | d2i => 9
  | d2l => 10
  | d2f => 11
  | i2b => 12
  | i2c => 13
  | i2s => 14

def name : Conversion → String
  | i2l => "i2l"
  | i2f => "i2f"
  | i2d => "i2d"
  | l2i => "l2i"
  | l2f => "l2f"
  | l2d => "l2d"
  | f2i => "f2i"
  | f2l => "f2l"
  | f2d => "f2d"
  | d2i => "d2i"
  | d2l => "d2l"
  | d2f => "d2f"
  | i2b => "i2b"
  | i2c => "i2c"
  | i2s => "i2s"

/-- The kind a conversion takes. -/
def source : Conversion → Kind
  | i2l | i2f | i2d | i2b | i2c | i2s => .int
  | l2i | l2f | l2d => .long
  | f2i | f2l | f2d => .float
  | d2i | d2l | d2f => .double

/-- The signature of what a conversion leaves. -/
def signature : Conversion → String
  | l2i | f2i | d2i => "I"
  | i2l | f2l | d2l => "J"
  | i2f | l2f | d2f => "F"
  | i2d | l2d | f2d => "D"
  | i2b => "B"
  | i2c => "C"
  | i2s => "S"

end Conversion

/-- The three-way comparisons, in opcode order. The two floating forms differ in the
answer they give when an operand is not a number. -/
inductive Comparison
  | lcmp
  | fcmpl
  | fcmpg
  | dcmpl
  | dcmpg
  deriving DecidableEq, Repr

namespace Comparison

def all : List Comparison := [lcmp, fcmpl, fcmpg, dcmpl, dcmpg]

def index : Comparison → Nat
  | lcmp => 0
  | fcmpl => 1
  | fcmpg => 2
  | dcmpl => 3
  | dcmpg => 4

def name : Comparison → String
  | lcmp => "lcmp"
  | fcmpl => "fcmpl"
  | fcmpg => "fcmpg"
  | dcmpl => "dcmpl"
  | dcmpg => "dcmpg"

/-- The kind of both operands. -/
def operandKind : Comparison → Kind
  | lcmp => .long
  | fcmpl | fcmpg => .float
  | dcmpl | dcmpg => .double

end Comparison

/-- The conditions a branch can test, in opcode order. -/
inductive Condition
  | eq
  | ne
  | lt
  | ge
  | gt
  | le
  deriving DecidableEq, Repr

namespace Condition

def all : List Condition := [eq, ne, lt, ge, gt, le]

def index : Condition → Nat
  | eq => 0
  | ne => 1
  | lt => 2
  | ge => 3
  | gt => 4
  | le => 5

def name : Condition → String
  | eq => "eq"
  | ne => "ne"
  | lt => "lt"
  | ge => "ge"
  | gt => "gt"
  | le => "le"

end Condition

/-- The ways to call a method, in opcode order. -/
inductive Invocation
  | virtual
  | special
  | static
  | interface
  | dynamic
  deriving DecidableEq, Repr

namespace Invocation

def all : List Invocation := [virtual, special, static, interface, dynamic]

def index : Invocation → Nat
  | virtual => 0
  | special => 1
  | static => 2
  | interface => 3
  | dynamic => 4

def name : Invocation → String
  | virtual => "virtual"
  | special => "special"
  | static => "static"
  | interface => "interface"
  | dynamic => "dynamic"

/-- Whether the call consumes a receiver below its arguments. -/
def hasReceiver : Invocation → Bool
  | static | dynamic => false
  | _ => true

end Invocation

/-- One instruction code. `ifZero` compares with zero, `ifInt` two integers, and
`ifSame` two references (`true` for equality). -/
inductive Opcode
  | nop
  | aconstNull
  | iconst (shifted : Fin 7)
  | lconst (value : Fin 2)
  | fconst (value : Fin 3)
  | dconst (value : Fin 2)
  | bipush
  | sipush
  | ldc
  | ldcW
  | ldc2W
  | load (kind : Kind)
  | loadFrom (kind : Kind) (slot : Fin 4)
  | arrayLoad (component : Component)
  | store (kind : Kind)
  | storeTo (kind : Kind) (slot : Fin 4)
  | arrayStore (component : Component)
  | pop
  | pop2
  | dup
  | dupX1
  | dupX2
  | dup2
  | dup2X1
  | dup2X2
  | swap
  | arithmetic (op : ArithmeticOp) (kind : NumericKind)
  | negate (kind : NumericKind)
  | bitwise (op : BitwiseOp) (kind : IntegralKind)
  | iinc
  | convert (conversion : Conversion)
  | compare (comparison : Comparison)
  | ifZero (condition : Condition)
  | ifInt (condition : Condition)
  | ifSame (same : Bool)
  | goto
  | jsr
  | ret
  | tableswitch
  | lookupswitch
  | valueReturn (kind : Kind)
  | voidReturn
  | getstatic
  | putstatic
  | getfield
  | putfield
  | invoke (invocation : Invocation)
  | new
  | newarray
  | anewarray
  | arraylength
  | athrow
  | checkcast
  | instanceof
  | monitorenter
  | monitorexit
  | wide
  | multianewarray
  | ifNull (isNull : Bool)
  | gotoW
  | jsrW
  | breakpoint
  | unassigned (position : Fin 51)
  | impdep1
  | impdep2
  deriving DecidableEq, Repr

namespace Opcode

/-- The literal an `iconst` pushes: the seven codes stand for -1 to 5. -/
def iconstValue (shifted : Fin 7) : Int32 := Int32.ofInt (shifted.val - 1)

/-- The name of an instruction in listings and messages. -/
def mnemonic : Opcode → String
  | nop => "nop"
  | aconstNull => "aconst_null"
  | iconst n => if n = 0 then "iconst_m1" else "iconst_" ++ toString (n.val - 1)
  | lconst n => "lconst_" ++ toString n.val
  | fconst n => "fconst_" ++ toString n.val
  | dconst n => "dconst_" ++ toString n.val
  | bipush => "bipush"
  | sipush => "sipush"
  | ldc => "ldc"
  | ldcW => "ldc_w"
  | ldc2W => "ldc2_w"
  | load k => k.letter ++ "load"
  | loadFrom k slot => k.letter ++ "load_" ++ toString slot.val
  | arrayLoad c => c.letter ++ "aload"
  | store k => k.letter ++ "store"
  | storeTo k slot => k.letter ++ "store_" ++ toString slot.val
  | arrayStore c => c.letter ++ "astore"
  | pop => "pop"
  | pop2 => "pop2"
  | dup => "dup"
  | dupX1 => "dup_x1"
  | dupX2 => "dup_x2"
  | dup2 => "dup2"
  | dup2X1 => "dup2_x1"
  | dup2X2 => "dup2_x2"
  | swap => "swap"
  | arithmetic op k => k.toKind.letter ++ op.name
  | negate k => k.toKind.letter ++ "neg"
  | bitwise op k => k.toKind.letter ++ op.name
  | iinc => "iinc"
  | convert c => c.name
  | compare c => c.name
  | ifZero c => "if" ++ c.name
  | ifInt c => "if_icmp" ++ c.name
  | ifSame same => if same then "if_acmpeq" else "if_acmpne"
  | goto => "goto"
  | jsr => "jsr"
  | ret => "ret"
  | tableswitch => "tableswitch"
  | lookupswitch => "lookupswitch"
  | valueReturn k => k.letter ++ "return"
  | voidReturn => "return"
  | getstatic => "getstatic"
  | putstatic => "putstatic"
  | getfield => "getfield"
  | putfield => "putfield"
  | invoke i => "invoke" ++ i.name
  | new => "new"
  | newarray => "newarray"
  | anewarray => "anewarray"
  | arraylength => "arraylength"
  | athrow => "athrow"
  | checkcast => "checkcast"
  | instanceof => "instanceof"
  | monitorenter => "monitorenter"
  | monitorexit => "monitorexit"
  | wide => "wide"
  | multianewarray => "multianewarray"
  | ifNull isNull => if isNull then "ifnull" else "ifnonnull"
  | gotoW => "goto_w"
  | jsrW => "jsr_w"
  | breakpoint => "breakpoint"
  | unassigned _ => "<undefined>"
  | impdep1 => "impdep1"
  | impdep2 => "impdep2"

end Opcode

end ClassAudit
