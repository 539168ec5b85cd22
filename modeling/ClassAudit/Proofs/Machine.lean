import ClassAudit.ControlFlow
import ClassAudit.Proofs.ExactArithmetic
import ClassAudit.Proofs.MethodType

/-!
# The machine that a walk describes

A walk shows what is known of the operand stack. This file has the stack it is
known of: the concrete values, what each instruction does with them, and where
control goes.

A state is an offset and a stack, the top first, with a `long` or a `double` as
one entry. Local variables, fields and arrays are not part of it. An instruction
that reads one of them may push any value of the declared kind, which allows
more runs than any heap would; everything said about all runs here is thereby
said about those of a real machine. Constants, arithmetic, conversions and
comparisons are exact. `Yields` has one rule for each family of instructions, in
the form of a manual page: operands consumed, top first, and results left. An
instruction whose operands have the wrong kinds has no rule and is stuck, and so
is one that only throws: dividing by zero, or needing an object and finding
null.

Control is a second relation, `Flow`, and the machine goes along its edges
(`Goes`). A conditional branch goes to its target or on, a switch to one of its
targets, a subroutine ends behind any call of one. And any instruction may raise
an exception instead, which enters a handler with nothing on the stack but what
was thrown.
-/

namespace ClassAudit

namespace Machine

/-- What a reference refers to. A string is told apart by its text, anything
else by which object it is. -/
inductive Reference
  | null
  | string (text : String)
  | object (identity : Nat)
  deriving DecidableEq

/-- One entry of the operand stack. The return address that a subroutine call
leaves is named by the offset of that call. -/
inductive Value
  | int (value : Int32)
  | long (value : Int64)
  | float (value : Float32)
  | double (value : Float)
  | reference (value : Reference)
  | address (origin : Nat)
  deriving DecidableEq

namespace Value

/-- The kind of a value. A return address has none: apart from moving it on the
stack, it can only be stored. -/
def kind? : Value → Option Kind
  | int _ => some .int
  | long _ => some .long
  | float _ => some .float
  | double _ => some .double
  | reference _ => some .reference
  | address _ => none

/-- Whether a value fills two machine slots. -/
def isWide (value : Value) : Bool := value.kind?.any Kind.isWide

end Value

end Machine

open Machine

/-- The value that a constant stands for. -/
def Constant.value : Constant → Value
  | int value => .int value
  | long value => .long value
  | float value => .float value
  | double value => .double value
  | string text => .reference (.string text)

/-- Whether every descriptor of a pool spells a field or a method type, with no
`)` in the result of a method. -/
structure ConstantPool.WellFormed (pool : ConstantPool) : Prop where
  member : ∀ index member, pool.member? index = some member →
    (∃ type : JavaType, type.IsField ∧ member.descriptor = type.signature) ∨
      ∃ type : MethodType, type.WellFormed ∧ ')' ∉ type.resultText ∧
        member.descriptor = type.descriptor
  invokeDynamic : ∀ index descriptor,
    pool.dynamicDescriptor? index = some descriptor →
      ∃ type : MethodType, type.WellFormed ∧ ')' ∉ type.resultText ∧
        descriptor = type.descriptor
  dynamic : ∀ index descriptor,
    pool.loadable? index = some (.dynamic descriptor) →
      ∃ type : JavaType, type.IsField ∧ descriptor = type.signature

namespace Machine

/-! ## Computing -/

def floatArithmetic (op : ArithmeticOp) (a b : Float32) : Float32 :=
  match op with
  | .add => a + b
  | .sub => a - b
  | .mul => a * b
  | .div => a / b
  | .rem => Floating.rem32 a b

def doubleArithmetic (op : ArithmeticOp) (a b : Float) : Float :=
  match op with
  | .add => a + b
  | .sub => a - b
  | .mul => a * b
  | .div => a / b
  | .rem => Floating.rem64 a b

/-- `left op right`. Integers are computed exactly and reduced into their range;
dividing one by zero has no result. -/
def arithmetic (op : ArithmeticOp) : Value → Value → Option Value
  | .int a, .int b =>
    (Exact.arithmetic op a.toInt b.toInt).map fun n => .int (.ofInt n)
  | .long a, .long b =>
    (Exact.arithmetic op a.toInt b.toInt).map fun n => .long (.ofInt n)
  | .float a, .float b => some (.float (floatArithmetic op a b))
  | .double a, .double b => some (.double (doubleArithmetic op a b))
  | _, _ => none

def negate : Value → Option Value
  | .int a => some (.int (.ofInt (-a.toInt)))
  | .long a => some (.long (.ofInt (-a.toInt)))
  | .float a => some (.float (-a))
  | .double a => some (.double (-a))
  | _ => none

/-- Shifts and bitwise operations. The distance of a shift is an `int`. -/
def bitwise (op : BitwiseOp) : Value → Value → Option Value
  | .int a, .int b => some (.int (.ofInt (Exact.bitwise 32 op a.toInt b.toInt)))
  | .long a, .int b =>
    if op.isShift then
      some (.long (.ofInt (Exact.bitwise 64 op a.toInt b.toInt)))
    else none
  | .long a, .long b =>
    if op.isShift then none
    else some (.long (.ofInt (Exact.bitwise 64 op a.toInt b.toInt)))
  | _, _ => none

/-- Conversions. Integers keep their value modulo the size of what they become;
a floating point number goes to the nearest integer toward zero that there
is. -/
def convert : Conversion → Value → Option Value
  | .i2l, .int a => some (.long (.ofInt a.toInt))
  | .i2f, .int a => some (.float a.toFloat32)
  | .i2d, .int a => some (.double a.toFloat)
  | .i2b, .int a => some (.int (.ofInt (a.toInt.bmod 256)))
  | .i2c, .int a => some (.int (.ofInt (a.toInt % 65536)))
  | .i2s, .int a => some (.int (.ofInt (a.toInt.bmod 65536)))
  | .l2i, .long a => some (.int (.ofInt a.toInt))
  | .l2f, .long a => some (.float a.toFloat32)
  | .l2d, .long a => some (.double a.toFloat)
  | .f2i, .float a => some (.int a.toInt32)
  | .f2l, .float a => some (.long a.toInt64)
  | .f2d, .float a => some (.double a.toFloat)
  | .d2i, .double a => some (.int a.toInt32)
  | .d2l, .double a => some (.long a.toInt64)
  | .d2f, .double a => some (.float a.toFloat32)
  | _, _ => none

/-- The answer of a floating comparison; `unordered` is the one for operands that
are not both numbers. -/
def ordering (less same greater : Bool) (unordered : Int32) : Value :=
  .int (if less then -1 else if same then 0 else if greater then 1 else unordered)

def compare : Comparison → Value → Value → Option Value
  | .lcmp, .long a, .long b => some (.int (.ofInt (a.toInt - b.toInt).sign))
  | .fcmpl, .float a, .float b => some (ordering (a < b) (a == b) (b < a) (-1))
  | .fcmpg, .float a, .float b => some (ordering (a < b) (a == b) (b < a) 1)
  | .dcmpl, .double a, .double b => some (ordering (a < b) (a == b) (b < a) (-1))
  | .dcmpg, .double a, .double b => some (ordering (a < b) (a == b) (b < a) 1)
  | _, _, _ => none

/-! ## What an instruction refers to -/

/-- The type of the field that an instruction names. -/
def FieldOf (pool : ConstantPool) (i : Instruction) (type : JavaType) : Prop :=
  type.IsField ∧ ∃ index member, i.operands = .pool index ∧
    pool.member? index = some member ∧ member.descriptor = type.signature

/-- The type of the method that an instruction calls. -/
def CalleeOf (pool : ConstantPool) (i : Instruction) (invocation : Invocation)
    (type : MethodType) : Prop :=
  type.WellFormed ∧ ∃ index, i.operands = .pool index ∧
    if invocation = .dynamic then
      pool.dynamicDescriptor? index = some type.descriptor
    else ∃ member, pool.member? index = some member ∧
      member.descriptor = type.descriptor

/-- Whether an instruction names a class. -/
def NamesClass (pool : ConstantPool) (i : Instruction) : Prop :=
  ∃ index name, i.operands = .pool index ∧ pool.className? index = some name

/-- The values that a load from the pool can push. -/
inductive Loads : Loadable → Value → Prop
  | constant (constant : Constant) : Loads (.constant constant) constant.value
  | classObject (name : String) (r : Reference) :
    Loads (.classObject name) (.reference r)
  | methodType (r : Reference) : Loads .methodType (.reference r)
  | methodHandle (r : Reference) : Loads .methodHandle (.reference r)
  | dynamic {type : JavaType} {v : Value} (hfield : type.IsField)
    (hkind : v.kind? = type.kind?) : Loads (.dynamic type.signature) v

/-- The values that fill two machine slots: a wide one or two others. -/
inductive Pair : List Value → Prop
  | wide {v : Value} (h : v.isWide = true) : Pair [v]
  | narrow {v w : Value} (hv : v.isWide = false) (hw : w.isWide = false) :
    Pair [v, w]

/-- What a call finds below its arguments. -/
def receivers (invocation : Invocation) (r : Reference) : List Value :=
  if invocation.hasReceiver then [.reference r] else []

/-! ## Completing an instruction -/

/-- An instruction completes: it consumes the first list of values from the
stack and leaves the second in their place. Both have the top first. -/
inductive Yields (pool : ConstantPool) (i : Instruction) :
    List Value → List Value → Prop
  | idle (h : i.opcode ∈ [.nop, .iinc, .goto, .gotoW, .ret]) : Yields pool i [] []
  | null (h : i.opcode = .aconstNull) : Yields pool i [] [.reference .null]
  | iconst {n : Fin 7} (h : i.opcode = .iconst n) :
    Yields pool i [] [.int (.ofInt (n.val - 1))]
  | lconst {n : Fin 2} (h : i.opcode = .lconst n) :
    Yields pool i [] [.long (.ofNat n.val)]
  | fconst {n : Fin 3} (h : i.opcode = .fconst n) :
    Yields pool i [] [.float (.ofNat n.val)]
  | dconst {n : Fin 2} (h : i.opcode = .dconst n) :
    Yields pool i [] [.double (.ofNat n.val)]
  | literal {value : Int32} (h : i.opcode ∈ [.bipush, .sipush])
    (ho : i.operands = .literal value) : Yields pool i [] [.int value]
  | ldc {index : UInt16} {loadable : Loadable} {v : Value}
    (h : i.opcode ∈ [.ldc, .ldcW, .ldc2W]) (ho : i.operands = .pool index)
    (hpool : pool.loadable? index = some loadable) (hv : Loads loadable v)
    (hwide : v.isWide = decide (i.opcode = .ldc2W)) : Yields pool i [] [v]
  | load {kind : Kind} {v : Value}
    (h : i.opcode = .load kind ∨ ∃ slot, i.opcode = .loadFrom kind slot)
    (hv : v.kind? = some kind) : Yields pool i [] [v]
  | arrayLoad {component : Component} {n : Int32} {array : Reference} {v : Value}
    (h : i.opcode = .arrayLoad component) (hnull : array ≠ .null)
    (hv : v.kind? = some component.toKind) :
    Yields pool i [.int n, .reference array] [v]
  | store {kind : Kind} {v : Value}
    (h : i.opcode = .store kind ∨ ∃ slot, i.opcode = .storeTo kind slot)
    (hv : v.kind? = some kind ∨ kind = .reference ∧ v.kind? = none) :
    Yields pool i [v] []
  | arrayStore {component : Component} {n : Int32} {array : Reference} {v : Value}
    (h : i.opcode = .arrayStore component) (hnull : array ≠ .null)
    (hv : v.kind? = some component.toKind) :
    Yields pool i [v, .int n, .reference array] []
  | pop {v : Value} (h : i.opcode = .pop) (hv : v.isWide = false) :
    Yields pool i [v] []
  | pop2 {vs : List Value} (h : i.opcode = .pop2) (hvs : Pair vs) :
    Yields pool i vs []
  | dup {v : Value} (h : i.opcode = .dup) (hv : v.isWide = false) :
    Yields pool i [v] [v, v]
  | dupX1 {v w : Value} (h : i.opcode = .dupX1) (hv : v.isWide = false)
    (hw : w.isWide = false) : Yields pool i [v, w] [v, w, v]
  | dupX2 {v : Value} {ws : List Value} (h : i.opcode = .dupX2)
    (hv : v.isWide = false) (hws : Pair ws) :
    Yields pool i ([v] ++ ws) ([v] ++ ws ++ [v])
  | dup2 {vs : List Value} (h : i.opcode = .dup2) (hvs : Pair vs) :
    Yields pool i vs (vs ++ vs)
  | dup2X1 {vs : List Value} {w : Value} (h : i.opcode = .dup2X1)
    (hvs : Pair vs) (hw : w.isWide = false) :
    Yields pool i (vs ++ [w]) (vs ++ [w] ++ vs)
  | dup2X2 {vs ws : List Value} (h : i.opcode = .dup2X2) (hvs : Pair vs)
    (hws : Pair ws) : Yields pool i (vs ++ ws) (vs ++ ws ++ vs)
  | swap {v w : Value} (h : i.opcode = .swap) (hv : v.isWide = false)
    (hw : w.isWide = false) : Yields pool i [v, w] [w, v]
  | arithmetic {op : ArithmeticOp} {kind : NumericKind} {l r v : Value}
    (h : i.opcode = .arithmetic op kind) (hl : l.kind? = some kind.toKind)
    (hv : arithmetic op l r = some v) : Yields pool i [r, l] [v]
  | negate {kind : NumericKind} {a v : Value} (h : i.opcode = .negate kind)
    (ha : a.kind? = some kind.toKind) (hv : negate a = some v) :
    Yields pool i [a] [v]
  | bitwise {op : BitwiseOp} {kind : IntegralKind} {l r v : Value}
    (h : i.opcode = .bitwise op kind) (hl : l.kind? = some kind.toKind)
    (hv : bitwise op l r = some v) : Yields pool i [r, l] [v]
  | convert {conversion : Conversion} {a v : Value}
    (h : i.opcode = .convert conversion) (hv : convert conversion a = some v) :
    Yields pool i [a] [v]
  | compare {comparison : Comparison} {l r v : Value}
    (h : i.opcode = .compare comparison) (hv : compare comparison l r = some v) :
    Yields pool i [r, l] [v]
  | testInt {n : Int32} (h : (∃ condition, i.opcode = .ifZero condition) ∨
      i.opcode ∈ [.tableswitch, .lookupswitch]) : Yields pool i [.int n] []
  | compareInts {condition : Condition} {m n : Int32}
    (h : i.opcode = .ifInt condition) : Yields pool i [.int m, .int n] []
  | compareReferences {same : Bool} {r s : Reference}
    (h : i.opcode = .ifSame same) : Yields pool i [.reference r, .reference s] []
  | testReference {isNull : Bool} {r : Reference} (h : i.opcode = .ifNull isNull) :
    Yields pool i [.reference r] []
  | monitor {r : Reference} (h : i.opcode ∈ [.monitorenter, .monitorexit])
    (hnull : r ≠ .null) : Yields pool i [.reference r] []
  | getstatic {type : JavaType} {v : Value} (h : i.opcode = .getstatic)
    (hfield : FieldOf pool i type) (hv : v.kind? = type.kind?) :
    Yields pool i [] [v]
  | putstatic {type : JavaType} {v : Value} (h : i.opcode = .putstatic)
    (hfield : FieldOf pool i type) (hv : v.kind? = type.kind?) :
    Yields pool i [v] []
  | getfield {type : JavaType} {r : Reference} {v : Value}
    (h : i.opcode = .getfield) (hfield : FieldOf pool i type) (hnull : r ≠ .null)
    (hv : v.kind? = type.kind?) : Yields pool i [.reference r] [v]
  | putfield {type : JavaType} {r : Reference} {v : Value}
    (h : i.opcode = .putfield) (hfield : FieldOf pool i type) (hnull : r ≠ .null)
    (hv : v.kind? = type.kind?) : Yields pool i [v, .reference r] []
  | invoke {invocation : Invocation} {type : MethodType} {r : Reference}
    {arguments results : List Value} (h : i.opcode = .invoke invocation)
    (hcallee : CalleeOf pool i invocation type) (hnull : r ≠ .null)
    (harguments : arguments.map Value.kind? = type.parameters.map JavaType.kind?)
    (hresults : results.map Value.kind? = type.result.toList.map JavaType.kind?) :
    Yields pool i (arguments.reverse ++ receivers invocation r) results
  | new {r : Reference} (h : i.opcode = .new) (hclass : NamesClass pool i) :
    Yields pool i [] [.reference r]
  | newarray {code : UInt8} {n : Int32} {r : Reference} (h : i.opcode = .newarray)
    (ho : i.operands = .elementType code)
    (hcode : 4 ≤ code.toNat ∧ code.toNat ≤ 11) :
    Yields pool i [.int n] [.reference r]
  | anewarray {n : Int32} {r : Reference} (h : i.opcode = .anewarray)
    (hclass : NamesClass pool i) : Yields pool i [.int n] [.reference r]
  | multianewarray {index : UInt16} {dimensions : UInt8} {sizes : List Int32}
    {r : Reference} (h : i.opcode = .multianewarray)
    (ho : i.operands = .multiArray index dimensions)
    (hclass : (pool.className? index).isSome) (hpos : 0 < dimensions.toNat)
    (hsizes : sizes.length = dimensions.toNat) :
    Yields pool i (sizes.map .int) [.reference r]
  | arraylength {r : Reference} {n : Int32} (h : i.opcode = .arraylength)
    (hnull : r ≠ .null) : Yields pool i [.reference r] [.int n]
  | instanceof {r : Reference} {n : Int32} (h : i.opcode = .instanceof)
    (hclass : NamesClass pool i) (hn : n = 0 ∨ n = 1) :
    Yields pool i [.reference r] [.int n]
  | checkcast {r : Reference} (h : i.opcode = .checkcast)
    (hclass : NamesClass pool i) : Yields pool i [.reference r] [.reference r]
  | call (h : i.opcode ∈ [.jsr, .jsrW]) : Yields pool i [] [.address i.offset]

/-! ## Moving on -/

/-- Whether control can go on behind an instruction. -/
def fallsThrough : Opcode → Bool
  | .goto | .gotoW | .jsr | .jsrW | .ret | .tableswitch | .lookupswitch
  | .valueReturn _ | .voidReturn | .athrow => false
  | _ => true

/-- Whether an instruction sends control to targets that it names. -/
def jumps : Opcode → Bool
  | .ifZero _ | .ifInt _ | .ifSame _ | .ifNull _ | .goto | .gotoW | .jsr | .jsrW
  | .tableswitch | .lookupswitch => true
  | _ => false

/-- One instruction stands right behind another. -/
def Follows (body : List Instruction) (i j : Instruction) : Prop :=
  ∃ before after, body = before ++ i :: j :: after

/-- The ways for control to get from an instruction to an offset. -/
inductive Passage
  | next
  | jump
  | back

/-- The edges of control flow in a body: from an instruction to the one behind it, to
the targets that it names, and from the end of a subroutine to behind every call of
one. Who says which targets an instruction names is left open. -/
inductive Flow (names : Instruction → Nat → Prop) (body : List Instruction) :
    Passage → Instruction → Nat → Prop
  | next {i j : Instruction} (h : fallsThrough i.opcode = true)
    (hj : Follows body i j) : Flow names body .next i j.offset
  | jump {i : Instruction} {target : Nat} (hi : i ∈ body)
    (h : jumps i.opcode = true) (ht : names i target) :
    Flow names body .jump i target
  | back {i j k : Instruction} (hi : i ∈ body) (h : i.opcode = .ret)
    (hj : j.opcode ∈ [.jsr, .jsrW]) (hk : Follows body j k) :
    Flow names body .back i k.offset

/-- The targets among operands. -/
inductive HasTarget : Operands → Nat → Prop
  | branch (target : Nat) : HasTarget (.branch target) target
  | switch {targets : List Nat} {target : Nat} (h : target ∈ targets) :
    HasTarget (.switch targets) target

/-- Where control can go when an instruction completes. Its operands name its
targets. -/
def Goes (body : List Instruction) (i : Instruction) (offset : Nat) : Prop :=
  ∃ way, Flow (fun i => HasTarget i.operands) body way i offset

structure State where
  offset : Nat
  stack : List Value

/-- One step: an instruction completes, or raises an exception that a handler
of the method takes. -/
inductive Step (pool : ConstantPool) (method : Method) : State → State → Prop
  | complete {i : Instruction} {operands results rest : List Value} {offset : Nat}
    (hi : i ∈ method.body) (hy : Yields pool i operands results)
    (hg : Goes method.body i offset) :
    Step pool method ⟨i.offset, operands ++ rest⟩ ⟨offset, results ++ rest⟩
  | raise {i : Instruction} {handler : ExceptionHandler} {thrown : Reference}
    {stack : List Value} (hi : i ∈ method.body)
    (hh : handler ∈ method.handlers) :
    Step pool method ⟨i.offset, stack⟩ ⟨handler.entry, [.reference thrown]⟩

/-- Where a handler begins, there is one reference on the stack and no more. -/
def EntersAlone (method : Method) (state : State) : Prop :=
  ∀ handler ∈ method.handlers, handler.entry = state.offset →
    ∃ r, state.stack = [.reference r]

/-- The states at which runs stand that start at the first instruction with
nothing on the stack and come to handlers only with one reference on it. -/
inductive Reaches (pool : ConstantPool) (method : Method) : State → Prop
  | start (h : EntersAlone method ⟨0, []⟩) : Reaches pool method ⟨0, []⟩
  | step {s s' : State} (hs : Reaches pool method s) (h : Step pool method s s')
    (h' : EntersAlone method s') : Reaches pool method s'

end Machine

end ClassAudit
