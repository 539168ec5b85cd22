import ClassAudit.Constant
import ClassAudit.Opcode.Basic

/-!
# Arithmetic on known values

When every operand of an instruction is known, so is its result. Integers wrap around
at 32 or 64 bits, division truncates, a shift looks only at the low bits of its
distance, and a conversion from floating point goes to the nearest end of the range
when it leaves it. Division by zero has no result: the machine throws.
-/

namespace ClassAudit.Folding

open Floating

/-- Arithmetic on 32-bit integers. -/
def int (op : ArithmeticOp) (a b : Int32) : Option Int32 :=
  match op with
  | .add => some (a + b)
  | .sub => some (a - b)
  | .mul => some (a * b)
  | .div => if b = 0 then none else some (a / b)
  | .rem => if b = 0 then none else some (a % b)

/-- Arithmetic on 64-bit integers. -/
def long (op : ArithmeticOp) (a b : Int64) : Option Int64 :=
  match op with
  | .add => some (a + b)
  | .sub => some (a - b)
  | .mul => some (a * b)
  | .div => if b = 0 then none else some (a / b)
  | .rem => if b = 0 then none else some (a % b)

/-- Arithmetic on 32-bit floating point numbers. -/
def float (op : ArithmeticOp) (a b : Float32) : Float32 :=
  match op with
  | .add => a + b
  | .sub => a - b
  | .mul => a * b
  | .div => a / b
  | .rem => rem32 a b

/-- Arithmetic on 64-bit floating point numbers. -/
def double (op : ArithmeticOp) (a b : Float) : Float :=
  match op with
  | .add => a + b
  | .sub => a - b
  | .mul => a * b
  | .div => a / b
  | .rem => rem64 a b

/-- Shifts and bitwise operations on 32-bit integers. -/
def intBits (op : BitwiseOp) (a b : Int32) : Int32 :=
  match op with
  | .shl => a <<< b
  | .shr => a >>> b
  | .ushr => (a.toUInt32 >>> b.toUInt32).toInt32
  | .and => a &&& b
  | .or => a ||| b
  | .xor => a ^^^ b

/-- Shifts and bitwise operations on 64-bit integers. -/
def longBits (op : BitwiseOp) (a b : Int64) : Int64 :=
  match op with
  | .shl => a <<< b
  | .shr => a >>> b
  | .ushr => (a.toUInt64 >>> b.toUInt64).toInt64
  | .and => a &&& b
  | .or => a ||| b
  | .xor => a ^^^ b

/-- The result of `left op right`, if both are known and there is one. -/
def arithmetic (op : ArithmeticOp) (kind : NumericKind) (left right : StackValue) :
    Option Constant :=
  match kind with
  | .int => do return .int (← int op (← left.int?) (← right.int?))
  | .long => do return .long (← long op (← left.long?) (← right.long?))
  | .float => do return .float (float op (← left.float?) (← right.float?))
  | .double => do return .double (double op (← left.double?) (← right.double?))

/-- The result of a shift or a bitwise operation. The distance of a shift is an `int`
for both widths. -/
def bitwise (op : BitwiseOp) (kind : IntegralKind) (left right : StackValue) :
    Option Constant :=
  match kind with
  | .int => do return .int (intBits op (← left.int?) (← right.int?))
  | .long => do
    let operand ← if op.isShift then right.int?.map Int32.toInt64 else right.long?
    return .long (longBits op (← left.long?) operand)

/-- The constant with its sign changed. -/
def negate : Constant → Option Constant
  | .int value => some (.int (-value))
  | .long value => some (.long (-value))
  | .float value => some (.float (-value))
  | .double value => some (.double (-value))
  | .string _ => none

/-- The converted constant, if it has the kind that the conversion takes. -/
def convert : Conversion → Constant → Option Constant
  | .i2l, .int value => some (.long value.toInt64)
  | .i2f, .int value => some (.float value.toFloat32)
  | .i2d, .int value => some (.double value.toFloat)
  | .i2b, .int value => some (.int value.toInt8.toInt32)
  | .i2c, .int value => some (.int value.toUInt32.toUInt16.toUInt32.toInt32)
  | .i2s, .int value => some (.int value.toInt16.toInt32)
  | .l2i, .long value => some (.int value.toInt32)
  | .l2f, .long value => some (.float value.toFloat32)
  | .l2d, .long value => some (.double value.toFloat)
  | .f2i, .float value => some (.int value.toInt32)
  | .f2l, .float value => some (.long value.toInt64)
  | .f2d, .float value => some (.double value.toFloat)
  | .d2i, .double value => some (.int value.toInt32)
  | .d2l, .double value => some (.long value.toInt64)
  | .d2f, .double value => some (.float value.toFloat32)
  | _, _ => none

/-- The sign of a comparison: -1 below, 0 equal, 1 above, and `unordered` if it is none
of them. -/
def signOf (below same above : Bool) (unordered : Int32) : Int32 :=
  if below then -1 else if same then 0 else if above then 1 else unordered

/-- The result of a three-way comparison, if both operands are known. -/
def compare (comparison : Comparison) (left right : StackValue) : Option Constant :=
  let float (unordered : Int32) : Option Constant := do
    let (a, b) := (← left.float?, ← right.float?)
    return .int (signOf (a < b) (a == b) (b < a) unordered)
  let double (unordered : Int32) : Option Constant := do
    let (a, b) := (← left.double?, ← right.double?)
    return .int (signOf (a < b) (a == b) (b < a) unordered)
  match comparison with
  | .lcmp => do
    let (a, b) := (← left.long?, ← right.long?)
    return .int (signOf (a < b) (a == b) (b < a) 0)
  | .fcmpl => float (-1)
  | .fcmpg => float 1
  | .dcmpl => double (-1)
  | .dcmpg => double 1

end ClassAudit.Folding
