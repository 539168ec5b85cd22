import ClassAudit.Floating.Decimal
import ClassAudit.Kind
import ClassAudit.Text.Json

/-!
# Known values

A `Constant` is a value that analysis knows exactly. A `StackValue` is what it knows
about one entry of the operand stack: always a signature, sometimes the constant
itself, and for the null literal that it is null.
-/

namespace ClassAudit

open Floating Text

/-- A value known exactly. -/
inductive Constant
  | int (value : Int32)
  | long (value : Int64)
  | float (value : Float32)
  | double (value : Float)
  | string (value : String)
  deriving DecidableEq

namespace Constant

/-- The signature a constant has by itself. -/
def signature : Constant → String
  | int _ => "I"
  | long _ => "J"
  | float _ => "F"
  | double _ => "D"
  | string _ => stringSignature

/-- Whether a value of this signature can be this constant. The narrow integer types
are all computed as `int`. -/
def fits (constant : Constant) (signature : String) : Bool :=
  match constant with
  | int _ => ["I", "B", "C", "S", "Z"].contains signature
  | other => signature == other.signature

/-- Readable text: all digits, never an exponent. -/
def plainStyle : DecimalStyle :=
  { positional := none
    pointZero := false
    plusSign := false
    tie := .up
    nan := "NaN"
    infinity := "inf"
    minusInfinity := "-inf" }

/-- JSON text: a number is marked as fractional, large and small ones have an exponent
with a sign, and what is no finite number is `null`. -/
def jsonStyle (least largest : Int) : DecimalStyle :=
  { positional := some (least, largest)
    pointZero := true
    plusSign := true
    tie := .even
    nan := "null"
    infinity := "null"
    minusInfinity := "null" }

/-- The constant as messages show it. -/
def describe : Constant → String
  | int value => toString value.toInt
  | long value => toString value.toInt ++ "L"
  | float value => plainStyle.write32 value ++ "f"
  | double value => plainStyle.write64 value ++ "d"
  | string value => quoted value

/-- The constant with its kind, as traces show it. -/
def toJson : Constant → Json
  | int value => .object [("kind", .string "int"), ("value", .int value.toInt)]
  | long value => .object [("kind", .string "long"), ("value", .int value.toInt)]
  | float value =>
    .object [("kind", .string "float"),
      ("value", .number ((jsonStyle (-6) 12).write32 value))]
  | double value =>
    .object [("kind", .string "double"),
      ("value", .number ((jsonStyle (-5) 15).write64 value))]
  | string value => .object [("kind", .string "string"), ("value", .string value)]

def int? : Constant → Option Int32
  | int value => some value
  | _ => none

def long? : Constant → Option Int64
  | long value => some value
  | _ => none

def float? : Constant → Option Float32
  | float value => some value
  | _ => none

def double? : Constant → Option Float
  | double value => some value
  | _ => none

end Constant

/-- What is known about one entry of the operand stack. -/
inductive StackValue
  /-- A value of which only the signature is known. -/
  | typed (signature : String)
  /-- A value known exactly, under a signature that fits it. -/
  | known (signature : String) (constant : Constant)
  /-- The null literal. -/
  | null
  deriving DecidableEq

namespace StackValue

/-- A constant under its own signature. -/
def ofConstant (constant : Constant) : StackValue := .known constant.signature constant

/-- A constant under a given signature, if the two fit. -/
def withConstant? (signature : String) (constant : Constant) : Option StackValue :=
  if constant.fits signature then some (.known signature constant) else none

def signature : StackValue → String
  | typed signature => signature
  | known signature _ => signature
  | null => objectSignature

def constant? : StackValue → Option Constant
  | known _ constant => some constant
  | _ => none

def isNull : StackValue → Bool
  | null => true
  | _ => false

/-- The kind of a value, by its signature. -/
def kind? (value : StackValue) : Option Kind := Kind.ofSignature? value.signature

/-- Whether a value fills two machine slots. -/
def isWide (value : StackValue) : Bool := value.kind?.any Kind.isWide

def int? (value : StackValue) : Option Int32 := value.constant?.bind Constant.int?

def long? (value : StackValue) : Option Int64 := value.constant?.bind Constant.long?

def float? (value : StackValue) : Option Float32 :=
  value.constant?.bind Constant.float?

def double? (value : StackValue) : Option Float :=
  value.constant?.bind Constant.double?

/-- The value as messages show it. -/
def describe : StackValue → String
  | typed signature => signature
  | known signature constant => signature ++ "=" ++ constant.describe
  | null => "null"

/-- The value as traces show it; the constant is left out when there is none. -/
def toJson (value : StackValue) : Json :=
  .object ([("signature", .string value.signature)]
    ++ (value.constant?.map fun constant => ("constant", constant.toJson)).toList
    ++ [("is_null", .bool value.isNull)])

end StackValue

end ClassAudit
