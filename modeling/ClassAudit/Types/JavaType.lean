import ClassAudit.Event

/-!
# Types and their signatures

A type is a basic type or a class, under zero or more array dimensions. Arrays of
arrays are written flat: the element of a type is never an array. A signature spells a
type as one `[` for each dimension followed by a letter or by a class name between `L`
and `;`, and different types have different signatures.

Dimensions are natural numbers and add up without bound. A count of 32 bits would agree
with them as long as sums stay below 2^32. Types that are read from text stay far
below: they have fewer dimensions than the text has characters
(`dimensions_lt_length`).
-/

namespace ClassAudit

/-- The types that are no class, `void` among them. -/
inductive BasicType
  | boolean
  | byte
  | char
  | short
  | int
  | long
  | float
  | double
  | void
  deriving DecidableEq, Repr

namespace BasicType

/-- The letter of a basic type in signatures. -/
def code : BasicType → Char
  | boolean => 'Z'
  | byte => 'B'
  | char => 'C'
  | short => 'S'
  | int => 'I'
  | long => 'J'
  | float => 'F'
  | double => 'D'
  | void => 'V'

def ofCode? : Char → Option BasicType
  | 'Z' => some boolean
  | 'B' => some byte
  | 'C' => some char
  | 'S' => some short
  | 'I' => some int
  | 'J' => some long
  | 'F' => some float
  | 'D' => some double
  | 'V' => some void
  | _ => none

def name : BasicType → String
  | boolean => "Boolean"
  | byte => "Byte"
  | char => "Char"
  | short => "Short"
  | int => "Int"
  | long => "Long"
  | float => "Float"
  | double => "Double"
  | void => "Void"

end BasicType

/-- A type without dimensions. Classes and interfaces go by their name with slashes. -/
inductive ElementType
  | basic (type : BasicType)
  | named (name : String)
  deriving DecidableEq, Repr

namespace ElementType

def signature : ElementType → String
  | basic type => String.singleton type.code
  | named name => "L" ++ name ++ ";"

/-- The element type spelled by a signature. `void` has no values and is no element,
and the name of a class is neither empty nor broken by a `;`. -/
def ofChars? : List Char → Option ElementType
  | 'L' :: rest =>
    let name := rest.dropLast
    if rest.getLast? = some ';' ∧ name ≠ [] ∧ ';' ∉ name then
      some (.named (String.ofList name))
    else none
  | [letter] => ((BasicType.ofCode? letter).filter (· != .void)).map .basic
  | _ => none

end ElementType

/-- A type: an element type under a number of array dimensions. -/
structure JavaType where
  dimensions : Nat
  element : ElementType
  deriving DecidableEq, Repr

namespace JavaType

/-- The class or interface of this name. -/
def named (name : String) : JavaType := ⟨0, .named name⟩

def basic (type : BasicType) : JavaType := ⟨0, .basic type⟩

/-- The root of the hierarchy. -/
def object : JavaType := named "java/lang/Object"

def serializable : JavaType := named "java/io/Serializable"

def cloneable : JavaType := named "java/lang/Cloneable"

/-- This type under more dimensions. -/
def array (dimensions : Nat) (type : JavaType) : JavaType :=
  { type with dimensions := dimensions + type.dimensions }

/-- The class or interface of a name written with dots. -/
def ofDotted (name : String) : JavaType :=
  named (String.ofList (name.toList.map fun c => if c = '.' then '/' else c))

/-- How a type is spelled. -/
def signature (type : JavaType) : String :=
  "".pushn '[' type.dimensions ++ type.element.signature

/-- The signature of the element of what might be an array signature. -/
def elementPart (signature : String) : List Char :=
  signature.toList.dropWhile (· == '[')

/-- The number of dimensions of what might be an array signature. -/
def dimensionsOf (signature : String) : Nat :=
  (signature.toList.takeWhile (· == '[')).length

/-- The type spelled by the signature of a field, or `void`. An error shows the
signature of the element. -/
def ofSignature (signature : String) : Except SignatureError JavaType :=
  if signature = "V" then .ok (basic .void)
  else
    match ElementType.ofChars? (elementPart signature) with
    | some element => .ok ⟨dimensionsOf signature, element⟩
    | none => .error ⟨String.ofList (elementPart signature)⟩

/-- The array type spelled by a signature. -/
def ofArraySignature (signature : String) : Except SignatureError JavaType :=
  if dimensionsOf signature = 0 then .error ⟨signature⟩ else ofSignature signature

/-- The basic type spelled by a signature. -/
def ofBasicSignature (signature : String) : Except SignatureError JavaType :=
  match signature.toList with
  | [letter] =>
    match BasicType.ofCode? letter with
    | some type => .ok (basic type)
    | none => .error ⟨signature⟩
  | _ => .error ⟨signature⟩

end JavaType

end ClassAudit
