import ClassAudit.ClassFile.Reader

/-!
# Attributes

Attributes hang off classes, fields, methods, code and record components, and code
carries attributes in turn. Each is named by a pool entry and laid out by that name;
the length in front of it is not used to find its end. Only code and the declared local
variables in it are kept.

Attributes nest, and so do values in metadata. Each level takes up bytes of the file,
so the size of the file bounds the depth, and readers take that bound as fuel.
-/

namespace ClassAudit.ClassFile

/-- A row of an exception table; catch type zero stands for everything. -/
structure RawHandler where
  start : UInt16
  stop : UInt16
  entry : UInt16
  catchType : UInt16

/-- A row of a table of local variables. -/
structure RawLocal where
  start : UInt16
  length : UInt16
  name : UInt16
  descriptor : UInt16
  slot : UInt16

/-- An attribute, as far as it is kept. -/
inductive Attribute
  | code (bytes : ByteArray) (handlers : List RawHandler) (attributes : List Attribute)
  | locals (rows : List RawLocal)
  | other

namespace Attribute

open Reader

/-- The text at an index of the pool, which an attribute is named by. -/
def nameAt (pool : Array RawEntry) (index : UInt16) : Reader String :=
  match pool[index.toNat]? with
  | none => throw (.noPoolEntry index.toNat)
  | some (.utf8 text) => return text
  | some entry => throw (.notText entry)

/-! Metadata: values and the elements that carry them. -/

/-- A metadata item over a reader for the values in it: its type, and pairs of a name
and a value. -/
def metadataItem (value : Reader Unit) : Reader Unit := do
  let _ ← u16
  skipCounted do
    let _ ← u16
    value

/-- A metadata value. -/
def metadataValue : Nat → Reader Unit
  | 0 => throw (.unknownElement 0)
  | fuel + 1 => do
    let tag ← u8
    match Char.ofNat tag with
    | 'B' | 'C' | 'D' | 'F' | 'I' | 'J' | 'S' | 'Z' | 's' | 'c' => skip16 1
    | 'e' => skip16 2
    | '@' => metadataItem (metadataValue fuel)
    | '[' => skipCounted (metadataValue fuel)
    | _ => throw (.unknownElement tag)

/-- Metadata of a declaration. -/
def metadata (fuel : Nat) : Reader Unit :=
  skipCounted (metadataItem (metadataValue fuel))

/-- Where metadata of a type points to. -/
def typeTarget : Reader Unit := do
  let tag ← u8
  if tag ≤ 0x01 ∨ tag = 0x16 then
    let _ ← u8
  else if tag = 0x10 ∨ tag = 0x17 ∨ (0x42 ≤ tag ∧ tag ≤ 0x46) then
    skip16 1
  else if tag = 0x11 ∨ tag = 0x12 then
    let _ ← u8.times 2
  else if 0x13 ≤ tag ∧ tag ≤ 0x15 then
    return
  else if tag = 0x40 ∨ tag = 0x41 then
    skipCounted (skip16 3)
  else if 0x47 ≤ tag ∧ tag ≤ 0x4b then
    skip16 1
    let _ ← u8
  else throw (.unknownTarget tag)

/-- Metadata of a type: its target, a path into the type, and the item. -/
def typeMetadata (fuel : Nat) : Reader Unit := do
  typeTarget
  let steps ← u8
  let _ ← u8.times (2 * steps)
  metadataItem (metadataValue fuel)

/-! Stack maps. -/

/-- A verification type. -/
def verification : Reader Unit := do
  let tag ← u8
  if tag = 7 ∨ tag = 8 then skip16 1
  else if 8 < tag then throw (.unknownVerification tag)

/-- A stack map frame. -/
def frame : Reader Unit := do
  let tag ← u8
  if tag < 64 then return
  else if tag < 128 then verification
  else if tag < 247 then throw (.unknownFrame tag)
  else if tag = 247 then
    skip16 1
    verification
  else if tag < 252 then skip16 1
  else if tag < 255 then
    skip16 1
    let _ ← verification.times (tag - 251)
  else
    skip16 1
    skipCounted verification
    skipCounted verification

/-! The attributes themselves. -/

def rawHandler : Reader RawHandler := return ⟨← u16, ← u16, ← u16, ← u16⟩

def rawLocal : Reader RawLocal := return ⟨← u16, ← u16, ← u16, ← u16, ← u16⟩

/-- The body of an attribute, given a reader for the attributes inside it. -/
def body (fuel : Nat) (nested : Reader (List Attribute)) (name : String)
    (length : Nat) : Reader Attribute := do
  match name with
  | "Code" =>
    skip16 2
    let bytes ← block (← u32)
    let handlers ← rawHandler.counted
    return .code bytes handlers (← nested)
  | "LocalVariableTable" => return .locals (← rawLocal.counted)
  | "LocalVariableTypeTable" => let _ ← rawLocal.counted
  | "Synthetic" | "Deprecated" => pure ()
  | "ConstantValue" | "SourceFile" | "Signature" | "NestHost" => skip16 1
  | "EnclosingMethod" => skip16 2
  | "Exceptions" | "NestMembers" | "PermittedSubclasses" => skipCounted (skip16 1)
  | "LineNumberTable" => skipCounted (skip16 2)
  | "InnerClasses" => skipCounted (skip16 4)
  | "RuntimeVisibleAnnotations" =>
    available length
    metadata fuel
  | "RuntimeInvisibleAnnotations" => metadata fuel
  | "RuntimeVisibleParameterAnnotations" =>
    let _ ← (metadata fuel).times (← u8)
  | "RuntimeVisibleTypeAnnotations" => skipCounted (typeMetadata fuel)
  | "AnnotationDefault" =>
    available length
    metadataValue fuel
  | "StackMapTable" => skipCounted frame
  | "BootstrapMethods" =>
    skipCounted do
      skip16 1
      skipCounted (skip16 1)
  | "MethodParameters" =>
    let _ ← (skip16 2).times (← u8)
  | "Record" =>
    skipCounted do
      skip16 2
      let _ ← nested
  | _ => throw (.unknownAttribute name)
  return .other

/-- A list of attributes. -/
def list (pool : Array RawEntry) : Nat → Reader (List Attribute)
  | 0 => throw (.noPoolEntry 0)
  | fuel + 1 =>
    counted do
      let name ← nameAt pool (← u16)
      let length ← u32
      body fuel (list pool fuel) name length

end Attribute

end ClassAudit.ClassFile
