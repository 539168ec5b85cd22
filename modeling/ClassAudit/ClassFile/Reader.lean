import ClassAudit.ClassFile.ModifiedUtf8
import ClassAudit.Constant

/-!
# Reading class files

A `Reader` goes through the bytes of a file from front to back and stops at the first
thing it cannot make sense of.
-/

namespace ClassAudit.ClassFile

open Floating

/-- An entry of the constant pool, with everything the file says about it. -/
inductive RawEntry
  /-- Index zero, and the slot behind a two-slot entry. -/
  | empty
  | utf8 (text : String)
  | integer (value : Int32)
  | float (value : Float32)
  | long (value : Int64)
  | double (value : Float)
  | classRef (name : UInt16)
  | string (text : UInt16)
  | fieldRef (owner nameAndType : UInt16)
  | methodRef (owner nameAndType : UInt16)
  | interfaceMethodRef (owner nameAndType : UInt16)
  | nameAndType (name descriptor : UInt16)
  | methodHandle (kind : UInt8) (reference : UInt16)
  | methodType (descriptor : UInt16)
  | dynamic (bootstrap nameAndType : UInt16)
  | invokeDynamic (bootstrap nameAndType : UInt16)
  | module (name : UInt16)
  | package (name : UInt16)

namespace RawEntry

/-- Numbers inside an entry that is shown: large and small ones have an exponent
without a plus sign. -/
def numberStyle : DecimalStyle :=
  { positional := some (-4, 15)
    pointZero := true
    plusSign := false
    tie := .up
    nan := "NaN"
    infinity := "inf"
    minusInfinity := "-inf" }

/-- An entry as messages show it: its sort, and its fields between braces. -/
def describe (entry : RawEntry) : String :=
  let fields (sort : String) (pairs : List (String × String)) : String :=
    sort ++ " \x7b "
      ++ ", ".intercalate (pairs.map fun (key, value) => key ++ ": " ++ value)
      ++ " \x7d"
  let index (n : UInt16) : String := toString n.toNat
  let reference (sort : String) (owner nameAndType : UInt16) : String :=
    fields sort
      [("class_index", index owner), ("name_and_type_index", index nameAndType)]
  let bootstrapped (sort : String) (bootstrap nameAndType : UInt16) : String :=
    fields sort [("bootstrap_method_attr_index", index bootstrap),
      ("name_and_type_index", index nameAndType)]
  match entry with
  | empty => "Empty"
  | utf8 text => fields "Utf8" [("value", Text.quoted text)]
  | integer value => fields "Integer" [("value", toString value.toInt)]
  | float value => fields "Float" [("value", numberStyle.write32 value)]
  | long value => fields "Long" [("value", toString value.toInt)]
  | double value => fields "Double" [("value", numberStyle.write64 value)]
  | classRef name => fields "Class" [("name_index", index name)]
  | string text => fields "String" [("string_index", index text)]
  | fieldRef owner pair => reference "Fieldref" owner pair
  | methodRef owner pair => reference "Methodref" owner pair
  | interfaceMethodRef owner pair => reference "InterfaceMethodref" owner pair
  | nameAndType name descriptor =>
    fields "NameAndType"
      [("name_index", index name), ("descriptor_index", index descriptor)]
  | methodHandle kind target =>
    fields "MethodHandle"
      [("reference_kind", toString kind.toNat), ("reference_index", index target)]
  | methodType descriptor =>
    fields "MethodType" [("descriptor_index", index descriptor)]
  | dynamic bootstrap pair => bootstrapped "Dynamic" bootstrap pair
  | invokeDynamic bootstrap pair => bootstrapped "InvokeDynamic" bootstrap pair
  | module name => fields "Module" [("name_index", index name)]
  | package name => fields "Package" [("name_index", index name)]

end RawEntry

/-- Why a file is no class file. -/
inductive ReadError
  | notClassFile
  /-- The file ends before or inside a number. -/
  | numberCut (position size : Nat)
  /-- The file ends inside a block of bytes that would end here. -/
  | blockCut (stop size : Nat)
  | unknownPoolTag (tag : Nat)
  | unreadableText
  | noPoolEntry (index : Nat)
  | notText (entry : RawEntry)
  | unknownAttribute (name : String)
  | unknownFrame (tag : Nat)
  | unknownVerification (tag : Nat)
  | unknownElement (tag : Nat)
  | unknownTarget (tag : Nat)
  | bytesLeft (size position : Nat)

def ReadError.message : ReadError → String
  | notClassFile => "InvalidInput Error: Not a valid class-file"
  | numberCut position size =>
    "I/O Error: overflow : attempt to read from " ++ toString position
      ++ " whereas len is "
      ++ toString size
  | blockCut stop size =>
    "I/O Error: Index out of bounds: " ++ toString stop ++ " of " ++ toString size
  | unknownPoolTag tag => "I/O Error: unmatched tag: " ++ toString tag
  | unreadableText => "I/O Error: could not convert CESU-8 data to UTF-8"
  | noPoolEntry index => "I/O Error: element not found at index " ++ toString index
  | notText entry => "I/O Error: element type is not Uint8 but " ++ entry.describe
  | unknownAttribute name => "I/O Error: unmatched attribute: " ++ name
  | unknownFrame tag => "I/O Error: Unsupported frame_type: " ++ toString tag
  | unknownVerification tag => "I/O Error: tag " ++ toString tag ++ " is not valid"
  | unknownElement tag => "I/O Error: Unsupported element tag: " ++ toString tag
  | unknownTarget tag => "I/O Error: Invalid target_type: " ++ toString tag
  | bytesLeft size position =>
    "I/O Error: Not all was read : data.len() is " ++ toString size
      ++ ", start_from is "
      ++ toString position

/-- Reads from a position of a file. -/
abbrev Reader := ReaderT ByteArray (StateT Nat (Except ReadError))

namespace Reader

/-- A big-endian number of this many bytes. -/
def number (width : Nat) : Reader Nat := fun data position =>
  if position + width ≤ data.size then
    .ok ((data.extract position (position + width)).foldl
      (fun n byte => n * 256 + byte.toNat) 0, position + width)
  else .error (.numberCut position data.size)

def u8 : Reader Nat := number 1

def u16 : Reader UInt16 := return UInt16.ofNat (← number 2)

def u32 : Reader Nat := number 4

/-- Fails unless this many bytes are left. -/
def available (count : Nat) : Reader Unit := fun data position =>
  if position + count ≤ data.size then .ok ((), position)
  else .error (.blockCut (position + count) data.size)

/-- A block of this many bytes. -/
def block (count : Nat) : Reader ByteArray := do
  available count
  let position ← get
  set (position + count)
  return (← read).extract position (position + count)

/-- The big-endian number that a block of bytes spells. -/
def blockNumber (count : Nat) : Reader Nat :=
  return (← block count).foldl (fun n byte => n * 256 + byte.toNat) 0

/-- The same thing several times. -/
def times {α : Type} (reader : Reader α) : Nat → Reader (List α)
  | 0 => return []
  | count + 1 => do
    let first ← reader
    return first :: (← times reader count)

/-- A 16-bit count, and then as many things. -/
def counted {α : Type} (reader : Reader α) : Reader (List α) := do
  reader.times (← u16).toNat

/-- Several 16-bit numbers that are not kept. -/
def skip16 (count : Nat) : Reader Unit := do
  let _ ← u16.times count

/-- A 16-bit count, and as many things that are not kept. -/
def skipCounted {α : Type} (reader : Reader α) : Reader Unit := do
  let _ ← reader.counted

end Reader

end ClassAudit.ClassFile
