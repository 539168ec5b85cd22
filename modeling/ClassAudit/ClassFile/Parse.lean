import ClassAudit.ClassFile.Attribute
import ClassAudit.ClassModel
import ClassAudit.Instruction.Decode

/-!
# From class files to classes

`ClassFile.read` takes a file apart, and `ClassFile.parse` builds the class that
analysis works on: names are looked up in the pool and method bodies decoded. The first
problem decides; problems of the file itself come before those of what it says.
-/

namespace ClassAudit.ClassFile

/-- A method as the file has it. -/
structure RawMethod where
  name : UInt16
  descriptor : UInt16
  attributes : List Attribute

/-- What is kept of a class file. -/
structure RawClass where
  pool : Array RawEntry
  flags : UInt16
  thisClass : UInt16
  superclass : UInt16
  interfaces : List UInt16
  methods : List RawMethod

open Reader

/-- A pool entry. -/
def poolEntry : Reader RawEntry := do
  let tag ← u8
  match tag with
  | 1 =>
    let bytes ← block (← u16).toNat
    match ModifiedUtf8.text? bytes with
    | some text => return .utf8 text
    | none => throw .unreadableText
  | 3 => return .integer (UInt32.ofNat (← u32)).toInt32
  | 4 => return .float (.ofBits (.ofNat (← blockNumber 4)))
  | 5 => return .long (UInt64.ofNat (← number 8)).toInt64
  | 6 => return .double (.ofBits (.ofNat (← blockNumber 8)))
  | 7 => return .classRef (← u16)
  | 8 => return .string (← u16)
  | 9 => return .fieldRef (← u16) (← u16)
  | 10 => return .methodRef (← u16) (← u16)
  | 11 => return .interfaceMethodRef (← u16) (← u16)
  | 12 => return .nameAndType (← u16) (← u16)
  | 15 => return .methodHandle (UInt8.ofNat (← u8)) (← u16)
  | 16 => return .methodType (← u16)
  | 17 => return .dynamic (← u16) (← u16)
  | 18 => return .invokeDynamic (← u16) (← u16)
  | 19 => return .module (← u16)
  | 20 => return .package (← u16)
  | _ => throw (.unknownPoolTag tag)

/-- Whether an entry takes two slots. -/
def RawEntry.isWide : RawEntry → Bool
  | .long _ | .double _ => true
  | _ => false

/-- Entries for this many slots. A two-slot entry in the last slot has no second
one. -/
def poolEntries : Nat → Reader (List RawEntry)
  | 0 => return []
  | 1 => return [← poolEntry]
  | slots + 2 => do
    let entry ← poolEntry
    if entry.isWide then return entry :: .empty :: (← poolEntries slots)
    else return entry :: (← poolEntries (slots + 1))

/-- The pool; its count is one more than the number of usable slots. -/
def pool : Reader (Array RawEntry) := do
  match (← u16).toNat with
  | 0 => return #[]
  | slots + 1 => return (.empty :: (← poolEntries slots)).toArray

/-- A field or a method. -/
def classMember (pool : Array RawEntry) (fuel : Nat) : Reader RawMethod := do
  skip16 1
  return ⟨← u16, ← u16, ← Attribute.list pool fuel⟩

/-- A whole class file. -/
def classFile : Reader RawClass := do
  if (← u32) ≠ 0xcafebabe then
    throw .notClassFile
  skip16 2
  let pool ← pool
  let flags ← u16
  let thisClass ← u16
  let superclass ← u16
  let interfaces ← u16.counted
  let fuel := (← read).size + 1
  let _ ← (classMember pool fuel).counted
  let methods ← (classMember pool fuel).counted
  let _ ← Attribute.list pool fuel
  let (size, position) := ((← read).size, ← get)
  if position < size then
    throw (.bytesLeft size position)
  return ⟨pool, flags, thisClass, superclass, interfaces, methods⟩

/-- Takes a class file apart. -/
def read (data : ByteArray) : Except ReadError RawClass :=
  (classFile.run data).run' 0

/-- What analysis keeps of a pool entry. -/
def RawEntry.toPoolEntry : RawEntry → PoolEntry
  | .utf8 text => .utf8 text
  | .integer value => .integer value
  | .float value => .float value
  | .long value => .long value
  | .double value => .double value
  | .classRef name => .classRef name
  | .string text => .stringRef text
  | .fieldRef owner pair => .fieldRef owner pair
  | .methodRef owner pair => .methodRef owner pair
  | .interfaceMethodRef owner pair => .interfaceMethodRef owner pair
  | .nameAndType name descriptor => .nameAndType name descriptor
  | .methodHandle _ _ => .methodHandle
  | .methodType _ => .methodType
  | .dynamic _ pair => .dynamic pair
  | .invokeDynamic _ pair => .invokeDynamic pair
  | .empty | .module _ | .package _ => .unusable

end ClassFile

open ClassFile

/-- Why a method of a class file cannot be used. -/
inductive MethodError
  | name (cause : ConstantPool.Missing)
  | descriptor (cause : ConstantPool.Missing)
  | body (method : String) (cause : DecodeError)
  | handler (cause : ConstantPool.Missing)
  | localVariable (cause : ConstantPool.Missing)

def MethodError.chain : MethodError → List String
  | name cause => ["resolve method name", cause.message]
  | descriptor cause => ["resolve method descriptor", cause.message]
  | body method cause => ("decode " ++ method) :: cause.chain
  | handler cause => ["parse handlers", "resolve catch type", cause.message]
  | localVariable cause => ["parse local variables", cause.message]

/-- Why a file cannot be used as a class. -/
inductive ClassError
  | file (cause : ReadError)
  | name (cause : ConstantPool.Missing)
  | superclass (cause : ConstantPool.Missing)
  | interface (cause : ConstantPool.Missing)
  | method (className : String) (cause : MethodError)

/-- The messages of an error, outermost first. -/
def ClassError.chain : ClassError → List String
  | file cause => ["invalid class file", cause.message]
  | name cause => ["resolve class name", cause.message]
  | superclass cause => ["resolve super class name", cause.message]
  | interface cause => ["resolve interface name", cause.message]
  | method className cause => ("read method of " ++ className) :: cause.chain

namespace ClassFile

/-- The name of a class, or nothing for index zero. -/
def optionalClass (pool : ConstantPool) (index : UInt16) :
    Except ConstantPool.Missing (Option String) :=
  if index = 0 then .ok none else (pool.requireClassName index).map some

def handler (pool : ConstantPool) (raw : RawHandler) :
    Except ConstantPool.Missing ExceptionHandler := do
  let catchType ← optionalClass pool raw.catchType
  return ⟨raw.start.toNat, raw.stop.toNat, raw.entry.toNat, catchType⟩

def localVariable (pool : ConstantPool) (raw : RawLocal) :
    Except ConstantPool.Missing LocalVariable := do
  let name ← pool.requireUtf8 raw.name
  let signature ← pool.requireUtf8 raw.descriptor
  return ⟨raw.start.toNat, raw.length.toNat, name, signature, raw.slot⟩

/-- The rows of all tables of local variables among some attributes. -/
def localRows (attributes : List Attribute) : List RawLocal :=
  attributes.flatMap fun
    | .locals rows => rows
    | _ => []

/-- The first code among some attributes. -/
def firstCode? (attributes : List Attribute) :
    Option (ByteArray × List RawHandler × List Attribute) :=
  attributes.findSome? fun
    | .code bytes handlers nested => some (bytes, handlers, nested)
    | _ => none

def method (pool : ConstantPool) (raw : RawMethod) : Except MethodError Method := do
  let name ← (pool.requireUtf8 raw.name).mapError .name
  let descriptor ← (pool.requireUtf8 raw.descriptor).mapError .descriptor
  match firstCode? raw.attributes with
  | none => return ⟨name, descriptor, [], [], []⟩
  | some (bytes, handlers, nested) =>
    let body ← (decode bytes.toList).mapError (.body (name ++ descriptor))
    let handlers ← (handlers.mapM (handler pool)).mapError .handler
    let locals ← ((localRows nested).mapM (localVariable pool)).mapError .localVariable
    return ⟨name, descriptor, body, handlers, locals⟩

/-- The flag that marks an interface. -/
def interfaceFlag : UInt16 := 0x0200

/-- The class that a class file holds. -/
def parse (data : ByteArray) : Except ClassError ClassModel := do
  let raw ← (ClassFile.read data).mapError .file
  let pool : ConstantPool := ⟨raw.pool.map RawEntry.toPoolEntry⟩
  let name ← (pool.requireClassName raw.thisClass).mapError .name
  let superclass ← (optionalClass pool raw.superclass).mapError .superclass
  let interfaces ← (raw.interfaces.mapM pool.requireClassName).mapError .interface
  let methods ← (raw.methods.mapM (method pool)).mapError (.method name)
  return {
    name, superclass, interfaces
    isInterface := raw.flags &&& interfaceFlag != 0
    pool, methods
    artifact := 0 }

end ClassFile

end ClassAudit
