import ClassAudit.Constant

/-!
# Constant pools

The constant pool of a class is an indexed table whose entries refer to each other by
index. An index may be out of range and an entry of the wrong sort; the accessors then
give nothing.
-/

namespace ClassAudit

/-- One entry, with the references that analysis follows. -/
inductive PoolEntry
  /-- Index zero, the slot behind a two-slot entry, and entries nothing here reads. -/
  | unusable
  | utf8 (text : String)
  | integer (value : Int32)
  | float (value : Float32)
  | long (value : Int64)
  | double (value : Float)
  | classRef (name : UInt16)
  | stringRef (text : UInt16)
  | fieldRef (owner nameAndType : UInt16)
  | methodRef (owner nameAndType : UInt16)
  | interfaceMethodRef (owner nameAndType : UInt16)
  | nameAndType (name descriptor : UInt16)
  | methodHandle
  | methodType
  | dynamic (nameAndType : UInt16)
  | invokeDynamic (nameAndType : UInt16)
  deriving DecidableEq

/-- What a load from the pool puts on the stack. -/
inductive Loadable
  | constant (value : Constant)
  | classObject (name : String)
  | methodType
  | methodHandle
  /-- A constant computed at run time, with its field descriptor. -/
  | dynamic (descriptor : String)
  deriving DecidableEq

/-- A field or method that an instruction refers to. -/
structure Member where
  owner : String
  name : String
  descriptor : String
  deriving DecidableEq, Repr

/-- The constant pool of one class. -/
structure ConstantPool where
  entries : Array PoolEntry
  deriving DecidableEq

namespace ConstantPool

/-- A pool without even an entry at index zero. -/
def empty : ConstantPool := ⟨#[]⟩

/-- A pool with the given entries from index one on. -/
def ofEntries (entries : List PoolEntry) : ConstantPool :=
  ⟨(.unusable :: entries).toArray⟩

def size (pool : ConstantPool) : Nat := pool.entries.size

/-- Whether a pool has no entry that an index can name. -/
def isEmpty (pool : ConstantPool) : Bool := pool.size ≤ 1

def get? (pool : ConstantPool) (index : UInt16) : Option PoolEntry :=
  pool.entries[index.toNat]?

def utf8? (pool : ConstantPool) (index : UInt16) : Option String :=
  match pool.get? index with
  | some (.utf8 text) => some text
  | _ => none

/-- The name and the descriptor of a name-and-type entry. -/
def nameAndType? (pool : ConstantPool) (index : UInt16) : Option (String × String) :=
  match pool.get? index with
  | some (.nameAndType name descriptor) => do
    return (← pool.utf8? name, ← pool.utf8? descriptor)
  | _ => none

/-- The name of a class entry. -/
def className? (pool : ConstantPool) (index : UInt16) : Option String :=
  match pool.get? index with
  | some (.classRef name) => pool.utf8? name
  | _ => none

/-- What the load instructions push for an entry. -/
def loadable? (pool : ConstantPool) (index : UInt16) : Option Loadable :=
  match pool.get? index with
  | some (.integer value) => some (.constant (.int value))
  | some (.float value) => some (.constant (.float value))
  | some (.long value) => some (.constant (.long value))
  | some (.double value) => some (.constant (.double value))
  | some (.stringRef text) =>
    (pool.utf8? text).map fun text => .constant (.string text)
  | some (.classRef name) => (pool.utf8? name).map .classObject
  | some .methodType => some .methodType
  | some .methodHandle => some .methodHandle
  | some (.dynamic index) => (pool.nameAndType? index).map fun pair => .dynamic pair.2
  | _ => none

/-- The field, method or interface method of a reference entry. -/
def member? (pool : ConstantPool) (index : UInt16) : Option Member :=
  let resolve (owner nameAndType : UInt16) : Option Member := do
    let (name, descriptor) ← pool.nameAndType? nameAndType
    return { owner := ← pool.className? owner, name, descriptor }
  match pool.get? index with
  | some (.fieldRef owner nameAndType) => resolve owner nameAndType
  | some (.methodRef owner nameAndType) => resolve owner nameAndType
  | some (.interfaceMethodRef owner nameAndType) => resolve owner nameAndType
  | _ => none

/-- The method descriptor of an `invokedynamic` entry. -/
def dynamicDescriptor? (pool : ConstantPool) (index : UInt16) : Option String :=
  match pool.get? index with
  | some (.invokeDynamic index) => (pool.nameAndType? index).map Prod.snd
  | _ => none

/-- An index at which an entry was needed and not found. -/
inductive Missing
  | classEntry (index : UInt16)
  | utf8Entry (index : UInt16)
  deriving DecidableEq, Repr

def Missing.message : Missing → String
  | classEntry index =>
    "missing class entry at constant pool index " ++ toString index.toNat
  | utf8Entry index =>
    "missing utf8 entry at constant pool index " ++ toString index.toNat

def requireClassName (pool : ConstantPool) (index : UInt16) : Except Missing String :=
  (pool.className? index).elim (.error (.classEntry index)) .ok

def requireUtf8 (pool : ConstantPool) (index : UInt16) : Except Missing String :=
  (pool.utf8? index).elim (.error (.utf8Entry index)) .ok

end ConstantPool

end ClassAudit
