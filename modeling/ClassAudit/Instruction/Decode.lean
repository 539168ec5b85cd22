import ClassAudit.Instruction.Basic

/-!
# Decoding method bodies

A body is a string of bytes in which instructions follow each other without gaps. Each
opcode has a fixed operand layout (`Opcode.layout`), so decoding is: look at one byte,
read operands by its layout, continue behind them. Two layouts need more than the bytes
at hand: switches are aligned to four bytes from the start of the body, and branch
targets are written relative to the instruction, so the reader carries the offset
along.

Every reader says how many bytes it used. The list of remaining bytes therefore shrinks
with each instruction, and decoding ends.
-/

namespace ClassAudit

/-- How the operands of an opcode are laid out behind it. -/
inductive OperandLayout
  | empty
  | literal8
  | literal16
  | pool8
  | pool16
  /-- A pool index and two bytes that carry nothing. -/
  | poolPadded
  | slot8
  | increment8
  | branch16
  | branch32
  | tableswitch
  | lookupswitch
  | elementType
  | multiArray
  /-- A second opcode and its operands at double width. -/
  | widened
  deriving DecidableEq, Repr

/-- The layout that the class file format gives each opcode. -/
def Opcode.layout : Opcode → OperandLayout
  | .bipush => .literal8
  | .sipush => .literal16
  | .ldc => .pool8
  | .ldcW | .ldc2W | .getstatic | .putstatic | .getfield | .putfield | .new
  | .anewarray
  | .checkcast | .instanceof => .pool16
  | .invoke .virtual | .invoke .special | .invoke .static => .pool16
  | .invoke .interface | .invoke .dynamic => .poolPadded
  | .load _ | .store _ | .ret => .slot8
  | .iinc => .increment8
  | .ifZero _ | .ifInt _ | .ifSame _ | .goto | .jsr | .ifNull _ => .branch16
  | .gotoW | .jsrW => .branch32
  | .tableswitch => .tableswitch
  | .lookupswitch => .lookupswitch
  | .newarray => .elementType
  | .multianewarray => .multiArray
  | .wide => .widened
  | _ => .empty

/-- Why an instruction could not be decoded. -/
inductive DecodeFault
  /-- The code ends before or inside a field that starts at this offset. -/
  | truncated (position : Nat)
  /-- The bytes behind the operands that carry nothing are missing. -/
  | pastEnd (opcode : Opcode)
  /-- A branch leaves the range of offsets. -/
  | targetOutOfRange (target : Int)
  | emptyRange (low high : Int32)
  | negativePairs (count : Int32)
  | notWidenable (opcode : Opcode)
  deriving DecidableEq, Repr

/-- The messages of a fault, outermost first. -/
def DecodeFault.chain : DecodeFault → List String
  | .truncated position => ["bytecode ends inside operands at " ++ toString position]
  | .pastEnd opcode => [opcode.mnemonic ++ " runs past the end of the code"]
  | .targetOutOfRange target =>
    ["branch target " ++ toString target ++ " out of range",
      if target < 0 then "number too small to fit in target type"
      else "number too large to fit in target type"]
  | .emptyRange low high =>
    ["invalid tableswitch range " ++ toString low.toInt
      ++ "..=" ++ toString high.toInt]
  | .negativePairs count =>
    ["invalid lookupswitch pair count " ++ toString count.toInt]
  | .notWidenable opcode => ["wide cannot modify " ++ opcode.mnemonic]

/-- A fault at the offset of the instruction that could not be decoded. -/
structure DecodeError where
  offset : Nat
  fault : DecodeFault
  deriving DecidableEq, Repr

def DecodeError.chain (error : DecodeError) : List String :=
  ("malformed instruction at offset " ++ toString error.offset) :: error.fault.chain

namespace Decode

/-- The first byte; `position` is where it stands. -/
def u8 (position : Nat) : List UInt8 → Except DecodeFault UInt8
  | a :: _ => .ok a
  | _ => .error (.truncated position)

/-- The first two bytes as a big-endian number. -/
def u16 (position : Nat) : List UInt8 → Except DecodeFault UInt16
  | a :: b :: _ => .ok (UInt16.ofNat (a.toNat * 256 + b.toNat))
  | _ => .error (.truncated position)

/-- The first four bytes as a big-endian number. -/
def u32 (position : Nat) : List UInt8 → Except DecodeFault UInt32
  | a :: b :: c :: d :: _ =>
    .ok (UInt32.ofNat (((a.toNat * 256 + b.toNat) * 256 + c.toNat) * 256 + d.toNat))
  | _ => .error (.truncated position)

/-- The first four bytes as a signed number. -/
def i32 (position : Nat) (bytes : List UInt8) : Except DecodeFault Int32 :=
  return (← u32 position bytes).toInt32

/-- How many bytes follow a switch opcode at `offset` before its first aligned
field. -/
def padding (offset : Nat) : Nat := (4 - (offset + 1) % 4) % 4

/-- The absolute target of a branch at `offset`; offsets have 32 bits. -/
def target (offset : Nat) (relative : Int) : Except DecodeFault Nat :=
  let absolute := (offset : Int) + relative
  if 0 ≤ absolute ∧ absolute < UInt32.size then .ok absolute.toNat
  else .error (.targetOutOfRange absolute)

/-- The targets of `count` cases of a table, one relative target each. -/
def tableTargets (offset : Nat) :
    Nat → Nat → List UInt8 → Except DecodeFault (List Nat)
  | 0, _, _ => .ok []
  | count + 1, position, bytes => do
    let relative ← i32 position bytes
    let first ← target offset relative.toInt
    let rest ← tableTargets offset count (position + 4) (bytes.drop 4)
    return first :: rest

/-- The targets of `count` key and target pairs; the keys are not kept. -/
def pairTargets (offset : Nat) : Nat → Nat → List UInt8 → Except DecodeFault (List Nat)
  | 0, _, _ => .ok []
  | count + 1, position, bytes => do
    let _ ← u32 position bytes
    let relative ← i32 (position + 4) (bytes.drop 4)
    let first ← target offset relative.toInt
    let rest ← pairTargets offset count (position + 8) (bytes.drop 8)
    return first :: rest

/-- Operands and the number of bytes that hold them, behind an opcode at `offset`. The
bytes given start right behind the opcode. -/
def operands (offset : Nat) (opcode : Opcode) (bytes : List UInt8) :
    Except DecodeFault (Operands × Nat) :=
  let start := offset + 1
  match opcode.layout with
  | .empty | .widened => return (.none, 0)
  | .literal8 => return (.literal (← u8 start bytes).toInt8.toInt32, 1)
  | .literal16 => return (.literal (← u16 start bytes).toInt16.toInt32, 2)
  | .pool8 => return (.pool (← u8 start bytes).toUInt16, 1)
  | .pool16 => return (.pool (← u16 start bytes), 2)
  | .poolPadded => do
    let index ← u16 start bytes
    match bytes.drop 2 with
    | _ :: _ :: _ => return (.pool index, 4)
    | _ => throw (.pastEnd opcode)
  | .slot8 => return (.slot (← u8 start bytes).toUInt16, 1)
  | .increment8 => do
    let index ← u8 start bytes
    let delta ← u8 (start + 1) (bytes.drop 1)
    return (.increment index.toUInt16 delta.toInt8.toInt16, 2)
  | .branch16 => do
    let relative ← u16 start bytes
    return (.branch (← target offset relative.toInt16.toInt), 2)
  | .branch32 => do
    let relative ← i32 start bytes
    return (.branch (← target offset relative.toInt), 4)
  | .tableswitch => do
    let pad := padding offset
    let fields := bytes.drop pad
    let default ← i32 (start + pad) fields
    let low ← i32 (start + pad + 4) (fields.drop 4)
    let high ← i32 (start + pad + 8) (fields.drop 8)
    let count := high.toInt - low.toInt + 1
    if count < 0 then
      throw (.emptyRange low high)
    let first ← target offset default.toInt
    let cases ← tableTargets offset count.toNat (start + pad + 12) (fields.drop 12)
    return (.switch (first :: cases), pad + 12 + 4 * count.toNat)
  | .lookupswitch => do
    let pad := padding offset
    let fields := bytes.drop pad
    let default ← i32 (start + pad) fields
    let pairs ← i32 (start + pad + 4) (fields.drop 4)
    if pairs.toInt < 0 then
      throw (.negativePairs pairs)
    let first ← target offset default.toInt
    let cases ← pairTargets offset pairs.toInt.toNat (start + pad + 8) (fields.drop 8)
    return (.switch (first :: cases), pad + 8 + 8 * pairs.toInt.toNat)
  | .elementType => return (.elementType (← u8 start bytes), 1)
  | .multiArray => do
    let index ← u16 start bytes
    let dimensions ← u8 (start + 2) (bytes.drop 2)
    return (.multiArray index dimensions, 3)

/-- The instruction that a `wide` at `offset` modifies, and the number of bytes behind
`wide`. -/
def widened (offset : Nat) (bytes : List UInt8) :
    Except DecodeFault (Opcode × Operands × Nat) := do
  let opcode := Opcode.ofByte (← u8 (offset + 1) bytes)
  let fields := bytes.drop 1
  match opcode.layout with
  | .slot8 => return (opcode, .slot (← u16 (offset + 2) fields), 3)
  | .increment8 => do
    let index ← u16 (offset + 2) fields
    let delta ← u16 (offset + 4) (fields.drop 2)
    return (opcode, .increment index delta.toInt16, 5)
  | _ => throw (.notWidenable opcode)

/-- The instruction that starts with `byte` at `offset`, and the number of bytes behind
that byte which belong to it. A widened instruction keeps the offset of its `wide`. -/
def instruction (offset : Nat) (byte : UInt8) (bytes : List UInt8) :
    Except DecodeFault (Instruction × Nat) := do
  let opcode := Opcode.ofByte byte
  if opcode = .wide then
    let (opcode, operands, used) ← widened offset bytes
    return (⟨offset, opcode, operands⟩, used)
  else
    let (operands, used) ← operands offset opcode bytes
    return (⟨offset, opcode, operands⟩, used)

/-- Reads items one behind the other until the bytes are used up. The reader sees the
offset of an item, its first byte and all bytes behind it, and says how many of those
it used. -/
def tile {α : Type} (read : Nat → UInt8 → List UInt8 → Except DecodeFault (α × Nat))
    (offset : Nat) : List UInt8 → Except DecodeError (List α)
  | [] => .ok []
  | byte :: bytes =>
    match read offset byte bytes with
    | .error fault => .error ⟨offset, fault⟩
    | .ok (first, used) =>
      match tile read (offset + 1 + used) (bytes.drop used) with
      | .error error => .error error
      | .ok rest => .ok (first :: rest)
termination_by bytes => bytes.length
decreasing_by simp only [List.length_drop, List.length_cons]; omega

end Decode

/-- The instructions of a method body. -/
def decode (code : List UInt8) : Except DecodeError (List Instruction) :=
  Decode.tile Decode.instruction 0 code

end ClassAudit
