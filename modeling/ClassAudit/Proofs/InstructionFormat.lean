import ClassAudit.Instruction.Decode
import ClassAudit.Proofs.OpcodeTable
import Mathlib.Data.List.Forall2

/-!
# The instruction format

The class file format lists, by the number of an opcode, its name and what stands
behind it (`format?`). `Fields` says which bytes spell which operands, and `Encoded`
puts the opcode in front, or a `wide` and the opcode. A body is laid out by putting
instructions one behind the other (`LaidOut`). None of this is a function: bytes
that align a switch can be anything, and so can those behind the index of a call to
an interface, and a small local variable can be spelled in a narrow or a wide form.
-/

namespace ClassAudit

/-! ## Opcodes -/

/-- The opcodes of the format in the order of their numbers, by name, in groups that
have the same behind them. Those that are reserved or not assigned stand alone. -/
def formatGroups : List (List String × OperandLayout) :=
  -- 0x00
  [ (["nop", "aconst_null", "iconst_m1", "iconst_0", "iconst_1", "iconst_2",
      "iconst_3", "iconst_4", "iconst_5", "lconst_0", "lconst_1", "fconst_0",
      "fconst_1", "fconst_2", "dconst_0", "dconst_1"], .empty)
  -- 0x10
  , (["bipush"], .literal8)
  -- 0x11
  , (["sipush"], .literal16)
  -- 0x12
  , (["ldc"], .pool8)
  -- 0x13
  , (["ldc_w", "ldc2_w"], .pool16)
  -- 0x15
  , (["iload", "lload", "fload", "dload", "aload"], .slot8)
  -- 0x1a
  , (["iload_0", "iload_1", "iload_2", "iload_3", "lload_0", "lload_1",
      "lload_2", "lload_3", "fload_0", "fload_1", "fload_2", "fload_3",
      "dload_0", "dload_1", "dload_2", "dload_3", "aload_0", "aload_1",
      "aload_2", "aload_3", "iaload", "laload", "faload", "daload", "aaload",
      "baload", "caload", "saload"], .empty)
  -- 0x36
  , (["istore", "lstore", "fstore", "dstore", "astore"], .slot8)
  -- 0x3b
  , (["istore_0", "istore_1", "istore_2", "istore_3", "lstore_0", "lstore_1",
      "lstore_2", "lstore_3", "fstore_0", "fstore_1", "fstore_2", "fstore_3",
      "dstore_0", "dstore_1", "dstore_2", "dstore_3", "astore_0", "astore_1",
      "astore_2", "astore_3", "iastore", "lastore", "fastore", "dastore",
      "aastore", "bastore", "castore", "sastore", "pop", "pop2", "dup",
      "dup_x1", "dup_x2", "dup2", "dup2_x1", "dup2_x2", "swap", "iadd", "ladd",
      "fadd", "dadd", "isub", "lsub", "fsub", "dsub", "imul", "lmul", "fmul",
      "dmul", "idiv", "ldiv", "fdiv", "ddiv", "irem", "lrem", "frem", "drem",
      "ineg", "lneg", "fneg", "dneg", "ishl", "lshl", "ishr", "lshr", "iushr",
      "lushr", "iand", "land", "ior", "lor", "ixor", "lxor"], .empty)
  -- 0x84
  , (["iinc"], .increment8)
  -- 0x85
  , (["i2l", "i2f", "i2d", "l2i", "l2f", "l2d", "f2i", "f2l", "f2d", "d2i",
      "d2l", "d2f", "i2b", "i2c", "i2s", "lcmp", "fcmpl", "fcmpg", "dcmpl",
      "dcmpg"], .empty)
  -- 0x99
  , (["ifeq", "ifne", "iflt", "ifge", "ifgt", "ifle", "if_icmpeq", "if_icmpne",
      "if_icmplt", "if_icmpge", "if_icmpgt", "if_icmple", "if_acmpeq",
      "if_acmpne", "goto", "jsr"], .branch16)
  -- 0xa9
  , (["ret"], .slot8)
  -- 0xaa
  , (["tableswitch"], .tableswitch)
  -- 0xab
  , (["lookupswitch"], .lookupswitch)
  -- 0xac
  , (["ireturn", "lreturn", "freturn", "dreturn", "areturn", "return"], .empty)
  -- 0xb2
  , (["getstatic", "putstatic", "getfield", "putfield", "invokevirtual",
      "invokespecial", "invokestatic"], .pool16)
  -- 0xb9
  , (["invokeinterface", "invokedynamic"], .poolPadded)
  -- 0xbb
  , (["new"], .pool16)
  -- 0xbc
  , (["newarray"], .elementType)
  -- 0xbd
  , (["anewarray"], .pool16)
  -- 0xbe
  , (["arraylength", "athrow"], .empty)
  -- 0xc0
  , (["checkcast", "instanceof"], .pool16)
  -- 0xc2
  , (["monitorenter", "monitorexit"], .empty)
  -- 0xc4
  , (["wide"], .widened)
  -- 0xc5
  , (["multianewarray"], .multiArray)
  -- 0xc6
  , (["ifnull", "ifnonnull"], .branch16)
  -- 0xc8
  , (["goto_w", "jsr_w"], .branch32)
  -- 0xca
  , (["breakpoint"], .empty)
  -- 0xcb
  , (List.replicate 51 "<undefined>", .empty)
  -- 0xfe
  , (["impdep1", "impdep2"], .empty) ]

/-- The name and the layout that the format gives to a number. -/
def format? (code : Nat) : Option (String × OperandLayout) :=
  (formatGroups.flatMap fun group => group.1.map (·, group.2))[code]?

theorem format_table :
    Opcode.table.toList.map (fun op => (op.mnemonic, op.layout)) =
      formatGroups.flatMap fun group => group.1.map (·, group.2) := by
  decide +kernel

/-- Opcodes have the numbers, names and layouts of the format. -/
theorem format?_toNat (op : Opcode) :
    format? op.toNat = some (op.mnemonic, op.layout) := by
  rw [format?, ← format_table, List.getElem?_map, Array.getElem?_toList,
    Opcode.table_toNat, Option.map_some]

/-! ## Operands -/

/-- A number as two bytes, the high one first. -/
def big16 (value : UInt16) : List UInt8 :=
  [.ofNat (value.toNat / 256), .ofNat value.toNat]

/-- A number as four bytes, the high ones first. -/
def big32 (value : UInt32) : List UInt8 :=
  [.ofNat (value.toNat / 16777216), .ofNat (value.toNat / 65536),
    .ofNat (value.toNat / 256), .ofNat value.toNat]

/-- A jump from an instruction at `offset` lands on `target`, which is no less than
zero and has 32 bits. -/
def Lands (offset : Nat) (relative : Int) (target : Nat) : Prop :=
  offset + relative = target ∧ target < UInt32.size

/-- Bytes that fill up to a multiple of four behind the opcode at `offset`. They can
be any bytes, but there are no more of them than necessary. -/
def Aligns (offset : Nat) (pad : List UInt8) : Prop :=
  pad.length < 4 ∧ (offset + 1 + pad.length) % 4 = 0

/-- One case of a `lookupswitch`. -/
structure MatchCase where
  key : Int32
  relative : Int32

def MatchCase.bytes (c : MatchCase) : List UInt8 :=
  big32 c.key.toUInt32 ++ big32 c.relative.toUInt32

/-- The bytes that spell operands behind an opcode at `offset`, layout by layout.
Numbers with a sign are extended, and so are the small ones without. -/
inductive Fields (offset : Nat) :
    OperandLayout → Operands → List UInt8 → Prop
  | empty : Fields offset .empty .none []
  | literal8 (value : Int8) :
      Fields offset .literal8 (.literal value.toInt32) [value.toUInt8]
  | literal16 (value : Int16) :
      Fields offset .literal16 (.literal value.toInt32) (big16 value.toUInt16)
  | pool8 (index : UInt8) :
      Fields offset .pool8 (.pool index.toUInt16) [index]
  | pool16 (index : UInt16) :
      Fields offset .pool16 (.pool index) (big16 index)
  | poolPadded (index : UInt16) (x y : UInt8) :
      Fields offset .poolPadded (.pool index) (big16 index ++ [x, y])
  | slot8 (index : UInt8) :
      Fields offset .slot8 (.slot index.toUInt16) [index]
  | increment8 (index : UInt8) (delta : Int8) :
      Fields offset .increment8 (.increment index.toUInt16 delta.toInt16)
        [index, delta.toUInt8]
  | branch16 (relative : Int16) {target : Nat}
      (lands : Lands offset relative.toInt target) :
      Fields offset .branch16 (.branch target) (big16 relative.toUInt16)
  | branch32 (relative : Int32) {target : Nat}
      (lands : Lands offset relative.toInt target) :
      Fields offset .branch32 (.branch target) (big32 relative.toUInt32)
  | tableswitch {pad : List UInt8} (aligns : Aligns offset pad)
      (default low high : Int32) (cases : List Int32)
      (range : (cases.length : Int) = high.toInt - low.toInt + 1)
      {first : Nat} (lands : Lands offset default.toInt first)
      {targets : List Nat}
      (land : cases.Forall₂ (fun case => Lands offset case.toInt) targets) :
      Fields offset .tableswitch (.switch (first :: targets))
        (pad ++ (big32 default.toUInt32 ++ (big32 low.toUInt32 ++
          (big32 high.toUInt32 ++ cases.flatMap (big32 ·.toUInt32)))))
  | lookupswitch {pad : List UInt8} (aligns : Aligns offset pad)
      (default count : Int32) (cases : List MatchCase)
      (counted : (cases.length : Int) = count.toInt)
      {first : Nat} (lands : Lands offset default.toInt first)
      {targets : List Nat}
      (land : cases.Forall₂ (fun case => Lands offset case.relative.toInt) targets) :
      Fields offset .lookupswitch (.switch (first :: targets))
        (pad ++ (big32 default.toUInt32 ++ (big32 count.toUInt32 ++
          cases.flatMap MatchCase.bytes)))
  | elementType (code : UInt8) :
      Fields offset .elementType (.elementType code) [code]
  | multiArray (index : UInt16) (dimensions : UInt8) :
      Fields offset .multiArray (.multiArray index dimensions)
        (big16 index ++ [dimensions])

/-! ## Instructions and bodies -/

/-- The bytes that spell an instruction at `offset`. A `wide` is no instruction of
its own: behind it stands one with a local variable of twice the width, which
counts as standing where the `wide` stands. -/
inductive Encoded (offset : Nat) : Instruction → List UInt8 → Prop
  | plain {opcode : Opcode} {layout : OperandLayout} {operands : Operands}
      {fields : List UInt8}
      (format : format? opcode.toNat = some (opcode.mnemonic, layout))
      (spelled : Fields offset layout operands fields) :
      Encoded offset ⟨offset, opcode, operands⟩ (opcode.toByte :: fields)
  | wideSlot {opcode : Opcode}
      (format : format? opcode.toNat = some (opcode.mnemonic, .slot8))
      (index : UInt16) :
      Encoded offset ⟨offset, opcode, .slot index⟩
        (Opcode.wide.toByte :: opcode.toByte :: big16 index)
  | wideIncrement {opcode : Opcode}
      (format : format? opcode.toNat = some (opcode.mnemonic, .increment8))
      (index : UInt16) (delta : Int16) :
      Encoded offset ⟨offset, opcode, .increment index delta⟩
        (Opcode.wide.toByte :: opcode.toByte ::
          (big16 index ++ big16 delta.toUInt16))

/-- The bytes that spell a body from `offset` on. -/
inductive LaidOut : Nat → List Instruction → List UInt8 → Prop
  | nil {offset : Nat} : LaidOut offset [] []
  | cons {offset : Nat} {i : Instruction} {bytes more : List UInt8}
      {body : List Instruction} (first : Encoded offset i bytes)
      (rest : LaidOut (offset + bytes.length) body more) :
      LaidOut offset (i :: body) (bytes ++ more)

end ClassAudit
