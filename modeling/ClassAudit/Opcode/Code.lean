import ClassAudit.Opcode.Basic

/-!
# Opcode numbering

`Opcode.toByte` numbers each family from its first code; `Opcode.table` lists all
opcodes in numeric order, and `Opcode.ofByte` reads it. The two are inverse to each
other, so opcodes and bytes are the same thing seen from two sides.
-/

namespace ClassAudit.Opcode

/-- The number of an opcode, as a natural. -/
def toNat : Opcode → Nat
  | nop => 0x00
  | aconstNull => 0x01
  | iconst n => 0x02 + n.val
  | lconst n => 0x09 + n.val
  | fconst n => 0x0b + n.val
  | dconst n => 0x0e + n.val
  | bipush => 0x10
  | sipush => 0x11
  | ldc => 0x12
  | ldcW => 0x13
  | ldc2W => 0x14
  | load k => 0x15 + k.index
  | loadFrom k slot => 0x1a + 4 * k.index + slot.val
  | arrayLoad c => 0x2e + c.index
  | store k => 0x36 + k.index
  | storeTo k slot => 0x3b + 4 * k.index + slot.val
  | arrayStore c => 0x4f + c.index
  | pop => 0x57
  | pop2 => 0x58
  | dup => 0x59
  | dupX1 => 0x5a
  | dupX2 => 0x5b
  | dup2 => 0x5c
  | dup2X1 => 0x5d
  | dup2X2 => 0x5e
  | swap => 0x5f
  | arithmetic op k => 0x60 + 4 * op.index + k.index
  | negate k => 0x74 + k.index
  | bitwise op k => 0x78 + 2 * op.index + k.index
  | iinc => 0x84
  | convert c => 0x85 + c.index
  | compare c => 0x94 + c.index
  | ifZero c => 0x99 + c.index
  | ifInt c => 0x9f + c.index
  | ifSame same => if same then 0xa5 else 0xa6
  | goto => 0xa7
  | jsr => 0xa8
  | ret => 0xa9
  | tableswitch => 0xaa
  | lookupswitch => 0xab
  | valueReturn k => 0xac + k.index
  | voidReturn => 0xb1
  | getstatic => 0xb2
  | putstatic => 0xb3
  | getfield => 0xb4
  | putfield => 0xb5
  | invoke i => 0xb6 + i.index
  | new => 0xbb
  | newarray => 0xbc
  | anewarray => 0xbd
  | arraylength => 0xbe
  | athrow => 0xbf
  | checkcast => 0xc0
  | instanceof => 0xc1
  | monitorenter => 0xc2
  | monitorexit => 0xc3
  | wide => 0xc4
  | multianewarray => 0xc5
  | ifNull isNull => if isNull then 0xc6 else 0xc7
  | gotoW => 0xc8
  | jsrW => 0xc9
  | breakpoint => 0xca
  | unassigned p => 0xcb + p.val
  | impdep1 => 0xfe
  | impdep2 => 0xff

/-- The byte that stands for an opcode in code. -/
def toByte (op : Opcode) : UInt8 := UInt8.ofNat op.toNat

/-- Every opcode, in numeric order. -/
def table : Array Opcode :=
  (([nop, aconstNull] ++ (List.finRange 7).map iconst ++ (List.finRange 2).map lconst
    ++ (List.finRange 3).map fconst ++ (List.finRange 2).map dconst
    ++ [bipush, sipush, ldc, ldcW, ldc2W])
    ++ (Kind.all.map load
      ++ Kind.all.flatMap (fun k => (List.finRange 4).map (loadFrom k))
    ++ Component.all.map arrayLoad)
    ++ (Kind.all.map store
      ++ Kind.all.flatMap (fun k => (List.finRange 4).map (storeTo k))
    ++ Component.all.map arrayStore)
    ++ [pop, pop2, dup, dupX1, dupX2, dup2, dup2X1, dup2X2, swap]
    ++ (ArithmeticOp.all.flatMap (fun op => NumericKind.all.map (arithmetic op))
    ++ NumericKind.all.map negate
    ++ BitwiseOp.all.flatMap (fun op => IntegralKind.all.map (bitwise op)))
    ++ ([iinc] ++ Conversion.all.map convert ++ Comparison.all.map compare)
    ++ (Condition.all.map ifZero ++ Condition.all.map ifInt
      ++ [ifSame true, ifSame false])
    ++ [goto, jsr, ret, tableswitch, lookupswitch]
    ++ (Kind.all.map valueReturn ++ [voidReturn])
    ++ [getstatic, putstatic, getfield, putfield]
    ++ (Invocation.all.map invoke
    ++ [new, newarray, anewarray, arraylength, athrow, checkcast, instanceof,
      monitorenter, monitorexit, wide, multianewarray, ifNull true, ifNull false,
      gotoW, jsrW, breakpoint])
    ++ ((List.finRange 51).map unassigned ++ [impdep1, impdep2])).toArray

/-- The opcode a byte stands for. It does not unfold by itself: a byte that is not
known would send the whole table through every unification. -/
@[irreducible] def ofByte (byte : UInt8) : Opcode := (table[byte.toNat]?).getD nop

end ClassAudit.Opcode
