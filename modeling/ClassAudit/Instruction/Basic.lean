import ClassAudit.Opcode.Code

/-!
# Instructions

An instruction is an opcode at an offset of a method body, with the operands that
followed it read into one of nine shapes. Branch and switch targets are absolute
offsets. The shape is not tied to the opcode by the type: a listing may hold operands
that no code would yield, and whoever executes it has to look.

Offsets are natural numbers. Decoding code of at most 2^32 bytes yields only offsets
and targets that fit into 32 bits (`decode_fits`).
-/

namespace ClassAudit

/-- The operands of one instruction. -/
inductive Operands
  | none
  /-- The literal of a short push. -/
  | literal (value : Int32)
  /-- The local variable of a load, a store or `ret`. -/
  | slot (index : UInt16)
  /-- The local variable of an increment and the amount. -/
  | increment (index : UInt16) (delta : Int16)
  /-- A constant pool index. -/
  | pool (index : UInt16)
  /-- The absolute target of a branch. -/
  | branch (target : Nat)
  /-- The absolute targets of a switch, the default first. -/
  | switch (targets : List Nat)
  /-- The element type code of `newarray`. -/
  | elementType (code : UInt8)
  /-- The class and the number of dimensions of `multianewarray`. -/
  | multiArray (index : UInt16) (dimensions : UInt8)
  deriving DecidableEq, Repr

/-- The operands as messages show them. -/
def Operands.describe : Operands → String
  | .none => "None"
  | .literal value => "Int(" ++ toString value.toInt ++ ")"
  | .slot index => "Local(" ++ toString index.toNat ++ ")"
  | .increment index delta =>
    "Iinc \x7b index: " ++ toString index.toNat ++ ", delta: " ++ toString delta.toInt
      ++ " \x7d"
  | .pool index => "Pool(" ++ toString index.toNat ++ ")"
  | .branch target => "Branch(" ++ toString target ++ ")"
  | .switch targets => "Switch([" ++ ", ".intercalate (targets.map toString) ++ "])"
  | .elementType code => "NewArray(" ++ toString code.toNat ++ ")"
  | .multiArray index dimensions =>
    "MultiNewArray \x7b index: " ++ toString index.toNat ++ ", dimensions: "
      ++ toString dimensions.toNat ++ " \x7d"

/-- One instruction of a method body. -/
structure Instruction where
  offset : Nat
  opcode : Opcode
  operands : Operands
  deriving DecidableEq, Repr

/-- The array signature that a `newarray` type code stands for. -/
def arrayOfTypeCode? (code : UInt8) : Option String :=
  match code.toNat with
  | 4 => some "[Z"
  | 5 => some "[C"
  | 6 => some "[F"
  | 7 => some "[D"
  | 8 => some "[B"
  | 9 => some "[S"
  | 10 => some "[I"
  | 11 => some "[J"
  | _ => none

end ClassAudit
