import ClassAudit.ClassModel

/-!
# Findings

A finding is a defect at one instruction of one method.
-/

namespace ClassAudit

/-- The rules, in the order in which they report. -/
inductive Rule
  | divideByZero
  | nullReceiver
  | impossibleCast
  deriving DecidableEq, Repr

namespace Rule

def all : List Rule := [divideByZero, nullReceiver, impossibleCast]

def id : Rule → String
  | divideByZero => "DIVIDE_BY_ZERO"
  | nullReceiver => "NULL_RECEIVER"
  | impossibleCast => "IMPOSSIBLE_CAST"

def name : Rule → String
  | divideByZero => "Division by constant zero"
  | nullReceiver => "Null receiver"
  | impossibleCast => "Impossible cast"

def description : Rule → String
  | divideByZero => "Integer division or remainder whose divisor is always zero"
  | nullReceiver =>
    "Field access, method call, throw or lock on a value that is always null"
  | impossibleCast =>
    "Checked cast between class types where neither is a subtype of the other"

end Rule

/-- What is wrong at an instruction. -/
inductive Defect
  | zeroDivisor (opcode : Opcode)
  | nullDereference (opcode : Opcode) (member : Option Member)
  | failingCast (source target : String)
  deriving DecidableEq, Repr

def Defect.message : Defect → String
  | zeroDivisor opcode =>
    opcode.mnemonic ++ " by constant zero always throws ArithmeticException"
  | nullDereference opcode (some member) =>
    opcode.mnemonic ++ " of " ++ member.owner ++ "." ++ member.name
      ++ " on a null reference"
  | nullDereference opcode none => opcode.mnemonic ++ " on a null reference"
  | failingCast source target =>
    "Cast from " ++ source ++ " to " ++ target ++ " always fails"

/-- A defect at an offset of a method body. -/
structure MethodFinding where
  offset : Nat
  defect : Defect
  deriving DecidableEq, Repr

/-- A defect with the rule that found it and the place it was found at: the full name
of the method and the artifact of its class. -/
structure Finding where
  rule : Rule
  method : String
  artifact : Int
  offset : Nat
  defect : Defect
  deriving DecidableEq, Repr

namespace Finding

/-- Places a finding of a method. -/
def of (rule : Rule) (model : ClassModel) (method : Method) (finding : MethodFinding) :
    Finding :=
  { rule
    method := model.name ++ "." ++ method.name ++ method.descriptor
    artifact := model.artifact
    offset := finding.offset
    defect := finding.defect }

/-- The text of a finding names the offset of the instruction. -/
def message (finding : Finding) : String :=
  finding.defect.message ++ " (offset " ++ toString finding.offset ++ ")"

end Finding

end ClassAudit
