import ClassAudit.Instruction.Basic
import ClassAudit.OperandStack.Basic
import ClassAudit.Text.Quoted

/-!
# Events

What happens on the way to an answer and is worth a line in a log. Operations return
the events they caused, in order.
-/

namespace ClassAudit

/-- A signature that names no type. -/
structure SignatureError where
  signature : String
  deriving DecidableEq, Repr

def SignatureError.message (error : SignatureError) : String :=
  "invalid type signature " ++ Text.quoted error.signature

/-- A class whose place in the hierarchy is not known. -/
structure ClassNotFound where
  name : String
  deriving DecidableEq, Repr

def ClassNotFound.message (error : ClassNotFound) : String :=
  "class not found: " ++ error.name

/-- Something worth a line in a log. -/
inductive Event
  /-- An instruction had an unknown effect and the operand stack was dropped. -/
  | stackCleared (instruction : Instruction) (fault : Fault)
  /-- The class path was asked for a class it does not have. -/
  | notOnClasspath (name : String)
  /-- A type could not be placed in the hierarchy. -/
  | unresolved (signature : String) (cause : ClassNotFound)
  | castSkipped (source target : String) (cause : SignatureError)
  | ruleFinished (rule : String) (findings : Nat)
  | scanned (targets libraries : Nat)
  deriving DecidableEq, Repr

def Event.message : Event → String
  | stackCleared instruction fault =>
    "operand stack cleared at offset " ++ toString instruction.offset ++ ": "
      ++ fault.message instruction
  | notOnClasspath name => "class " ++ name ++ " is not on the classpath"
  | unresolved signature cause =>
    "failed to resolve " ++ signature ++ ": " ++ cause.message
  | castSkipped source target cause =>
    "skipping cast " ++ source ++ " -> " ++ target ++ ": " ++ cause.message
  | ruleFinished rule findings =>
    "rule " ++ rule ++ " reported " ++ toString findings ++ " results"
  | scanned targets libraries =>
    "scanned " ++ toString targets ++ " target classes and " ++ toString libraries
      ++ " classpath classes"

end ClassAudit
