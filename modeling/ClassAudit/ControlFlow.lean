import ClassAudit.ClassModel
import Std.Data.TreeMap
import Std.Data.TreeSet

/-!
# Basic blocks

A basic block starts at the entry of a method, at every target of a branch or switch,
and behind every instruction that does not simply fall through. Exception handlers
start blocks too, but are kept apart because their stack holds the caught exception.
-/

namespace ClassAudit

/-- Whether control never falls through this opcode, although its operands name no
target. -/
def Opcode.isExit : Opcode → Bool
  | .valueReturn _ | .voidReturn | .athrow | .ret => true
  | _ => false

/-- The offsets an instruction names as targets. -/
def Instruction.targets (instruction : Instruction) : List Nat :=
  match instruction.operands with
  | .branch target => [target]
  | .switch targets => targets
  | _ => []

/-- Whether a block ends behind an instruction. -/
def Instruction.endsBlock (instruction : Instruction) : Bool :=
  match instruction.operands with
  | .branch _ | .switch _ => true
  | _ => instruction.opcode.isExit

/-- The offsets at which instructions of a body make a block start: their targets, and
what follows where a block ends. -/
def leadersOf : List Instruction → List Nat
  | [] => []
  | [last] => last.targets
  | first :: second :: rest =>
    first.targets ++ (if first.endsBlock then [second.offset] else [])
      ++ leadersOf (second :: rest)

/-- The offsets at which a basic block starts. -/
def blockLeaders (body : List Instruction) : Std.TreeSet Nat :=
  .ofList (0 :: leadersOf body)

/-- Adds one handler to the entries seen so far: handlers that share an entry and
disagree on the catch type catch everything. -/
def addHandler (entries : Std.TreeMap Nat (Option String))
    (handler : ExceptionHandler) : Std.TreeMap Nat (Option String) :=
  match entries[handler.entry]? with
  | none => entries.insert handler.entry handler.catchType
  | some catchType =>
    if catchType = handler.catchType then entries
    else entries.insert handler.entry none

/-- The catch type at each handler entry of an exception table. -/
def handlerEntries (handlers : List ExceptionHandler) :
    Std.TreeMap Nat (Option String) :=
  handlers.foldl addHandler ∅

end ClassAudit
