import ClassAudit.Rules.Finding
import ClassAudit.Types.Ancestry
import ClassAudit.Walk

/-!
# Impossible casts

A cast between two classes can only succeed if one is below the other, unless one of
them is an interface, which any class might implement. Nothing is reported when part of
the hierarchy above either type is missing.
-/

namespace ClassAudit.ImpossibleCast

/-- A cast that a walk came upon. -/
structure Cast where
  offset : Nat
  source : String
  target : String
  deriving DecidableEq, Repr

/-- The cast at one stop of a walk. The null literal can be cast to anything. -/
def cast? (pool : ConstantPool) (visit : Visit) : Option Cast :=
  match visit.instruction.opcode, visit.instruction.operands with
  | .checkcast, .pool index => do
    let name ← pool.className? index
    let value ← visit.stack.itemAt? 0
    if value.isNull then none
    else some ⟨visit.instruction.offset, value.signature, signatureOfName name⟩
  | _, _ => none

variable {σ : Type}

/-- Whether part of the hierarchy above a type is missing, or was never looked at. -/
def isIncomplete (repository : TypeRepository) (id : TypeId) : Bool :=
  match (repository.node? id).bind TypeNode.ancestry with
  | some ancestry => !ancestry.missing.isEmpty
  | none => true

/-- Whether a type is an interface or an array of one, or might be. -/
def involvesInterface (repository : TypeRepository) (id : TypeId) : Bool :=
  match repository.type? id with
  | some ⟨_, .named name⟩ =>
    match (repository.find? (.named name)).bind repository.node? with
    | some element => element.isInterface? != some false
    | none => true
  | _ => false

variable [ClassSource σ]

/-- Whether no object of the source type can be one of the target type. -/
def isImpossible (context : TypeContext σ) (source target : TypeId) :
    Bool × TypeContext σ :=
  let (below, context) := context.isSubtype source target
  if below then (false, context)
  else
    let (above, context) := context.isSubtype target source
    if above then (false, context)
    else
      let repository := context.repository
      (!isIncomplete repository source && !isIncomplete repository target
        && !involvesInterface repository source
          && !involvesInterface repository target, context)

/-- Whether a cast between two signatures always fails. A source that is no reference,
or a signature that names no type, says nothing. -/
def alwaysFails (context : TypeContext σ) (source target : String) :
    Bool × TypeContext σ :=
  if Kind.ofSignature? source ≠ some .reference then (false, context)
  else
    let (sourceId, context) := context.internSignature source
    let (targetId, context) := context.internSignature target
    match sourceId, targetId with
    | .ok sourceId, .ok targetId => isImpossible context sourceId targetId
    | .error error, _ => (false, context.record (.castSkipped source target error))
    | _, .error error => (false, context.record (.castSkipped source target error))

/-- The findings among some casts. -/
def checkAll (context : TypeContext σ) : List Cast → List MethodFinding × TypeContext σ
  | [] => ([], context)
  | cast :: rest =>
    let (fails, context) := alwaysFails context cast.source cast.target
    let (findings, context) := checkAll context rest
    if fails then
      (⟨cast.offset, .failingCast cast.source cast.target⟩ :: findings, context)
    else (findings, context)

end ClassAudit.ImpossibleCast
