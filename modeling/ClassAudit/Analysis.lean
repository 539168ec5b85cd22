import ClassAudit.Rules.DivideByZero
import ClassAudit.Rules.ImpossibleCast
import ClassAudit.Rules.NullReceiver
import ClassAudit.Types.Classpath

/-!
# Analysis

An analysis runs rules over classes. Every rule walks every method of the classes under
analysis; the library classes only say how types are related. The rules share one type
context, in which what was learnt for one class serves the next.
-/

namespace ClassAudit

/-- The classes of one analysis. -/
structure Program where
  /-- The classes that findings are about. -/
  classes : List ClassModel
  /-- Classes that only contribute to the hierarchy. -/
  libraries : List ClassModel

/-- The class path of an analysis: all its classes in front of the library types. -/
def Program.classpath (program : Program) : Classpath :=
  .ofClasses (program.classes ++ program.libraries)

namespace Rule

/-- A rule that was asked for and does not exist. -/
structure Unknown where
  id : String
  deriving DecidableEq, Repr

def Unknown.message (error : Unknown) : String := "unknown rule id: " ++ error.id

/-- The rules with the given ids, in reporting order; all rules if no id is given. -/
def select (ids : List String) : Except Unknown (List Rule) :=
  if ids.isEmpty then .ok all
  else
    match ids.find? fun id => !(all.map Rule.id).contains id with
    | some id => .error ⟨id⟩
    | none => .ok (all.filter fun rule => ids.contains rule.id)

/-- What a rule finds in one method, and the events on the way. -/
def checkMethod (rule : Rule) (pool : ConstantPool) (method : Method)
    (context : TypeContext Classpath) : List MethodFinding × TypeContext Classpath :=
  let visits := method.visits pool
  let context := { context with log := context.log ++ walkEvents visits }
  match rule with
  | divideByZero => (visits.filterMap DivideByZero.check, context)
  | nullReceiver => (visits.filterMap (NullReceiver.check pool), context)
  | impossibleCast =>
    ImpossibleCast.checkAll context (visits.filterMap (ImpossibleCast.cast? pool))

/-- What a rule finds in some methods of a class. -/
def checkMethods (rule : Rule) (model : ClassModel) (context : TypeContext Classpath) :
    List Method → List Finding × TypeContext Classpath
  | [] => ([], context)
  | method :: rest =>
    let (found, context) := rule.checkMethod model.pool method context
    let (more, context) := rule.checkMethods model context rest
    (found.map (Finding.of rule model method) ++ more, context)

/-- What a rule finds in some classes. -/
def checkClasses (rule : Rule) (context : TypeContext Classpath) :
    List ClassModel → List Finding × TypeContext Classpath
  | [] => ([], context)
  | model :: rest =>
    let (found, context) := rule.checkMethods model context model.methods
    let (more, context) := rule.checkClasses context rest
    (found ++ more, context)

end Rule

/-- What an analysis found, how often the class path was asked, and the events on the
way. -/
structure Report where
  findings : List Finding
  asked : Nat
  log : Array Event

/-- Runs rules one after the other over classes. -/
def runRules (classes : List ClassModel) (context : TypeContext Classpath) :
    List Rule → List Finding × TypeContext Classpath
  | [] => ([], context)
  | rule :: rest =>
    let (found, context) := rule.checkClasses context classes
    let context := context.record (.ruleFinished rule.id found.length)
    let (more, context) := runRules classes context rest
    (found ++ more, context)

/-- Runs rules over a program. -/
def Program.analyze (program : Program) (rules : List Rule) : Report :=
  let (findings, context) :=
    runRules program.classes (.ofSource program.classpath) rules
  { findings, asked := context.source.asked, log := context.log }

end ClassAudit
