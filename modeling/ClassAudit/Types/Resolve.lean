import ClassAudit.Types.Repository

/-!
# Placing types in the hierarchy

The direct supertypes of a class are asked of a `ClassSource` the first time they are
needed, and the answer is kept, also when there is none. Arrays derive theirs: an array
of a class has the arrays of that class's supertypes above it, an array of basic values
the root, and every array the two interfaces that arrays implement.
-/

namespace ClassAudit

/-- The place of a class in the hierarchy. Without a superclass it hangs off the
root. -/
structure ClassFacts where
  superclass : Option String
  interfaces : List String
  isInterface : Bool
  deriving DecidableEq, Repr

/-- Something that can be asked for the place of a class. Asking may change it. -/
class ClassSource (σ : Type) where
  /-- What is known of the class of this name, and the source afterwards. -/
  ask : σ → String → Option ClassFacts × σ
  /-- How many names its answers can mention altogether. -/
  mentions : σ → Nat
  /-- The class that it calls missing when it has just been asked for one in vain. -/
  blames : σ → String → ClassNotFound := fun _ name => ⟨name⟩

/-- A repository, the source that feeds it, and the events since the log was last
taken. -/
structure TypeContext (σ : Type) where
  repository : TypeRepository
  source : σ
  log : Array Event

namespace TypeContext

variable {σ : Type}

/-- A context that holds only the root of the hierarchy. -/
def ofSource (source : σ) : TypeContext σ := ⟨.initial, source, #[]⟩

def record (context : TypeContext σ) (event : Event) : TypeContext σ :=
  { context with log := context.log.push event }

/-- Changes the repository. -/
def withRepository (context : TypeContext σ)
    (change : TypeRepository → TypeRepository) : TypeContext σ :=
  { context with repository := change context.repository }

/-- Holds a type. -/
def intern (context : TypeContext σ) (type : JavaType) : TypeId × TypeContext σ :=
  let (id, repository) := context.repository.intern type
  (id, { context with repository })

/-- Holds the type of a signature. -/
def internSignature (context : TypeContext σ) (signature : String) :
    Except SignatureError TypeId × TypeContext σ :=
  match JavaType.ofSignature signature with
  | .ok type =>
    let (id, context) := context.intern type
    (.ok id, context)
  | .error error => (.error error, context)

/-- Keeps the outcome of placing a type. -/
def settle (context : TypeContext σ) (id : TypeId) (type : JavaType)
    (outcome : Except ClassNotFound Unit) :
    Except ClassNotFound Unit × TypeContext σ :=
  match outcome with
  | .ok () => (.ok (), context.withRepository (·.setResolution id .known))
  | .error cause =>
    (.error cause, (context.record (.unresolved type.signature cause)).withRepository
      (·.setResolution id (.failed cause)))

/-- Adds the edges from a class to the supertypes that facts name. -/
def placeClass (repository : TypeRepository) (id : TypeId) (facts : ClassFacts) :
    TypeRepository :=
  let superclass := (facts.superclass.map JavaType.named).getD .object
  let repository := repository.connectTo id .superclass superclass
  let repository := facts.interfaces.foldl
    (fun repository name => repository.connectTo id .interface (.named name))
    repository
  repository.markInterface id facts.isInterface

/-- The array types over the types at some positions. -/
def arraysOver (repository : TypeRepository) (dimensions : Nat) (ids : List TypeId) :
    List JavaType :=
  (ids.filterMap repository.type?).map (JavaType.array dimensions)

/-- Adds the edges that every array has. -/
def placeArray (repository : TypeRepository) (id : TypeId) : TypeRepository :=
  (repository.connectTo id .interface .serializable).connectTo id .interface .cloneable

/-- Adds the edges from an array to the arrays over the supertypes of its element. -/
def placeArrayOver (repository : TypeRepository) (id : TypeId) (dimensions : Nat)
    (element : TypeNode) : TypeRepository :=
  let superclasses := arraysOver repository dimensions element.superclass?.toList
  let interfaces := arraysOver repository dimensions element.interfaces
  let repository :=
    superclasses.foldl (fun r type => r.connectTo id .superclass type) repository
  let repository :=
    interfaces.foldl (fun r type => r.connectTo id .interface type) repository
  placeArray repository id

variable [ClassSource σ]

/-- Places a class by asking the source. -/
def askClass (context : TypeContext σ) (id : TypeId) (name : String) :
    Except ClassNotFound Unit × TypeContext σ :=
  match ClassSource.ask context.source name with
  | (some facts, source) =>
    (.ok (), { context with source }.withRepository (placeClass · id facts))
  | (none, source) =>
    (.error (ClassSource.blames source name),
      { context with source }.record (.notOnClasspath name))

/-- Places the class at a position, unless that has been tried before. -/
def resolveClass (context : TypeContext σ) (id : TypeId) (name : String) :
    Except ClassNotFound Unit × TypeContext σ :=
  match (context.repository.node? id).map TypeNode.resolution with
  | none | some .known => (.ok (), context)
  | some (.failed cause) => (.error cause, context)
  | some .unresolved =>
    let (outcome, context) := context.askClass id name
    context.settle id (.named name) outcome

/-- Places an array over a class that is not the root, by placing the class first. -/
def deriveArray (context : TypeContext σ) (id : TypeId) (dimensions : Nat)
    (name : String) : Except ClassNotFound Unit × TypeContext σ :=
  let (element, context) := context.intern (.named name)
  match context.resolveClass element name with
  | (.error cause, context) => (.error cause, context)
  | (.ok (), context) =>
    match context.repository.node? element with
    | none => (.ok (), context)
    | some node =>
      (.ok (), context.withRepository (placeArrayOver · id dimensions node))

/-- Places an array. -/
def resolveArray (context : TypeContext σ) (id : TypeId) (type : JavaType) :
    Except ClassNotFound Unit × TypeContext σ :=
  let below (superclass : JavaType) (repository : TypeRepository) : TypeRepository :=
    placeArray (repository.connectTo id .superclass superclass) id
  match type.element with
  | .basic _ => (.ok (), context.withRepository (below .object))
  | .named name =>
    if JavaType.named name = .object then
      (.ok (), context.withRepository (below ⟨type.dimensions - 1, type.element⟩))
    else context.deriveArray id type.dimensions name

/-- Finds the direct supertypes of the type at a position, unless that has been tried
before. -/
def resolve (context : TypeContext σ) (id : TypeId) :
    Except ClassNotFound Unit × TypeContext σ :=
  match context.repository.node? id with
  | none => (.ok (), context)
  | some node =>
    match node.resolution with
    | .known => (.ok (), context)
    | .failed cause => (.error cause, context)
    | .unresolved =>
      match node.type.dimensions, node.type.element with
      | 0, .basic _ => context.settle id node.type (.ok ())
      | 0, .named name => context.resolveClass id name
      | _ + 1, _ =>
        let (outcome, context) := context.resolveArray id node.type
        context.settle id node.type outcome

/-- The superclass of a type, which the root and basic types do not have. -/
def superclass? (context : TypeContext σ) (id : TypeId) :
    Except ClassNotFound (Option TypeId) × TypeContext σ :=
  let (outcome, context) := context.resolve id
  (outcome.map fun () => (context.repository.node? id).bind TypeNode.superclass?,
    context)

/-- The interfaces of a type. -/
def interfaces (context : TypeContext σ) (id : TypeId) :
    Except ClassNotFound (List TypeId) × TypeContext σ :=
  let (outcome, context) := context.resolve id
  (outcome.map fun () => (context.repository.node? id).elim [] TypeNode.interfaces,
    context)

/-- The superclass of a type, then its interfaces. -/
def directSupertypes (context : TypeContext σ) (id : TypeId) :
    Except ClassNotFound (List TypeId) × TypeContext σ :=
  let (outcome, context) := context.resolve id
  (outcome.map fun () => (context.repository.node? id).elim []
    fun node => node.superclass?.toList ++ node.interfaces, context)

end TypeContext

end ClassAudit
