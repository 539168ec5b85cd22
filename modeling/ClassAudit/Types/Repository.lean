import ClassAudit.Types.JavaType

/-!
# The type repository

Types are interned: each is held once and addressed by its position, the `TypeId`. Next
to a type the repository keeps what has been learnt of its place in the hierarchy: the
edges to its direct supertypes, whether they are known, and the ancestors once they
have been asked for. It only grows.

There is no table but that of the nodes. A signature is looked up among the types that
are held, and the edges of a type stand in its own node. So there is no index that
could miss a type or name another one, and no graph that could have other nodes than
there are types: that much holds by the form of a repository.
-/

namespace ClassAudit

/-- The position of an interned type. -/
abbrev TypeId := Nat

inductive EdgeKind
  | superclass
  | interface
  deriving DecidableEq, Repr

/-- An edge to a direct supertype. -/
structure Edge where
  kind : EdgeKind
  target : TypeId
  deriving DecidableEq, Repr

/-- Whether the direct supertypes of a type are known. -/
inductive Resolution
  | unresolved
  | known
  | failed (cause : ClassNotFound)
  deriving DecidableEq, Repr

/-- What a search upwards from a type found: the types reached, in the order in which
they were, and the classes that could not be placed, without repetition. -/
structure Ancestry where
  reached : List TypeId
  missing : List String
  deriving DecidableEq, Repr

/-- Whether a type is an ancestor. -/
def Ancestry.contains (ancestry : Ancestry) (id : TypeId) : Bool :=
  ancestry.reached.contains id

/-- An interned type and what is known of its place in the hierarchy. -/
structure TypeNode where
  type : JavaType
  resolution : Resolution
  /-- Whether a class is an interface, once that is known. -/
  interfaceFlag : Option Bool
  edges : List Edge
  ancestry : Option Ancestry

namespace TypeNode

/-- A type nothing is known of yet. A basic type has no supertypes, and that is
known. -/
def fresh (type : JavaType) : TypeNode :=
  let resolution := match type.dimensions, type.element with
    | 0, .basic _ => .known
    | _, _ => .unresolved
  { type, resolution, interfaceFlag := none, edges := [], ancestry := none }

/-- The target of the edge to the superclass. -/
def superclass? (node : TypeNode) : Option TypeId :=
  (node.edges.find? (·.kind == .superclass)).map Edge.target

/-- The targets of the edges to interfaces. -/
def interfaces (node : TypeNode) : List TypeId :=
  (node.edges.filter (·.kind == .interface)).map Edge.target

/-- Whether a type is an interface, if that is known. Arrays and basic types never
are. -/
def isInterface? (node : TypeNode) : Option Bool :=
  match node.type.dimensions, node.type.element with
  | 0, .named _ => node.interfaceFlag
  | _, _ => some false

end TypeNode

/-- The edges with one more. There is at most one edge to a superclass, so a second
takes the place of the first, and no edge is held twice. -/
def addEdge (edges : List Edge) (edge : Edge) : List Edge :=
  let kept :=
    if edge.kind = .superclass then edges.filter (·.kind != .superclass) else edges
  if kept.contains edge then kept else kept ++ [edge]

/-- Interned types. -/
structure TypeRepository where
  nodes : Array TypeNode

namespace TypeRepository

/-- The repository that holds only the root of the hierarchy. -/
def initial : TypeRepository :=
  ⟨#[{ TypeNode.fresh .object with
    resolution := .known, interfaceFlag := some false }]⟩

/-- The position of the root. -/
def objectId : TypeId := 0

/-- The number of interned types. -/
def size (repository : TypeRepository) : Nat := repository.nodes.size

def node? (repository : TypeRepository) (id : TypeId) : Option TypeNode :=
  repository.nodes[id]?

def type? (repository : TypeRepository) (id : TypeId) : Option JavaType :=
  (repository.node? id).map TypeNode.type

/-- Where a type is held. -/
def find? (repository : TypeRepository) (type : JavaType) : Option TypeId :=
  repository.nodes.findIdx? (·.type == type)

/-- Where the type with this signature is held. -/
def lookup? (repository : TypeRepository) (signature : String) : Option TypeId :=
  repository.nodes.findIdx? (·.type.signature == signature)

/-- Holds one type, if it is not held already. -/
def hold (repository : TypeRepository) (type : JavaType) : TypeId × TypeRepository :=
  match repository.find? type with
  | some id => (id, repository)
  | none => (repository.size, ⟨repository.nodes.push (.fresh type)⟩)

/-- Holds a type; below an array stands its element. -/
def intern (repository : TypeRepository) (type : JavaType) : TypeId × TypeRepository :=
  if type.dimensions = 0 then repository.hold type
  else (repository.hold ⟨0, type.element⟩).2.hold type

/-- Changes what is known of one type. -/
def update (repository : TypeRepository) (id : TypeId) (change : TypeNode → TypeNode) :
    TypeRepository :=
  ⟨repository.nodes.modify id change⟩

/-- Adds an edge to a direct supertype. -/
def connect (repository : TypeRepository) (id : TypeId) (edge : Edge) :
    TypeRepository :=
  repository.update id fun node => { node with edges := addEdge node.edges edge }

/-- Adds an edge to a direct supertype that might not be held yet. -/
def connectTo (repository : TypeRepository) (id : TypeId) (kind : EdgeKind)
    (type : JavaType) : TypeRepository :=
  let (target, repository) := repository.intern type
  repository.connect id ⟨kind, target⟩

def setResolution (repository : TypeRepository) (id : TypeId)
    (resolution : Resolution) : TypeRepository :=
  repository.update id fun node => { node with resolution }

/-- Says whether a class is an interface. -/
def markInterface (repository : TypeRepository) (id : TypeId) (flag : Bool) :
    TypeRepository :=
  repository.update id fun node => { node with interfaceFlag := some flag }

/-- Keeps the ancestors of a type. -/
def keepAncestry (repository : TypeRepository) (id : TypeId) (ancestry : Ancestry) :
    TypeRepository :=
  repository.update id fun node => { node with ancestry := some ancestry }

/-- States a direct supertype by hand. Whoever does so vouches for the type, which
counts as known from then on. -/
def link (repository : TypeRepository) (sub : TypeId) (kind : EdgeKind)
    (super : TypeId) : TypeRepository :=
  (repository.connect sub ⟨kind, super⟩).setResolution sub .known

end TypeRepository

end ClassAudit
