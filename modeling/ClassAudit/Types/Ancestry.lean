import ClassAudit.Types.Resolve

/-!
# Subtype queries

Whether one type is below another is decided by a breadth-first search upwards. The
first question about a type finds all its ancestors and keeps them; later questions
about it only look there. A class that cannot be placed does not stop the search. It is
noted as missing, and the answer is the best one that the rest of the hierarchy gives.

The search holds new types while it runs, so its fuel has to cover types that are not
there when it starts: every name the repository and the source mention, under as many
dimensions as links can pile up.
-/

namespace ClassAudit

/-- A search on its way: the types found, and those of them still to be looked at. -/
structure Search (σ : Type) where
  context : TypeContext σ
  queue : List TypeId
  found : Ancestry

namespace Search

variable {σ : Type}

/-- Notes a type, if it is new. -/
def reach (search : Search σ) (id : TypeId) : Search σ :=
  if search.found.reached.contains id then search
  else
    { search with
      queue := search.queue ++ [id]
      found := { search.found with reached := search.found.reached ++ [id] } }

/-- Notes a class that could not be placed. -/
def miss (search : Search σ) (name : String) : Search σ :=
  if search.found.missing.contains name then search
  else
    { search with
      found := { search.found with missing := search.found.missing ++ [name] } }

variable [ClassSource σ]

/-- Looks at one type, with the rest of the queue given: its supertypes are reached, or
the class that hides them is missed. -/
def visit (search : Search σ) (id : TypeId) (rest : List TypeId) : Search σ :=
  match search.context.resolve id with
  | (.error cause, context) => { search with context, queue := rest }.miss cause.name
  | (.ok (), context) =>
    let targets := (context.repository.node? id).elim [] fun node =>
      node.edges.map Edge.target
    targets.foldl reach { search with context, queue := rest }

/-- Looks at types until none is left. -/
def run : Nat → Search σ → Search σ
  | 0, search => search
  | fuel + 1, search =>
    match search.queue with
    | [] => search
    | id :: rest => run fuel (search.visit id rest)

end Search

namespace TypeContext

variable {σ : Type} [ClassSource σ]

/-- More than the number of types that a search can ever reach. -/
def searchBudget (context : TypeContext σ) : Nat :=
  let names := ClassSource.mentions context.source + context.repository.size + 3
  let depth :=
    context.repository.nodes.foldl (fun depth node => max depth node.type.dimensions) 0
  names * (depth * (names + 1) + 2)

/-- Finds all ancestors of a type. -/
def searchAncestors (context : TypeContext σ) (start : TypeId) : Search σ :=
  Search.run context.searchBudget ⟨context, [start], ⟨[start], []⟩⟩

/-- Whether a type is another or below it. -/
def isSubtype (context : TypeContext σ) (sub super : TypeId) : Bool × TypeContext σ :=
  match (context.repository.node? sub).bind TypeNode.ancestry with
  | some ancestry => (ancestry.contains super, context)
  | none =>
    let search := context.searchAncestors sub
    (search.found.contains super,
      search.context.withRepository (·.keepAncestry sub search.found))

end TypeContext

end ClassAudit
