import ClassAudit.Proofs.RepositoryEdits

/-!
# What can be done with a context

Types are asked for, things are stated about them by hand, and they are looked up.
There is one list of all this (`Operation`). A run is a sequence of operations; which
ones it may have, and who answers on the way, is for each kind of run to say.

A proof about all operations has fewer cases than there are operations
(`perform_cases`). Whatever is asked, a type is held, a type is placed, a search is
made, or nothing happens at all.
-/

namespace ClassAudit

open TypeRepository

/-- The ways to ask for a type. -/
inductive TypeRequest
  | named (name : String)
  | dotted (name : String)
  | basicSignature (text : String)
  | arraySignature (text : String)
  | signature (text : String)
  /-- An array over the type at a position, which can be an array itself. -/
  | array (dimensions : Nat) (element : TypeId)

/-- The type that is asked for. -/
def TypeRequest.type? (r : TypeRepository) : TypeRequest → Option JavaType
  | named name => some (.named name)
  | dotted name => some (.ofDotted name)
  | basicSignature text => (JavaType.ofBasicSignature text).toOption
  | arraySignature text => (JavaType.ofArraySignature text).toOption
  | signature text => (JavaType.ofSignature text).toOption
  | array dimensions element => (r.type? element).map (.array dimensions)

/-- Holds the type that is asked for, if there is one. -/
def TypeContext.request {σ : Type} (c : TypeContext σ) (asked : TypeRequest) :
    Option TypeId × TypeContext σ :=
  match asked.type? c.repository with
  | some type => (some (c.intern type).1, (c.intern type).2)
  | none => (none, c)

/-- What can be done with a context. -/
inductive Operation
  | request (asked : TypeRequest)
  | intern (type : JavaType)
  | internSignature (text : String)
  | link (sub : TypeId) (kind : EdgeKind) (super : TypeId)
  | markInterface (id : TypeId) (flag : Bool)
  | resolve (id : TypeId)
  | superclass (id : TypeId)
  | interfaces (id : TypeId)
  | directSupertypes (id : TypeId)
  | isSubtype (sub super : TypeId)

namespace Operation

/-- An operation that asks and states nothing by hand. -/
def Asks : Operation → Bool
  | link _ _ _ => false
  | markInterface _ _ => false
  | _ => true

/-- Whether an operation states supertypes only that are held. -/
def Founded (r : TypeRepository) : Operation → Prop
  | link _ _ super => ∃ type, r.type? super = some type
  | _ => True

theorem founded_of_asks {operation : Operation} (h : operation.Asks)
    (r : TypeRepository) : operation.Founded r := by
  cases operation with
  | link => cases h
  | _ => trivial

end Operation

namespace TypeContext

variable {σ : Type} [ClassSource σ]

def perform (c : TypeContext σ) : Operation → TypeContext σ
  | .request asked => (c.request asked).2
  | .intern type => (c.intern type).2
  | .internSignature text => (c.internSignature text).2
  | .link sub kind super => c.withRepository (·.link sub kind super)
  | .markInterface id flag => c.withRepository (·.markInterface id flag)
  | .resolve id => (c.resolve id).2
  | .superclass id => (c.superclass? id).2
  | .interfaces id => (c.interfaces id).2
  | .directSupertypes id => (c.directSupertypes id).2
  | .isSubtype sub super => (c.isSubtype sub super).2

/-- One operation after the other. -/
def performAll (c : TypeContext σ) (operations : List Operation) : TypeContext σ :=
  operations.foldl perform c

variable {c : TypeContext σ} {operation : Operation}

/-- What is so after an operation, by what the operation comes to. -/
theorem perform_cases {p : TypeContext σ → Prop} (hstay : p c)
    (hintern : ∀ type, p (c.intern type).2)
    (hlink : ∀ sub kind super, operation = .link sub kind super →
      p (c.withRepository (·.link sub kind super)))
    (hmark : ∀ id flag, operation = .markInterface id flag →
      p (c.withRepository (·.markInterface id flag)))
    (hresolve : ∀ id, p (c.resolve id).2)
    (hsearch : ∀ sub super, p (c.isSubtype sub super).2) :
    p (c.perform operation) := by
  cases operation with
  | request asked =>
      show p (c.request asked).2
      unfold request
      split
      · exact hintern _
      · exact hstay
  | intern type => exact hintern type
  | internSignature text =>
      show p (c.internSignature text).2
      unfold internSignature
      split
      · exact hintern _
      · exact hstay
  | link sub kind super => exact hlink sub kind super rfl
  | markInterface id flag => exact hmark id flag rfl
  | resolve id | superclass id | interfaces id | directSupertypes id =>
      exact hresolve id
  | isSubtype sub super => exact hsearch sub super

theorem perform_asks {p : TypeContext σ → Prop} (h : operation.Asks) (hstay : p c)
    (hintern : ∀ type, p (c.intern type).2) (hresolve : ∀ id, p (c.resolve id).2)
    (hsearch : ∀ sub super, p (c.isSubtype sub super).2) :
    p (c.perform operation) := by
  refine perform_cases hstay hintern ?_ ?_ hresolve hsearch
  · rintro sub kind super rfl
    cases h
  · rintro id flag rfl
    cases h

theorem edits_perform (h : operation.Founded c.repository) :
    Edits c.repository (c.perform operation).repository := by
  refine perform_cases (p := fun c' => Edits c.repository c'.repository) .refl
    (fun type => (edits_intern objectId c.repository type).edits) ?_ ?_
    (fun id => edits_resolve c id) (fun sub super => edits_isSubtype c sub super)
  · rintro sub kind super rfl
    obtain ⟨type, hheld⟩ := h
    exact (edits_link sub kind hheld).edits
  · rintro id flag rfl
    exact (edits_markInterface c.repository id flag).edits

theorem edits_performAll {operations : List Operation}
    (h : ∀ operation ∈ operations, operation.Asks) :
    Edits c.repository (c.performAll operations).repository := by
  induction operations generalizing c with
  | nil => exact .refl
  | cons first rest ih =>
      have hfirst : Edits c.repository (c.perform first).repository :=
        edits_perform (Operation.founded_of_asks (h first List.mem_cons_self) _)
      exact hfirst.trans (ih fun operation hmem =>
        h operation (List.mem_cons_of_mem _ hmem))

end TypeContext

end ClassAudit
