import ClassAudit.Proofs.AncestorSearch

/-!
# Operations are edits

Whatever is done with a repository comes down to three small changes: a type is
held, something is noted about a type, or an edge is added to a type that is held.
An `Edit` is one of these, with the position that it may touch. Placing a class
touches one position only. Placing an array touches two, the class below it first,
and a search touches one position after the other. None of this depends on who
answers the questions, so what edits keep holds after any run, and no operation
has to be opened again.
-/

namespace ClassAudit

open Relation

namespace TypeRepository

variable {r r' : TypeRepository} {id : TypeId}

/-- A change to a repository that touches no type but the one at a position. An
array is held only over an element that is held, and an edge leads to a type that
is. -/
inductive Edit (id : TypeId) : TypeRepository → TypeRepository → Prop
  | hold {r : TypeRepository} {type : JavaType}
      (element : type.dimensions = 0 ∨ ∃ j, r.type? j = some ⟨0, type.element⟩) :
      Edit id r (r.hold type).2
  | note {r : TypeRepository} {change : TypeNode → TypeNode}
      (types : ∀ node, (change node).type = node.type)
      (edges : ∀ node, (change node).edges = node.edges) :
      Edit id r (r.update id change)
  | connect {r : TypeRepository} {edge : Edge} {type : JavaType}
      (target : r.type? edge.target = some type) :
      Edit id r (r.connect id edge)

/-- Any number of changes around one position. -/
abbrev EditsAt (id : TypeId) : TypeRepository → TypeRepository → Prop :=
  ReflTransGen (Edit id)

/-- Any number of changes. -/
abbrev Edits : TypeRepository → TypeRepository → Prop :=
  ReflTransGen fun r r' => ∃ id, Edit id r r'

theorem EditsAt.edits (h : EditsAt id r r') : Edits r r' :=
  ReflTransGen.mono (fun _ _ hedit => ⟨id, hedit⟩) _ _ h

theorem Edit.grows (h : Edit id r r') : Grows id r r' := by
  cases h with
  | hold _ => exact hold_grows id r _
  | note types _ => exact grows_update id r types
  | connect _ => exact connect_grows id r _

theorem EditsAt.grows (h : EditsAt id r r') : Grows id r r' := by
  induction h with
  | refl => exact .refl id r
  | tail _ hedit ih => exact ih.trans hedit.grows

theorem Edits.types (h : Edits r r') {j : TypeId} {type : JavaType}
    (hj : r.type? j = some type) : r'.type? j = some type := by
  induction h with
  | refl => exact hj
  | tail _ hedit ih =>
      obtain ⟨id, hedit⟩ := hedit
      exact hedit.grows.types j type ih

/-! ## Repositories -/

theorem edits_intern (id : TypeId) (r : TypeRepository) (type : JavaType) :
    EditsAt id r (r.intern type).2 := by
  unfold intern
  split
  · next hflat => exact .single (.hold (.inl hflat))
  · have helement := hold_type? r ⟨0, type.element⟩
    exact (ReflTransGen.single (.hold (.inl rfl))).tail (.hold (.inr ⟨_, helement⟩))

theorem edits_connectTo (r : TypeRepository) (id : TypeId) (kind : EdgeKind)
    (type : JavaType) : EditsAt id r (r.connectTo id kind type) := by
  rw [connectTo_eq]
  exact (edits_intern id r type).tail (.connect (intern_type? r type))

theorem edits_foldl {α : Type} {step : TypeRepository → α → TypeRepository}
    (hstep : ∀ r a, EditsAt id r (step r a)) (xs : List α) (r : TypeRepository) :
    EditsAt id r (xs.foldl step r) := by
  induction xs generalizing r with
  | nil => exact .refl
  | cons x xs ih => exact (hstep r x).trans (ih (step r x))

theorem edits_setResolution (r : TypeRepository) (id : TypeId)
    (resolution : Resolution) : EditsAt id r (r.setResolution id resolution) :=
  .single (.note (fun _ => rfl) fun _ => rfl)

theorem edits_markInterface (r : TypeRepository) (id : TypeId) (flag : Bool) :
    EditsAt id r (r.markInterface id flag) :=
  .single (.note (fun _ => rfl) fun _ => rfl)

theorem edits_keepAncestry (r : TypeRepository) (id : TypeId)
    (ancestry : Ancestry) : EditsAt id r (r.keepAncestry id ancestry) :=
  .single (.note (fun _ => rfl) fun _ => rfl)

theorem edits_link (sub : TypeId) (kind : EdgeKind) {super : TypeId}
    {type : JavaType} (h : r.type? super = some type) :
    EditsAt sub r (r.link sub kind super) :=
  (ReflTransGen.single (.connect h)).trans (edits_setResolution _ _ _)

end TypeRepository

/-! ## Placing -/

open TypeRepository

namespace TypeContext

theorem edits_placeClass (r : TypeRepository) (id : TypeId) (facts : ClassFacts) :
    EditsAt id r (placeClass r id facts) :=
  (edits_connectTo r id .superclass _).trans
    ((edits_foldl (fun r _ => edits_connectTo r id .interface _) _ _).trans
      (edits_markInterface _ id _))

theorem edits_placeArray (r : TypeRepository) (id : TypeId) :
    EditsAt id r (placeArray r id) :=
  (edits_connectTo r id .interface _).trans (edits_connectTo _ id .interface _)

theorem edits_placeArrayOver (r : TypeRepository) (id : TypeId)
    (dimensions : Nat) (element : TypeNode) :
    EditsAt id r (placeArrayOver r id dimensions element) :=
  (edits_foldl (fun r type => edits_connectTo r id .superclass type) _ _).trans
    ((edits_foldl (fun r type => edits_connectTo r id .interface type) _ _).trans
      (edits_placeArray _ id))

variable {σ : Type}

theorem edits_settle (c : TypeContext σ) (id : TypeId) (type : JavaType)
    (outcome : Except ClassNotFound Unit) :
    EditsAt id c.repository (c.settle id type outcome).2.repository := by
  cases outcome with
  | ok => exact edits_setResolution _ id .known
  | error cause => exact edits_setResolution _ id (.failed cause)

variable [ClassSource σ]

theorem edits_askClass (c : TypeContext σ) (id : TypeId) (name : String) :
    EditsAt id c.repository (c.askClass id name).2.repository := by
  unfold askClass
  split
  · exact edits_placeClass _ id _
  · exact .refl

theorem edits_resolveClass (c : TypeContext σ) (id : TypeId) (name : String) :
    EditsAt id c.repository (c.resolveClass id name).2.repository := by
  unfold resolveClass
  split
  · exact .refl
  · exact .refl
  · exact .refl
  · exact (edits_askClass c id name).trans (edits_settle _ id _ _)

theorem edits_deriveArray (c : TypeContext σ) (id : TypeId) (dimensions : Nat)
    (name : String) :
    Edits c.repository (c.deriveArray id dimensions name).2.repository := by
  have hclass := EditsAt.edits ((edits_intern _ c.repository (.named name)).trans
    (edits_resolveClass (c.intern (.named name)).2 (c.intern (.named name)).1 name))
  unfold deriveArray
  dsimp only
  split
  · next h =>
      rw [h] at hclass
      exact hclass
  · next h =>
      rw [h] at hclass
      split
      · exact hclass
      · exact hclass.trans (edits_placeArrayOver _ id dimensions _).edits

theorem edits_resolveArray (c : TypeContext σ) (id : TypeId) (type : JavaType) :
    Edits c.repository (c.resolveArray id type).2.repository := by
  have hbelow (superclass : JavaType) : EditsAt id c.repository
      (placeArray (c.repository.connectTo id .superclass superclass) id) :=
    (edits_connectTo _ id .superclass superclass).trans (edits_placeArray _ id)
  unfold resolveArray
  dsimp only
  split
  · exact (hbelow .object).edits
  · split
    · exact (hbelow _).edits
    · exact edits_deriveArray c id _ _

theorem edits_resolve (c : TypeContext σ) (id : TypeId) :
    Edits c.repository (c.resolve id).2.repository := by
  unfold resolve
  split
  · exact .refl
  · split
    · exact .refl
    · exact .refl
    · split
      · exact (edits_settle c id _ _).edits
      · exact (edits_resolveClass c id _).edits
      · exact (edits_resolveArray c id _).trans (edits_settle _ id _ _).edits

end TypeContext

/-! ## Searching -/

namespace Search

variable {σ : Type}

theorem miss_context (search : Search σ) (name : String) :
    (search.miss name).context = search.context := by
  unfold miss
  split <;> rfl

variable [ClassSource σ]

theorem visit_context (search : Search σ) (id : TypeId) (rest : List TypeId) :
    (search.visit id rest).context = (search.context.resolve id).2 := by
  unfold visit
  split
  · next h => rw [miss_context, h]
  · next h => rw [foldl_reach_context, h]

/-- A search does nothing to its context but resolve types, one after the other. -/
theorem run_keeps {p : TypeContext σ → Prop}
    (hresolve : ∀ c id, p c → p (c.resolve id).2) (fuel : Nat) (search : Search σ)
    (h : p search.context) : p (search.run fuel).context := by
  induction fuel generalizing search with
  | zero => exact h
  | succ fuel ih =>
      unfold run
      split
      · exact h
      · next id rest _ =>
          refine ih (search.visit id rest) ?_
          rw [visit_context]
          exact hresolve _ id h

end Search

namespace TypeContext

variable {σ : Type} [ClassSource σ]

theorem edits_isSubtype (c : TypeContext σ) (sub super : TypeId) :
    Edits c.repository (c.isSubtype sub super).2.repository := by
  unfold isSubtype
  split
  · exact .refl
  · refine ReflTransGen.trans ?_ (edits_keepAncestry _ sub _).edits
    exact Search.run_keeps (p := fun c' => Edits c.repository c'.repository)
      (fun c' id h => h.trans (edits_resolve c' id)) _ _ .refl

end TypeContext

end ClassAudit
