import ClassAudit.Proofs.Resolution
import Mathlib.Order.WellFoundedSet

/-!
# Two classes above one are above one another

In a legal table a class extends one class and may implement any number of
interfaces, and from an interface no way leads back to a class, except to the
root. So of the many ways up from a type, one that ends at a class other than
the root takes no interface on the way: it only ever follows the superclass
(`superclass_chain`). There is one such chain, and of two classes on it one is
above the other (`related_of_common_subtype`).

The root is the exception, since every interface is below it as well. It does
not matter as long as nothing is missing: a class with all its ancestors in the
table is below the root (`ancestor_object`), because its chain of superclasses
does not run in a circle and has nowhere else to end.
-/

namespace ClassAudit

namespace Classpath

/-- One class of a table names the other as its superclass. -/
def Extends (table : Classpath) (name super : String) : Prop :=
  ∃ facts, table.find? name = some facts ∧ facts.superclass = some super

/-- The tables that a compiler could have made, but for classes that are not
there. -/
structure Legal (table : Classpath) : Prop where
  interfaces : ∀ name facts, table.find? name = some facts →
    ∀ interface ∈ facts.interfaces, ∀ above,
      table.find? interface = some above → above.isInterface = true
  superclasses : ∀ name facts, table.find? name = some facts →
    facts.isInterface = false → ∀ super, facts.superclass = some super →
      ∀ above, table.find? super = some above → above.isInterface = false
  roots : ∀ name facts, table.find? name = some facts →
    facts.isInterface = true →
      facts.superclass = none ∨ facts.superclass = some "java/lang/Object"
  acyclic : ∀ name, ¬ Relation.TransGen table.Extends name name

/-- A class of the table that is no interface, other than the root. -/
def Declares (table : Classpath) (type : JavaType) : Prop :=
  type ≠ .object ∧ ∃ name facts, type = .named name ∧
    table.find? name = some facts ∧ facts.isInterface = false

/-- The type that a class extends, which is the root if it names none. -/
def Superclass (table : Classpath) (type super : JavaType) : Prop :=
  type ≠ .object ∧ ∃ name facts, type = .named name ∧
    table.find? name = some facts ∧
      super = (facts.superclass.map JavaType.named).getD .object

end Classpath

open Classpath

theorem JavaType.named_inj {a b : String}
    (h : JavaType.named a = JavaType.named b) : a = b := by
  injection h with _ h
  injection h

section Chains

variable {table : Classpath} {type super : JavaType}

theorem Classpath.flag?_eq_false (h : table.flag? type = some false) :
    type = .object ∨ table.Declares type := by
  by_cases hobject : type = .object
  · exact .inl hobject
  · obtain ⟨dimensions, element⟩ := type
    unfold flag? at h
    split at h
    · next name hdimensions helement =>
        dsimp only at hdimensions helement
        subst hdimensions helement
        have hname : JavaType.named name ≠ .object := hobject
        rw [if_neg hname] at h
        obtain ⟨facts, hfacts, hflag⟩ := Option.map_eq_some_iff.1 h
        exact .inr ⟨hobject, name, facts, rfl, hfacts, hflag⟩
    · cases h

theorem superclass_rightUnique : Relator.RightUnique table.Superclass := by
  rintro _ _ _ ⟨_, name, facts, rfl, hfacts, rfl⟩
    ⟨_, other, facts', hname, hfacts', rfl⟩
  cases JavaType.named_inj hname
  rw [hfacts] at hfacts'
  cases hfacts'
  rfl

theorem Classpath.Superclass.direct (h : table.Superclass type super) :
    DirectSupertype table type super := by
  obtain ⟨hobject, name, facts, rfl, hfacts, rfl⟩ := h
  exact .superclass hobject hfacts

theorem Classpath.Superclass.ancestor
    (h : Relation.ReflTransGen table.Superclass type super) :
    Ancestor table type super :=
  Relation.ReflTransGen.mono (fun _ _ => Superclass.direct) _ _ h

/-- What is directly above a class or an interface is one as well. -/
theorem directSupertype_named_named {name : String}
    (h : DirectSupertype table (.named name) super) :
    ∃ above, super = .named above := by
  generalize htype : JavaType.named name = type at h
  cases h with
  | @superclass _ facts _ _ =>
      cases facts.superclass with
      | none => exact ⟨_, rfl⟩
      | some above => exact ⟨above, rfl⟩
  | @interface _ above _ _ _ _ => exact ⟨above, rfl⟩
  | overBasic | overObject | overClass | serializable | cloneable =>
      cases htype

/-- The only way up to a class other than the root is to extend it, and only a
class does. -/
theorem declares_of_direct (hlegal : table.Legal) {name : String}
    (h : DirectSupertype table (.named name) super)
    (hsuper : table.Declares super) :
    table.Declares (.named name) ∧ table.Superclass (.named name) super := by
  obtain ⟨hroot, above, facts', rfl, hfacts', hclass⟩ := hsuper
  generalize htype : JavaType.named name = type at h
  generalize hsuper : JavaType.named above = super at h hroot
  cases h with
  | @superclass _ facts hobject hfacts =>
      cases JavaType.named_inj htype
      refine ⟨⟨hobject, name, facts, rfl, hfacts, ?_⟩,
        hobject, name, facts, rfl, hfacts, rfl⟩
      rw [Bool.eq_false_iff]
      intro hinterface
      rcases hlegal.roots name facts hfacts hinterface with hnone | hsome
      · rw [hnone] at hroot
        exact hroot rfl
      · rw [hsome] at hroot
        exact hroot rfl
  | @interface _ interface facts hobject hfacts hmem =>
      cases JavaType.named_inj hsuper
      rw [hlegal.interfaces _ facts hfacts above hmem facts' hfacts'] at hclass
      cases hclass
  | overBasic | overObject | overClass | serializable | cloneable =>
      cases htype

theorem declares_of_superclass_chain
    (h : Relation.ReflTransGen table.Superclass type super)
    (hlegal : table.Legal) (hsuper : table.Declares super) :
    table.Declares type := by
  induction h using Relation.ReflTransGen.head_induction_on with
  | refl => exact hsuper
  | head hstep _ ih =>
      obtain ⟨name, _, hname, _⟩ := hstep.2
      subst hname
      exact (declares_of_direct hlegal hstep.direct ih).1

/-- Whoever is below a class other than the root extends it, in some number of
steps. -/
theorem superclass_chain (hlegal : table.Legal) {name : String}
    (h : Ancestor table (.named name) super) (hsuper : table.Declares super) :
    Relation.ReflTransGen table.Superclass (.named name) super := by
  generalize htype : JavaType.named name = type at h
  -- The induction goes up from the subtype, so that the step at hand is the
  -- lowest one and what is above it is a chain of superclasses already.
  induction h using Relation.ReflTransGen.head_induction_on generalizing name with
  | refl => exact .refl
  | head hstep _ ih =>
      subst htype
      obtain ⟨above, rfl⟩ := directSupertype_named_named hstep
      have hchain := ih rfl
      have habove := declares_of_superclass_chain hchain hlegal hsuper
      exact hchain.head (declares_of_direct hlegal hstep habove).2

/-- If two classes other than the root have a class or interface below both, one
of them is below the other. -/
theorem related_of_common_subtype (hlegal : table.Legal) {name : String}
    {a b : JavaType} (ha : table.Declares a) (hb : table.Declares b)
    (hna : Ancestor table (.named name) a)
    (hnb : Ancestor table (.named name) b) :
    Ancestor table a b ∨ Ancestor table b a :=
  (Relation.ReflTransGen.total_of_right_unique superclass_rightUnique
    (superclass_chain hlegal hna ha) (superclass_chain hlegal hnb hb)).imp
      Superclass.ancestor Superclass.ancestor

theorem eq_object_of_ancestor (h : Ancestor table .object super) :
    super = .object := by
  rcases Relation.ReflTransGen.cases_head h with h | ⟨_, hstep, _⟩
  · exact h.symm
  · exact absurd hstep not_directSupertype_object

/-- An array is below nothing but the root, arrays, and what is above the two
interfaces that all arrays have. -/
theorem ancestor_of_array {n : Nat} {element : ElementType}
    (h : Ancestor table ⟨n + 1, element⟩ super) (hroot : super ≠ .object)
    (hclass : super.dimensions = 0) :
    Ancestor table .serializable super ∨ Ancestor table .cloneable super := by
  generalize htype : (⟨n + 1, element⟩ : JavaType) = type at h
  induction h using Relation.ReflTransGen.head_induction_on
    generalizing n element with
  | refl =>
      rw [← htype] at hclass
      cases hclass
  | head hstep hrest ih =>
      cases hstep with
      | superclass | interface => cases htype
      | overBasic => exact absurd (eq_object_of_ancestor hrest) hroot
      | @overObject m =>
          cases m with
          | zero => exact absurd (eq_object_of_ancestor hrest) hroot
          | succ m => exact ih (n := m) rfl
      | @overClass _ m above _ =>
          refine @ih (m + above.dimensions) above.element ?_
          rw [JavaType.array, Nat.add_right_comm]
      | serializable _ => exact .inl hrest
      | cloneable _ => exact .inr hrest

/-! ## Reaching the root -/

/-- Whether the table can place everything above a type. -/
def Complete (table : Classpath) (type : JavaType) : Prop :=
  ∀ above, Ancestor table type above → table.Places above.element

/-- Going from a class to its superclass ends, for there are finitely many
classes and none is met again. -/
theorem Classpath.Legal.wellFoundedOn (hlegal : table.Legal) :
    {name | (table.find? name).isSome}.WellFoundedOn
      fun super name => Relation.TransGen table.Extends name super := by
  have hstrict : IsStrictOrder String
      fun super name => Relation.TransGen table.Extends name super :=
    { irrefl := hlegal.acyclic
      trans := fun _ _ _ hab hbc => hbc.trans hab }
  refine Set.Finite.wellFoundedOn ?_
  refine (table.classes.map Prod.fst).finite_toSet.subset ?_
  intro name hname
  obtain ⟨facts, hfacts⟩ := Option.isSome_iff_exists.1 hname
  exact List.mem_map.2 ⟨_, find?_mem hfacts, rfl⟩

theorem Complete.above (h : Complete table type)
    (hsuper : Ancestor table type super) : Complete table super :=
  fun above habove => h above (hsuper.trans habove)

theorem ancestor_object (hlegal : table.Legal) {name : String}
    (hcomplete : Complete table (.named name)) :
    Ancestor table (.named name) .object := by
  have hfound : ∀ name, (table.find? name).isSome →
      Complete table (.named name) → Ancestor table (.named name) .object := by
    intro name hname
    refine hlegal.wellFoundedOn.induction (P := fun name =>
      Complete table (.named name) → Ancestor table (.named name) .object)
      hname ?_
    intro name hname ih hcomplete
    by_cases hobject : JavaType.named name = .object
    · rw [hobject]
    · obtain ⟨facts, hfacts⟩ := Option.isSome_iff_exists.1 hname
      have hstep : DirectSupertype table (.named name) _ :=
        .superclass hobject hfacts
      cases hsuper : facts.superclass with
      | none =>
          rw [hsuper] at hstep
          exact .single hstep
      | some super =>
          rw [hsuper] at hstep
          have hrest : Complete table (.named super) :=
            hcomplete.above (.single hstep)
          refine .head hstep ?_
          rcases hrest _ .refl with hroot | ⟨facts', hfacts'⟩
          · rw [← hroot]
            exact .refl
          · have hextends : table.Extends name super := ⟨facts, hfacts, hsuper⟩
            exact ih super (Option.isSome_iff_exists.2 ⟨facts', hfacts'⟩)
              (.single hextends) hrest
  rcases hcomplete _ .refl with hroot | ⟨facts, hfacts⟩
  · rw [hroot]
  · exact hfound name (Option.isSome_iff_exists.2 ⟨facts, hfacts⟩) hcomplete

/-! ## Unrelated classes -/

/-- Two classes, neither below the other, with nothing missing above them. -/
structure Unrelated (table : Classpath) (a b : JavaType) : Prop where
  left : table.flag? a = some false
  right : table.flag? b = some false
  completeLeft : Complete table a
  completeRight : Complete table b
  notBelow : ¬ Ancestor table a b
  notAbove : ¬ Ancestor table b a

theorem Unrelated.symm {a b : JavaType} (h : Unrelated table a b) :
    Unrelated table b a :=
  ⟨h.right, h.left, h.completeRight, h.completeLeft, h.notAbove, h.notBelow⟩

/-- Neither of two unrelated classes is the root, since the other would be
below it. -/
theorem Unrelated.declares (hlegal : table.Legal) {a b : String}
    (h : Unrelated table (.named a) (.named b)) : table.Declares (.named a) := by
  rcases flag?_eq_false h.left with hroot | hdeclares
  · have hbelow := ancestor_object hlegal h.completeRight
    rw [← hroot] at hbelow
    exact absurd hbelow h.notAbove
  · exact hdeclares

theorem Unrelated.no_common_class (hlegal : table.Legal) {a b : String}
    (h : Unrelated table (.named a) (.named b)) (name : String) :
    ¬ (Ancestor table (.named name) (.named a) ∧
      Ancestor table (.named name) (.named b)) := by
  rintro ⟨ha, hb⟩
  rcases related_of_common_subtype hlegal (h.declares hlegal)
    (h.symm.declares hlegal) ha hb with hab | hba
  · exact h.notBelow hab
  · exact h.notAbove hba

/-- No array is below a class, as long as the interfaces of arrays are not
declared to be classes. -/
theorem Classpath.Declares.not_above_array (hlegal : table.Legal)
    (hdeclares : table.Declares type)
    (hserializable : ¬ table.Declares .serializable)
    (hcloneable : ¬ table.Declares .cloneable) {n : Nat}
    {element : ElementType} : ¬ Ancestor table ⟨n + 1, element⟩ type := by
  intro h
  have hclass : type.dimensions = 0 := by
    obtain ⟨_, _, _, rfl, _⟩ := hdeclares
    rfl
  rcases ancestor_of_array h hdeclares.1 hclass with h | h
  · exact hserializable (declares_of_superclass_chain
      (superclass_chain hlegal h hdeclares) hlegal hdeclares)
  · exact hcloneable (declares_of_superclass_chain
      (superclass_chain hlegal h hdeclares) hlegal hdeclares)

/-- No object has the types of two unrelated classes. -/
theorem Unrelated.no_common_type (hlegal : table.Legal) {a b : String}
    (h : Unrelated table (.named a) (.named b)) {type : JavaType}
    (harrays : type.dimensions = 0 ∨
      ¬ table.Declares .serializable ∧ ¬ table.Declares .cloneable)
    (ha : Ancestor table type (.named a)) :
    ¬ Ancestor table type (.named b) := by
  intro hb
  obtain ⟨dimensions, element⟩ := type
  cases dimensions with
  | zero =>
      cases element with
      | named name => exact h.no_common_class hlegal name ⟨ha, hb⟩
      | basic basic =>
          rcases Relation.ReflTransGen.cases_head ha with heq | ⟨_, hstep, _⟩
          · cases heq
          · generalize htype : (⟨0, .basic basic⟩ : JavaType) = type at hstep
            cases hstep <;> cases htype
  | succ n =>
      rcases harrays with hzero | ⟨hserializable, hcloneable⟩
      · cases hzero
      · exact (h.declares hlegal).not_above_array hlegal hserializable
          hcloneable ha

end Chains

/-! ## The library types -/

/-- Where a library type stands, counted so that superclasses come first. -/
def coreRank (name : String) : Nat :=
  if name = "java/lang/Object" then 0
  else 1 + coreClasses.findIdx fun entry => entry.1 = name

/-- The library types make a legal table. -/
theorem core_legal : Classpath.core.Legal := by
  have hentries : ∀ entry ∈ coreClasses,
      (∀ interface ∈ entry.2.interfaces,
        (Classpath.core.find? interface).all ClassFacts.isInterface = true) ∧
      (∀ super ∈ entry.2.superclass, entry.2.isInterface = false →
        (Classpath.core.find? super).all (!·.isInterface) = true) ∧
      (entry.2.isInterface = true → entry.2.superclass = none) ∧
      ∀ super ∈ entry.2.superclass, coreRank super < coreRank entry.1 := by
    decide +kernel
  constructor
  · intro name facts hfacts interface hmem above habove
    have hall := (hentries _ (find?_mem hfacts)).1 interface hmem
    rwa [habove, Option.all_some] at hall
  · intro name facts hfacts hclass super hsuper above habove
    have hall := (hentries _ (find?_mem hfacts)).2.1 super hsuper hclass
    rwa [habove, Option.all_some, Bool.not_eq_true'] at hall
  · intro name facts hfacts hinterface
    exact .inl ((hentries _ (find?_mem hfacts)).2.2.1 hinterface)
  · intro name hcycle
    have hdrops : ∀ a b, Relation.TransGen Classpath.core.Extends a b →
        coreRank b < coreRank a := by
      intro a b h
      induction h with
      | single hstep =>
          obtain ⟨facts, hfacts, hsuper⟩ := hstep
          exact (hentries _ (find?_mem hfacts)).2.2.2 _ hsuper
      | tail _ hstep ih =>
          obtain ⟨facts, hfacts, hsuper⟩ := hstep
          exact ((hentries _ (find?_mem hfacts)).2.2.2 _ hsuper).trans ih
    exact Nat.lt_irrefl _ (hdrops name name hcycle)

end ClassAudit
