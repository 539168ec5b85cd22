import ClassAudit.Proofs.ArrayCasts

/-!
# Subtyping between arrays, in closed form

The repository has edges of one step only, and from an array they lead three ways: to
an array over another class with as many dimensions, to an array of objects with one
dimension less, or out of the arrays altogether. A way up can go the first way as long
as it likes, through cycles too, and then the second. It cannot go back, for over the
root there is nothing, and from a class no way leads to an array.

So of all the ways from one array to another it is enough to know whether the elements
are subtypes, or whether the lower element is an object and the upper one is the root
(`ancestor_array_array`). Arrays of basic values are below no array but themselves.
-/

namespace ClassAudit

open TypeRepository

variable {table : Classpath} {a b : String} {n m : Nat}

/-- From a class no way leads to an array. -/
theorem not_ancestor_named_array {element : ElementType} :
    ¬ Ancestor table (.named a) ⟨m + 1, element⟩ := by
  intro h
  obtain ⟨above, habove⟩ := ancestor_named_named h
  cases habove

/-- What an array over a class is below, among arrays. -/
theorem array_of_ancestor {element : ElementType}
    (h : Ancestor table ⟨n + 1, .named a⟩ ⟨m + 1, element⟩) :
    ∃ b, element = .named b ∧
      (n = m ∧ Ancestor table (.named a) (.named b) ∨
        m < n ∧ JavaType.named b = .object ∧ Ancestor table (.named a) .object) := by
  generalize htype : (⟨n + 1, .named a⟩ : JavaType) = type at h
  -- The step at hand is the lowest one, and what is above it is in closed form.
  induction h using Relation.ReflTransGen.head_induction_on generalizing n a with
  | refl =>
      cases htype
      exact ⟨a, rfl, .inl ⟨rfl, .refl⟩⟩
  | head hstep hrest ih =>
      cases hstep with
      | superclass | interface | overBasic => cases htype
      | overObject =>
          cases htype
          cases n with
          | zero => exact absurd hrest not_ancestor_named_array
          | succ n =>
              obtain ⟨b, rfl, ⟨rfl, habove⟩ | ⟨hlt, hroot, habove⟩⟩ := ih rfl
              · exact ⟨b, rfl, .inr ⟨Nat.lt_succ_self n,
                  eq_object_of_ancestor habove, .refl⟩⟩
              · exact ⟨b, rfl, .inr ⟨Nat.lt_succ_of_lt hlt, hroot, habove⟩⟩
      | overClass hdirect =>
          cases htype
          obtain ⟨above, rfl⟩ := directSupertype_named_named hdirect
          obtain ⟨b, rfl, ⟨rfl, habove⟩ | ⟨hlt, hroot, habove⟩⟩ := ih rfl
          · exact ⟨b, rfl, .inl ⟨rfl, habove.head hdirect⟩⟩
          · exact ⟨b, rfl, .inr ⟨hlt, hroot, habove.head hdirect⟩⟩
      | serializable | cloneable => exact absurd hrest not_ancestor_named_array

theorem ancestor_array_array :
    Ancestor table ⟨n + 1, .named a⟩ ⟨m + 1, .named b⟩ ↔
      n = m ∧ Ancestor table (.named a) (.named b) ∨
        m < n ∧ JavaType.named b = .object ∧ Ancestor table (.named a) .object := by
  constructor
  · intro h
    obtain ⟨other, hname, hforms⟩ := array_of_ancestor h
    cases hname
    exact hforms
  · intro h
    rcases h with ⟨hlevel, habove⟩ | ⟨hlt, hroot, habove⟩
    · rw [hlevel]
      exact ancestor_array habove (m + 1)
    · cases hroot
      exact (ancestor_array habove (n + 1)).trans 
        (ancestor_object_array (Nat.succ_le_succ hlt.le))

theorem ancestor_array_basic {basic : BasicType} {element : ElementType} :
    Ancestor table ⟨n + 1, .basic basic⟩ ⟨m + 1, element⟩ ↔
      .basic basic = element ∧ n = m := by
  constructor
  · intro h
    rcases Relation.ReflTransGen.cases_head h with heq | ⟨above, hstep, hrest⟩
    · cases heq
      exact ⟨rfl, rfl⟩
    · rcases directSupertype_overBasic.1 hstep with rfl | rfl | rfl
      · exact absurd hrest not_ancestor_named_array
      · exact absurd hrest not_ancestor_named_array
      · exact absurd hrest not_ancestor_named_array
  · intro h
    obtain ⟨rfl, rfl⟩ := h
    exact .refl

/-- Subtyping between arrays, whatever was asked before: `c` is asked about the arrays
and `c'`, which may be the same context or an older or a newer one, about the
elements. -/
theorem array_subtyping {c c' : TypeContext Classpath}
    (hc : TypeContext.Reached table c) (hc' : TypeContext.Reached table c')
    (n m : Nat) :
    (∀ a b s t x y, c.repository.type? s = some ⟨n + 1, .named a⟩ →
      c.repository.type? t = some ⟨m + 1, .named b⟩ →
      c'.repository.type? x = some (.named a) →
      c'.repository.type? y = some (.named b) →
      ((c.isSubtype s t).1 = true ↔
        n = m ∧ (c'.isSubtype x y).1 = true ∨
          m < n ∧ JavaType.named b = .object ∧
            (c'.isSubtype x objectId).1 = true)) ∧
    (∀ basic element s t, c.repository.type? s = some ⟨n + 1, .basic basic⟩ →
      c.repository.type? t = some ⟨m + 1, element⟩ →
      ((c.isSubtype s t).1 = true ↔ .basic basic = element ∧ n = m)) ∧
    (∀ a basic s t, c.repository.type? s = some ⟨n + 1, .named a⟩ →
      c.repository.type? t = some ⟨m + 1, .basic basic⟩ →
      (c.isSubtype s t).1 = false) ∧
    ∀ a element x t, c.repository.type? x = some (.named a) →
      c.repository.type? t = some ⟨m + 1, element⟩ →
      (c.isSubtype x t).1 = false := by
  obtain ⟨hsource, hs⟩ := hc.sound
  obtain ⟨hsource', hs'⟩ := hc'.sound
  refine ⟨?_, ?_, ?_, ?_⟩
  · intro a b s t x y hsub hsuper hx hy
    rw [TypeContext.isSubtype_exact hs hsource hsub hsuper,
      TypeContext.isSubtype_exact hs' hsource' hx hy,
      TypeContext.isSubtype_exact hs' hsource' hx hs'.root]
    exact ancestor_array_array
  · intro basic element s t hsub hsuper
    rw [TypeContext.isSubtype_exact hs hsource hsub hsuper]
    exact ancestor_array_basic
  · intro a basic s t hsub hsuper
    rw [Bool.eq_false_iff, Ne, TypeContext.isSubtype_exact hs hsource hsub hsuper]
    intro habove
    obtain ⟨b, hbasic, -⟩ := array_of_ancestor habove
    cases hbasic
  · intro a element x t hsub hsuper
    rw [Bool.eq_false_iff, Ne, TypeContext.isSubtype_exact hs hsource hsub hsuper]
    exact not_ancestor_named_array

/-- Arrays of dogs, of pets, of objects and of integers. -/
def petArrays : TypeContext Classpath :=
  let context := TypeContext.ofSource pets
  let context := (context.intern (.array 2 (.named "Dog"))).2
  let context := (context.intern (.array 2 (.named "Pet"))).2
  let context := (context.intern (.array 1 .object)).2
  (context.intern ⟨1, .basic .int⟩).2

theorem petArrays_reached : TypeContext.Reached pets petArrays :=
  .intern (.intern (.intern (.intern .start _) _) _) _

/-- Whether arrays of arrays of dogs are arrays of arrays of pets, and arrays of
objects, with the question about dogs and pets asked elsewhere; and arrays of integers,
which are above neither dogs nor their arrays. -/
theorem array_subtyping_pets :
    petArrays.repository.type? 2 = some ⟨2, .named "Dog"⟩ ∧
      petArrays.repository.type? 7 = some ⟨1, .basic .int⟩ ∧
      ((petArrays.isSubtype 2 4).1 = true ↔
        1 = 1 ∧ (petContext.isSubtype 1 4).1 = true ∨
          1 < 1 ∧ JavaType.named "Pet" = .object ∧
            (petContext.isSubtype 1 objectId).1 = true) ∧
      ((petArrays.isSubtype 2 5).1 = true ↔
        1 = 0 ∧ (petArrays.isSubtype 1 objectId).1 = true ∨
          0 < 1 ∧ JavaType.named "java/lang/Object" = .object ∧
            (petArrays.isSubtype 1 objectId).1 = true) ∧
      ((petArrays.isSubtype 7 5).1 = true ↔
        ElementType.basic .int = .named "java/lang/Object" ∧ 0 = 0) ∧
      (petArrays.isSubtype 2 7).1 = false ∧ (petArrays.isSubtype 1 7).1 = false := by
  have hdog : petArrays.repository.type? 1 = some (.named "Dog") := by decide +kernel
  have hdogs : petArrays.repository.type? 2 = some ⟨2, .named "Dog"⟩ := by
    decide +kernel
  have hpets : petArrays.repository.type? 4 = some ⟨2, .named "Pet"⟩ := by
    decide +kernel
  have hobjects : petArrays.repository.type? 5 =
      some ⟨1, .named "java/lang/Object"⟩ := by decide +kernel
  have hints : petArrays.repository.type? 7 = some ⟨1, .basic .int⟩ := by
    decide +kernel
  have level := array_subtyping petArrays_reached petContext_reached 1 1
  have lower := array_subtyping petArrays_reached petArrays_reached 1 0
  have basic := array_subtyping petArrays_reached petArrays_reached 0 0
  exact ⟨hdogs, hints,
    level.1 _ _ 2 4 1 4 hdogs hpets (by decide +kernel) (by decide +kernel),
    lower.1 _ _ 2 5 1 0 hdogs hobjects hdog (by decide +kernel),
    basic.2.1 _ _ 7 5 hints hobjects, lower.2.2.1 _ _ 2 7 hdogs hints,
    lower.2.2.2 _ _ 1 7 hdog hints⟩

end ClassAudit
