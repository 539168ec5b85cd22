import ClassAudit.Proofs.Operations

/-!
# Subtype queries are reachability

However a context came about, by holding types, resolving them and asking for
supertypes in any order, a subtype query answers whether the one type can be
reached from the other in the relation that the table fixes. So no answer depends
on what was asked before.

The first question about a type searches, and the search is exact. A later one
looks at what was kept, and that was exact when it was kept and stays so: types
that are held later on are not above the type, since all that are had been held
by then.
-/

namespace ClassAudit

open TypeRepository

namespace TypeContext

section Answers

variable {σ : Type} [ClassSource σ] {c : TypeContext σ} {sub super : TypeId}

/-- Where ancestors are kept, a question is answered from them and changes nothing. -/
theorem isSubtype_kept {ancestry : Ancestry}
    (h : (c.repository.node? sub).bind TypeNode.ancestry = some ancestry) :
    c.isSubtype sub super = (ancestry.contains super, c) := by
  rw [isSubtype, h]

theorem isSubtype_search
    (h : (c.repository.node? sub).bind TypeNode.ancestry = none) :
    c.isSubtype sub super =
      ((c.searchAncestors sub).found.contains super,
        (c.searchAncestors sub).context.withRepository
          (·.keepAncestry sub (c.searchAncestors sub).found)) := by
  rw [isSubtype, h]

end Answers

variable {table : Classpath} {c : TypeContext Classpath} {sub super : TypeId}

/-- What asking a subtype question leaves behind. -/
structure Asked (table : Classpath) (c : TypeContext Classpath) (sub : TypeId)
    (c' : TypeContext Classpath) : Prop where
  source : c'.source.classes = table.classes
  sound : c'.repository.Sound table
  types : ∀ j type, c.repository.type? j = some type →
    c'.repository.type? j = some type
  kept : ∀ j node ancestry, c.repository.node? j = some node →
    node.ancestry = some ancestry → c'.repository.node? j = some node

/-- Keeping what a finished search found. -/
theorem keepAncestry_asked {c' : TypeContext Classpath} {node : TypeNode}
    {ancestry : Ancestry} (hs : c.repository.Sound table)
    (hadvances : Advances table c c')
    (hsource : c.source.classes = table.classes)
    (hnone : (c.repository.node? sub).bind TypeNode.ancestry = none)
    (hnode : c'.repository.node? sub = some node)
    (hres : node.resolution ≠ .unresolved)
    (hexact : AncestrySound table c'.repository node.type ancestry) :
    Asked table c sub (c'.withRepository (·.keepAncestry sub ancestry)) := by
  have hgrows : Grows sub c'.repository
      (c'.repository.keepAncestry sub ancestry) :=
    grows_update sub _ fun _ => rfl
  refine ⟨hadvances.source.trans hsource, hadvances.sound.grows hgrows ?_, ?_,
    ?_⟩
  · intro node' hnode'
    have hkept : (c'.repository.keepAncestry sub ancestry).node? sub =
        some { node with ancestry := some ancestry } := by
      rw [keepAncestry, node?_update, if_pos rfl, hnode]
      rfl
    cases hkept.symm.trans hnode'
    have hold := (hadvances.sound.nodes sub node hnode).mono hgrows.types
    refine ⟨hold.unresolved, hold.known, hold.failed, fun other hother => ?_⟩
    cases hother
    exact ⟨hres, hexact.mono hgrows.types⟩
  · exact fun j type hj => hgrows.types j type (hadvances.types j type hj)
  · intro j other kept hj hother
    have hne : j ≠ sub := by
      rintro rfl
      rw [hj, Option.bind_some, hother] at hnone
      cases hnone
    have hsettled := ((hs.nodes j other hj).ancestry kept hother).1
    exact hgrows.others j other hne (hadvances.settled j other hj hsettled)

theorem isSubtype_asked (hs : c.repository.Sound table)
    (hsource : c.source.classes = table.classes) {start : JavaType}
    (hsub : c.repository.type? sub = some start) (super : TypeId) :
    Asked table c sub (c.isSubtype sub super).2 ∧
      ∃ node ancestry,
        (c.isSubtype sub super).2.repository.node? sub = some node ∧
        node.type = start ∧ node.ancestry = some ancestry ∧
        (c.isSubtype sub super).1 = ancestry.contains super := by
  obtain ⟨node, hnode, rfl⟩ := type?_eq_some.1 hsub
  cases hancestry : node.ancestry with
  | some ancestry =>
      have hkept : (c.repository.node? sub).bind TypeNode.ancestry =
          some ancestry := by rw [hnode, Option.bind_some, hancestry]
      rw [isSubtype_kept hkept]
      exact ⟨⟨hsource, hs, fun _ _ h => h, fun _ _ _ h _ => h⟩,
        node, ancestry, hnode, rfl, hancestry, rfl⟩
  | none =>
      have hnone : (c.repository.node? sub).bind TypeNode.ancestry = none := by
        rw [hnode, Option.bind_some, hancestry]
      obtain ⟨hinvariant, hadvances, hdone⟩ :=
        searchAncestors_exact hs hsource hsub
      have hexact := hinvariant.ancestrySound hdone
      obtain ⟨found, hfound, hres⟩ :=
        hinvariant.start_resolved hdone (hadvances.types sub _ hsub)
      have htype : found.type = node.type := by
        have h := hadvances.types sub _ hsub
        rw [type?_of_node? hfound] at h
        exact Option.some.inj h
      rw [← htype] at hexact
      rw [isSubtype_search hnone]
      refine ⟨keepAncestry_asked hs hadvances hsource hnone hfound hres hexact,
        { found with ancestry := some (c.searchAncestors sub).found },
        (c.searchAncestors sub).found, ?_, htype, rfl, rfl⟩
      simp only [withRepository, keepAncestry]
      rw [node?_update, if_pos rfl, hfound]
      rfl

/-- What was kept for a type answers questions about it. -/
theorem contains_iff_ancestor {r : TypeRepository} (hs : r.Sound table)
    {node : TypeNode} {ancestry : Ancestry} (hnode : r.node? sub = some node)
    (hancestry : node.ancestry = some ancestry) {type : JavaType}
    (hsuper : r.type? super = some type) :
    ancestry.contains super = true ↔ Ancestor table node.type type := by
  obtain ⟨_, hexact⟩ := (hs.nodes sub node hnode).ancestry ancestry hancestry
  have hcontains : ancestry.contains super = true ↔
      super ∈ ancestry.reached := by
    simp [Ancestry.contains]
  rw [hcontains]
  constructor
  · intro hmem
    obtain ⟨above, habove, h⟩ := hexact.sound super hmem
    cases hsuper.symm.trans habove
    exact h
  · intro h
    obtain ⟨id, hid, htype⟩ := hexact.complete type h
    cases hs.distinct id super type htype hsuper
    exact hid

theorem isSubtype_exact (hs : c.repository.Sound table)
    (hsource : c.source.classes = table.classes) {start type : JavaType}
    (hsub : c.repository.type? sub = some start)
    (hsuper : c.repository.type? super = some type) :
    (c.isSubtype sub super).1 = true ↔ Ancestor table start type := by
  obtain ⟨hasked, node, ancestry, hnode, rfl, hancestry, hanswer⟩ :=
    isSubtype_asked hs hsource hsub super
  rw [hanswer]
  exact contains_iff_ancestor hasked.sound hnode hancestry
    (hasked.types super type hsuper)

/-! ## Reached contexts -/

/-- The contexts that come about by holding types and asking for supertypes, with
one table to be asked. -/
inductive Reached (table : Classpath) : TypeContext Classpath → Prop
  | start : Reached table (.ofSource table)
  | perform {c : TypeContext Classpath} (h : Reached table c) (operation : Operation)
    (asks : operation.Asks) : Reached table (c.perform operation)

theorem Reached.intern (h : Reached table c) (type : JavaType) :
    Reached table (c.intern type).2 :=
  h.perform (.intern type) rfl

theorem Reached.internSignature (h : Reached table c) (text : String) :
    Reached table (c.internSignature text).2 :=
  h.perform (.internSignature text) rfl

theorem Reached.resolve (h : Reached table c) (id : TypeId) :
    Reached table (c.resolve id).2 :=
  h.perform (.resolve id) rfl

theorem Reached.isSubtype (h : Reached table c) (sub super : TypeId) :
    Reached table (c.isSubtype sub super).2 :=
  h.perform (.isSubtype sub super) rfl

theorem resolve_unheld {id : TypeId} (h : c.repository.node? id = none) :
    c.resolve id = (.ok (), c) := by
  rw [resolve, h]

theorem resolve_keeps (hs : c.repository.Sound table)
    (hsource : c.source.classes = table.classes) (id : TypeId) :
    (c.resolve id).2.source.classes = table.classes ∧
      (c.resolve id).2.repository.Sound table := by
  cases hnode : c.repository.node? id with
  | none =>
      rw [resolve_unheld hnode]
      exact ⟨hsource, hs⟩
  | some node =>
      have hadvances := (resolve_resolves hs hsource hnode).advances
      exact ⟨hadvances.source.trans hsource, hadvances.sound⟩

/-- Searching from a position that holds nothing finds nothing and changes
nothing. -/
theorem run_unheld {id : TypeId} (h : c.repository.node? id = none)
    (fuel : Nat) :
    (Search.run fuel ⟨c, [id], ⟨[id], []⟩⟩).context = c := by
  cases fuel with
  | zero => rfl
  | succ fuel =>
      have hvisit : Search.visit ⟨c, [id], ⟨[id], []⟩⟩ id [] =
          ⟨c, [], ⟨[id], []⟩⟩ := by
        simp only [Search.visit, resolve_unheld h, h]
        rfl
      have hrun : Search.run (fuel + 1) ⟨c, [id], ⟨[id], []⟩⟩ =
          Search.run fuel (Search.visit ⟨c, [id], ⟨[id], []⟩⟩ id []) := rfl
      rw [hrun, hvisit]
      cases fuel <;> rfl

theorem isSubtype_keeps (hs : c.repository.Sound table)
    (hsource : c.source.classes = table.classes) (sub super : TypeId) :
    (c.isSubtype sub super).2.source.classes = table.classes ∧
      (c.isSubtype sub super).2.repository.Sound table := by
  cases hnode : c.repository.node? sub with
  | none =>
      have hnone : (c.repository.node? sub).bind TypeNode.ancestry = none := by
        rw [hnode]
        rfl
      rw [isSubtype_search hnone]
      have hcontext : (c.searchAncestors sub).context = c := run_unheld hnode _
      simp only [withRepository, hcontext]
      refine ⟨hsource, hs.grows (grows_update sub _ fun _ => rfl) ?_⟩
      intro node hkept
      rw [keepAncestry, node?_update, if_pos rfl, hnode] at hkept
      cases hkept
  | some node =>
      obtain ⟨hasked, _⟩ :=
        isSubtype_asked hs hsource (type?_of_node? hnode) super
      exact ⟨hasked.source, hasked.sound⟩

/-- Every context that can be reached says what the table says. -/
theorem Reached.sound (h : Reached table c) :
    c.source.classes = table.classes ∧ c.repository.Sound table := by
  induction h with
  | start => exact ⟨rfl, sound_initial⟩
  | perform _ operation asks ih =>
      obtain ⟨hsource, hs⟩ := ih
      refine perform_asks (p := fun c' => c'.source.classes = table.classes ∧
        c'.repository.Sound table) asks ⟨hsource, hs⟩ ?_ (resolve_keeps hs hsource)
        (isSubtype_keeps hs hsource)
      exact fun type => ⟨hsource, hs.intern type⟩

/-- Whatever was asked before, a type is a subtype of another exactly if the
table leads from the one to the other. -/
theorem isSubtype_iff_ancestor (hc : Reached table c) {start type : JavaType}
    (hsub : c.repository.type? sub = some start)
    (hsuper : c.repository.type? super = some type) :
    (c.isSubtype sub super).1 = true ↔
      Relation.ReflTransGen (DirectSupertype table) start type := by
  obtain ⟨hsource, hs⟩ := hc.sound
  exact isSubtype_exact hs hsource hsub hsuper

end TypeContext

/-- A class that extends another and implements an interface that is not in the
table, and one that extends itself. -/
def pets : Classpath :=
  ⟨[("Dog", ⟨some "Pet", ["Runnable"], false⟩), ("Pet", ⟨none, [], false⟩),
    ("Loop", ⟨some "Loop", [], false⟩)], 0⟩

/-- A context in which a question about one array was asked already. -/
def petContext : TypeContext Classpath :=
  let context := TypeContext.ofSource pets
  let context := (context.intern (.array 2 (.named "Dog"))).2
  let context := (context.intern (.array 1 .object)).2
  (context.isSubtype 2 1).2

theorem petContext_reached : TypeContext.Reached pets petContext :=
  .isSubtype (.intern (.intern .start _) _) _ _

/-- Arrays of arrays of dogs are arrays of objects. -/
theorem isSubtype_iff_ancestor_pets :
    petContext.repository.type? 2 = some (.array 2 (.named "Dog")) ∧
      petContext.repository.type? 3 = some (.array 1 .object) ∧
      ((petContext.isSubtype 2 3).1 = true ↔
        Relation.ReflTransGen (DirectSupertype pets)
          (.array 2 (.named "Dog")) (.array 1 .object)) := by
  have hsub : petContext.repository.type? 2 =
      some (.array 2 (.named "Dog")) := by decide +kernel
  have hsuper : petContext.repository.type? 3 = some (.array 1 .object) := by
    decide +kernel
  exact ⟨hsub, hsuper,
    TypeContext.isSubtype_iff_ancestor petContext_reached hsub hsuper⟩

end ClassAudit
