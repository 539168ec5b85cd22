import ClassAudit.Proofs.ResolvedOnce

/-!
# Strict and lenient access to the hierarchy

There are two ways to look up the hierarchy. Asking for the direct supertypes of a type
is strict: a class that is not in the table is an error. Asking whether one type is
below another is lenient, and what cannot be placed has nothing above it. The two have
the same hierarchy in view. One step of the lenient question is what the strict one
lists, and where the strict one fails the lenient one finds only the type itself.

Each question may place the type, and holds new types at the next free positions while
it does, so which is asked first might matter. It does not, for all of them place the
type in the same way and a position keeps its type. The links of a type come from the
table, so edges that spell them later on are the edges there were at first.
-/

namespace ClassAudit

open Relation TypeRepository

/-- The questions about a type, one of which compares it with another. -/
def Operation.about (t other : TypeId) : List Operation :=
  [.directSupertypes t, .superclass t, .interfaces t, .isSubtype t other]

/-- A type has one position, so links are spelled by one list of edges. -/
theorem TypeRepository.Spells.unique {r : TypeRepository} (hr : r.Distinct)
    {edges edges' : List Edge} {links : List Link} (h : r.Spells edges links)
    (h' : r.Spells edges' links) : edges = edges' := by
  refine List.left_unique_forall₂' ?_ h h'
  intro edge edge' link hedge hedge'
  obtain ⟨kind, target⟩ := edge
  obtain ⟨kind', target'⟩ := edge'
  obtain rfl : kind = kind' := hedge.1.trans hedge'.1.symm
  obtain rfl : target = target' := hr target target' link.2 hedge.2 hedge'.2
  rfl

/-- With one superclass at most, the superclass and the interfaces are all that edges
lead to. -/
theorem TypeRepository.Tidy.mem_supers {r : TypeRepository} {node : TypeNode}
    (h : r.Tidy node.edges) {id : TypeId} :
    id ∈ node.superclass?.toList ++ node.interfaces ↔
      ∃ edge ∈ node.edges, edge.target = id := by
  rw [List.mem_append, Option.mem_toList, TypeNode.superclass?, TypeNode.interfaces]
  constructor
  · intro hid
    rcases hid with hid | hid
    · obtain ⟨edge, hedge, rfl⟩ := Option.map_eq_some_iff.1 hid
      exact ⟨edge, List.mem_of_find?_eq_some hedge, rfl⟩
    · obtain ⟨edge, hedge, rfl⟩ := List.mem_map.1 hid
      exact ⟨edge, (List.mem_filter.1 hedge).1, rfl⟩
  · intro hid
    obtain ⟨edge, hedge, rfl⟩ := hid
    cases hkind : edge.kind with
    | interface =>
        refine .inr (List.mem_map.2 ⟨edge, List.mem_filter.2 ⟨hedge, ?_⟩, rfl⟩)
        rw [hkind]
        rfl
    | superclass =>
        have hmem : edge ∈ node.edges.filter (·.kind == .superclass) := by
          rw [List.mem_filter, hkind]
          exact ⟨hedge, rfl⟩
        obtain ⟨only, honly⟩ := List.length_eq_one_iff.1
          (Nat.le_antisymm h.superclass (List.length_pos_of_mem hmem))
        rw [honly, List.mem_singleton] at hmem
        rw [← List.head?_filter, honly, hmem]
        exact .inl rfl

namespace TypeContext

variable {table : Classpath} {c e : TypeContext Classpath} {t : TypeId}
  {type : JavaType}

/-! ## Contexts that are asked -/

theorem Reached.performAll (hc : Reached table c) {operations : List Operation}
    (h : ∀ operation ∈ operations, operation.Asks) :
    Reached table (c.performAll operations) := by
  induction operations generalizing c with
  | nil => exact hc
  | cons first rest ih =>
      exact ih (hc.perform first (h first List.mem_cons_self)) fun operation hmem =>
        h operation (List.mem_cons_of_mem _ hmem)

theorem Reached.edits (hc : Reached table c) : Edits initial c.repository := by
  induction hc with
  | start => exact .refl
  | perform _ operation asks ih =>
      exact ih.trans (edits_perform (Operation.founded_of_asks asks _))

/-! ## Placing a type, now or later -/

theorem resolve_tried {id : TypeId} (h : c.repository.Tried id) :
    (c.resolve id).2 = c := by
  obtain ⟨node, hnode, hresolution⟩ := h
  rw [resolve, hnode]
  cases hres : node.resolution with
  | unresolved => exact absurd hres hresolution
  | known => simp only [hres]
  | failed cause => simp only [hres]

/-- A search begins by placing the type that it starts at. -/
theorem edits_resolve_isSubtype (hs : c.repository.Sound table)
    (ht : c.repository.type? t = some type) (super : TypeId) :
    Edits (c.resolve t).2.repository (c.isSubtype t super).2.repository := by
  cases hkept : (c.repository.node? t).bind TypeNode.ancestry with
  | some found =>
      obtain ⟨node, hnode, -⟩ := type?_eq_some.1 ht
      have hfound : node.ancestry = some found := by
        rw [hnode] at hkept
        exact hkept
      have htried : c.repository.Tried t :=
        ⟨node, hnode, ((hs.nodes t node hnode).ancestry found hfound).1⟩
      rw [isSubtype_kept hkept, resolve_tried htried]
  | none =>
      -- There is fuel for the first visit, and the types it holds stay where they are.
      have hbudget : 0 < c.searchBudget :=
        Nat.mul_pos (Nat.succ_pos _) (Nat.succ_pos _)
      obtain ⟨fuel, hfuel⟩ := Nat.exists_eq_succ_of_ne_zero hbudget.ne'
      have hsearch : Edits (c.resolve t).2.repository
          (c.searchAncestors t).context.repository := by
        rw [searchAncestors, hfuel]
        refine Search.run_keeps
          (p := fun c' => Edits (c.resolve t).2.repository c'.repository)
          (fun c' id h => h.trans (edits_resolve c' id)) fuel
          (Search.visit ⟨c, [t], ⟨[t], []⟩⟩ t []) ?_
        rw [Search.visit_context]
      rw [isSubtype_search hkept]
      exact hsearch.trans (edits_keepAncestry _ t _).edits

/-- Every question about a type places it. -/
theorem edits_resolve_about (hs : c.repository.Sound table)
    (ht : c.repository.type? t = some type) {y : TypeId} {first : Operation}
    (hfirst : first ∈ Operation.about t y) :
    first.Asks ∧ Edits (c.resolve t).2.repository (c.perform first).repository := by
  simp only [Operation.about, List.mem_cons, List.not_mem_nil, or_false] at hfirst
  rcases hfirst with rfl | rfl | rfl | rfl
  · exact ⟨rfl, .refl⟩
  · exact ⟨rfl, .refl⟩
  · exact ⟨rfl, .refl⟩
  · exact ⟨rfl, edits_resolve_isSubtype hs ht y⟩

/-- The node that resolving a type leaves. -/
theorem resolve_node (hs : c.repository.Sound table)
    (hsource : c.source.classes = table.classes)
    (ht : c.repository.type? t = some type) :
    Advances table c (c.resolve t).2 ∧
      ∃ node, (c.resolve t).2.repository.node? t = some node ∧ node.type = type ∧
        node.resolution = .ofOutcome (c.resolve t).1 := by
  obtain ⟨old, hold, -⟩ := type?_eq_some.1 ht
  obtain ⟨hadvances, node, hnode, hshows⟩ := resolve_resolves hs hsource hold
  exact ⟨hadvances, node, hnode, node_type (hadvances.types t type ht) hnode, hshows⟩

/-- Strict access fails for classes that are not in the table and for arrays over
them. -/
theorem resolve_eq_error (hs : c.repository.Sound table)
    (hsource : c.source.classes = table.classes)
    (ht : c.repository.type? t = some type) {cause : ClassNotFound} :
    (c.resolve t).1 = .error cause ↔
      type.element = .named cause.name ∧ table.Lacks cause.name := by
  obtain ⟨hadvances, node, hnode, rfl, hshows⟩ := resolve_node hs hsource ht
  have hsound := hadvances.sound.nodes t node hnode
  have hfails : ∀ other : ClassNotFound, (c.resolve t).1 = .error other →
      node.type.element = .named other.name ∧ table.Lacks other.name := by
    intro other hother
    rw [hother] at hshows
    obtain ⟨-, hlinks, helement⟩ := hsound.failed other hshows
    obtain ⟨name, hname, hlacks⟩ := Classpath.links?_eq_none.1 hlinks
    rw [helement] at hname
    cases hname
    exact ⟨helement, hlacks⟩
  refine ⟨hfails cause, fun hlacks => ?_⟩
  cases houtcome : (c.resolve t).1 with
  | ok =>
      rw [houtcome] at hshows
      obtain ⟨-, links, hlinks, -⟩ := hsound.known hshows
      rw [Classpath.links?_eq_none.2 ⟨cause.name, hlacks⟩] at hlinks
      cases hlinks
  | error other =>
      obtain ⟨helement, -⟩ := hfails other houtcome
      rw [hlacks.1] at helement
      cases cause
      cases other
      cases helement
      rfl

theorem resolve_eq_ok (hs : c.repository.Sound table)
    (hsource : c.source.classes = table.classes)
    (ht : c.repository.type? t = some type) (hok : (c.resolve t).1 = .ok ()) :
    ∃ node links, (c.resolve t).2.repository.node? t = some node ∧
      table.links? type = some links ∧
      (c.resolve t).2.repository.Spells node.edges links := by
  obtain ⟨hadvances, node, hnode, rfl, hshows⟩ := resolve_node hs hsource ht
  rw [hok] at hshows
  obtain ⟨-, links, hlinks, hspells⟩ :=
    (hadvances.sound.nodes t node hnode).known hshows
  exact ⟨node, links, hnode, hlinks, hspells⟩

/-- A type that is placed later is placed in the same way, if the positions that
placing it at once would have used have the same types. -/
theorem resolve_agrees (hs : c.repository.Sound table)
    (hsource : c.source.classes = table.classes) (hs' : e.repository.Sound table)
    (hsource' : e.source.classes = table.classes)
    (ht : c.repository.type? t = some type)
    (htypes : ∀ j other, (c.resolve t).2.repository.type? j = some other →
      e.repository.type? j = some other) :
    (e.resolve t).1 = (c.resolve t).1 ∧
      ((c.resolve t).1 = .ok () → ∃ node node',
        (c.resolve t).2.repository.node? t = some node ∧
        (e.resolve t).2.repository.node? t = some node' ∧
          node'.edges = node.edges) := by
  have hadvances := (resolve_node hs hsource ht).1
  have ht' := htypes t type (hadvances.types t type ht)
  have hadvances' := (resolve_node hs' hsource' ht').1
  have houtcomes : (e.resolve t).1 = (c.resolve t).1 := by
    cases houtcome : (c.resolve t).1 with
    | error cause =>
        rw [resolve_eq_error hs hsource ht] at houtcome
        exact (resolve_eq_error hs' hsource' ht').2 houtcome
    | ok =>
        cases houtcome' : (e.resolve t).1 with
        | ok => rfl
        | error cause =>
            rw [resolve_eq_error hs' hsource' ht', ← resolve_eq_error hs hsource ht,
              houtcome] at houtcome'
            cases houtcome'
  refine ⟨houtcomes, fun hok => ?_⟩
  obtain ⟨node, links, hnode, hlinks, hspells⟩ := resolve_eq_ok hs hsource ht hok
  obtain ⟨node', links', hnode', hlinks', hspells'⟩ :=
    resolve_eq_ok hs' hsource' ht' (houtcomes.trans hok)
  cases hlinks.symm.trans hlinks'
  have hlater := hspells.mono fun j other hj =>
    hadvances'.types j other (htypes j other hj)
  exact ⟨node, node', hnode, hnode', hspells'.unique hadvances'.sound.distinct hlater⟩

/-- The answers to all strict questions come from how the type was placed. -/
theorem answers_agree (hs : c.repository.Sound table)
    (hsource : c.source.classes = table.classes) (hs' : e.repository.Sound table)
    (hsource' : e.source.classes = table.classes)
    (ht : c.repository.type? t = some type)
    (htypes : ∀ j other, (c.resolve t).2.repository.type? j = some other →
      e.repository.type? j = some other) :
    (e.directSupertypes t).1 = (c.directSupertypes t).1 ∧
      (e.superclass? t).1 = (c.superclass? t).1 ∧
      (e.interfaces t).1 = (c.interfaces t).1 := by
  obtain ⟨houtcome, hplaced⟩ := resolve_agrees hs hsource hs' hsource' ht htypes
  simp only [directSupertypes, superclass?, interfaces, houtcome]
  cases hfirst : (c.resolve t).1 with
  | error cause => exact ⟨rfl, rfl, rfl⟩
  | ok =>
      obtain ⟨node, node', hnode, hnode', hedges⟩ := hplaced hfirst
      simp only [hnode, hnode', TypeNode.superclass?, TypeNode.interfaces, hedges,
        Option.elim_some, Option.bind_some, and_self]

/-- Direct supertypes are listed superclass first, and what is listed is what the table
has directly above the type. -/
theorem directSupertypes_eq_ok (hc : Reached table c)
    (ht : c.repository.type? t = some type) {l : List TypeId}
    (hl : (c.directSupertypes t).1 = .ok l) :
    (∃ superclass interfaces, (c.superclass? t).1 = .ok superclass ∧
      (c.interfaces t).1 = .ok interfaces ∧ l = superclass.toList ++ interfaces) ∧
    (∀ s ∈ l, ∃ super, (c.resolve t).2.repository.type? s = some super ∧
      DirectSupertype table type super) ∧
    ∀ super, DirectSupertype table type super →
      ∃ s ∈ l, (c.resolve t).2.repository.type? s = some super := by
  obtain ⟨hsource, hs⟩ := hc.sound
  simp only [directSupertypes] at hl
  cases houtcome : (c.resolve t).1 with
  | error cause =>
      rw [houtcome] at hl
      cases hl
  | ok =>
      obtain ⟨node, links, hnode, hlinks, hspells⟩ :=
        resolve_eq_ok hs hsource ht houtcome
      simp only [houtcome, hnode, Option.elim_some] at hl
      cases hl
      have htidy := ((hc.resolve t).edits.kept kept_initial).edges t node hnode
      refine ⟨⟨node.superclass?, node.interfaces, ?_, ?_, rfl⟩, ?_, ?_⟩
      · simp only [superclass?, houtcome, hnode]
        rfl
      · simp only [interfaces, houtcome, hnode]
        rfl
      · intro s hmem
        obtain ⟨edge, hedge, rfl⟩ := htidy.mem_supers.1 hmem
        obtain ⟨link, hlink, -, htarget⟩ := hspells.exists_link hedge
        exact ⟨link.2, htarget, directSupertype_iff.2
          ⟨links, hlinks, List.mem_map_of_mem hlink⟩⟩
      · intro super hdirect
        obtain ⟨links', hlinks', hmem⟩ := directSupertype_iff.1 hdirect
        cases hlinks.symm.trans hlinks'
        obtain ⟨link, hlink, rfl⟩ := List.mem_map.1 hmem
        obtain ⟨edge, hedge, -, htarget⟩ := hspells.exists_edge hlink
        exact ⟨edge.target, htidy.mem_supers.2 ⟨edge, hedge, rfl⟩, htarget⟩

theorem directSupertypes_eq_error (hs : c.repository.Sound table)
    (hsource : c.source.classes = table.classes)
    (ht : c.repository.type? t = some type) {cause : ClassNotFound} :
    (c.directSupertypes t).1 = .error cause ↔
      type.element = .named cause.name ∧ table.Lacks cause.name := by
  rw [← resolve_eq_error hs hsource ht]
  simp only [directSupertypes]
  cases (c.resolve t).1 with
  | ok => simp [Except.map]
  | error other => simp [Except.map]

/-! ## The lenient question -/

theorem isSubtype_of_error (hs : e.repository.Sound table)
    (hsource : e.source.classes = table.classes)
    (ht : e.repository.type? t = some type) {name : String}
    (helement : type.element = .named name) (hlacks : table.Lacks name) {x : TypeId}
    {other : JavaType} (hx : e.repository.type? x = some other) :
    (e.isSubtype t x).1 = true ↔ x = t := by
  rw [isSubtype_exact hs hsource ht hx]
  constructor
  · intro habove
    rcases ReflTransGen.cases_head habove with rfl | ⟨super, hdirect, -⟩
    · exact hs.distinct x t type hx ht
    · obtain ⟨links, hlinks, -⟩ := directSupertype_iff.1 hdirect
      rw [Classpath.links?_eq_none.2 ⟨name, helement, hlacks⟩] at hlinks
      cases hlinks
  · intro hsame
    rw [hsame, ht] at hx
    cases hx
    exact .refl

/-- One step of the lenient question is what the strict one lists. -/
theorem isSubtype_iff_supers (hc : Reached table c) (hs : e.repository.Sound table)
    (hsource : e.source.classes = table.classes)
    (ht : c.repository.type? t = some type)
    (htypes : ∀ j other, (c.resolve t).2.repository.type? j = some other →
      e.repository.type? j = some other) {l : List TypeId}
    (hl : (c.directSupertypes t).1 = .ok l) {x : TypeId} {other : JavaType}
    (hx : e.repository.type? x = some other) :
    (e.isSubtype t x).1 = true ↔ x = t ∨ ∃ s ∈ l, (e.isSubtype s x).1 = true := by
  obtain ⟨-, hlisted, hall⟩ := directSupertypes_eq_ok hc ht hl
  have ht' : e.repository.type? t = some type :=
    htypes t type ((edits_resolve c t).types ht)
  rw [isSubtype_exact hs hsource ht' hx]
  constructor
  · intro habove
    rcases ReflTransGen.cases_head habove with rfl | ⟨super, hdirect, habove⟩
    · exact .inl (hs.distinct x t type hx ht')
    · obtain ⟨s, hmem, hheld⟩ := hall super hdirect
      refine .inr ⟨s, hmem, ?_⟩
      rw [isSubtype_exact hs hsource (htypes s super hheld) hx]
      exact habove
  · intro hx'
    rcases hx' with rfl | ⟨s, hmem, habove⟩
    · rw [ht'] at hx
      cases hx
      exact .refl
    · obtain ⟨super, hheld, hdirect⟩ := hlisted s hmem
      rw [isSubtype_exact hs hsource (htypes s super hheld) hx] at habove
      exact habove.head hdirect

/-- Strict and lenient access agree. Whichever of the four questions about a type is
asked first, and whatever is asked from then on, the answers are the ones that there
were at first. The strict one fails for a class that the table lacks and for arrays
over it, and then the type is below nothing but itself. Otherwise it lists the
superclass and then the interfaces, and the type is below itself and below all that
these are. -/
theorem hierarchy_access_agrees (hc : Reached table c)
    (ht : c.repository.type? t = some type) {y : TypeId} {first : Operation}
    (hfirst : first ∈ Operation.about t y) {later : List Operation}
    (hlater : ∀ operation ∈ later, operation.Asks)
    (he : e = (c.perform first).performAll later) :
    (e.directSupertypes t).1 = (c.directSupertypes t).1 ∧
      (e.superclass? t).1 = (c.superclass? t).1 ∧
      (e.interfaces t).1 = (c.interfaces t).1 ∧
      (∀ x other, c.repository.type? x = some other →
        (e.isSubtype t x).1 = (c.isSubtype t x).1) ∧
      (∀ cause, (c.directSupertypes t).1 = .error cause ↔
        type.element = .named cause.name ∧ table.Lacks cause.name) ∧
      (∀ cause, (c.directSupertypes t).1 = .error cause →
        ∀ x other, e.repository.type? x = some other →
          ((e.isSubtype t x).1 = true ↔ x = t)) ∧
      ∀ l, (c.directSupertypes t).1 = .ok l →
        (∃ superclass interfaces, (c.superclass? t).1 = .ok superclass ∧
          (c.interfaces t).1 = .ok interfaces ∧
          l = superclass.toList ++ interfaces) ∧
        ∀ x other, e.repository.type? x = some other →
          ((e.isSubtype t x).1 = true ↔
            x = t ∨ ∃ s ∈ l, (e.isSubtype s x).1 = true) := by
  obtain ⟨hsource, hs⟩ := hc.sound
  obtain ⟨hasks, hplaced⟩ := edits_resolve_about hs ht hfirst
  have hreached : Reached table e := by
    rw [he]
    exact (hc.perform first hasks).performAll hlater
  obtain ⟨hsource', hs'⟩ := hreached.sound
  have htypes : ∀ j other, (c.resolve t).2.repository.type? j = some other →
      e.repository.type? j = some other := by
    intro j other hj
    rw [he]
    exact Edits.types (hplaced.trans (edits_performAll hlater)) hj
  have hkept {x : TypeId} {other : JavaType} (hx : c.repository.type? x = some other) :
      e.repository.type? x = some other :=
    htypes x other ((edits_resolve c t).types hx)
  obtain ⟨hdirect, hsuperclass, hinterfaces⟩ :=
    answers_agree hs hsource hs' hsource' ht htypes
  refine ⟨hdirect, hsuperclass, hinterfaces, ?_,
    fun cause => directSupertypes_eq_error hs hsource ht, ?_, ?_⟩
  · intro x other hx
    rw [Bool.eq_iff_iff, isSubtype_exact hs' hsource' (hkept ht) (hkept hx),
      isSubtype_exact hs hsource ht hx]
  · intro cause hcause x other hx
    obtain ⟨helement, hlacks⟩ := (directSupertypes_eq_error hs hsource ht).1 hcause
    exact isSubtype_of_error hs' hsource' (hkept ht) helement hlacks hx
  · intro l hl
    exact ⟨(directSupertypes_eq_ok hc ht hl).1, fun x other hx =>
      isSubtype_iff_supers hc hs' hsource' ht htypes hl hx⟩

end TypeContext

/-- Dogs and arrays of cats, which the table does not have. -/
def catsAndDogs : TypeContext Classpath :=
  let context := ((TypeContext.ofSource pets).intern (.named "Dog")).2
  (context.intern (.array 1 (.named "Cat"))).2

/-- The same, after the question whether a dog is an object and after another type was
held. -/
def birdsToo : TypeContext Classpath :=
  (catsAndDogs.perform (.isSubtype 1 0)).performAll
    [.request (.named "Bird"), .superclass 3]

/-- What is above a dog, and what is not above an array of cats. -/
theorem hierarchy_access_agrees_pets :
    (catsAndDogs.directSupertypes 1).1 = .ok [4, 5] ∧
      (birdsToo.directSupertypes 1).1 = (catsAndDogs.directSupertypes 1).1 ∧
      ((birdsToo.isSubtype 1 0).1 = true ↔
        0 = 1 ∨ ∃ s ∈ [4, 5], (birdsToo.isSubtype s 0).1 = true) ∧
      (catsAndDogs.directSupertypes 3).1 = .error ⟨"Cat"⟩ ∧
      (((catsAndDogs.interfaces 3).2.isSubtype 3 0).1 = true ↔ 0 = 3) := by
  have hreached : TypeContext.Reached pets catsAndDogs := .intern (.intern .start _) _
  have hdog : catsAndDogs.repository.type? 1 = some (.named "Dog") := by decide +kernel
  have hcats : catsAndDogs.repository.type? 3 = some (.array 1 (.named "Cat")) := by
    decide +kernel
  have hlist : (catsAndDogs.directSupertypes 1).1 = .ok [4, 5] := by decide +kernel
  have herror : (catsAndDogs.directSupertypes 3).1 = .error ⟨"Cat"⟩ := by
    decide +kernel
  have hlater : ∀ operation ∈ [Operation.request (.named "Bird"), .superclass 3],
      operation.Asks := by decide
  have hnone : ∀ operation ∈ ([] : List Operation), operation.Asks := by simp
  have hdogs : Operation.isSubtype 1 0 ∈ Operation.about 1 0 := by
    simp [Operation.about]
  have hnoCats : Operation.interfaces 3 ∈ Operation.about 3 0 := by
    simp [Operation.about]
  have dog := TypeContext.hierarchy_access_agrees hreached hdog hdogs hlater
    (e := birdsToo) rfl
  have cats := TypeContext.hierarchy_access_agrees hreached hcats hnoCats hnone
    (e := (catsAndDogs.interfaces 3).2) rfl
  refine ⟨hlist, dog.1, (dog.2.2.2.2.2.2 _ hlist).2 0 .object ?_, herror,
    cats.2.2.2.2.2.1 _ herror 0 .object ?_⟩
  · decide +kernel
  · decide +kernel

end ClassAudit
