import ClassAudit.Proofs.RepositoryGrowth

/-!
# What resolution leaves behind

A repository that is fed by one table says nothing that the table does not.
`Sound` is that statement, node by node. A type that was not looked at has no
edges. The edges of one that is known spell its links, exactly. One that failed
cannot be placed, and the cause names its element. What is kept of ancestors is
all of them and nothing else.

Resolving a type keeps that (`resolve_resolves`), and nodes that were settled before
stay as they are: each type is placed once. The only other node that resolving
can change is the class below an array, which is placed on the way.
-/

namespace ClassAudit

open TypeRepository

theorem JavaType.eq_mk {type : JavaType} {dimensions : Nat}
    {element : ElementType} (hdimensions : type.dimensions = dimensions)
    (helement : type.element = element) : type = ⟨dimensions, element⟩ := by
  subst hdimensions helement
  rfl

/-- Whether a class is an interface, if the table can tell. -/
def Classpath.flag? (table : Classpath) (type : JavaType) : Option Bool :=
  match type.dimensions, type.element with
  | 0, .named name =>
    if JavaType.named name = .object then some false
    else (table.find? name).map ClassFacts.isInterface
  | _, _ => none

/-- The ancestors that were kept for a type are all there are, and the missing
classes are those above it that the table cannot place. -/
structure AncestrySound (table : Classpath) (r : TypeRepository)
    (type : JavaType) (ancestry : Ancestry) : Prop where
  sound : ∀ id ∈ ancestry.reached, ∃ above, r.type? id = some above ∧
    Ancestor table type above
  complete : ∀ above, Ancestor table type above →
    ∃ id ∈ ancestry.reached, r.type? id = some above
  missing : ∀ name, name ∈ ancestry.missing ↔ ∃ above,
    Ancestor table type above ∧ table.links? above = none ∧
      above.element = .named name

/-- What is known of a type is what the table says. -/
structure NodeSound (table : Classpath) (r : TypeRepository)
    (node : TypeNode) : Prop where
  unresolved : node.resolution = .unresolved →
    node.edges = [] ∧ node.interfaceFlag = none ∧ node.type ≠ .object
  known : node.resolution = .known →
    node.interfaceFlag = table.flag? node.type ∧
      ∃ links, table.links? node.type = some links ∧ r.Spells node.edges links
  failed : ∀ cause, node.resolution = .failed cause →
    node.interfaceFlag = none ∧ table.links? node.type = none ∧
      node.type.element = .named cause.name
  ancestry : ∀ ancestry, node.ancestry = some ancestry →
    node.resolution ≠ .unresolved ∧ AncestrySound table r node.type ancestry

/-- A repository says what the table says. -/
structure TypeRepository.Sound (table : Classpath) (r : TypeRepository) :
    Prop where
  root : r.type? objectId = some .object
  distinct : r.Distinct
  nodes : ∀ id node, r.node? id = some node → NodeSound table r node

section Invariant

variable {table : Classpath} {r r' : TypeRepository} {id : TypeId}

theorem AncestrySound.mono {type : JavaType} {ancestry : Ancestry}
    (h : AncestrySound table r type ancestry)
    (htypes : ∀ j type, r.type? j = some type → r'.type? j = some type) :
    AncestrySound table r' type ancestry where
  sound := fun id hid => by
    obtain ⟨above, htype, habove⟩ := h.sound id hid
    exact ⟨above, htypes _ _ htype, habove⟩
  complete := fun above habove => by
    obtain ⟨id, hid, htype⟩ := h.complete above habove
    exact ⟨id, hid, htypes _ _ htype⟩
  missing := h.missing

theorem NodeSound.mono {node : TypeNode} (h : NodeSound table r node)
    (htypes : ∀ j type, r.type? j = some type → r'.type? j = some type) :
    NodeSound table r' node where
  unresolved := h.unresolved
  known := fun hknown => (h.known hknown).imp_right fun ⟨links, hlinks, hs⟩ =>
    ⟨links, hlinks, hs.mono htypes⟩
  failed := h.failed
  ancestry := fun ancestry hancestry =>
    (h.ancestry ancestry hancestry).imp_right fun hs => hs.mono htypes

theorem nodeSound_fresh {type : JavaType} (h : type ≠ .object) :
    NodeSound table r (.fresh type) := by
  obtain ⟨dimensions, element⟩ := type
  refine ⟨fun _ => ⟨rfl, rfl, h⟩, fun hknown => ?_, fun cause hfailed => ?_,
    fun ancestry hancestry => nomatch hancestry⟩
  · cases dimensions with
    | zero =>
        cases element with
        | basic basic => exact ⟨rfl, [], rfl, .nil⟩
        | named name => cases hknown
    | succ n => cases hknown
  · cases dimensions with
    | zero => cases element <;> cases hfailed
    | succ n => cases hfailed

theorem sound_initial : TypeRepository.initial.Sound table := by
  have hnode : ∀ id node, TypeRepository.initial.node? id = some node →
      id = 0 ∧ node = { TypeNode.fresh .object with
        resolution := .known, interfaceFlag := some false } := by
    intro id node h
    cases id with
    | zero =>
        cases h
        exact ⟨rfl, rfl⟩
    | succ n => cases h
  refine ⟨rfl, ?_, ?_⟩
  · intro i j type hi hj
    obtain ⟨_, hi, _⟩ := type?_eq_some.1 hi
    obtain ⟨_, hj, _⟩ := type?_eq_some.1 hj
    rw [(hnode _ _ hi).1, (hnode _ _ hj).1]
  · intro id node h
    rw [(hnode _ _ h).2]
    exact ⟨fun h => (nomatch h), fun _ => ⟨rfl, [], rfl, .nil⟩,
      fun _ h => (nomatch h), fun _ h => (nomatch h)⟩

/-- Growth keeps a repository sound if it does so at the node being placed. -/
theorem TypeRepository.Sound.grows (h : r.Sound table) (hg : Grows id r r')
    (hid : ∀ node, r'.node? id = some node → NodeSound table r' node) :
    r'.Sound table where
  root := hg.types _ _ h.root
  distinct := hg.distinct h.distinct
  nodes := by
    intro j node hj
    by_cases heq : j = id
    · subst heq
      exact hid node hj
    · rcases hg.added j node heq hj with hold | ⟨hfresh, hnew⟩
      · exact (h.nodes j node hold).mono hg.types
      · rw [hfresh]
        refine nodeSound_fresh fun hobject => hnew objectId ?_
        rw [h.root, hobject]

theorem TypeRepository.Sound.intern (h : r.Sound table) (type : JavaType) :
    (r.intern type).2.Sound table := by
  refine h.grows (intern_grows (r.intern type).2.size r type) fun node hnode => ?_
  rw [node?_size] at hnode
  cases hnode

/-- A node with the links of the table is sound. -/
theorem nodeSound_known (node : TypeNode) {edges : List Edge}
    {links : List Link} (hold : NodeSound table r node)
    (htypes : ∀ j type, r.type? j = some type → r'.type? j = some type)
    (hlinks : table.links? node.type = some links)
    (hspells : r'.Spells edges links) :
    NodeSound table r' { node with
      edges, interfaceFlag := table.flag? node.type, resolution := .known } where
  unresolved := fun h => nomatch h
  known := fun _ => ⟨rfl, links, hlinks, hspells⟩
  failed := fun _ h => nomatch h
  ancestry := fun ancestry h =>
    ⟨Resolution.noConfusion, (hold.ancestry ancestry h).2.mono htypes⟩

/-- A node that cannot be placed is sound once that is noted. -/
theorem nodeSound_failed (node : TypeNode) {cause : ClassNotFound}
    (hold : NodeSound table r node) (hres : node.resolution = .unresolved)
    (htypes : ∀ j type, r.type? j = some type → r'.type? j = some type)
    (hlinks : table.links? node.type = none)
    (helement : node.type.element = .named cause.name) :
    NodeSound table r' { node with resolution := .failed cause } where
  unresolved := fun h => nomatch h
  known := fun h => nomatch h
  failed := fun other h => by
    cases h
    exact ⟨(hold.unresolved hres).2.1, hlinks, helement⟩
  ancestry := fun ancestry h =>
    ⟨Resolution.noConfusion, (hold.ancestry ancestry h).2.mono htypes⟩

end Invariant

/-! ## Contexts -/

/-- The resolution that an outcome leaves. -/
def Resolution.ofOutcome : Except ClassNotFound Unit → Resolution
  | .ok () => .known
  | .error cause => .failed cause

/-- A context later on, fed by the same table: it is sound, and what was settled
is still there. -/
structure Advances (table : Classpath) (c c' : TypeContext Classpath) : Prop where
  source : c'.source.classes = c.source.classes
  sound : c'.repository.Sound table
  types : ∀ j type, c.repository.type? j = some type →
    c'.repository.type? j = some type
  settled : ∀ j node, c.repository.node? j = some node →
    node.resolution ≠ .unresolved → c'.repository.node? j = some node

section Contexts

variable {table : Classpath} {c c' c'' : TypeContext Classpath} {id : TypeId}
  {node : TypeNode}

theorem Advances.refl (h : c.repository.Sound table) : Advances table c c where
  source := rfl
  sound := h
  types := fun _ _ h => h
  settled := fun _ _ h _ => h

theorem Advances.trans (h : Advances table c c') (h' : Advances table c' c'') :
    Advances table c c'' where
  source := h'.source.trans h.source
  sound := h'.sound
  types := fun j type hj => h'.types j type (h.types j type hj)
  settled := fun j node hj hres => h'.settled j node (h.settled j node hj hres) hres

/-- Placing a node that was not looked at before advances a context. -/
theorem Advances.of_grows (hs : c.repository.Sound table)
    (hsource : c'.source.classes = c.source.classes)
    (hg : Grows id c.repository c'.repository)
    (hnode : c.repository.node? id = some node)
    (hres : node.resolution = .unresolved)
    (hid : ∀ node, c'.repository.node? id = some node →
      NodeSound table c'.repository node) : Advances table c c' where
  source := hsource
  sound := hs.grows hg hid
  types := hg.types
  settled := by
    intro j other hj hother
    by_cases heq : j = id
    · subst heq
      rw [hnode] at hj
      cases hj
      exact absurd hres hother
    · exact hg.others j other heq hj

theorem Advances.intern (h : c.repository.Sound table) (type : JavaType) :
    Advances table c (c.intern type).2 where
  source := rfl
  sound := h.intern type
  types := (intern_grows objectId c.repository type).types
  settled := fun _ _ hj _ => intern_node? hj

namespace TypeContext

/-- The outcome of placing a type: the context has advanced, no node but the one
placed was touched, and that one shows the outcome. -/
structure Places (table : Classpath) (c : TypeContext Classpath) (id : TypeId)
    (result : Except ClassNotFound Unit × TypeContext Classpath) : Prop where
  advances : Advances table c result.2
  others : ∀ j node, j ≠ id → c.repository.node? j = some node →
    result.2.repository.node? j = some node
  shows : ∃ node, result.2.repository.node? id = some node ∧
    node.resolution = .ofOutcome result.1

theorem places_self (hs : c.repository.Sound table)
    (hnode : c.repository.node? id = some node)
    (outcome : Except ClassNotFound Unit)
    (hres : node.resolution = .ofOutcome outcome) :
    Places table c id (outcome, c) where
  advances := .refl hs
  others := fun _ _ _ h => h
  shows := ⟨node, hnode, hres⟩

/-- Settling a node whose edges spell the links of the table. -/
theorem places_known (hs : c.repository.Sound table)
    (hsource : c'.source.classes = c.source.classes)
    (hnode : c.repository.node? id = some node)
    (hres : node.resolution = .unresolved) {links : List Link}
    (hlinks : table.links? node.type = some links)
    (hgrows : Grows id c.repository c'.repository)
    (hlinked : c'.repository.Linked id
      { node with interfaceFlag := table.flag? node.type } links) :
    Places table c id (c'.settle id node.type (.ok ())) := by
  have hgrows' := hgrows.trans (setResolution_grows id c'.repository .known)
  obtain ⟨edges, hplaced, hspells⟩ := hlinked.setResolution .known
  refine ⟨.of_grows hs hsource hgrows' hnode hres ?_, hgrows'.others,
    ⟨_, hplaced, rfl⟩⟩
  intro node' hnode'
  cases hplaced.symm.trans hnode'
  exact nodeSound_known node (hs.nodes id node hnode) hgrows'.types hlinks
    hspells

/-- Settling a node that the table cannot place. -/
theorem places_failed (hs : c.repository.Sound table)
    (hsource : c'.source.classes = c.source.classes)
    (hnode : c.repository.node? id = some node)
    (hres : node.resolution = .unresolved)
    (hsame : c'.repository = c.repository)
    (hlinks : table.links? node.type = none) {cause : ClassNotFound}
    (helement : node.type.element = .named cause.name) :
    Places table c id (c'.settle id node.type (.error cause)) := by
  obtain ⟨repository, source, log⟩ := c'
  cases hsame
  have hgrows := setResolution_grows id c.repository (.failed cause)
  have hplaced : (c.repository.setResolution id (.failed cause)).node? id =
      some { node with resolution := .failed cause } := by
    rw [setResolution, node?_update, if_pos rfl, hnode]
    rfl
  refine ⟨.of_grows hs hsource hgrows hnode hres ?_, hgrows.others,
    ⟨_, hplaced, rfl⟩⟩
  intro node' hnode'
  cases hplaced.symm.trans hnode'
  exact nodeSound_failed node (hs.nodes id node hnode) hres hgrows.types hlinks
    helement

theorem find?_source (hsource : c.source.classes = table.classes)
    (name : String) : c.source.find? name = table.find? name := by
  rw [Classpath.find?, Classpath.find?, hsource]

theorem askClass_some (c : TypeContext Classpath) (id : TypeId) {name : String}
    {facts : ClassFacts} (h : c.source.find? name = some facts) :
    c.askClass id name = (.ok (),
      { c with
        repository := placeClass c.repository id facts
        source := { c.source with asked := c.source.asked + 1 } }) := by
  rw [askClass]
  simp only [ClassSource.ask, h]
  rfl

theorem askClass_none (c : TypeContext Classpath) (id : TypeId) {name : String}
    (h : c.source.find? name = none) :
    c.askClass id name = (.error ⟨name⟩,
      { c with
        source := { c.source with asked := c.source.asked + 1 }
        log := c.log.push (.notOnClasspath name) }) := by
  rw [askClass]
  simp only [ClassSource.ask, h]
  rfl

theorem flag?_class {name : String} {facts : ClassFacts}
    (hobject : JavaType.named name ≠ .object)
    (h : table.find? name = some facts) :
    table.flag? (.named name) = some facts.isInterface := by
  have hflag : table.flag? (.named name) =
      if JavaType.named name = .object then some false
      else (table.find? name).map ClassFacts.isInterface := rfl
  rw [hflag, if_neg hobject, h]
  rfl

/-- Placing a class is asking the table. -/
theorem resolveClass_places (hs : c.repository.Sound table)
    (hsource : c.source.classes = table.classes)
    (hnode : c.repository.node? id = some node) {name : String}
    (htype : node.type = .named name) :
    Places table c id (c.resolveClass id name) := by
  rw [resolveClass, hnode, Option.map_some]
  cases hres : node.resolution with
  | known => exact places_self hs hnode (.ok ()) hres
  | failed cause => exact places_self hs hnode (.error cause) hres
  | unresolved =>
      obtain ⟨hedges, _, hobject⟩ := (hs.nodes id node hnode).unresolved hres
      rw [htype] at hobject
      have hlinks : table.links? node.type =
          (table.find? name).map ClassFacts.links := by
        rw [htype]
        exact Classpath.classLinks?_class hobject
      rw [← htype]
      have hfind := find?_source hsource name
      cases hfacts : table.find? name with
      | none =>
          rw [hfacts] at hlinks hfind
          rw [askClass_none c id hfind]
          refine places_failed hs ?_ hnode hres ?_ hlinks ?_
          · rfl
          · rfl
          · rw [htype]
            rfl
      | some facts =>
          rw [hfacts] at hlinks hfind
          rw [askClass_some c id hfind]
          have hflag : table.flag? node.type = some facts.isInterface := by
            rw [htype, flag?_class hobject hfacts]
          refine places_known hs ?_ hnode hres hlinks ?_ ?_
          · rfl
          · rw [placeClass_eq]
            exact (connectLinks_grows c.repository id facts.stated).trans
              (markInterface_grows id _ facts.isInterface)
          · rw [placeClass_eq, hflag]
            exact (connectLinks_gather hs.distinct hnode hedges
              facts.stated).markInterface facts.isInterface

theorem intern_node? (hnode : c.repository.node? id = some node)
    (type : JavaType) :
    (c.intern type).2.repository.node? id = some node :=
  TypeRepository.intern_node? hnode

/-- A basic type has nothing above it. -/
theorem settle_basic (hs : c.repository.Sound table)
    (hnode : c.repository.node? id = some node)
    (hres : node.resolution = .unresolved) {basic : BasicType}
    (htype : node.type = ⟨0, .basic basic⟩) :
    Places table c id (c.settle id node.type (.ok ())) := by
  obtain ⟨hedges, hnone, _⟩ := (hs.nodes id node hnode).unresolved hres
  have hflag : table.flag? node.type = node.interfaceFlag := by
    rw [hnone, htype]
    rfl
  have hlinks : table.links? node.type = some [] := by
    rw [htype]
    rfl
  refine places_known hs rfl hnode hres hlinks (.refl id _) ?_
  rw [hflag]
  exact ⟨[], by rw [hnode, ← hedges], .nil⟩

/-- Placing an array by adding stated links. -/
theorem places_array (hs : c.repository.Sound table)
    (hsource : c'.source.classes = c.source.classes)
    (hnode : c.repository.node? id = some node)
    (hres : node.resolution = .unresolved) {n : Nat}
    (hdimensions : node.type.dimensions = n + 1) {stated : List Link}
    (hlinks : table.links? node.type = some (gather stated))
    (hrepository : c'.repository = c.repository.connectLinks id stated) :
    Places table c id (c'.settle id node.type (.ok ())) := by
  obtain ⟨hedges, hnone, _⟩ := (hs.nodes id node hnode).unresolved hres
  have hflag : table.flag? node.type = none := by
    simp only [Classpath.flag?, hdimensions]
  refine places_known hs hsource hnode hres hlinks ?_ ?_
  · rw [hrepository]
    exact connectLinks_grows c.repository id stated
  · rw [hrepository, hflag, ← hnone]
    exact connectLinks_gather hs.distinct hnode hedges stated

/-- The outcome of resolving a type: the context has advanced, and the node shows
the outcome. -/
structure Resolves (table : Classpath) (c : TypeContext Classpath) (id : TypeId)
    (result : Except ClassNotFound Unit × TypeContext Classpath) : Prop where
  advances : Advances table c result.2
  shows : ∃ node, result.2.repository.node? id = some node ∧
    node.resolution = .ofOutcome result.1

theorem Places.resolves {result : Except ClassNotFound Unit × TypeContext Classpath}
    (h : Places table c id result) : Resolves table c id result :=
  ⟨h.advances, h.shows⟩

/-- Derives an array from the class below it, where that is held. -/
def deriveFrom (c : TypeContext Classpath) (id : TypeId) (dimensions : Nat)
    (element : TypeId) (name : String) :
    Except ClassNotFound Unit × TypeContext Classpath :=
  match c.resolveClass element name with
  | (.error cause, c') => (.error cause, c')
  | (.ok (), c') =>
    match c'.repository.node? element with
    | none => (.ok (), c')
    | some found => (.ok (), c'.withRepository (placeArrayOver · id dimensions found))

theorem deriveArray_eq (c : TypeContext Classpath) (id : TypeId)
    (dimensions : Nat) (name : String) :
    c.deriveArray id dimensions name =
      (c.intern (.named name)).2.deriveFrom id dimensions
        (c.intern (.named name)).1 name := by
  rw [deriveArray, deriveFrom]
  dsimp only
  cases (c.intern (.named name)).2.resolveClass (c.intern (.named name)).1
      name with
  | mk outcome c' =>
      cases outcome with
      | error cause => rfl
      | ok => cases c'.repository.node? (c.intern (.named name)).1 <;> rfl

theorem deriveFrom_resolves (hs : c.repository.Sound table)
    (hsource : c.source.classes = table.classes)
    (hnode : c.repository.node? id = some node)
    (hres : node.resolution = .unresolved) {n : Nat} {name : String}
    (htype : node.type = ⟨n + 1, .named name⟩)
    (hobject : JavaType.named name ≠ .object) {element : TypeId}
    (helement : c.repository.type? element = some (.named name)) :
    Resolves table c id
      ((c.deriveFrom id (n + 1) element name).2.settle id node.type
        (c.deriveFrom id (n + 1) element name).1) := by
  obtain ⟨class', hclass, hname⟩ := type?_eq_some.1 helement
  -- The class is another type than the array, so it has another position.
  have hne : id ≠ element := by
    rintro rfl
    rw [type?_of_node? hnode, htype] at helement
    cases helement
  obtain ⟨hadvances, hothers, found, hfound, hshows⟩ :=
    resolveClass_places hs hsource hclass hname
  have hkept := hothers id node hne hnode
  have hfoundType : found.type = .named name := by
    have h := hadvances.types _ _ helement
    rw [type?_of_node? hfound] at h
    exact Option.some.inj h
  have hfoundSound := hadvances.sound.nodes _ _ hfound
  have hover : table.links? node.type =
      (table.links? found.type).map (linksOver (n + 1)) := by
    rw [htype, hfoundType]
    exact Classpath.links?_overClass hobject n
  unfold deriveFrom
  generalize c.resolveClass element name = result at *
  obtain ⟨outcome, c'⟩ := result
  cases outcome with
  | error cause =>
      obtain ⟨_, hlinks, hcause⟩ := hfoundSound.failed cause hshows
      rw [hlinks] at hover
      have hfailed : Places table c' id
          (c'.settle id node.type (.error cause)) :=
        places_failed hadvances.sound rfl hkept hres rfl hover
          (by rw [htype, ← hcause, hfoundType]; rfl)
      exact ⟨hadvances.trans hfailed.advances, hfailed.shows⟩
  | ok =>
      obtain ⟨_, links, hlinks, hspells⟩ := hfoundSound.known hshows
      rw [hlinks] at hover
      simp only [hfound]
      have harray : Places table c' id
          ((c'.withRepository (placeArrayOver · id (n + 1) found)).settle id
            node.type (.ok ())) :=
        places_array hadvances.sound rfl hkept hres (by rw [htype]) hover
          (placeArrayOver_eq hspells id (n + 1))
      exact ⟨hadvances.trans harray.advances, harray.shows⟩

theorem resolveArray_object (c : TypeContext Classpath) (id : TypeId) (n : Nat)
    {name : String} (h : JavaType.named name = .object) :
    c.resolveArray id ⟨n + 1, .named name⟩ = (.ok (), c.withRepository
      (·.connectLinks id ((.superclass, ⟨n, .named name⟩) :: arrayLinks))) := by
  rw [resolveArray]
  simp only [if_pos h]
  rfl

theorem resolveArray_class (c : TypeContext Classpath) (id : TypeId) (n : Nat)
    {name : String} (h : JavaType.named name ≠ .object) :
    c.resolveArray id ⟨n + 1, .named name⟩ = c.deriveArray id (n + 1) name := by
  rw [resolveArray]
  simp only [if_neg h]

theorem resolveArray_resolves (hs : c.repository.Sound table)
    (hsource : c.source.classes = table.classes)
    (hnode : c.repository.node? id = some node)
    (hres : node.resolution = .unresolved) {n : Nat} {element : ElementType}
    (htype : node.type = ⟨n + 1, element⟩) :
    Resolves table c id
      ((c.resolveArray id node.type).2.settle id node.type
        (c.resolveArray id node.type).1) := by
  have hdimensions : node.type.dimensions = n + 1 := by rw [htype]
  cases element with
  | basic basic =>
      have hlinks : table.links? node.type =
          some (gather ((.superclass, .object) :: arrayLinks)) := by rw [htype]; rfl
      have hplaces : Places table c id ((c.withRepository
          (·.connectLinks id ((.superclass, .object) :: arrayLinks))).settle id
            node.type (.ok ())) :=
        places_array hs rfl hnode hres hdimensions hlinks rfl
      rw [htype] at hplaces ⊢
      exact hplaces.resolves
  | named name =>
      by_cases hobject : JavaType.named name = .object
      · have hlinks : table.links? node.type = some (gather
            ((.superclass, ⟨n, .named name⟩) :: arrayLinks)) := by
          rw [htype, Classpath.links?_overObject hobject n]
        have hplaces : Places table c id ((c.withRepository (·.connectLinks id
            ((.superclass, ⟨n, .named name⟩) :: arrayLinks))).settle id
              node.type (.ok ())) :=
          places_array hs rfl hnode hres hdimensions hlinks rfl
        rw [htype] at hplaces ⊢
        rw [resolveArray_object c id n hobject]
        exact hplaces.resolves
      · have hintern : Advances table c (c.intern (.named name)).2 :=
          .intern hs (.named name)
        have hderived := deriveFrom_resolves hintern.sound
          (hintern.source.trans hsource) (TypeContext.intern_node? hnode _) hres
          htype hobject (intern_type? c.repository (.named name))
        rw [htype] at hderived ⊢
        rw [resolveArray_class c id n hobject, deriveArray_eq]
        exact ⟨hintern.trans hderived.advances, hderived.shows⟩

/-- Resolving a type that is held settles it, by what the table says. -/
theorem resolve_resolves (hs : c.repository.Sound table)
    (hsource : c.source.classes = table.classes)
    (hnode : c.repository.node? id = some node) :
    Resolves table c id (c.resolve id) := by
  rw [resolve, hnode]
  dsimp only
  cases hres : node.resolution with
  | known => exact (places_self hs hnode (.ok ()) hres).resolves
  | failed cause => exact (places_self hs hnode (.error cause) hres).resolves
  | unresolved =>
      dsimp only
      split
      · next hdimensions helement =>
          have htype := JavaType.eq_mk hdimensions helement
          exact (settle_basic hs hnode hres htype).resolves
      · next hdimensions helement =>
          have htype := JavaType.eq_mk hdimensions helement
          exact (resolveClass_places hs hsource hnode htype).resolves
      · next hdimensions =>
          have htype := JavaType.eq_mk hdimensions rfl
          exact resolveArray_resolves hs hsource hnode hres htype

end TypeContext

end Contexts

end ClassAudit
