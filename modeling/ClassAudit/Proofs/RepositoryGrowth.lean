import ClassAudit.Proofs.Supertypes
import Mathlib.Data.List.Forall2

/-!
# How a repository grows

Placing a type touches a repository in many small steps: supertypes are held if
they are new, and edges to them are added one at a time. What comes out is
simple. `Grows` says what such steps do to the rest: types keep their positions,
nodes other than the one being placed are not touched, and what is new is fresh.
`Linked` says what they do to the node itself, in terms of types and not of
positions: its edges spell a list of links, and one more edge is one more link.
Both compose, so a whole placement is one fold over the links that it adds
(`connectLinks`).

Different positions hold different types (`Distinct`). Without that the rule
that no edge is held twice would be about positions only.
-/

namespace ClassAudit.TypeRepository

variable {r r' r'' : TypeRepository} {id : TypeId}

/-! ## Nodes -/

theorem node?_push (r : TypeRepository) (node : TypeNode) (j : TypeId) :
    node? ⟨r.nodes.push node⟩ j =
      if j = r.size then some node else r.node? j :=
  Array.getElem?_push

theorem node?_update (r : TypeRepository) (id j : TypeId)
    (change : TypeNode → TypeNode) :
    (r.update id change).node? j =
      if id = j then (r.node? j).map change else r.node? j := by
  simp only [node?, update, Array.getElem?_modify]

theorem type?_eq_some {j : TypeId} {type : JavaType} :
    r.type? j = some type ↔ ∃ node, r.node? j = some node ∧ node.type = type := by
  simp [type?]

theorem type?_of_node? {j : TypeId} {node : TypeNode}
    (h : r.node? j = some node) : r.type? j = some node.type := by
  rw [type?, h]
  rfl

theorem node_type {j : TypeId} {type : JavaType} {node : TypeNode}
    (h : r.type? j = some type) (hnode : r.node? j = some node) :
    node.type = type := by
  rw [type?_of_node? hnode] at h
  exact Option.some.inj h

theorem type?_push (r : TypeRepository) (node : TypeNode) (j : TypeId) :
    type? ⟨r.nodes.push node⟩ j =
      if j = r.size then some node.type else r.type? j := by
  rw [type?, node?_push]
  split <;> rfl

theorem node?_size (r : TypeRepository) : r.node? r.size = none := by
  simp [node?, size]

/-- A change that keeps types keeps them everywhere. -/
theorem type?_update (r : TypeRepository) (id j : TypeId)
    {change : TypeNode → TypeNode} (h : ∀ node, (change node).type = node.type) :
    (r.update id change).type? j = r.type? j := by
  rw [type?, node?_update]
  split
  · rw [Option.map_map]
    congr 1
    funext node
    exact h node
  · rfl

/-- No type is held at two positions. -/
def Distinct (r : TypeRepository) : Prop :=
  ∀ i j type, r.type? i = some type → r.type? j = some type → i = j

/-! ## Growing -/

/-- What placing the type at one position does to the rest of a repository. -/
structure Grows (id : TypeId) (r r' : TypeRepository) : Prop where
  types : ∀ j type, r.type? j = some type → r'.type? j = some type
  others : ∀ j node, j ≠ id → r.node? j = some node → r'.node? j = some node
  added : ∀ j node, j ≠ id → r'.node? j = some node →
    r.node? j = some node ∨
      node = .fresh node.type ∧ ∀ i, r.type? i ≠ some node.type
  distinct : r.Distinct → r'.Distinct

theorem Grows.refl (id : TypeId) (r : TypeRepository) : Grows id r r where
  types := fun _ _ h => h
  others := fun _ _ _ h => h
  added := fun _ _ _ h => .inl h
  distinct := fun h => h

theorem Grows.trans (h : Grows id r r') (h' : Grows id r' r'') :
    Grows id r r'' where
  types := fun j type hj => h'.types j type (h.types j type hj)
  others := fun j node hne hj => h'.others j node hne (h.others j node hne hj)
  added := by
    intro j node hne hj
    rcases h'.added j node hne hj with hold | ⟨hfresh, hnew⟩
    · exact h.added j node hne hold
    · exact .inr ⟨hfresh, fun i hi => hnew i (h.types i _ hi)⟩
  distinct := fun hr => h'.distinct (h.distinct hr)

/-- A change to the node that keeps its type. -/
theorem grows_update (id : TypeId) (r : TypeRepository)
    {change : TypeNode → TypeNode} (h : ∀ node, (change node).type = node.type) :
    Grows id r (r.update id change) where
  types := fun j type hj => by rw [type?_update r id j h, hj]
  others := fun j node hne hj => by
    rw [node?_update, if_neg (fun heq => hne heq.symm), hj]
  added := fun j node hne hj => by
    rw [node?_update, if_neg (fun heq => hne heq.symm)] at hj
    exact .inl hj
  distinct := fun hr i j type hi hj => by
    rw [type?_update r id _ h] at hi hj
    exact hr i j type hi hj

/-! ## Holding types -/

theorem find?_eq_some {type : JavaType} {j : TypeId}
    (h : r.find? type = some j) : r.type? j = some type := by
  obtain ⟨hlt, hj, _⟩ := Array.findIdx?_eq_some_iff_getElem.1 h
  refine type?_eq_some.2 ⟨r.nodes[j], ?_, by simpa using hj⟩
  exact Array.getElem?_eq_getElem hlt

theorem find?_eq_none {type : JavaType} (h : r.find? type = none) (j : TypeId) :
    r.type? j ≠ some type := by
  intro hj
  obtain ⟨node, hnode, rfl⟩ := type?_eq_some.1 hj
  have hmem : node ∈ r.nodes := Array.mem_of_getElem? hnode
  have hfalse := Array.findIdx?_eq_none_iff.1 h node hmem
  simp at hfalse

theorem hold_type? (r : TypeRepository) (type : JavaType) :
    (r.hold type).2.type? (r.hold type).1 = some type := by
  unfold hold
  split
  · next j hfind => exact find?_eq_some hfind
  · refine type?_eq_some.2 ⟨.fresh type, ?_, rfl⟩
    rw [node?_push, if_pos rfl]

/-- Holding a type moves nothing. -/
theorem hold_node? {type : JavaType} {j : TypeId} {node : TypeNode}
    (h : r.node? j = some node) : (r.hold type).2.node? j = some node := by
  unfold hold
  split
  · exact h
  · rw [node?_push, if_neg, h]
    rintro rfl
    rw [node?_size] at h
    cases h

theorem hold_added {type : JavaType} {j : TypeId} {node : TypeNode}
    (h : (r.hold type).2.node? j = some node) :
    r.node? j = some node ∨
      node = .fresh node.type ∧ ∀ i, r.type? i ≠ some node.type := by
  unfold hold at h
  split at h
  · exact .inl h
  · next hfind =>
      rw [node?_push] at h
      split at h
      · cases h
        exact .inr ⟨rfl, find?_eq_none hfind⟩
      · exact .inl h

theorem hold_distinct {type : JavaType} (h : r.Distinct) :
    (r.hold type).2.Distinct := by
  unfold hold
  split
  · exact h
  · next hfind =>
      intro i j other hi hj
      rw [type?_push] at hi hj
      split at hi <;> split at hj
      · next hi' hj' => rw [hi', hj']
      · cases hi
        exact absurd hj (find?_eq_none hfind j)
      · cases hj
        exact absurd hi (find?_eq_none hfind i)
      · exact h i j other hi hj

theorem hold_grows (id : TypeId) (r : TypeRepository) (type : JavaType) :
    Grows id r (r.hold type).2 where
  types := by
    intro j other hj
    obtain ⟨node, hnode, rfl⟩ := type?_eq_some.1 hj
    exact type?_of_node? (hold_node? hnode)
  others := fun _ _ _ h => hold_node? h
  added := fun _ _ _ h => hold_added h
  distinct := hold_distinct

theorem intern_grows (id : TypeId) (r : TypeRepository) (type : JavaType) :
    Grows id r (r.intern type).2 := by
  unfold intern
  split
  · exact hold_grows id r type
  · exact (hold_grows id r _).trans (hold_grows id _ type)

theorem intern_node? {type : JavaType} {j : TypeId} {node : TypeNode}
    (h : r.node? j = some node) : (r.intern type).2.node? j = some node := by
  unfold intern
  split
  · exact hold_node? h
  · exact hold_node? (hold_node? h)

theorem intern_type? (r : TypeRepository) (type : JavaType) :
    (r.intern type).2.type? (r.intern type).1 = some type := by
  unfold intern
  split
  · exact hold_type? r type
  · exact hold_type? _ type

/-! ## Edges and links -/

/-- Edges that lead to the types that links name, one by one. -/
def Spells (r : TypeRepository) (edges : List Edge) (links : List Link) : Prop :=
  List.Forall₂ (fun edge link => edge.kind = link.1 ∧
    r.type? edge.target = some link.2) edges links

theorem Spells.mono {edges : List Edge} {links : List Link}
    (h : Spells r edges links)
    (htypes : ∀ j type, r.type? j = some type → r'.type? j = some type) :
    Spells r' edges links :=
  h.imp fun _ _ hedge => ⟨hedge.1, htypes _ _ hedge.2⟩

theorem Spells.exists_link {edges : List Edge} {links : List Link}
    (h : Spells r edges links) {edge : Edge} (he : edge ∈ edges) :
    ∃ link ∈ links, edge.kind = link.1 ∧ r.type? edge.target = some link.2 := by
  induction h with
  | nil => cases he
  | @cons first link edges links hfirst _ ih =>
      rcases List.mem_cons.1 he with rfl | he
      · exact ⟨link, List.mem_cons_self, hfirst⟩
      · obtain ⟨other, hother, hspelled⟩ := ih he
        exact ⟨other, List.mem_cons_of_mem _ hother, hspelled⟩

theorem Spells.exists_edge {edges : List Edge} {links : List Link}
    (h : Spells r edges links) {link : Link} (hl : link ∈ links) :
    ∃ edge ∈ edges, edge.kind = link.1 ∧ r.type? edge.target = some link.2 := by
  induction h with
  | nil => cases hl
  | @cons edge first edges links hfirst _ ih =>
      rcases List.mem_cons.1 hl with rfl | hl
      · exact ⟨edge, List.mem_cons_self, hfirst⟩
      · obtain ⟨other, hother, hspelled⟩ := ih hl
        exact ⟨other, List.mem_cons_of_mem _ hother, hspelled⟩

theorem Spells.filter {edges : List Edge} {links : List Link}
    (h : Spells r edges links) (keep : EdgeKind → Bool) :
    Spells r (edges.filter (keep ·.kind)) (links.filter (keep ·.1)) := by
  induction h with
  | nil => exact .nil
  | @cons edge link edges links hedge _ ih =>
      rw [List.filter_cons, List.filter_cons, hedge.1]
      split
      · exact .cons hedge ih
      · exact ih

/-- An edge is there exactly if its link is. -/
theorem Spells.contains {edges : List Edge} {links : List Link}
    (h : Spells r edges links) (hr : r.Distinct) {edge : Edge}
    {type : JavaType} (htype : r.type? edge.target = some type) :
    edges.contains edge = links.contains (edge.kind, type) := by
  induction h with
  | nil => rfl
  | @cons first link edges links hfirst _ ih =>
      have heq : (edge == first) = ((edge.kind, type) == link) := by
        rw [Bool.eq_iff_iff, beq_iff_eq, beq_iff_eq]
        constructor
        · rintro rfl
          rw [hfirst.2] at htype
          cases htype
          rw [hfirst.1]
        · rintro rfl
          obtain ⟨kind, target⟩ := edge
          obtain ⟨kind', target'⟩ := first
          have hsame : target' = target := hr _ _ _ hfirst.2 htype
          rw [hsame, show kind' = kind from hfirst.1]
      rw [List.contains_cons, List.contains_cons, heq, ih]

theorem Spells.addEdge {edges : List Edge} {links : List Link}
    (h : Spells r edges links) (hr : r.Distinct) (edge : Edge)
    {type : JavaType} (htype : r.type? edge.target = some type) :
    Spells r (addEdge edges edge) (addLink links (edge.kind, type)) := by
  have hadd : ∀ {kept : List Edge} {keptLinks : List Link},
      Spells r kept keptLinks →
      Spells r (if kept.contains edge then kept else kept ++ [edge])
        (if keptLinks.contains (edge.kind, type) then keptLinks
          else keptLinks ++ [(edge.kind, type)]) := by
    intro kept keptLinks hkept
    rw [hkept.contains hr htype]
    split
    · exact hkept
    · exact List.rel_append hkept (.cons ⟨rfl, htype⟩ .nil)
  unfold ClassAudit.addEdge addLink
  dsimp only
  by_cases hkind : edge.kind = .superclass
  · rw [if_pos hkind, if_pos hkind]
    exact hadd (h.filter (· != .superclass))
  · rw [if_neg hkind, if_neg hkind]
    exact hadd h

/-- The node at a position is a given one with edges that spell some links. -/
def Linked (r : TypeRepository) (id : TypeId) (base : TypeNode)
    (links : List Link) : Prop :=
  ∃ edges, r.node? id = some { base with edges } ∧ Spells r edges links

theorem connect_grows (id : TypeId) (r : TypeRepository) (edge : Edge) :
    Grows id r (r.connect id edge) :=
  grows_update id r fun _ => rfl

theorem connectTo_eq (r : TypeRepository) (id : TypeId) (kind : EdgeKind)
    (type : JavaType) :
    r.connectTo id kind type =
      (r.intern type).2.connect id ⟨kind, (r.intern type).1⟩ := rfl

theorem connectTo_grows (r : TypeRepository) (id : TypeId) (kind : EdgeKind)
    (type : JavaType) : Grows id r (r.connectTo id kind type) :=
  (intern_grows id r type).trans (connect_grows id _ _)

theorem connectTo_linked {base : TypeNode} {links : List Link}
    (hr : r.Distinct) (h : Linked r id base links) (kind : EdgeKind)
    (type : JavaType) :
    Linked (r.connectTo id kind type) id base (addLink links (kind, type)) := by
  obtain ⟨edges, hnode, hspells⟩ := h
  have hgrows := intern_grows id r type
  have hinterned := hspells.mono hgrows.types
  have hadded := hinterned.addEdge (hgrows.distinct hr)
    ⟨kind, (r.intern type).1⟩ (intern_type? r type)
  refine ⟨_, ?_, hadded.mono (connect_grows id _ _).types⟩
  rw [connectTo_eq, connect, node?_update, if_pos rfl, intern_node? hnode]
  rfl

/-- Adds the edges that links name, in their order. -/
def connectLinks (r : TypeRepository) (id : TypeId) (links : List Link) :
    TypeRepository :=
  links.foldl (fun r link => r.connectTo id link.1 link.2) r

theorem connectLinks_grows (r : TypeRepository) (id : TypeId)
    (links : List Link) : Grows id r (r.connectLinks id links) := by
  induction links generalizing r with
  | nil => exact .refl id r
  | cons link links ih => exact (connectTo_grows r id link.1 link.2).trans (ih _)

theorem connectLinks_linked {base : TypeNode} {links : List Link}
    (hr : r.Distinct) (h : Linked r id base links) (more : List Link) :
    Linked (r.connectLinks id more) id base (more.foldl addLink links) := by
  induction more generalizing r links with
  | nil => exact h
  | cons link more ih =>
      exact ih ((connectTo_grows r id link.1 link.2).distinct hr)
        (connectTo_linked hr h link.1 link.2)

/-- A node without edges gets those that are gathered from links. -/
theorem connectLinks_gather {node : TypeNode} (hr : r.Distinct)
    (hnode : r.node? id = some node) (hedges : node.edges = [])
    (links : List Link) :
    Linked (r.connectLinks id links) id node (gather links) := by
  refine connectLinks_linked hr ⟨[], ?_, .nil⟩ links
  rw [hnode, ← hedges]

/-- A change to what else is known of the node leaves its links alone. -/
theorem Linked.update {base base' : TypeNode} {links : List Link}
    (h : Linked r id base links) {change : TypeNode → TypeNode}
    (htype : ∀ node, (change node).type = node.type)
    (hchange : ∀ edges, change { base with edges } = { base' with edges }) :
    Linked (r.update id change) id base' links := by
  obtain ⟨edges, hnode, hspells⟩ := h
  refine ⟨edges, ?_, hspells.mono (grows_update id r htype).types⟩
  rw [node?_update, if_pos rfl, hnode, Option.map_some, hchange]

theorem setResolution_grows (id : TypeId) (r : TypeRepository)
    (resolution : Resolution) : Grows id r (r.setResolution id resolution) :=
  grows_update id r fun _ => rfl

theorem markInterface_grows (id : TypeId) (r : TypeRepository) (flag : Bool) :
    Grows id r (r.markInterface id flag) :=
  grows_update id r fun _ => rfl

theorem Linked.setResolution {base : TypeNode} {links : List Link}
    (h : Linked r id base links) (resolution : Resolution) :
    Linked (r.setResolution id resolution) id { base with resolution } links :=
  h.update (fun _ => rfl) fun _ => rfl

theorem Linked.markInterface {base : TypeNode} {links : List Link}
    (h : Linked r id base links) (flag : Bool) :
    Linked (r.markInterface id flag) id { base with interfaceFlag := some flag }
      links :=
  h.update (fun _ => rfl) fun _ => rfl

/-! ## Placing -/

theorem placeClass_eq (r : TypeRepository) (id : TypeId) (facts : ClassFacts) :
    TypeContext.placeClass r id facts =
      (r.connectLinks id facts.stated).markInterface id
        facts.isInterface := by
  rw [TypeContext.placeClass, connectLinks, ClassFacts.stated, List.foldl_cons,
    List.foldl_map]

theorem placeArray_eq (r : TypeRepository) (id : TypeId) :
    TypeContext.placeArray r id = r.connectLinks id arrayLinks := rfl

theorem Spells.targets {edges : List Edge} {links : List Link}
    (h : Spells r edges links) :
    (edges.map Edge.target).filterMap r.type? = links.map Prod.snd := by
  induction h with
  | nil => rfl
  | cons hedge _ ih =>
      rw [List.map_cons, List.filterMap_cons_some hedge.2, ih, List.map_cons]

theorem Spells.head? {edges : List Edge} {links : List Link}
    (h : Spells r edges links) :
    (edges.head?.map Edge.target).toList.filterMap r.type? =
      (links.head?.map Prod.snd).toList := by
  cases h with
  | nil => rfl
  | cons hedge _ => exact List.filterMap_cons_some hedge.2

theorem Spells.superclass? {node : TypeNode} {links : List Link}
    (h : Spells r node.edges links) :
    node.superclass?.toList.filterMap r.type? = (superclassOf links).toList := by
  rw [TypeNode.superclass?, superclassOf, ← List.head?_filter,
    ← List.head?_filter]
  exact (h.filter (· == .superclass)).head?

theorem Spells.interfaces {node : TypeNode} {links : List Link}
    (h : Spells r node.edges links) :
    node.interfaces.filterMap r.type? = interfacesOf links :=
  (h.filter (· == .interface)).targets

/-- The links that an array gets from the edges of the class it is over. -/
def linksAbove (r : TypeRepository) (dimensions : Nat) (element : TypeNode) :
    List Link :=
  (TypeContext.arraysOver r dimensions element.superclass?.toList).map
      (fun type => (.superclass, type))
    ++ (TypeContext.arraysOver r dimensions element.interfaces).map
      (fun type => (.interface, type))
    ++ arrayLinks

theorem placeArrayOver_connectLinks (r : TypeRepository) (id : TypeId)
    (dimensions : Nat) (element : TypeNode) :
    TypeContext.placeArrayOver r id dimensions element =
      r.connectLinks id (r.linksAbove dimensions element) := by
  rw [TypeContext.placeArrayOver, placeArray_eq, connectLinks, connectLinks,
    linksAbove, List.foldl_append, List.foldl_append, List.foldl_map,
    List.foldl_map]

theorem placeArrayOver_eq {element : TypeNode} {links : List Link}
    (h : Spells r element.edges links) (id : TypeId) (dimensions : Nat) :
    TypeContext.placeArrayOver r id dimensions element =
      r.connectLinks id (statedOver dimensions links) := by
  rw [placeArrayOver_connectLinks, linksAbove, TypeContext.arraysOver,
    TypeContext.arraysOver, h.superclass?, h.interfaces, statedOver, List.map_map,
    List.map_map]
  rfl

end ClassAudit.TypeRepository
