import ClassAudit.Proofs.ResolvedOnce

/-!
# Every search upwards ends

A search holds new types while it runs, so the types that are there when it starts do
not bound the number of its turns. What does is where new types come from. A class is
placed by names that the table mentions, and an array by arrays over what is above
its element, or by one of three types that every repository knows about. So an element
is one that was held at the start or one of finitely many others. And no edge leads
to a type with more dimensions than the type it comes from, so going up from a type
never needs more dimensions than it has.

The second half is where links by hand come in. A link from a class to an array would
let an array over the class climb: over the class there is an array of arrays, over
that one an array of arrays of arrays, and the search would not end. Between classes a
link adds no dimension, and `Level` holds of every repository that was made with such
links only, whoever answered the questions on the way. Cycles need no thought at all,
since a type that was reached is not put on the queue again.

The fuel that a search is given is no part of this. One turn of the loop is a relation
between searches, and the statement is that there is no endless chain of turns. That
the fuel is never what stops a search comes out as a second fact.
-/

namespace ClassAudit

open Relation TypeRepository

/-! ## Edges that add no dimension -/

/-- An added edge is one of the edges. -/
theorem mem_addEdge {edges : List Edge} {edge other : Edge}
    (h : other ∈ addEdge edges edge) : other ∈ edges ∨ other = edge := by
  have hadd {kept : List Edge} (hkept : ∀ e ∈ kept, e ∈ edges)
      (hmem : other ∈ if kept.contains edge then kept else kept ++ [edge]) :
      other ∈ edges ∨ other = edge := by
    split at hmem
    · exact .inl (hkept other hmem)
    · rcases List.mem_append.1 hmem with hmem | hmem
      · exact .inl (hkept other hmem)
      · exact .inr (List.mem_singleton.1 hmem)
  unfold addEdge at h
  dsimp only at h
  by_cases hkind : edge.kind = .superclass
  · rw [if_pos hkind] at h
    exact hadd (fun e he => List.mem_of_mem_filter he) h
  · rw [if_neg hkind] at h
    exact hadd (fun e he => he) h

namespace TypeRepository

/-- All elements are among some, and every edge leads to a type that is held and has no
more dimensions than the type it comes from. -/
structure Level (allowed : ElementType → Prop) (r : TypeRepository) : Prop where
  distinct : r.Distinct
  elements : ∀ id type, r.type? id = some type → allowed type.element
  edges : ∀ id node, r.node? id = some node → ∀ edge ∈ node.edges,
    ∃ type, r.type? edge.target = some type ∧ type.dimensions ≤ node.type.dimensions

variable {allowed : ElementType → Prop} {r : TypeRepository} {id : TypeId}
  {type : JavaType}

theorem Level.hold (h : r.Level allowed) (htype : allowed type.element) :
    (r.hold type).2.Level allowed where
  distinct := hold_distinct h.distinct
  elements := by
    intro j other hj
    obtain ⟨node, hnode, rfl⟩ := type?_eq_some.1 hj
    unfold TypeRepository.hold at hnode
    split at hnode
    · exact h.elements j _ (type?_of_node? hnode)
    · rw [node?_push] at hnode
      split at hnode
      · cases hnode
        exact htype
      · exact h.elements j _ (type?_of_node? hnode)
  edges := by
    intro j node hnode edge hedge
    rcases hold_added hnode with hold | ⟨hfresh, _⟩
    · obtain ⟨target, htarget, hle⟩ := h.edges j node hold edge hedge
      exact ⟨target, (hold_grows j r type).types _ _ htarget, hle⟩
    · rw [hfresh] at hedge
      cases hedge

theorem Level.intern (h : r.Level allowed) (htype : allowed type.element) :
    (r.intern type).2.Level allowed := by
  unfold TypeRepository.intern
  split
  · exact h.hold htype
  · have helement : (r.hold ⟨0, type.element⟩).2.Level allowed := h.hold htype
    exact helement.hold htype

theorem Level.update (h : r.Level allowed) (id : TypeId)
    {change : TypeNode → TypeNode} (htypes : ∀ node, (change node).type = node.type)
    (hedges : ∀ node, r.node? id = some node → ∀ edge ∈ (change node).edges,
      ∃ type, r.type? edge.target = some type ∧
        type.dimensions ≤ node.type.dimensions) :
    (r.update id change).Level allowed where
  distinct := (grows_update id r htypes).distinct h.distinct
  elements := by
    intro j other hj
    rw [type?_update r id j htypes] at hj
    exact h.elements j other hj
  edges := by
    intro j node hj edge hedge
    rw [type?_update r id _ htypes]
    rw [node?_update] at hj
    split at hj
    · next hid =>
        obtain ⟨old, hold, rfl⟩ := Option.map_eq_some_iff.1 hj
        rw [htypes]
        exact hedges old (hid ▸ hold) edge hedge
    · exact h.edges j node hj edge hedge

/-- What is noted beside a type does not matter. -/
theorem Level.note (h : r.Level allowed) (id : TypeId)
    {change : TypeNode → TypeNode} (htypes : ∀ node, (change node).type = node.type)
    (hedges : ∀ node, (change node).edges = node.edges) :
    (r.update id change).Level allowed := by
  refine h.update id htypes fun node hnode edge hedge => ?_
  rw [hedges] at hedge
  exact h.edges id node hnode edge hedge

theorem Level.connect (h : r.Level allowed) (hid : r.type? id = some type)
    {edge : Edge} {target : JavaType} (htarget : r.type? edge.target = some target)
    (hle : target.dimensions ≤ type.dimensions) :
    (r.connect id edge).Level allowed := by
  refine h.update id (fun _ => rfl) fun node hnode other hother => ?_
  rcases mem_addEdge hother with hother | rfl
  · exact h.edges id node hnode other hother
  · rw [type?_of_node? hnode] at hid
    cases hid
    exact ⟨target, htarget, hle⟩

theorem Level.connectLinks (h : r.Level allowed) (hid : r.type? id = some type)
    {links : List Link} (hlinks : ∀ link ∈ links,
      allowed link.2.element ∧ link.2.dimensions ≤ type.dimensions) :
    (r.connectLinks id links).Level allowed := by
  induction links generalizing r with
  | nil => exact h
  | cons link rest ih =>
      obtain ⟨helement, hle⟩ := hlinks link List.mem_cons_self
      refine ih ?_ ((connectTo_grows r id link.1 link.2).types id type hid)
        fun other hother => hlinks other (List.mem_cons_of_mem _ hother)
      show (r.connectTo id link.1 link.2).Level allowed
      rw [connectTo_eq]
      exact (h.intern helement).connect ((intern_grows id r link.2).types id type hid)
        (intern_type? r link.2) hle

theorem level_initial (hobject : allowed JavaType.object.element) :
    initial.Level allowed := by
  have hnode : ∀ id node, initial.node? id = some node →
      node.type = .object ∧ node.edges = [] := by
    intro id node h
    cases id with
    | zero =>
        cases h
        exact ⟨rfl, rfl⟩
    | succ n => cases h
  constructor
  · exact kept_initial.distinct
  · intro id type h
    obtain ⟨node, hid, rfl⟩ := type?_eq_some.1 h
    rw [(hnode id node hid).1]
    exact hobject
  · intro id node h edge hedge
    rw [(hnode id node h).2] at hedge
    cases hedge

/-- Over the class at a node there are arrays with no more dimensions than its own. -/
theorem Level.linksAbove (h : r.Level allowed) {node : TypeNode}
    (hnode : r.node? id = some node) (hflat : node.type.dimensions = 0)
    {dimensions : Nat} (hroots : ∀ link ∈ arrayLinks,
      allowed link.2.element ∧ link.2.dimensions ≤ dimensions)
    {link : Link} (hlink : link ∈ r.linksAbove dimensions node) :
    allowed link.2.element ∧ link.2.dimensions ≤ dimensions := by
  have hover {targets : List TypeId}
      (htargets : ∀ target ∈ targets, ∃ edge ∈ node.edges, edge.target = target)
      {above : JavaType}
      (habove : above ∈ TypeContext.arraysOver r dimensions targets) :
      allowed above.element ∧ above.dimensions ≤ dimensions := by
    obtain ⟨type, htype, rfl⟩ := List.mem_map.1 habove
    obtain ⟨target, htarget, hheld⟩ := List.mem_filterMap.1 htype
    obtain ⟨edge, hedge, rfl⟩ := htargets target htarget
    obtain ⟨other, hother, hle⟩ := h.edges id node hnode edge hedge
    obtain rfl : type = other := Option.some.inj (hheld.symm.trans hother)
    have helement : allowed type.element := h.elements edge.target type hheld
    refine ⟨helement, ?_⟩
    show dimensions + type.dimensions ≤ dimensions
    omega
  rcases List.mem_append.1 hlink with hlink | hlink
  · rcases List.mem_append.1 hlink with hlink | hlink
    · obtain ⟨above, habove, rfl⟩ := List.mem_map.1 hlink
      refine hover ?_ habove
      intro target htarget
      obtain ⟨edge, hedge, rfl⟩ :=
        Option.map_eq_some_iff.1 (Option.mem_toList.1 htarget)
      exact ⟨edge, List.mem_of_find?_eq_some hedge, rfl⟩
    · obtain ⟨above, habove, rfl⟩ := List.mem_map.1 hlink
      refine hover ?_ habove
      intro target htarget
      obtain ⟨edge, hedge, rfl⟩ := List.mem_map.1 htarget
      exact ⟨edge, List.mem_of_mem_filter hedge, rfl⟩
  · exact hroots link hlink

end TypeRepository

/-! ## Placing types -/

theorem ClassFacts.stated_flat (facts : ClassFacts) :
    ∀ link ∈ facts.stated, link.2.dimensions = 0 := by
  intro link hlink
  rcases List.mem_cons.1 hlink with rfl | hlink
  · cases facts.superclass with
    | none => rfl
    | some name => rfl
  · obtain ⟨name, _, rfl⟩ := List.mem_map.1 hlink
    rfl

namespace TypeContext

variable {σ : Type}

/-- A level repository, with a condition on the source that goes with it. -/
structure Levelled (p : σ → Prop) (allowed : ElementType → Prop)
    (c : TypeContext σ) : Prop where
  source : p c.source
  level : c.repository.Level allowed

variable {p : σ → Prop} {allowed : ElementType → Prop} {c : TypeContext σ}
  {id : TypeId}

theorem Levelled.settle (h : c.Levelled p allowed) (id : TypeId) (type : JavaType)
    (outcome : Except ClassNotFound Unit) :
    (c.settle id type outcome).2.Levelled p allowed := by
  cases outcome with
  | ok => exact ⟨h.source, h.level.note id (fun _ => rfl) fun _ => rfl⟩
  | error cause => exact ⟨h.source, h.level.note id (fun _ => rfl) fun _ => rfl⟩

theorem Levelled.intern (h : c.Levelled p allowed) {type : JavaType}
    (htype : allowed type.element) : (c.intern type).2.Levelled p allowed :=
  ⟨h.source, h.level.intern htype⟩

variable [ClassSource σ]

/-- Some elements that a source does not lead out of. The condition on the source has
to outlast the questions. -/
structure Confines (p : σ → Prop) (allowed : ElementType → Prop) : Prop where
  roots : ∀ type ∈ [JavaType.object, .serializable, .cloneable], allowed type.element
  asked : ∀ source name, p source → p (ClassSource.ask source name).2
  answers : ∀ source name facts, p source →
    (ClassSource.ask source name).1 = some facts →
    ∀ link ∈ facts.stated, allowed link.2.element

theorem Confines.arrayLinks (hp : Confines p allowed) (dimensions : Nat) :
    ∀ link ∈ ClassAudit.arrayLinks,
      allowed link.2.element ∧ link.2.dimensions ≤ dimensions := by
  intro link hlink
  rcases mem_arrayLinks.1 (List.mem_map_of_mem hlink) with htype | htype
  · rw [htype]
    exact ⟨hp.roots .serializable (by simp), Nat.zero_le dimensions⟩
  · rw [htype]
    exact ⟨hp.roots .cloneable (by simp), Nat.zero_le dimensions⟩

theorem Levelled.askClass (hp : Confines p allowed) (h : c.Levelled p allowed)
    {type : JavaType} (hid : c.repository.type? id = some type) (name : String) :
    (c.askClass id name).2.Levelled p allowed := by
  have hsource := hp.asked c.source name h.source
  have hanswers := hp.answers c.source name
  unfold TypeContext.askClass
  split
  · next facts source hask =>
      rw [hask] at hsource hanswers
      refine ⟨hsource, ?_⟩
      show (placeClass c.repository id facts).Level allowed
      rw [placeClass_eq]
      refine Level.note ?_ id (fun _ => rfl) fun _ => rfl
      refine h.level.connectLinks hid fun link hlink => ?_
      rw [facts.stated_flat link hlink]
      exact ⟨hanswers facts h.source rfl link hlink, Nat.zero_le _⟩
  · next source hask =>
      rw [hask] at hsource
      exact ⟨hsource, h.level⟩

theorem Levelled.resolveClass (hp : Confines p allowed) (h : c.Levelled p allowed)
    {type : JavaType} (hid : c.repository.type? id = some type) (name : String) :
    (c.resolveClass id name).2.Levelled p allowed := by
  unfold TypeContext.resolveClass
  split
  · exact h
  · exact h
  · exact h
  · exact (h.askClass hp hid name).settle id _ _

theorem Levelled.deriveArray (hp : Confines p allowed) (h : c.Levelled p allowed)
    {type : JavaType} (hid : c.repository.type? id = some type) {name : String}
    (helement : type.element = .named name) :
    (c.deriveArray id type.dimensions name).2.Levelled p allowed := by
  have hnamed : allowed (.named name) := by
    rw [← helement]
    exact h.level.elements id type hid
  have hheld : (c.intern (.named name)).2.Levelled p allowed := h.intern hnamed
  have helement? : (c.intern (.named name)).2.repository.type?
      (c.intern (.named name)).1 = some (.named name) :=
    intern_type? c.repository (.named name)
  have hclass := hheld.resolveClass hp helement? name
  have hedits := edits_resolveClass (c.intern (.named name)).2
    (c.intern (.named name)).1 name
  have hinterned : (c.intern (.named name)).2.repository.type? id = some type :=
    (intern_grows id c.repository (.named name)).types id type hid
  have hid' := hedits.edits.types hinterned
  have helement' := hedits.edits.types helement?
  unfold TypeContext.deriveArray
  dsimp only
  split
  · next hresult =>
      rw [hresult] at hclass
      exact hclass
  · next hresult =>
      rw [hresult] at hclass hid' helement'
      split
      · exact hclass
      · next node hnode =>
          refine ⟨hclass.source, ?_⟩
          show (placeArrayOver _ id type.dimensions node).Level allowed
          rw [placeArrayOver_connectLinks]
          refine hclass.level.connectLinks hid' fun link hlink => ?_
          have hflat : node.type.dimensions = 0 := by
            rw [type?_of_node? hnode] at helement'
            rw [Option.some.inj helement']
            rfl
          exact hclass.level.linksAbove hnode hflat (hp.arrayLinks _) hlink

theorem Levelled.resolveArray (hp : Confines p allowed) (h : c.Levelled p allowed)
    {type : JavaType} (hid : c.repository.type? id = some type) :
    (c.resolveArray id type).2.Levelled p allowed := by
  have hbelow {superclass : JavaType} (helement : allowed superclass.element)
      (hle : superclass.dimensions ≤ type.dimensions) :
      (c.withRepository (·.connectLinks id
        ((.superclass, superclass) :: arrayLinks))).Levelled p allowed := by
    refine ⟨h.source, h.level.connectLinks hid fun link hlink => ?_⟩
    rcases List.mem_cons.1 hlink with rfl | hlink
    · exact ⟨helement, hle⟩
    · exact hp.arrayLinks _ link hlink
  unfold TypeContext.resolveArray
  dsimp only
  split
  · exact hbelow (hp.roots .object (by simp)) (Nat.zero_le _)
  · next name helement =>
      split
      · exact hbelow (h.level.elements id type hid) (Nat.sub_le _ _)
      · exact h.deriveArray hp hid helement

theorem Levelled.resolve (hp : Confines p allowed) (h : c.Levelled p allowed)
    (id : TypeId) : (c.resolve id).2.Levelled p allowed := by
  unfold TypeContext.resolve
  split
  · exact h
  · next node hnode =>
      have hid := type?_of_node? hnode
      split
      · exact h
      · exact h
      · split
        · exact h.settle id _ _
        · exact h.resolveClass hp hid _
        · exact (h.resolveArray hp hid).settle id _ _

theorem Levelled.isSubtype (hp : Confines p allowed) (h : c.Levelled p allowed)
    (sub super : TypeId) : (c.isSubtype sub super).2.Levelled p allowed := by
  unfold TypeContext.isSubtype
  split
  · exact h
  · have hsearch : (c.searchAncestors sub).context.Levelled p allowed :=
      Search.run_keeps (fun _ id hc => hc.resolve hp id) _ _ h
    exact ⟨hsearch.source, hsearch.level.note sub (fun _ => rfl) fun _ => rfl⟩

end TypeContext

/-! ## Repositories with links between classes -/

/-- Whether an operation links nothing but classes. -/
def Operation.JoinsClasses (r : TypeRepository) : Operation → Prop
  | link sub _ super =>
    (∃ name, r.type? sub = some (.named name)) ∧
      ∃ name, r.type? super = some (.named name)
  | _ => True

namespace TypeContext

variable {σ : Type} [ClassSource σ]

/-- A context in which any operations were performed, each with a source of its own,
and no links were stated but between classes. -/
inductive ClassLinked : TypeContext σ → Prop
  | start (source : σ) : ClassLinked (.ofSource source)
  | perform {c : TypeContext σ} (h : ClassLinked c) (source : σ)
      (operation : Operation) (hjoins : operation.JoinsClasses c.repository) :
      ClassLinked ({ c with source }.perform operation)

theorem confines_any : Confines (fun _ : σ => True) fun _ => True :=
  ⟨fun _ _ => trivial, fun _ _ _ => trivial, fun _ _ _ _ _ _ _ => trivial⟩

theorem level_perform {c : TypeContext σ}
    (h : c.Levelled (fun _ => True) fun _ => True) {operation : Operation}
    (hjoins : operation.JoinsClasses c.repository) :
    (c.perform operation).Levelled (fun _ => True) fun _ => True := by
  refine perform_cases h (fun type => h.intern trivial) ?_ ?_
    (h.resolve confines_any) (h.isSubtype confines_any)
  · rintro sub kind super rfl
    obtain ⟨⟨name, hsub⟩, other, hsuper⟩ := hjoins
    have hconnect : (c.repository.connect sub ⟨kind, super⟩).Level fun _ => True :=
      h.level.connect hsub hsuper (Nat.le_refl 0)
    exact ⟨trivial, hconnect.note sub (fun _ => rfl) fun _ => rfl⟩
  · rintro id flag rfl
    exact ⟨trivial, h.level.note id (fun _ => rfl) fun _ => rfl⟩

theorem ClassLinked.level {c : TypeContext σ} (h : ClassLinked c) :
    c.repository.Level fun _ => True := by
  induction h with
  | start source => exact level_initial trivial
  | @perform c _ source operation hjoins ih =>
      exact (level_perform (c := { c with source }) ⟨trivial, ih⟩ hjoins).level

end TypeContext

/-! ## Turns -/

namespace Search

variable {σ : Type} [ClassSource σ]

/-- One turn of a search: the type at the front of the queue is visited. -/
def Turn (search next : Search σ) : Prop :=
  ∃ id rest, search.queue = id :: rest ∧ next = search.visit id rest

/-- A run makes turns and nothing else. -/
theorem run_turns (fuel : Nat) (search : Search σ) :
    ReflTransGen Turn search (search.run fuel) := by
  induction fuel generalizing search with
  | zero => exact .refl
  | succ fuel ih =>
      unfold run
      split
      · exact .refl
      · next id rest hqueue =>
          exact .head ⟨id, rest, hqueue, rfl⟩ (ih (search.visit id rest))

/-- Where visits are bounded there is no endless chain of turns: each takes one from
the types that wait and those not reached yet. -/
theorem Bounded.acc {p : Search σ → Prop} {bound : Nat} (hp : Bounded p bound)
    {search : Search σ} (h : p search) :
    Acc (fun next search => Turn search next) search := by
  generalize hleft : search.queue.length + bound - search.found.reached.length = left
  induction left using Nat.strong_induction_on generalizing search with
  | _ left ih =>
      constructor
      intro next ⟨id, rest, hqueue, hnext⟩
      subst hnext
      obtain ⟨hvisit, hcount⟩ := hp.visit search id rest h hqueue
      have hreached := hp.reached _ hvisit
      rw [hqueue, List.length_cons] at hleft
      exact ih _ (by omega) hvisit rfl

/-- What a visit adds to the queue is what it adds to the types reached, and it stands
at the end of an edge from the type that is visited. -/
theorem visit_added (search : Search σ) (id : TypeId) (rest : List TypeId) :
    ∃ added : List TypeId,
      (search.visit id rest).queue = rest ++ added ∧
      (search.visit id rest).found.reached = search.found.reached ++ added ∧
      (∀ target ∈ added, ∃ node,
        (search.visit id rest).context.repository.node? id = some node ∧
          ∃ edge ∈ node.edges, edge.target = target) ∧
      (search.found.reached.Nodup → (search.found.reached ++ added).Nodup) := by
  unfold visit
  cases hresult : search.context.resolve id with
  | mk outcome c' =>
      cases outcome with
      | error cause =>
          obtain ⟨missing, hmiss, _⟩ := miss_eq ⟨c', rest, search.found⟩ cause.name
          dsimp only
          rw [hmiss]
          exact ⟨[], by simp, by simp, by simp, by simp⟩
      | ok =>
          dsimp only
          generalize htargets : ((c'.repository.node? id).elim []
            fun node => node.edges.map Edge.target) = targets
          obtain ⟨added, hqueue, hreached, hfrom, _, hnodup⟩ :=
            foldl_reach_added ⟨c', rest, search.found⟩ targets
          refine ⟨added, hqueue, hreached, fun target htarget => ?_, hnodup⟩
          have hmem := hfrom target htarget
          rw [foldl_reach_context]
          rw [← htargets] at hmem
          cases hnode : c'.repository.node? id with
          | none =>
              rw [hnode] at hmem
              cases hmem
          | some node =>
              rw [hnode] at hmem
              exact ⟨node, rfl, List.mem_map.1 hmem⟩

/-- What holds at every moment of a search among some elements and below a number of
dimensions. -/
structure Contained (p : σ → Prop) (elements : List ElementType) (depth : Nat)
    (search : Search σ) : Prop where
  context : search.context.Levelled p (· ∈ elements)
  reached : ∀ id ∈ search.found.reached, ∃ type,
    search.context.repository.type? id = some type ∧ type.dimensions ≤ depth
  nodup : search.found.reached.Nodup
  waiting : ∀ id ∈ search.queue, id ∈ search.found.reached

variable {p : σ → Prop} {elements : List ElementType} {depth : Nat}

theorem Contained.visit (hp : TypeContext.Confines p (· ∈ elements))
    {search : Search σ} (h : search.Contained p elements depth) {id : TypeId}
    {rest : List TypeId} (hqueue : search.queue = id :: rest) :
    (search.visit id rest).Contained p elements depth := by
  obtain ⟨added, hadded, hreached, hfrom, hnodup⟩ := visit_added search id rest
  have hwaiting := h.waiting
  rw [hqueue] at hwaiting
  have hcontext : (search.visit id rest).context.Levelled p (· ∈ elements) := by
    rw [visit_context]
    exact h.context.resolve hp id
  have hold : ∀ j ∈ search.found.reached, ∃ type,
      (search.visit id rest).context.repository.type? j = some type ∧
        type.dimensions ≤ depth := by
    intro j hj
    obtain ⟨type, htype, hle⟩ := h.reached j hj
    rw [visit_context]
    exact ⟨type, (TypeContext.edits_resolve search.context id).types htype, hle⟩
  constructor
  · exact hcontext
  · intro j hj
    rw [hreached] at hj
    rcases List.mem_append.1 hj with hj | hj
    · exact hold j hj
    · obtain ⟨node, hnode, edge, hedge, rfl⟩ := hfrom j hj
      obtain ⟨type, htype, hle⟩ := hcontext.level.edges id node hnode edge hedge
      obtain ⟨visited, hvisited, hdepth⟩ := hold id (hwaiting id List.mem_cons_self)
      rw [type?_of_node? hnode] at hvisited
      obtain rfl := Option.some.inj hvisited
      exact ⟨type, htype, hle.trans hdepth⟩
  · rw [hreached]
    exact hnodup h.nodup
  · intro j hj
    rw [hadded] at hj
    rw [hreached]
    rcases List.mem_append.1 hj with hj | hj
    · exact List.mem_append_left _ (hwaiting j (List.mem_cons_of_mem _ hj))
    · exact List.mem_append_right _ hj

theorem bounded_contained (hp : TypeContext.Confines p (· ∈ elements)) :
    Bounded (Contained p elements depth) (typesWithin elements depth).length := by
  constructor
  · intro search id rest h hqueue
    refine ⟨h.visit hp hqueue, ?_⟩
    obtain ⟨added, hadded, hreached, _⟩ := visit_added search id rest
    rw [hadded, hreached, List.length_append, List.length_append]
    omega
  · intro search h
    refine h.context.level.distinct.length_le h.nodup fun id hid => ?_
    obtain ⟨type, htype, hle⟩ := h.reached id hid
    have helement := h.context.level.elements id type htype
    exact ⟨type, mem_typesWithin.2 ⟨helement, hle⟩, htype⟩

end Search

/-! ## Tables -/

/-- The elements that a search can come across: those held already, those that a table
mentions, and those above every array. -/
def TypeRepository.elementsWith (r : TypeRepository) (table : Classpath) :
    List ElementType :=
  r.nodes.toList.map (·.type.element) ++
    ([JavaType.object, .serializable, .cloneable].map JavaType.element ++
      table.mentioned.map .named)

theorem TypeRepository.length_elementsWith (r : TypeRepository) (table : Classpath) :
    (r.elementsWith table).length = r.size + (table.mentioned.length + 3) := by
  simp [elementsWith, size]

theorem TypeRepository.mem_elementsWith {r : TypeRepository} {id : TypeId}
    {type : JavaType} (h : r.type? id = some type) (table : Classpath) :
    type.element ∈ r.elementsWith table := by
  obtain ⟨node, hnode, rfl⟩ := type?_eq_some.1 h
  have hmem : node ∈ r.nodes := Array.mem_of_getElem? hnode
  exact List.mem_append_left _ (List.mem_map_of_mem hmem.val)

/-- A table leads to what it mentions, however often it was asked. -/
theorem confines_table (r : TypeRepository) (table : Classpath) :
    TypeContext.Confines (fun source : Classpath => source.classes = table.classes)
      (· ∈ r.elementsWith table) where
  roots := by
    intro type htype
    exact List.mem_append_right _ (List.mem_append_left _ (List.mem_map_of_mem htype))
  asked := fun _ _ hsource => hsource
  answers := by
    intro source name facts hsource hask link hlink
    have hfind : table.find? name = some facts := by
      rw [Classpath.find?, ← hsource]
      exact hask
    have hmentioned {other : String} (hother : other ∈ table.mentioned) :
        .named other ∈ r.elementsWith table :=
      List.mem_append_right _ (List.mem_append_right _ (List.mem_map_of_mem hother))
    rcases List.mem_cons.1 hlink with rfl | hlink
    · cases hsuper : facts.superclass with
      | none => simp [TypeRepository.elementsWith]
      | some super => exact hmentioned (table.superclass_mentioned hfind hsuper)
    · obtain ⟨interface, hinterface, rfl⟩ := List.mem_map.1 hlink
      exact hmentioned (table.interface_mentioned hfind hinterface)

/-- Whatever was held, asked and linked before, as long as links were between classes
only: with any table, a search from any type that is held makes no endless chain of
turns. What is returned is where the turns end, with nothing left to look at. -/
theorem search_terminates {σ : Type} [ClassSource σ] {c : TypeContext σ}
    (hc : c.ClassLinked) (table : Classpath) (log : Array Event) {start : TypeId}
    {type : JavaType} (hstart : c.repository.type? start = some type) :
    let context : TypeContext Classpath := ⟨c.repository, table, log⟩
    let first : Search Classpath := ⟨context, [start], ⟨[start], []⟩⟩
    Acc (fun next search => Search.Turn search next) first ∧
      ReflTransGen Search.Turn first (context.searchAncestors start) ∧
      (context.searchAncestors start).queue = [] := by
  intro context first
  have hlevel := hc.level
  have hbounded : Search.Bounded (Search.Contained
      (fun source : Classpath => source.classes = table.classes)
      (c.repository.elementsWith table) type.dimensions) _ :=
    Search.bounded_contained (confines_table c.repository table)
  have hfirst : first.Contained (fun source => source.classes = table.classes)
      (c.repository.elementsWith table) type.dimensions := by
    refine ⟨⟨rfl, hlevel.distinct, fun id other h => mem_elementsWith h table,
      hlevel.edges⟩, ?_, List.nodup_singleton start, fun id hid => hid⟩
    intro id hid
    rw [List.mem_singleton.1 hid]
    exact ⟨type, hstart, Nat.le_refl _⟩
  have hfuel : (typesWithin (c.repository.elementsWith table) type.dimensions).length ≤
      context.searchBudget := by
    rw [length_typesWithin, length_elementsWith]
    refine TypeContext.mul_le_searchBudget ?_ hstart
    have hmentioned : table.mentioned.length ≤ ClassSource.mentions context.source :=
      Classpath.length_mentioned_le
    show c.repository.size + _ ≤
      ClassSource.mentions context.source + c.repository.size + 3
    omega
  refine ⟨hbounded.acc hfirst, Search.run_turns _ first, ?_⟩
  refine (hbounded.run_empties hfirst ?_).2
  simp only [first, List.length_singleton]
  omega

/-- A class that is linked by hand to one that the table puts below it, and arrays of
arrays over it. -/
def looped : TypeContext Classpath :=
  let context := TypeContext.ofSource Classpath.empty
  let context := context.perform (.request (.signature "[[LLoop;"))
  let context := context.perform (.request (.named "Dog"))
  context.perform (.link 1 .superclass 3)

theorem looped_classLinked : looped.ClassLinked := by
  have hloop := TypeContext.ClassLinked.perform (.start Classpath.empty) .empty
    (.request (.signature "[[LLoop;")) trivial
  have hdog := hloop.perform .empty (.request (.named "Dog")) trivial
  refine hdog.perform .empty (.link 1 .superclass 3) ⟨⟨"Loop", ?_⟩, ⟨"Dog", ?_⟩⟩
  · decide +kernel
  · decide +kernel

/-- Dogs are loops and loops are dogs, so neither comes to an end by itself. -/
theorem search_terminates_looped :
    let table : Classpath := ⟨[("Dog", ⟨some "Loop", ["Dog"], false⟩)], 0⟩
    let context : TypeContext Classpath := ⟨looped.repository, table, #[]⟩
    looped.ClassLinked ∧
    looped.repository.type? 2 = some (.array 2 (.named "Loop")) ∧
    Acc (fun next search => Search.Turn search next)
      (⟨context, [2], ⟨[2], []⟩⟩ : Search Classpath) ∧
    (context.searchAncestors 2).queue = [] ∧
    (context.searchAncestors 2).found.reached = [2, 4, 5, 6] := by
  intro table context
  have hstart : looped.repository.type? 2 = some (.array 2 (.named "Loop")) := by
    decide +kernel
  obtain ⟨hacc, _, hdone⟩ := search_terminates looped_classLinked table #[] hstart
  exact ⟨looped_classLinked, hstart, hacc, hdone, by decide +kernel⟩

end ClassAudit
