import ClassAudit.Proofs.Resolution
import Mathlib.Data.List.Nodup
import Mathlib.Data.List.Perm.Subperm

/-!
# The search finds every ancestor

A search goes up breadth first and holds new types on the way. Its invariant has
two halves. Nothing is reached that is not above the start, and whatever was
reached and is no longer waiting has been looked at: all its supertypes were
reached too, or the class that hides them was noted as missing.

When nothing waits any more, the types reached are closed under going up, so they
are all the ancestors. That this happens before the fuel runs out is a count. A
visit takes one type off the queue and puts on only types that are new, so the
number of types that wait plus the number of those not reached yet goes down by
one each time; and there are only finitely many types to reach.
-/

namespace ClassAudit

open TypeRepository

/-- Positions are no more than the types that stand there. -/
theorem TypeRepository.Distinct.length_le {r : TypeRepository} (h : r.Distinct)
    {ids : List TypeId} (hids : ids.Nodup) {types : List JavaType}
    (hheld : ∀ id ∈ ids, ∃ type ∈ types, r.type? id = some type) :
    ids.length ≤ types.length := by
  have hsub : ids.map r.type? ⊆ types.map some := by
    intro type? htype?
    obtain ⟨id, hid, rfl⟩ := List.mem_map.1 htype?
    obtain ⟨type, hmem, htype⟩ := hheld id hid
    rw [htype]
    exact List.mem_map_of_mem hmem
  have hnodup : (ids.map r.type?).Nodup := by
    refine hids.map_on fun i hi j _ heq => ?_
    obtain ⟨type, _, htype⟩ := hheld i hi
    exact h i j type htype (heq ▸ htype)
  have hle := (hnodup.subperm hsub).length_le
  rwa [List.length_map, List.length_map] at hle

/-- It has been tried to place the type at this position. -/
def TypeRepository.Tried (r : TypeRepository) (id : TypeId) : Prop :=
  ∃ node, r.node? id = some node ∧ node.resolution ≠ .unresolved

namespace Search

/-- What holds at every moment of a search that started at a type. -/
structure Invariant (table : Classpath) (start : JavaType)
    (search : Search Classpath) : Prop where
  source : search.context.source.classes = table.classes
  sound : search.context.repository.Sound table
  above : ∀ id ∈ search.found.reached, ∃ type,
    search.context.repository.type? id = some type ∧ Ancestor table start type
  started : ∃ id ∈ search.found.reached,
    search.context.repository.type? id = some start
  nodup : search.found.reached.Nodup
  waiting : ∀ id ∈ search.queue, id ∈ search.found.reached
  looked : ∀ id ∈ search.found.reached, id ∉ search.queue →
    ∃ node, search.context.repository.node? id = some node ∧
      ((node.resolution = .known ∧
          ∀ edge ∈ node.edges, edge.target ∈ search.found.reached) ∨
        ∃ cause, node.resolution = .failed cause ∧
          cause.name ∈ search.found.missing)
  missing : ∀ name ∈ search.found.missing, ∃ type, Ancestor table start type ∧
    table.links? type = none ∧ type.element = .named name

/-! ## Noting types -/

section Reach

variable {σ : Type} {search : Search σ} {target : TypeId}

theorem reach_of_mem (h : target ∈ search.found.reached) :
    search.reach target = search := by
  rw [reach, if_pos (by simpa using h)]

theorem reach_of_not_mem (h : target ∉ search.found.reached) :
    search.reach target =
      ⟨search.context, search.queue ++ [target],
        ⟨search.found.reached ++ [target], search.found.missing⟩⟩ := by
  rw [reach, if_neg (by simpa using h)]

theorem foldl_reach_context (search : Search σ) (targets : List TypeId) :
    (targets.foldl reach search).context = search.context := by
  induction targets generalizing search with
  | nil => rfl
  | cons target rest ih =>
      rw [List.foldl_cons, ih]
      unfold reach
      split <;> rfl

theorem foldl_reach_missing (search : Search σ) (targets : List TypeId) :
    (targets.foldl reach search).found.missing = search.found.missing := by
  induction targets generalizing search with
  | nil => rfl
  | cons target rest ih =>
      rw [List.foldl_cons, ih]
      unfold reach
      split <;> rfl

/-- The same new types go on the queue and among those reached. -/
theorem foldl_reach_added (search : Search σ) (targets : List TypeId) :
    ∃ added : List TypeId,
      (targets.foldl reach search).queue = search.queue ++ added ∧
      (targets.foldl reach search).found.reached =
        search.found.reached ++ added ∧
      (∀ id ∈ added, id ∈ targets) ∧
      (∀ id ∈ targets, id ∈ search.found.reached ++ added) ∧
      (search.found.reached.Nodup → (search.found.reached ++ added).Nodup) := by
  induction targets generalizing search with
  | nil => exact ⟨[], by simp, by simp, by simp, by simp, by simp⟩
  | cons target rest ih =>
      rw [List.foldl_cons]
      by_cases hheld : target ∈ search.found.reached
      · rw [reach_of_mem hheld]
        obtain ⟨added, hqueue, hreached, hfrom, hall, hnodup⟩ := ih search
        refine ⟨added, hqueue, hreached, ?_, ?_, hnodup⟩
        · exact fun id hid => List.mem_cons_of_mem _ (hfrom id hid)
        · intro id hid
          rcases List.mem_cons.1 hid with rfl | hid
          · exact List.mem_append_left _ hheld
          · exact hall id hid
      · rw [reach_of_not_mem hheld]
        obtain ⟨added, hqueue, hreached, hfrom, hall, hnodup⟩ :=
          ih ⟨search.context, search.queue ++ [target],
            ⟨search.found.reached ++ [target], search.found.missing⟩⟩
        simp only [List.append_assoc, List.singleton_append] at hqueue hreached
        simp only [List.append_assoc, List.singleton_append] at hall hnodup
        refine ⟨target :: added, hqueue, hreached, ?_, ?_, ?_⟩
        · intro id hid
          rcases List.mem_cons.1 hid with rfl | hid
          · exact List.mem_cons_self
          · exact List.mem_cons_of_mem _ (hfrom id hid)
        · intro id hid
          rcases List.mem_cons.1 hid with rfl | hid
          · simp
          · exact hall id hid
        · intro hnd
          refine hnodup (List.nodup_append'.2 ⟨hnd, List.nodup_singleton _, ?_⟩)
          simpa using hheld

end Reach

/-! ## One visit -/

section Visit

variable {search : Search Classpath} {c' : TypeContext Classpath} {id : TypeId}
  {rest : List TypeId}

theorem visit_error {cause : ClassNotFound}
    (h : search.context.resolve id = (.error cause, c')) :
    search.visit id rest =
      miss ⟨c', rest, search.found⟩ cause.name := by
  rw [visit, h]

theorem visit_ok {node : TypeNode}
    (h : search.context.resolve id = (.ok (), c'))
    (hnode : c'.repository.node? id = some node) :
    search.visit id rest =
      (node.edges.map Edge.target).foldl reach ⟨c', rest, search.found⟩ := by
  rw [visit, h]
  simp only [hnode]
  rfl

theorem miss_eq {σ : Type} (search : Search σ) (name : String) : ∃ missing,
    search.miss name =
      ⟨search.context, search.queue, ⟨search.found.reached, missing⟩⟩ ∧
    ∀ other, other ∈ missing ↔
      other ∈ search.found.missing ∨ other = name := by
  by_cases hheld : name ∈ search.found.missing
  · refine ⟨search.found.missing, ?_, fun other => ?_⟩
    · rw [miss, if_pos (by simpa using hheld)]
    · constructor
      · exact .inl
      · rintro (h | rfl)
        · exact h
        · exact hheld
  · refine ⟨search.found.missing ++ [name], ?_, fun other => by simp⟩
    rw [miss, if_neg (by simpa using hheld)]

/-- The edges of a known node lead to what is directly above it. -/
theorem directSupertype_of_edge {table : Classpath} {r : TypeRepository}
    {node : TypeNode} (hs : NodeSound table r node)
    (hknown : node.resolution = .known) {edge : Edge} (he : edge ∈ node.edges) :
    ∃ super, r.type? edge.target = some super ∧
      DirectSupertype table node.type super := by
  obtain ⟨_, links, hlinks, hspells⟩ := hs.known hknown
  obtain ⟨link, hlink, _, htarget⟩ := hspells.exists_link he
  exact ⟨link.2, htarget, directSupertype_iff.2
    ⟨links, hlinks, List.mem_map.2 ⟨link, hlink, rfl⟩⟩⟩

/-- Everything directly above a known node is at the end of an edge. -/
theorem edge_of_directSupertype {table : Classpath} {r : TypeRepository}
    {node : TypeNode} (hs : NodeSound table r node)
    (hknown : node.resolution = .known) {super : JavaType}
    (h : DirectSupertype table node.type super) :
    ∃ edge ∈ node.edges, r.type? edge.target = some super := by
  obtain ⟨_, links, hlinks, hspells⟩ := hs.known hknown
  obtain ⟨links', hlinks', hmem⟩ := directSupertype_iff.1 h
  cases hlinks.symm.trans hlinks'
  obtain ⟨link, hlink, rfl⟩ := List.mem_map.1 hmem
  obtain ⟨edge, hedge, _, htarget⟩ := hspells.exists_edge hlink
  exact ⟨edge, hedge, htarget⟩

/-- What a visit does to a search. -/
structure Visited (table : Classpath) (start : JavaType)
    (search next : Search Classpath) (rest : List TypeId) : Prop where
  invariant : Invariant table start next
  advances : Advances table search.context next.context
  count : next.queue.length + search.found.reached.length =
    rest.length + next.found.reached.length

variable {table : Classpath} {start : JavaType} {node : TypeNode}

/-- A type that was looked at before stays looked at. -/
theorem Invariant.looked_advances (h : Invariant table start search)
    (hadvances : Advances table search.context c') {j : TypeId}
    (hj : j ∈ search.found.reached) (hqueue : j ∉ search.queue) :
    ∃ node, c'.repository.node? j = some node ∧
      ((node.resolution = .known ∧
          ∀ edge ∈ node.edges, edge.target ∈ search.found.reached) ∨
        ∃ cause, node.resolution = .failed cause ∧
          cause.name ∈ search.found.missing) := by
  obtain ⟨node, hnode, hlooked⟩ := h.looked j hj hqueue
  refine ⟨node, hadvances.settled j node hnode ?_, hlooked⟩
  rcases hlooked with ⟨hknown, _⟩ | ⟨cause, hfailed, _⟩
  · rw [hknown]
    exact Resolution.noConfusion
  · rw [hfailed]
    exact Resolution.noConfusion

theorem Invariant.above_advances (h : Invariant table start search)
    (hadvances : Advances table search.context c') {j : TypeId}
    (hj : j ∈ search.found.reached) :
    ∃ type, c'.repository.type? j = some type ∧ Ancestor table start type := by
  obtain ⟨type, htype, habove⟩ := h.above j hj
  exact ⟨type, hadvances.types j type htype, habove⟩

theorem Invariant.started_advances (h : Invariant table start search)
    (hadvances : Advances table search.context c') :
    ∃ j ∈ search.found.reached, c'.repository.type? j = some start := by
  obtain ⟨j, hj, hstart⟩ := h.started
  exact ⟨j, hj, hadvances.types j start hstart⟩

/-- The type that is visited next was reached, and so were those behind it. -/
theorem Invariant.queue_reached (h : Invariant table start search)
    (hqueue : search.queue = id :: rest) :
    id ∈ search.found.reached ∧ ∀ j ∈ rest, j ∈ search.found.reached := by
  have hwaiting := h.waiting
  rw [hqueue] at hwaiting
  exact ⟨hwaiting id List.mem_cons_self,
    fun j hj => hwaiting j (List.mem_cons_of_mem _ hj)⟩

theorem not_mem_queue (hqueue : search.queue = id :: rest) {j : TypeId}
    (hne : j ≠ id) (hrest : j ∉ rest) : j ∉ search.queue := by
  rw [hqueue]
  exact fun hin => (List.mem_cons.1 hin).elim hne hrest

/-- The node that a visit places is above the start. -/
theorem Invariant.ancestor_visited (h : Invariant table start search)
    (hqueue : search.queue = id :: rest)
    (hadvances : Advances table search.context c')
    (hnode : c'.repository.node? id = some node) :
    Ancestor table start node.type := by
  obtain ⟨type, htype, habove⟩ :=
    h.above_advances hadvances (h.queue_reached hqueue).1
  rw [type?_of_node? hnode] at htype
  cases htype
  exact habove

theorem visited_error (h : Invariant table start search)
    (hqueue : search.queue = id :: rest)
    (hadvances : Advances table search.context c')
    (hnode : c'.repository.node? id = some node) {cause : ClassNotFound}
    (hfailed : node.resolution = .failed cause) :
    Visited table start search (miss ⟨c', rest, search.found⟩ cause.name)
      rest := by
  obtain ⟨missing, hmiss, hmem⟩ :=
    miss_eq ⟨c', rest, search.found⟩ cause.name
  rw [hmiss]
  refine ⟨⟨?_, hadvances.sound, fun j hj => h.above_advances hadvances hj,
    h.started_advances hadvances, h.nodup, (h.queue_reached hqueue).2, ?_, ?_⟩,
    hadvances, rfl⟩
  · exact hadvances.source.trans h.source
  · intro j hj hrest
    by_cases heq : j = id
    · subst heq
      exact ⟨node, hnode, .inr ⟨cause, hfailed, (hmem _).2 (.inr rfl)⟩⟩
    · obtain ⟨other, hother, hlooked⟩ :=
        h.looked_advances hadvances hj (not_mem_queue hqueue heq hrest)
      refine ⟨other, hother, hlooked.imp_right ?_⟩
      rintro ⟨cause', hfailed', hnoted⟩
      exact ⟨cause', hfailed', (hmem _).2 (.inl hnoted)⟩
  · intro name hname
    rcases (hmem name).1 hname with hnoted | rfl
    · exact h.missing name hnoted
    · obtain ⟨_, hlinks, helement⟩ :=
        (hadvances.sound.nodes id node hnode).failed cause hfailed
      exact ⟨node.type, h.ancestor_visited hqueue hadvances hnode, hlinks,
        helement⟩

theorem visited_ok (h : Invariant table start search)
    (hqueue : search.queue = id :: rest)
    (hadvances : Advances table search.context c')
    (hnode : c'.repository.node? id = some node)
    (hknown : node.resolution = .known) :
    Visited table start search
      ((node.edges.map Edge.target).foldl reach ⟨c', rest, search.found⟩)
      rest := by
  have hcontext := foldl_reach_context ⟨c', rest, search.found⟩
    (node.edges.map Edge.target)
  have hmissing := foldl_reach_missing ⟨c', rest, search.found⟩
    (node.edges.map Edge.target)
  obtain ⟨added, hadded, hreached, hfrom, hall, hnodup⟩ :=
    foldl_reach_added ⟨c', rest, search.found⟩ (node.edges.map Edge.target)
  have hnodeSound := hadvances.sound.nodes id node hnode
  generalize (node.edges.map Edge.target).foldl reach ⟨c', rest, search.found⟩ =
    next at *
  obtain ⟨context, queue, reached, missing⟩ := next
  dsimp only at hcontext hmissing hadded hreached
  subst hcontext hmissing hadded hreached
  refine ⟨⟨?_, hadvances.sound, ?_, ?_, hnodup h.nodup, ?_, ?_, h.missing⟩,
    hadvances, ?_⟩
  · exact hadvances.source.trans h.source
  · intro j hj
    rcases List.mem_append.1 hj with hj | hj
    · exact h.above_advances hadvances hj
    · obtain ⟨edge, hedge, rfl⟩ := List.mem_map.1 (hfrom j hj)
      obtain ⟨super, hsuper, hdirect⟩ :=
        directSupertype_of_edge hnodeSound hknown hedge
      have habove := h.ancestor_visited hqueue hadvances hnode
      exact ⟨super, hsuper, habove.tail hdirect⟩
  · obtain ⟨j, hj, hstart⟩ := h.started_advances hadvances
    exact ⟨j, List.mem_append_left _ hj, hstart⟩
  · intro j hj
    rcases List.mem_append.1 hj with hj | hj
    · exact List.mem_append_left _ ((h.queue_reached hqueue).2 j hj)
    · exact List.mem_append_right _ hj
  · intro j hj hwaiting
    have hrest : j ∉ rest := fun hin => hwaiting (List.mem_append_left _ hin)
    by_cases heq : j = id
    · subst heq
      refine ⟨node, hnode, .inl ⟨hknown, fun edge hedge => ?_⟩⟩
      exact hall _ (List.mem_map.2 ⟨edge, hedge, rfl⟩)
    · have hold : j ∈ search.found.reached := by
        rcases List.mem_append.1 hj with hj | hj
        · exact hj
        · exact absurd (List.mem_append_right _ hj) hwaiting
      obtain ⟨other, hother, hlooked⟩ :=
        h.looked_advances hadvances hold (not_mem_queue hqueue heq hrest)
      refine ⟨other, hother, hlooked.imp_left fun hlooked => ?_⟩
      exact ⟨hlooked.1, fun edge hedge =>
        List.mem_append_left _ (hlooked.2 edge hedge)⟩
  · simp only [List.length_append]
    omega

/-- One visit keeps the invariant and lowers the count. -/
theorem visit_visited (h : Invariant table start search)
    (hqueue : search.queue = id :: rest) :
    Visited table start search (search.visit id rest) rest := by
  obtain ⟨type, htype, _⟩ := h.above id (h.queue_reached hqueue).1
  obtain ⟨old, hold, _⟩ := type?_eq_some.1 htype
  have hresolves := TypeContext.resolve_resolves h.sound h.source hold
  cases hresult : search.context.resolve id with
  | mk outcome c' =>
      rw [hresult] at hresolves
      obtain ⟨hadvances, node, hnode, hshows⟩ := hresolves
      cases outcome with
      | error cause =>
          rw [visit_error hresult]
          exact visited_error h hqueue hadvances hnode hshows
      | ok =>
          rw [visit_ok hresult hnode]
          exact visited_ok h hqueue hadvances hnode hshows

end Visit

/-! ## A whole search -/

section Bounded

variable {σ : Type} [ClassSource σ]

/-- Something that visits keep and that limits what can be reached. A visit takes one
type off the queue and puts on as many as it reaches. -/
structure Bounded (p : Search σ → Prop) (bound : Nat) : Prop where
  visit : ∀ search id rest, p search → search.queue = id :: rest →
    p (search.visit id rest) ∧
      (search.visit id rest).queue.length + search.found.reached.length =
        rest.length + (search.visit id rest).found.reached.length
  reached : ∀ search, p search → search.found.reached.length ≤ bound

/-- With fuel for the types that wait and those not reached yet, nothing is left
waiting. -/
theorem Bounded.run_empties {p : Search σ → Prop} {bound : Nat}
    (hp : Bounded p bound) {fuel : Nat} {search : Search σ} (h : p search)
    (hfuel : search.queue.length + bound ≤ fuel + search.found.reached.length) :
    p (run fuel search) ∧ (run fuel search).queue = [] := by
  induction fuel generalizing search with
  | zero =>
      have hle := hp.reached search h
      have hempty : search.queue = [] := List.eq_nil_of_length_eq_zero (by omega)
      exact ⟨h, hempty⟩
  | succ fuel ih =>
      cases hqueue : search.queue with
      | nil =>
          have hrun : run (fuel + 1) search = search := by rw [run, hqueue]
          rw [hrun]
          exact ⟨h, hqueue⟩
      | cons id rest =>
          have hrun : run (fuel + 1) search = run fuel (search.visit id rest) := by
            rw [run, hqueue]
          obtain ⟨hvisit, hcount⟩ := hp.visit search id rest h hqueue
          rw [hqueue, List.length_cons] at hfuel
          rw [hrun]
          exact ih hvisit (by omega)

end Bounded

section Run

variable {table : Classpath} {start : JavaType} {search : Search Classpath}

/-- No more types are reached than can be above the start. -/
theorem Invariant.length_reached_le (h : Invariant table start search) :
    search.found.reached.length ≤ (table.typesAbove start).length := by
  refine h.sound.distinct.length_le h.nodup fun id hid => ?_
  obtain ⟨type, htype, habove⟩ := h.above id hid
  exact ⟨type, mem_typesAbove_of_ancestor habove, htype⟩

theorem run_finishes {fuel : Nat} (h : Invariant table start search)
    (hfuel : search.queue.length + (table.typesAbove start).length ≤
      fuel + search.found.reached.length) :
    Invariant table start (run fuel search) ∧
      Advances table search.context (run fuel search).context ∧
      (run fuel search).queue = [] := by
  have hbounded : Bounded (fun next => Invariant table start next ∧
      Advances table search.context next.context) (table.typesAbove start).length := by
    constructor
    · intro next id rest hnext hqueue
      have hvisited := visit_visited hnext.1 hqueue
      exact ⟨⟨hvisited.invariant, hnext.2.trans hvisited.advances⟩, hvisited.count⟩
    · exact fun next hnext => hnext.1.length_reached_le
  obtain ⟨⟨hinvariant, hadvances⟩, hdone⟩ :=
    hbounded.run_empties ⟨h, .refl h.sound⟩ hfuel
  exact ⟨hinvariant, hadvances, hdone⟩

/-- When nothing waits any more, what was found is exact. -/
theorem Invariant.ancestrySound (h : Invariant table start search)
    (hdone : search.queue = []) :
    AncestrySound table search.context.repository start search.found := by
  have hlooked : ∀ id ∈ search.found.reached, ∃ node,
      search.context.repository.node? id = some node ∧
      ((node.resolution = .known ∧
          ∀ edge ∈ node.edges, edge.target ∈ search.found.reached) ∨
        ∃ cause, node.resolution = .failed cause ∧
          cause.name ∈ search.found.missing) := by
    intro id hid
    refine h.looked id hid ?_
    rw [hdone]
    exact List.not_mem_nil
  have hcomplete : ∀ type, Ancestor table start type →
      ∃ id ∈ search.found.reached,
        search.context.repository.type? id = some type := by
    intro type habove
    induction habove with
    | refl => exact h.started
    | @tail sub super _ hdirect ih =>
        obtain ⟨id, hid, htype⟩ := ih
        obtain ⟨node, hnode, hcase⟩ := hlooked id hid
        rw [type?_of_node? hnode] at htype
        cases htype
        have hsound := h.sound.nodes id node hnode
        rcases hcase with ⟨hknown, hedges⟩ | ⟨cause, hfailed, _⟩
        · obtain ⟨edge, hedge, htarget⟩ :=
            edge_of_directSupertype hsound hknown hdirect
          exact ⟨edge.target, hedges edge hedge, htarget⟩
        · obtain ⟨links, hlinks, _⟩ := directSupertype_iff.1 hdirect
          rw [(hsound.failed cause hfailed).2.1] at hlinks
          cases hlinks
  refine ⟨h.above, hcomplete, fun name => ⟨h.missing name, ?_⟩⟩
  rintro ⟨type, habove, hlinks, helement⟩
  obtain ⟨id, hid, htype⟩ := hcomplete type habove
  obtain ⟨node, hnode, hcase⟩ := hlooked id hid
  rw [type?_of_node? hnode] at htype
  cases htype
  have hsound := h.sound.nodes id node hnode
  rcases hcase with ⟨hknown, _⟩ | ⟨cause, hfailed, hnoted⟩
  · obtain ⟨_, links, hlinks', _⟩ := hsound.known hknown
    rw [hlinks] at hlinks'
    cases hlinks'
  · have hcause := (hsound.failed cause hfailed).2.2
    rw [helement] at hcause
    cases hcause
    exact hnoted

/-- When nothing waits any more, whatever was reached has been looked at. -/
theorem Invariant.tried (h : Invariant table start search)
    (hdone : search.queue = []) {id : TypeId} (hid : id ∈ search.found.reached) :
    search.context.repository.Tried id := by
  obtain ⟨node, hnode, hlooked⟩ := h.looked id hid (by
    rw [hdone]
    exact List.not_mem_nil)
  refine ⟨node, hnode, ?_⟩
  rcases hlooked with ⟨hknown, _⟩ | ⟨cause, hfailed, _⟩
  · rw [hknown]
    exact Resolution.noConfusion
  · rw [hfailed]
    exact Resolution.noConfusion

theorem Invariant.start_resolved (h : Invariant table start search)
    (hdone : search.queue = []) {id : TypeId}
    (hid : search.context.repository.type? id = some start) :
    ∃ node, search.context.repository.node? id = some node ∧
      node.resolution ≠ .unresolved := by
  obtain ⟨j, hj, hstart⟩ := h.started
  have hsame : j = id := h.sound.distinct j id start hstart hid
  rw [hsame] at hj
  exact h.tried hdone hj

end Run

end Search

/-! ## Fuel -/

namespace TypeContext

variable {table : Classpath} {c : TypeContext Classpath} {id : TypeId}
  {start : JavaType}

theorem init_le_foldl_max (nodes : List TypeNode) (init : Nat) :
    init ≤ nodes.foldl (fun depth node => max depth node.type.dimensions)
      init := by
  induction nodes generalizing init with
  | nil => exact Nat.le_refl init
  | cons first rest ih =>
      exact Nat.le_trans (Nat.le_max_left _ _) (ih (max init _))

theorem dimensions_le_foldl_max {nodes : List TypeNode} {node : TypeNode}
    (h : node ∈ nodes) (init : Nat) :
    node.type.dimensions ≤
      nodes.foldl (fun depth node => max depth node.type.dimensions) init := by
  induction nodes generalizing init with
  | nil => cases h
  | cons first rest ih =>
      rcases List.mem_cons.1 h with rfl | h
      · exact Nat.le_trans (Nat.le_max_right _ _) (init_le_foldl_max rest _)
      · exact ih h (max init _)

theorem mentions_source (hsource : c.source.classes = table.classes) :
    ClassSource.mentions c.source = ClassSource.mentions table := by
  simp only [ClassSource.mentions, hsource]

/-- The fuel of a search is enough for as many elements as there are names, with the
dimensions of any type that is held. -/
theorem mul_le_searchBudget {σ : Type} [ClassSource σ] {c : TypeContext σ}
    {count : Nat}
    (hcount : count ≤ ClassSource.mentions c.source + c.repository.size + 3)
    (hid : c.repository.type? id = some start) :
    count * (start.dimensions + 1) ≤ c.searchBudget := by
  obtain ⟨node, hnode, rfl⟩ := type?_eq_some.1 hid
  have hmem : node ∈ c.repository.nodes := Array.mem_of_getElem? hnode
  rw [searchBudget, ← Array.foldl_toList]
  have hdepth := dimensions_le_foldl_max hmem.val 0
  generalize c.repository.nodes.toList.foldl
    (fun depth node => max depth node.type.dimensions) 0 = depth at hdepth ⊢
  generalize ClassSource.mentions c.source + c.repository.size + 3 = names
    at hcount ⊢
  have hwide : depth ≤ depth * (names + 1) :=
    Nat.le_mul_of_pos_right depth (Nat.succ_pos names)
  exact Nat.mul_le_mul hcount (by omega)

/-- The fuel of a search covers all types above a type. -/
theorem length_typesAbove_le_searchBudget
    (hsource : c.source.classes = table.classes)
    (hid : c.repository.type? id = some start) :
    (table.typesAbove start).length ≤ c.searchBudget := by
  obtain ⟨node, hnode, _⟩ := type?_eq_some.1 hid
  have hsize : 0 < c.repository.size :=
    Array.size_pos_of_mem (Array.mem_of_getElem? hnode)
  have hmentioned : table.mentioned.length ≤ ClassSource.mentions c.source := by
    rw [mentions_source hsource]
    exact Classpath.length_mentioned_le
  rw [Classpath.length_typesAbove]
  exact mul_le_searchBudget (by omega) hid

/-- A search begins with the start, which waits. -/
theorem invariant_initial (hs : c.repository.Sound table)
    (hsource : c.source.classes = table.classes)
    (hid : c.repository.type? id = some start) :
    Search.Invariant table start ⟨c, [id], ⟨[id], []⟩⟩ := by
  refine ⟨hsource, hs, ?_, ⟨id, List.mem_singleton_self id, hid⟩,
    List.nodup_singleton id, fun j hj => hj, ?_, fun name h => (nomatch h)⟩
  · intro j hj
    rw [List.mem_singleton.1 hj]
    exact ⟨start, hid, .refl⟩
  · exact fun j hj hwaiting => absurd hj hwaiting

/-- A search from a type that is held finds exactly its ancestors. -/
theorem searchAncestors_exact (hs : c.repository.Sound table)
    (hsource : c.source.classes = table.classes)
    (hid : c.repository.type? id = some start) :
    Search.Invariant table start (c.searchAncestors id) ∧
      Advances table c (c.searchAncestors id).context ∧
      (c.searchAncestors id).queue = [] := by
  have hbudget := length_typesAbove_le_searchBudget hsource hid
  exact Search.run_finishes (invariant_initial hs hsource hid) (by
    simp only [List.length_singleton]
    omega)

end TypeContext

end ClassAudit
