import ClassAudit.Proofs.AncestorSearch
import Mathlib.Data.List.Induction
import Mathlib.Data.List.Infix

/-!
# The order of a search

A search keeps a queue, so the order in which it finds types is not up to it. In the
first round it meets the start. In each later one it meets what is directly above the
types met so far, one after the other and each where it is met first (`ascent`). The
table alone says what that order is, and how far the repository had been filled before
does not come into it.

The proof follows the queue. After some types have been visited, those met on the way
are the ones visited followed by the ones that wait (`Queues`), and what was visited is
where the rounds begin. When nothing waits any more, going on from the types visited
meets no others, so all further rounds are the same.
-/

namespace ClassAudit

open TypeRepository

/-! ## First occurrences -/

section FirstOccurrences

variable {α : Type} [BEq α] [LawfulBEq α] {xs : List α} {x : α}

theorem eraseDups_concat_of_mem (h : x ∈ xs) :
    (xs ++ [x]).eraseDups = xs.eraseDups := by
  have hnone : [x].removeAll xs = [] := by simp [List.removeAll, h]
  rw [List.eraseDups_append, hnone, List.eraseDups_nil, List.append_nil]

theorem eraseDups_concat_of_not_mem (h : x ∉ xs) :
    (xs ++ [x]).eraseDups = xs.eraseDups ++ [x] := by
  have hall : [x].removeAll xs = [x] := by simp [List.removeAll, h]
  rw [List.eraseDups_append, hall]
  rfl

theorem nodup_eraseDups (xs : List α) : xs.eraseDups.Nodup := by
  induction xs using List.reverseRecOn with
  | nil => exact List.nodup_nil
  | append_singleton xs x ih =>
      by_cases hx : x ∈ xs
      · rw [eraseDups_concat_of_mem hx]
        exact ih
      · rw [eraseDups_concat_of_not_mem hx]
        refine List.nodup_append'.2 ⟨ih, List.nodup_singleton x, ?_⟩
        simpa using hx

theorem eraseDups_mono {ys : List α} (h : xs <+: ys) :
    xs.eraseDups <+: ys.eraseDups := by
  obtain ⟨rest, rfl⟩ := h
  rw [List.eraseDups_append]
  exact List.prefix_append _ _

end FirstOccurrences

/-! ## Rounds -/

namespace Classpath

/-- What is directly above a type, as far as the table can place it. -/
def above (table : Classpath) (type : JavaType) : List JavaType :=
  ((table.links? type).getD []).map Prod.snd

/-- All that is met on the way through some types, with repetitions. -/
def met (table : Classpath) (start : JavaType) (visited : List JavaType) :
    List JavaType :=
  start :: visited.flatMap table.above

/-- What is met in so many rounds, in the order in which it is met. -/
def ascent (table : Classpath) (start : JavaType) : Nat → List JavaType
  | 0 => []
  | rounds + 1 => (table.met start (ascent table start rounds)).eraseDups

/-- The types that are a type or above it, breadth first. There are no more rounds than
there are types to meet. -/
def breadthFirst (table : Classpath) (start : JavaType) : List JavaType :=
  table.ascent start (table.typesAbove start).length

/-- The class that keeps a type from being placed. -/
def missing? (table : Classpath) (type : JavaType) : Option String :=
  match type.element with
  | .basic _ => none
  | .named name => if table.Lacks name then some name else none

variable {table : Classpath} {start : JavaType} {visited order : List JavaType}

theorem above_of_links? {type : JavaType} {links : List Link}
    (h : table.links? type = some links) :
    table.above type = links.map Prod.snd := by
  rw [above, h]
  rfl

theorem above_eq_nil {type : JavaType} (h : table.links? type = none) :
    table.above type = [] := by
  rw [above, h]
  rfl

theorem missing?_eq_some {type : JavaType} {name : String} :
    table.missing? type = some name ↔
      type.element = .named name ∧ table.Lacks name := by
  cases helement : type.element with
  | basic basic => simp [missing?, helement]
  | named other =>
      simp only [missing?, helement, Option.ite_none_right_eq_some, Option.some.injEq,
        ElementType.named.injEq]
      constructor
      · intro h
        obtain ⟨hlacks, rfl⟩ := h
        exact ⟨rfl, hlacks⟩
      · intro h
        obtain ⟨rfl, hlacks⟩ := h
        exact ⟨hlacks, rfl⟩

theorem missing?_eq_none {type : JavaType} {links : List Link}
    (h : table.links? type = some links) : table.missing? type = none := by
  rw [Option.eq_none_iff_forall_ne_some]
  intro name hname
  have hnone := links?_eq_none.2 ⟨name, missing?_eq_some.1 hname⟩
  rw [h] at hnone
  cases hnone

theorem met_concat (type : JavaType) :
    table.met start (visited ++ [type]) =
      table.met start visited ++ table.above type := by
  simp [met]

theorem met_mono (h : visited <+: order) :
    table.met start visited <+: table.met start order :=
  List.cons_prefix_cons.2 ⟨rfl, h.flatMap table.above⟩

theorem ascent_of_closed (hclosed : (table.met start order).eraseDups = order)
    (rounds : Nat) : table.ascent start rounds <+: order := by
  induction rounds with
  | zero => exact List.nil_prefix
  | succ rounds ih =>
      rw [← hclosed]
      exact eraseDups_mono (met_mono ih)

/-- Types from which no others are met, and that are met in as many rounds as there are
of them, are all that is met in any number of rounds from there on. -/
theorem ascent_eq (hclosed : (table.met start order).eraseDups = order)
    (hrounds : order <+: table.ascent start order.length) {rounds : Nat}
    (hle : order.length ≤ rounds) : table.ascent start rounds = order := by
  induction hle with
  | refl => exact (ascent_of_closed hclosed _).eq_of_length_le hrounds.length_le
  | step _ ih => rw [ascent, ih, hclosed]

end Classpath

/-! ## The queue -/

/-- These types stand at these positions. -/
abbrev TypeRepository.Holds (r : TypeRepository) (ids : List TypeId)
    (types : List JavaType) : Prop :=
  List.Forall₂ (fun id type => r.type? id = some type) ids types

section Holds

variable {r r' : TypeRepository} {ids : List TypeId} {types : List JavaType}

theorem TypeRepository.Holds.mono (h : r.Holds ids types)
    (htypes : ∀ j type, r.type? j = some type → r'.type? j = some type) :
    r'.Holds ids types :=
  h.imp fun j type hj => htypes j type hj

theorem TypeRepository.Holds.mem_iff (h : r.Holds ids types) (hr : r.Distinct)
    {id : TypeId} {type : JavaType} (hid : r.type? id = some type) :
    id ∈ ids ↔ type ∈ types := by
  induction h with
  | nil => simp
  | @cons j first ids types hj _ ih =>
      have hhead : id = j ↔ type = first := by
        constructor
        · intro heq
          rw [heq, hj] at hid
          exact (Option.some.inj hid).symm
        · intro heq
          rw [heq] at hid
          exact hr id j first hid hj
      rw [List.mem_cons, List.mem_cons, hhead, ih]

theorem TypeRepository.Holds.exists_of_mem (h : r.Holds ids types) {type : JavaType}
    (htype : type ∈ types) : ∃ id ∈ ids, r.type? id = some type := by
  induction h with
  | nil => cases htype
  | @cons j first ids types hj _ ih =>
      rcases List.mem_cons.1 htype with rfl | htype
      · exact ⟨j, List.mem_cons_self, hj⟩
      · obtain ⟨id, hid, hheld⟩ := ih htype
        exact ⟨id, List.mem_cons_of_mem j hid, hheld⟩

theorem TypeRepository.Spells.holds {edges : List Edge} {links : List Link}
    (h : r.Spells edges links) :
    r.Holds (edges.map Edge.target) (links.map Prod.snd) :=
  List.forall₂_map_left_iff.2
    (List.forall₂_map_right_iff.2 (h.imp fun _ _ hedge => hedge.2))

end Holds

/-- What a search found is what the table says, in the order that the table says, and
nothing of it was left aside. -/
structure Listed (table : Classpath) (r : TypeRepository) (start : JavaType)
    (found : Ancestry) : Prop where
  reached : r.Holds found.reached (table.breadthFirst start)
  missing : found.missing =
    ((table.breadthFirst start).filterMap table.missing?).eraseDups
  tried : ∀ id ∈ found.reached, r.Tried id

namespace Search

/-- What was reached is what was met, and the queue is the part of it that was not
visited. -/
structure Queues {σ : Type} (r : TypeRepository) (visited met : List JavaType)
    (search : Search σ) : Prop where
  reached : r.Holds search.found.reached met.eraseDups
  waiting : ∃ waiting, met.eraseDups = visited ++ waiting ∧
    r.Holds search.queue waiting

section Queues

variable {σ : Type} {r : TypeRepository} {visited met : List JavaType}
  {search : Search σ}

theorem Queues.reach (h : search.Queues r visited met) (hr : r.Distinct)
    {target : TypeId} {type : JavaType} (htype : r.type? target = some type) :
    (search.reach target).Queues r visited (met ++ [type]) := by
  -- A position is new exactly if its type is.
  have hmem : target ∈ search.found.reached ↔ type ∈ met := by
    rw [h.reached.mem_iff hr htype, List.mem_eraseDups]
  obtain ⟨hreached, waiting, hmet, hqueue⟩ := h
  by_cases hheld : target ∈ search.found.reached
  · rw [reach_of_mem hheld]
    constructor
    · rw [eraseDups_concat_of_mem (hmem.1 hheld)]
      exact hreached
    · rw [eraseDups_concat_of_mem (hmem.1 hheld)]
      exact ⟨waiting, hmet, hqueue⟩
  · have hnew := eraseDups_concat_of_not_mem (mt hmem.2 hheld)
    have hone : r.Holds [target] [type] := .cons htype .nil
    rw [reach_of_not_mem hheld]
    constructor
    · rw [hnew]
      exact List.rel_append hreached hone
    · refine ⟨waiting ++ [type], ?_, List.rel_append hqueue hone⟩
      rw [hnew, hmet, List.append_assoc]

theorem Queues.foldl_reach (h : search.Queues r visited met) (hr : r.Distinct)
    {targets : List TypeId} {types : List JavaType} (htypes : r.Holds targets types) :
    (targets.foldl Search.reach search).Queues r visited (met ++ types) := by
  induction htypes generalizing search met with
  | nil =>
      rw [List.append_nil]
      exact h
  | @cons target type targets types htype _ ih =>
      have hstep := ih (h.reach hr htype)
      rw [List.append_assoc, List.singleton_append] at hstep
      exact hstep

/-- The first in the queue has been visited. -/
theorem Queues.visit {c : TypeContext σ} {id : TypeId} {rest : List TypeId}
    (h : search.Queues r visited met) (hqueue : search.queue = id :: rest) :
    ∃ type, r.type? id = some type ∧ visited ++ [type] <+: met.eraseDups ∧
      Queues r (visited ++ [type]) met (⟨c, rest, search.found⟩ : Search σ) := by
  obtain ⟨hreached, waiting, hmet, hwaiting⟩ := h
  rw [hqueue] at hwaiting
  cases hwaiting with
  | @cons _ type _ waiting htype hrest =>
      have hsplit : met.eraseDups = visited ++ [type] ++ waiting := by
        rw [hmet, List.append_assoc, List.singleton_append]
      refine ⟨type, htype, ?_, hreached, waiting, hsplit, hrest⟩
      rw [hsplit]
      exact List.prefix_append _ _

end Queues

theorem miss_missing {σ : Type} (search : Search σ) {names : List String}
    (h : search.found.missing = names.eraseDups) (name : String) :
    search.miss name = ⟨search.context, search.queue,
      ⟨search.found.reached, (names ++ [name]).eraseDups⟩⟩ := by
  have hmem : name ∈ search.found.missing ↔ name ∈ names := by
    rw [h, List.mem_eraseDups]
  by_cases hheld : name ∈ search.found.missing
  · rw [eraseDups_concat_of_mem (hmem.1 hheld), ← h, miss,
      if_pos (by simpa using hheld)]
  · rw [eraseDups_concat_of_not_mem (mt hmem.2 hheld), ← h, miss,
      if_neg (by simpa using hheld)]

/-- A search that has visited these types and no others. -/
structure InOrder (table : Classpath) (start : JavaType) (visited : List JavaType)
    (search : Search Classpath) : Prop where
  queues : search.Queues search.context.repository visited (table.met start visited)
  rounds : visited <+: table.ascent start visited.length
  missing : search.found.missing = (visited.filterMap table.missing?).eraseDups

section Visit

variable {table : Classpath} {start : JavaType} {visited : List JavaType}
  {search : Search Classpath} {id : TypeId} {rest : List TypeId}

/-- A visit goes on to the next type in the order. -/
theorem InOrder.visit (h : InOrder table start visited search)
    (hinvariant : Invariant table start search) (hqueue : search.queue = id :: rest) :
    ∃ type, InOrder table start (visited ++ [type]) (search.visit id rest) := by
  obtain ⟨old, hold, -⟩ := hinvariant.above id (hinvariant.queue_reached hqueue).1
  obtain ⟨node, hnode, -⟩ := type?_eq_some.1 hold
  have hresolves :=
    TypeContext.resolve_resolves hinvariant.sound hinvariant.source hnode
  cases hresult : search.context.resolve id with
  | mk outcome c' =>
      rw [hresult] at hresolves
      obtain ⟨hadvances, node, hnode, hshows⟩ := hresolves
      have hqueues :
          search.Queues c'.repository visited (table.met start visited) := by
        obtain ⟨hreached, waiting, hmet, hwaiting⟩ := h.queues
        exact ⟨hreached.mono hadvances.types, waiting, hmet,
          hwaiting.mono hadvances.types⟩
      obtain ⟨type, htype, hprefix, hpopped⟩ := hqueues.visit (c := c') hqueue
      have hsound := hadvances.sound.nodes id node hnode
      obtain rfl := node_type htype hnode
      -- The round that meets the type visits all that was visited before it.
      have hrounds : visited ++ [node.type] <+:
          table.ascent start (visited ++ [node.type]).length := by
        rw [List.length_append]
        exact hprefix.trans (eraseDups_mono (Classpath.met_mono h.rounds))
      refine ⟨node.type, ?_⟩
      cases outcome with
      | error cause =>
          obtain ⟨-, hlinks, helement⟩ := hsound.failed cause hshows
          obtain ⟨name, hname, hlacks⟩ := Classpath.links?_eq_none.1 hlinks
          obtain rfl : cause.name = name := by
            rw [helement] at hname
            exact ElementType.named.inj hname
          have hmissing : table.missing? node.type = some cause.name :=
            Classpath.missing?_eq_some.2 ⟨helement, hlacks⟩
          rw [visit_error hresult, miss_missing ⟨c', rest, search.found⟩ h.missing]
          refine ⟨?_, hrounds, ?_⟩
          · rw [Classpath.met_concat, Classpath.above_eq_nil hlinks, List.append_nil]
            exact ⟨hpopped.reached, hpopped.waiting⟩
          · simp [List.filterMap_append, hmissing]
      | ok =>
          obtain ⟨-, links, hlinks, hspells⟩ := hsound.known hshows
          rw [visit_ok hresult hnode]
          refine ⟨?_, hrounds, ?_⟩
          · rw [Classpath.met_concat, Classpath.above_of_links? hlinks,
              foldl_reach_context]
            exact hpopped.foldl_reach hadvances.sound.distinct hspells.holds
          · rw [foldl_reach_missing, List.filterMap_append, h.missing]
            simp [Classpath.missing?_eq_none hlinks]

/-- When nothing waits any more, the types visited are all there are. -/
theorem InOrder.listed (h : InOrder table start visited search)
    (hinvariant : Invariant table start search) (hdone : search.queue = []) :
    Listed table search.context.repository start search.found := by
  obtain ⟨⟨hreached, waiting, hmet, hwaiting⟩, hrounds, hmissing⟩ := h
  rw [hdone] at hwaiting
  cases hwaiting
  rw [List.append_nil] at hmet
  rw [hmet] at hreached
  have horder : table.breadthFirst start = visited := by
    refine Classpath.ascent_eq hmet hrounds ?_
    rw [← hreached.length_eq]
    exact hinvariant.length_reached_le
  refine ⟨?_, ?_, fun id hid => hinvariant.tried hdone hid⟩
  · rw [horder]
    exact hreached
  · rw [horder, hmissing]

end Visit

end Search

theorem TypeContext.searchAncestors_listed {table : Classpath}
    {c : TypeContext Classpath} {id : TypeId} {start : JavaType}
    (hs : c.repository.Sound table) (hsource : c.source.classes = table.classes)
    (hid : c.repository.type? id = some start) :
    Listed table (c.searchAncestors id).context.repository start
      (c.searchAncestors id).found := by
  have hbounded : Search.Bounded (fun next => Search.Invariant table start next ∧
      ∃ visited, Search.InOrder table start visited next)
      (table.typesAbove start).length := by
    constructor
    · intro next id rest hnext hqueue
      obtain ⟨hinvariant, visited, horder⟩ := hnext
      have hvisited := Search.visit_visited hinvariant hqueue
      obtain ⟨type, horder⟩ := horder.visit hinvariant hqueue
      exact ⟨⟨hvisited.invariant, _, horder⟩, hvisited.count⟩
    · exact fun next hnext => hnext.1.length_reached_le
  have hinitial : Search.InOrder table start [] ⟨c, [id], ⟨[id], []⟩⟩ := by
    have hstart : c.repository.Holds [id] [start] := .cons hid .nil
    exact ⟨⟨hstart, [start], rfl, hstart⟩, List.nil_prefix, rfl⟩
  have hfuel : [id].length + (table.typesAbove start).length ≤
      c.searchBudget + [id].length := by
    have hbudget := length_typesAbove_le_searchBudget hsource hid
    omega
  obtain ⟨⟨hinvariant, visited, horder⟩, hdone⟩ :=
    hbounded.run_empties ⟨invariant_initial hs hsource hid, [], hinitial⟩ hfuel
  exact horder.listed hinvariant hdone

end ClassAudit
