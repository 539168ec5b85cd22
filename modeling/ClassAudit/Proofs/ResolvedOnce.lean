import ClassAudit.Proofs.Flyweight
import ClassAudit.Proofs.Subtyping

/-!
# Resolution happens once, and answers are kept

A repository learns about a type at most once. Four operations can set it off, and
each of them also for the class below an array, so no single caller can see to it.
What sees to it is the resolution that stands beside every type: it leaves
`unresolved` when the source has been asked, and nothing leads back.

One relation carries all of this along a run. `Proceeds` says of two contexts how
every node of the first has moved on to the second, and which names were asked for in
between: each of them once, none that was settled before, all of them settled after.
The last two clauses are what makes it transitive. A name asked for on the way from
the second context to a third was not settled in the second, so it is none of those
asked for on the way there. Each operation proceeds by the same three or four facts
about repositories, and a run of operations by transitivity.

Nothing is assumed of the source. It may answer differently each time, and it may be
another one for each operation. A `Recorder` stands in front of it and writes down
what it is asked. What the source says of its own size only bounds how far a search
goes, and here that does not matter.
-/

namespace ClassAudit

open TypeRepository

/-! ## How a node moves on -/

/-- The ways for a resolution to change, where `linked` says that a supertype was
stated of this very type by hand. -/
inductive Resolution.Moves (linked : Prop) : Resolution → Resolution → Prop
  | stay (resolution : Resolution) : Moves linked resolution resolution
  | place : Moves linked .unresolved .known
  | fail (cause : ClassNotFound) : Moves linked .unresolved (.failed cause)
  | state (h : linked) (cause : ClassNotFound) : Moves linked (.failed cause) .known

namespace Resolution.Moves

variable {linked linked' : Prop} {first second third : Resolution}

theorem trans (h : Moves linked first second) (h' : Moves linked second third) :
    Moves linked first third := by
  cases h with
  | stay => exact h'
  | place =>
      cases h' with
      | stay => exact .place
  | fail cause =>
      cases h' with
      | stay => exact .fail cause
      | state => exact .place
  | state hlinked cause =>
      cases h' with
      | stay => exact .state hlinked cause

theorem mono (h : Moves linked first second) (himp : linked → linked') :
    Moves linked' first second := by
  cases h with
  | stay => exact .stay first
  | place => exact .place
  | fail cause => exact .fail cause
  | state hlinked cause => exact .state (himp hlinked) cause

theorem settled (h : Moves linked first second) (hfirst : first ≠ .unresolved) :
    second ≠ .unresolved := by
  cases h with
  | stay => exact hfirst
  | place => exact absurd rfl hfirst
  | fail => exact absurd rfl hfirst
  | state => simp

theorem of_unresolved {resolution : Resolution} (h : resolution ≠ .unresolved) :
    Moves linked .unresolved resolution := by
  cases resolution with
  | unresolved => exact absurd rfl h
  | known => exact .place
  | failed cause => exact .fail cause

end Resolution.Moves

/-- What becomes of a node: its type stays, its resolution moves, and ancestors that
are kept stay kept. -/
structure TypeNode.Later (linked : Prop) (old new : TypeNode) : Prop where
  type : new.type = old.type
  moves : Resolution.Moves linked old.resolution new.resolution
  ancestry : ∀ found, old.ancestry = some found → new.ancestry = some found

namespace TypeRepository

/-- What becomes of the nodes of a repository. -/
def Later (linked : TypeId → Prop) (r r' : TypeRepository) : Prop :=
  ∀ id old, r.node? id = some old →
    ∃ new, r'.node? id = some new ∧ old.Later (linked id) new

/-- The class of this name is held, and it has been tried to place it. -/
def Settled (r : TypeRepository) (name : String) : Prop :=
  ∃ id node, r.node? id = some node ∧ node.type = .named name ∧
    node.resolution ≠ .unresolved

variable {linked linked' : TypeId → Prop} {r r' r'' : TypeRepository} {id : TypeId}

theorem Later.refl (linked : TypeId → Prop) (r : TypeRepository) :
    r.Later linked r :=
  fun _ old h => ⟨old, h, rfl, .stay _, fun _ hfound => hfound⟩

theorem Later.trans (h : r.Later linked r') (h' : r'.Later linked r'') :
    r.Later linked r'' := by
  intro id old hold
  obtain ⟨mid, hmid, hfirst⟩ := h id old hold
  obtain ⟨new, hnew, hsecond⟩ := h' id mid hmid
  refine ⟨new, hnew, ?_⟩
  constructor
  · rw [hsecond.type, hfirst.type]
  · exact hfirst.moves.trans hsecond.moves
  · exact fun found hfound => hsecond.ancestry found (hfirst.ancestry found hfound)

theorem Later.mono (h : r.Later linked r') (himp : ∀ id, linked id → linked' id) :
    r.Later linked' r' := by
  intro id old hold
  obtain ⟨new, hnew, hlater⟩ := h id old hold
  exact ⟨new, hnew, hlater.type, hlater.moves.mono (himp id), hlater.ancestry⟩

theorem Settled.later {name : String} (hsettled : r.Settled name)
    (h : r.Later linked r') : r'.Settled name := by
  obtain ⟨id, old, hold, htype, hresolution⟩ := hsettled
  obtain ⟨new, hnew, hlater⟩ := h id old hold
  exact ⟨id, new, hnew, hlater.type.trans htype, hlater.moves.settled hresolution⟩

/-- A change to one node, which has to be in order for what the node was at first and
not only for what it was just before. -/
theorem Later.update (h : r.Later linked r') (id : TypeId)
    {change : TypeNode → TypeNode}
    (hchange : ∀ old new, r.node? id = some old → old.Later (linked id) new →
      old.Later (linked id) (change new)) :
    r.Later linked (r'.update id change) := by
  intro j old hold
  obtain ⟨new, hnew, hlater⟩ := h j old hold
  rw [node?_update]
  split
  · next hid =>
      subst hid
      exact ⟨change new, by rw [hnew, Option.map_some], hchange old new hold hlater⟩
  · exact ⟨new, hnew, hlater⟩

theorem Later.intern (h : r.Later linked r') (type : JavaType) :
    r.Later linked (r'.intern type).2 := by
  intro id old hold
  obtain ⟨new, hnew, hlater⟩ := h id old hold
  exact ⟨new, intern_node? hnew, hlater⟩

theorem Later.connect (h : r.Later linked r') (id : TypeId) (edge : Edge) :
    r.Later linked (r'.connect id edge) :=
  h.update id fun _ _ _ hlater => ⟨hlater.type, hlater.moves, hlater.ancestry⟩

theorem Later.connectLinks (h : r.Later linked r') (id : TypeId)
    (links : List Link) : r.Later linked (r'.connectLinks id links) := by
  induction links generalizing r' with
  | nil => exact h
  | cons link rest ih => exact ih ((h.intern link.2).connect id _)

theorem Later.markInterface (h : r.Later linked r') (id : TypeId) (flag : Bool) :
    r.Later linked (r'.markInterface id flag) :=
  h.update id fun _ _ _ hlater => ⟨hlater.type, hlater.moves, hlater.ancestry⟩

/-- A type that was unresolved at first can be given any outcome. -/
theorem Later.setResolution (h : r.Later linked r') {node : TypeNode}
    (hnode : r.node? id = some node) (hunresolved : node.resolution = .unresolved)
    {resolution : Resolution} (hresolution : resolution ≠ .unresolved) :
    r.Later linked (r'.setResolution id resolution) := by
  refine h.update id fun old new hold hlater => ⟨hlater.type, ?_, hlater.ancestry⟩
  obtain rfl : node = old := Option.some.inj (hnode.symm.trans hold)
  rw [hunresolved]
  exact .of_unresolved hresolution

theorem Later.keepAncestry (h : r.Later linked r')
    (hnone : (r.node? id).bind TypeNode.ancestry = none) (found : Ancestry) :
    r.Later linked (r'.keepAncestry id found) := by
  refine h.update id fun old new hold hlater => ⟨hlater.type, hlater.moves, ?_⟩
  rw [hold, Option.bind_some] at hnone
  intro kept hkept
  rw [hnone] at hkept
  cases hkept

theorem Later.link (h : r.Later linked r') (hlinked : linked id) (kind : EdgeKind)
    (super : TypeId) : r.Later linked (r'.link id kind super) := by
  refine (h.connect id ⟨kind, super⟩).update id fun old new _ hlater =>
    ⟨hlater.type, hlater.moves.trans ?_, hlater.ancestry⟩
  cases new.resolution with
  | unresolved => exact .place
  | known => exact .stay .known
  | failed cause => exact .state hlinked cause

theorem settled_setResolution {name : String} (h : r.type? id = some (.named name))
    {resolution : Resolution} (hresolution : resolution ≠ .unresolved) :
    (r.setResolution id resolution).Settled name := by
  obtain ⟨node, hnode, htype⟩ := type?_eq_some.1 h
  refine ⟨id, { node with resolution }, ?_, htype, hresolution⟩
  rw [TypeRepository.setResolution, node?_update, if_pos rfl, hnode, Option.map_some]

theorem Settled.update {name : String} (hsettled : r.Settled name) (id : TypeId)
    {change : TypeNode → TypeNode} (htype : ∀ node, (change node).type = node.type)
    (hchange : ∀ node, node.resolution ≠ .unresolved →
      (change node).resolution ≠ .unresolved) :
    (r.update id change).Settled name := by
  obtain ⟨j, node, hnode, hname, hresolution⟩ := hsettled
  by_cases hid : id = j
  · refine ⟨j, change node, ?_, (htype node).trans hname, hchange node hresolution⟩
    rw [node?_update, if_pos hid, hnode, Option.map_some]
  · refine ⟨j, node, ?_, hname, hresolution⟩
    rw [node?_update, if_neg hid, hnode]

/-- Since no type is held twice, a class that is unresolved where it is held is not
settled anywhere. -/
theorem Distinct.not_settled (h : r.Distinct) {node : TypeNode} {name : String}
    (hnode : r.node? id = some node) (htype : node.type = .named name)
    (hunresolved : node.resolution = .unresolved) : ¬ r.Settled name := by
  intro ⟨j, other, hother, htype', hresolution⟩
  have hid : id = j := by
    refine h id j (.named name) ?_ ?_
    · exact type?_eq_some.2 ⟨node, hnode, htype⟩
    · exact type?_eq_some.2 ⟨other, hother, htype'⟩
  subst hid
  obtain rfl : node = other := Option.some.inj (hnode.symm.trans hother)
  exact hresolution hunresolved

end TypeRepository

/-! ## Who is asked -/

/-- A source with a list of the names that it was asked for. -/
structure Recorder (σ : Type) where
  source : σ
  asked : List String

instance {σ : Type} [ClassSource σ] : ClassSource (Recorder σ) where
  ask recorder name :=
    let (facts, source) := ClassSource.ask recorder.source name
    (facts, ⟨source, recorder.asked ++ [name]⟩)
  mentions recorder := ClassSource.mentions recorder.source
  blames recorder name := ClassSource.blames recorder.source name

namespace TypeContext

variable {σ : Type} {linked linked' : TypeId → Prop}
variable {c c' c'' : TypeContext (Recorder σ)} {id : TypeId}

/-- What becomes of a context: its nodes move on, and the names that are asked for on
the way are different, were not settled, and are. -/
structure Proceeds (linked : TypeId → Prop) (c c' : TypeContext (Recorder σ)) :
    Prop where
  nodes : c.repository.Later linked c'.repository
  distinct : c'.repository.Distinct
  asked : ∃ names, c'.source.asked = c.source.asked ++ names ∧ names.Nodup ∧
    ∀ name ∈ names, ¬ c.repository.Settled name ∧ c'.repository.Settled name

/-- Nobody is asked. -/
theorem Proceeds.of_nodes (hnodes : c.repository.Later linked c'.repository)
    (hdistinct : c'.repository.Distinct) (hasked : c'.source.asked = c.source.asked) :
    c.Proceeds linked c' where
  nodes := hnodes
  distinct := hdistinct
  asked := ⟨[], by rw [hasked, List.append_nil], List.nodup_nil, by simp⟩

theorem Proceeds.refl (linked : TypeId → Prop) (hc : c.repository.Distinct) :
    c.Proceeds linked c :=
  .of_nodes (.refl linked _) hc rfl

theorem Proceeds.mono (h : c.Proceeds linked c')
    (himp : ∀ id, linked id → linked' id) : c.Proceeds linked' c' :=
  ⟨h.nodes.mono himp, h.distinct, h.asked⟩

theorem Proceeds.trans (h : c.Proceeds linked c') (h' : c'.Proceeds linked c'') :
    c.Proceeds linked c'' where
  nodes := h.nodes.trans h'.nodes
  distinct := h'.distinct
  asked := by
    obtain ⟨names, hasked, hnodup, hnames⟩ := h.asked
    obtain ⟨names', hasked', hnodup', hnames'⟩ := h'.asked
    refine ⟨names ++ names', ?_, ?_, ?_⟩
    · rw [hasked', hasked, List.append_assoc]
    · -- What was asked for on the way to the middle is settled there.
      refine List.nodup_append'.2 ⟨hnodup, hnodup', ?_⟩
      intro name hname hname'
      exact (hnames' name hname').1 (hnames name hname).2
    · intro name hname
      rcases List.mem_append.1 hname with hname | hname
      · exact ⟨(hnames name hname).1, (hnames name hname).2.later h'.nodes⟩
      · obtain ⟨hbefore, hafter⟩ := hnames' name hname
        exact ⟨fun hsettled => hbefore (hsettled.later h.nodes), hafter⟩

/-- A change to one node asks nobody, and may be one that is in order only for what the
node was at first. -/
theorem Proceeds.update (h : c.Proceeds linked c') {change : TypeNode → TypeNode}
    (hrepository : c''.repository = c'.repository.update id change)
    (hsource : c''.source = c'.source)
    (htype : ∀ node, (change node).type = node.type)
    (hchange : ∀ node, node.resolution ≠ .unresolved →
      (change node).resolution ≠ .unresolved)
    (hnodes : c.repository.Later linked c''.repository) : c.Proceeds linked c'' where
  nodes := hnodes
  distinct := by
    rw [hrepository]
    exact (grows_update id _ htype).distinct h.distinct
  asked := by
    obtain ⟨names, hasked, hnodup, hnames⟩ := h.asked
    refine ⟨names, by rw [hsource, hasked], hnodup, fun name hname => ?_⟩
    rw [hrepository]
    exact ⟨(hnames name hname).1, (hnames name hname).2.update id htype hchange⟩

theorem settle_eq (c : TypeContext (Recorder σ)) (id : TypeId) (type : JavaType)
    (outcome : Except ClassNotFound Unit) :
    (c.settle id type outcome).2.source = c.source ∧
    ∃ resolution, resolution ≠ .unresolved ∧
      (c.settle id type outcome).2.repository =
        c.repository.setResolution id resolution := by
  cases outcome with
  | ok => exact ⟨rfl, .known, by simp, rfl⟩
  | error cause => exact ⟨rfl, .failed cause, by simp, rfl⟩

theorem Proceeds.settle (h : c.Proceeds linked c') {node : TypeNode}
    (hnode : c.repository.node? id = some node)
    (hunresolved : node.resolution = .unresolved) (type : JavaType)
    (outcome : Except ClassNotFound Unit) :
    c.Proceeds linked (c'.settle id type outcome).2 := by
  obtain ⟨hsource, resolution, hresolution, hrepository⟩ :=
    settle_eq c' id type outcome
  refine h.update hrepository hsource (fun _ => rfl) (fun _ _ => hresolution) ?_
  rw [hrepository]
  exact h.nodes.setResolution hnode hunresolved hresolution

theorem Proceeds.keepAncestry (h : c.Proceeds linked c')
    (hnone : (c.repository.node? id).bind TypeNode.ancestry = none)
    (found : Ancestry) :
    c.Proceeds linked (c'.withRepository (·.keepAncestry id found)) :=
  h.update rfl rfl (fun _ => rfl) (fun _ hresolution => hresolution)
    (h.nodes.keepAncestry hnone found)

/-- To add links to a node asks nobody. -/
theorem Proceeds.connectLinks (h : c.Proceeds linked c') (id : TypeId)
    (links : List Link) :
    c.Proceeds linked (c'.withRepository (·.connectLinks id links)) :=
  h.trans (.of_nodes ((Later.refl linked _).connectLinks id links)
    ((connectLinks_grows c'.repository id links).distinct h.distinct) rfl)

theorem proceeds_intern (hc : c.repository.Distinct) (type : JavaType) :
    c.Proceeds linked (c.intern type).2 :=
  .of_nodes ((Later.refl linked _).intern type)
    ((intern_grows objectId c.repository type).distinct hc) rfl

variable [ClassSource σ]

theorem askClass_asked (c : TypeContext (Recorder σ)) (id : TypeId) (name : String) :
    (c.askClass id name).2.source.asked = c.source.asked ++ [name] := by
  have hask : (ClassSource.ask c.source name).2.asked = c.source.asked ++ [name] := rfl
  unfold askClass
  split
  · next h =>
      rw [h] at hask
      exact hask
  · next h =>
      rw [h] at hask
      exact hask

theorem askClass_nodes (linked : TypeId → Prop) (c : TypeContext (Recorder σ))
    (id : TypeId) (name : String) :
    c.repository.Later linked (c.askClass id name).2.repository := by
  unfold askClass
  split
  · next facts _ _ =>
      show c.repository.Later linked (placeClass c.repository id facts)
      rw [placeClass_eq]
      exact ((Later.refl linked _).connectLinks id _).markInterface id _
  · exact .refl linked _

/-- The only place where a source is asked. It is asked for the name of an unresolved
class, and then that class is settled. -/
theorem proceeds_resolveClass (hc : c.repository.Distinct) {name : String}
    (htype : c.repository.type? id = some (.named name)) :
    c.Proceeds linked (c.resolveClass id name).2 := by
  obtain ⟨node, hnode, hname⟩ := type?_eq_some.1 htype
  unfold resolveClass
  rw [hnode, Option.map_some]
  cases hresolution : node.resolution with
  | known => exact .refl linked hc
  | failed cause => exact .refl linked hc
  | unresolved =>
      have hnodes := askClass_nodes linked c id name
      have hasked := askClass_asked c id name
      have hedits := edits_askClass c id name
      dsimp only
      generalize c.askClass id name = answered at hnodes hasked hedits ⊢
      obtain ⟨hsource, resolution, hsettles, hrepository⟩ :=
        settle_eq answered.2 id (.named name) answered.1
      constructor
      · rw [hrepository]
        exact hnodes.setResolution hnode hresolution hsettles
      · exact (EditsAt.grows (hedits.trans (edits_settle _ id _ _))).distinct hc
      · refine ⟨[name], by rw [hsource, hasked], List.nodup_singleton name, ?_⟩
        intro other hother
        obtain rfl := List.mem_singleton.1 hother
        rw [hrepository]
        exact ⟨hc.not_settled hnode hname hresolution,
          settled_setResolution (hedits.grows.types id _ htype) hsettles⟩

theorem proceeds_deriveArray (hc : c.repository.Distinct) (id : TypeId)
    (dimensions : Nat) (name : String) :
    c.Proceeds linked (c.deriveArray id dimensions name).2 := by
  have hclass : c.Proceeds linked ((c.intern (.named name)).2.resolveClass
      (c.intern (.named name)).1 name).2 := by
    have hheld : c.Proceeds linked (c.intern (.named name)).2 :=
      proceeds_intern hc (.named name)
    exact hheld.trans
      (proceeds_resolveClass hheld.distinct (intern_type? c.repository (.named name)))
  unfold deriveArray
  dsimp only
  split
  · next h =>
      rw [h] at hclass
      exact hclass
  · next h =>
      rw [h] at hclass
      split
      · exact hclass
      · simp only [placeArrayOver_connectLinks]
        exact hclass.connectLinks id _

theorem proceeds_resolveArray (hc : c.repository.Distinct) (id : TypeId)
    (type : JavaType) : c.Proceeds linked (c.resolveArray id type).2 := by
  have hbelow (superclass : JavaType) : c.Proceeds linked (c.withRepository
      (·.connectLinks id ((.superclass, superclass) :: arrayLinks))) :=
    (Proceeds.refl linked hc).connectLinks id _
  unfold resolveArray
  dsimp only
  split
  · exact hbelow .object
  · split
    · exact hbelow _
    · exact proceeds_deriveArray hc id _ _

theorem proceeds_resolve (hc : c.repository.Distinct) (id : TypeId) :
    c.Proceeds linked (c.resolve id).2 := by
  unfold resolve
  split
  · exact .refl linked hc
  · next node hnode =>
      split
      · exact .refl linked hc
      · exact .refl linked hc
      · next hunresolved =>
          split
          · exact (Proceeds.refl linked hc).settle hnode hunresolved _ _
          · next name hdimensions helement =>
              have htype := JavaType.eq_mk hdimensions helement
              exact proceeds_resolveClass hc (type?_eq_some.2 ⟨node, hnode, htype⟩)
          · exact (proceeds_resolveArray hc id node.type).settle hnode hunresolved _ _

theorem proceeds_searchAncestors (hc : c.repository.Distinct) (start : TypeId) :
    c.Proceeds linked (c.searchAncestors start).context :=
  Search.run_keeps (p := fun c' => c.Proceeds linked c')
    (fun _ id h => h.trans (proceeds_resolve h.distinct id)) _ _ (.refl linked hc)

theorem proceeds_isSubtype (hc : c.repository.Distinct) (sub super : TypeId) :
    c.Proceeds linked (c.isSubtype sub super).2 := by
  unfold isSubtype
  split
  · exact .refl linked hc
  · next hnone =>
      exact (proceeds_searchAncestors hc sub).keepAncestry hnone _

/-- A question that has been answered leaves the ancestors that it was answered from
beside the type. -/
theorem isSubtype_answer {sub : TypeId} (hc : c.repository.Distinct)
    (hsub : (c.repository.node? sub).isSome) (super : TypeId) :
    ∃ found : Ancestry, (c.isSubtype sub super).1 = found.contains super ∧
      ∃ node, (c.isSubtype sub super).2.repository.node? sub = some node ∧
        node.ancestry = some found := by
  obtain ⟨old, hold⟩ := Option.isSome_iff_exists.1 hsub
  unfold isSubtype
  split
  · next found hfound =>
      rw [hold, Option.bind_some] at hfound
      exact ⟨found, rfl, old, hold, hfound⟩
  · have hsearch : c.Proceeds (fun _ => True) (c.searchAncestors sub).context :=
      proceeds_searchAncestors hc sub
    obtain ⟨new, hnew, _⟩ := hsearch.nodes sub old hold
    refine ⟨(c.searchAncestors sub).found, rfl,
      { new with ancestry := some (c.searchAncestors sub).found }, ?_, rfl⟩
    show ((c.searchAncestors sub).context.repository.keepAncestry sub
      (c.searchAncestors sub).found).node? sub = _
    rw [TypeRepository.keepAncestry, node?_update, if_pos rfl, hnew, Option.map_some]

end TypeContext

/-! ## Calls -/

/-- Whether an operation states a supertype of a type by hand. -/
def Operation.Links : Operation → TypeId → Prop
  | link sub _ _, id => sub = id
  | _, _ => False

/-- An operation and the source that it is given. -/
structure Call (σ : Type) where
  source : σ
  operation : Operation

namespace TypeContext

variable {σ : Type}

/-- Puts another source in the place of the one that is recorded. -/
def hand (c : TypeContext (Recorder σ)) (source : σ) : TypeContext (Recorder σ) :=
  { c with source := { c.source with source } }

variable [ClassSource σ]

def call (c : TypeContext (Recorder σ)) (call : Call σ) : TypeContext (Recorder σ) :=
  (c.hand call.source).perform call.operation

def calls (c : TypeContext (Recorder σ)) (calls : List (Call σ)) :
    TypeContext (Recorder σ) :=
  calls.foldl call c

variable {c : TypeContext (Recorder σ)}

theorem proceeds_perform (hc : c.repository.Distinct) (operation : Operation) :
    c.Proceeds operation.Links (c.perform operation) := by
  refine perform_cases (.refl _ hc) (proceeds_intern hc) ?_ ?_ (proceeds_resolve hc)
    (proceeds_isSubtype hc)
  · rintro sub kind super rfl
    have hdistinct : (c.repository.link sub kind super).Distinct :=
      ((connect_grows sub _ _).trans (setResolution_grows sub _ _)).distinct hc
    exact .of_nodes ((Later.refl _ c.repository).link rfl kind super) hdistinct rfl
  · rintro id flag rfl
    exact .of_nodes ((Later.refl _ c.repository).markInterface id flag)
      ((markInterface_grows id _ flag).distinct hc) rfl

theorem proceeds_call (hc : c.repository.Distinct) (call : Call σ) :
    c.Proceeds call.operation.Links (c.call call) := by
  have hhand : c.Proceeds call.operation.Links (c.hand call.source) :=
    .of_nodes (.refl _ c.repository) hc rfl
  exact hhand.trans (proceeds_perform hhand.distinct call.operation)

theorem proceeds_calls (hc : c.repository.Distinct) (calls : List (Call σ)) :
    c.Proceeds (fun _ => True) (c.calls calls) := by
  induction calls generalizing c with
  | nil => exact .refl _ hc
  | cons call rest ih =>
      have hfirst := proceeds_call hc call
      exact (hfirst.mono fun _ _ => trivial).trans (ih hfirst.distinct)

end TypeContext

theorem TypeRepository.settled_object : initial.Settled "java/lang/Object" :=
  ⟨objectId, _, rfl, rfl, by decide⟩

/-- Whatever is done with a repository, one thing after the other and with any source
for each: no name is asked for twice, and the root never. A resolution leaves
`unresolved` and does not go back, and a failure is mended only by a supertype that is
stated of that very type. Once it was asked what is above a type, the ancestors that
answered it are kept beside the type, and every later question about it asks nobody,
changes nothing, and is answered from them. -/
theorem resolved_once {σ : Type} [ClassSource σ] (source : σ) (calls : List (Call σ)) :
    let c := (TypeContext.ofSource (Recorder.mk source [])).calls calls
    c.source.asked.Nodup ∧ "java/lang/Object" ∉ c.source.asked ∧
    (∀ call id old, c.repository.node? id = some old →
      ∃ new, (c.call call).repository.node? id = some new ∧
        Resolution.Moves (call.operation.Links id) old.resolution new.resolution) ∧
    ∀ first sub super, (c.repository.node? sub).isSome →
      ∃ found : Ancestry,
        ((c.hand first).isSubtype sub super).1 = found.contains super ∧
        (∃ node,
          ((c.hand first).isSubtype sub super).2.repository.node? sub = some node ∧
          node.ancestry = some found) ∧
        ∀ later second other,
          let c' := (((c.hand first).isSubtype sub super).2.calls later).hand second
          c'.isSubtype sub other = (found.contains other, c') := by
  intro c
  have hrun : (TypeContext.ofSource (Recorder.mk source [])).Proceeds _ c :=
    TypeContext.proceeds_calls kept_initial.distinct calls
  obtain ⟨names, hasked, hnodup, hnames⟩ := hrun.asked
  rw [show c.source.asked = names from hasked]
  refine ⟨hnodup, ?_, ?_, ?_⟩
  · intro hobject
    exact (hnames _ hobject).1 settled_object
  · intro call id old hold
    obtain ⟨new, hnew, hlater⟩ :=
      (TypeContext.proceeds_call hrun.distinct call).nodes id old hold
    exact ⟨new, hnew, hlater.moves⟩
  · intro first sub super hsub
    obtain ⟨found, hanswer, node, hnode, hfound⟩ :=
      TypeContext.isSubtype_answer (c := c.hand first) hrun.distinct hsub super
    refine ⟨found, hanswer, ⟨node, hnode, hfound⟩, ?_⟩
    intro later second other c'
    -- The ancestors stand beside the type, and no later operation replaces them.
    have hasks : (c.hand first).Proceeds (fun _ => True)
        ((c.hand first).isSubtype sub super).2 :=
      TypeContext.proceeds_isSubtype (c := c.hand first) hrun.distinct sub super
    obtain ⟨new, hnew, hlater⟩ :=
      (TypeContext.proceeds_calls hasks.distinct later).nodes sub node hnode
    have hkept : (c'.repository.node? sub).bind TypeNode.ancestry = some found := by
      rw [show c'.repository.node? sub = some new from hnew, Option.bind_some,
        hlater.ancestry found hfound]
    exact TypeContext.isSubtype_kept hkept

/-- Arrays of dogs are placed where dogs are known, and an interface of dogs where
nothing is. -/
def kennel : List (Call Classpath) :=
  [⟨pets, .request (.signature "[[LDog;")⟩, ⟨pets, .superclass 2⟩,
    ⟨.empty, .resolve 4⟩]

/-- The missing interface is placed by hand afterwards. Arrays of dogs are objects
before and after, and not dogs: that dogs are above them is stated too late to be
seen. -/
theorem resolved_once_kennel :
    let c := (TypeContext.ofSource (Recorder.mk pets [])).calls kennel
    (c.repository.node? 2).isSome ∧
    c.source.asked = ["Dog", "Runnable"] ∧ c.source.asked.Nodup ∧
    (∃ old new, c.repository.node? 4 = some old ∧
      (c.call ⟨.empty, .link 4 .interface 3⟩).repository.node? 4 = some new ∧
      old.resolution = .failed ⟨"Runnable"⟩ ∧
      Resolution.Moves (4 = 4) old.resolution new.resolution) ∧
    ((c.hand pets).isSubtype 2 0).1 = true ∧ ((c.hand pets).isSubtype 2 1).1 = false ∧
    let c' := (((c.hand pets).isSubtype 2 0).2.calls
      [⟨pets, .link 2 .interface 1⟩]).hand .empty
    c'.isSubtype 2 0 = (true, c') ∧ c'.isSubtype 2 1 = (false, c') := by
  intro c
  obtain ⟨hnodup, _, hmoves, hkept⟩ := resolved_once pets kennel
  have harray : (c.repository.node? 2).isSome := by decide +kernel
  have hinterface : ∃ old, c.repository.node? 4 = some old ∧
      old.resolution = .failed ⟨"Runnable"⟩ := by
    have hfailed : (c.repository.node? 4).map TypeNode.resolution =
      some (.failed ⟨"Runnable"⟩) := by decide +kernel
    simpa using hfailed
  obtain ⟨old, hold, hfailed⟩ := hinterface
  obtain ⟨new, hnew, hnext⟩ := hmoves ⟨.empty, .link 4 .interface 3⟩ 4 old hold
  have hobjects : ((c.hand pets).isSubtype 2 0).1 = true := by decide +kernel
  have hdogs : ((c.hand pets).isSubtype 2 1).1 = false := by decide +kernel
  obtain ⟨found, hanswer, ⟨node, hnode, hfound⟩, hlater⟩ := hkept pets 2 0 harray
  have hobject : found.contains 0 = true := hanswer.symm.trans hobjects
  -- The ancestors are the same whatever was asked first.
  have hdog : found.contains 1 = false := by
    have hasked : (((c.hand pets).isSubtype 2 0).2.repository.node? 2).bind
        TypeNode.ancestry = some found := by
      rw [hnode, Option.bind_some, hfound]
    have hreached : ((((c.hand pets).isSubtype 2 0).2.repository.node? 2).bind
        TypeNode.ancestry).map (·.contains 1) = some false := by decide +kernel
    rw [hasked] at hreached
    exact Option.some.inj hreached
  refine ⟨harray, by decide +kernel, hnodup, ⟨old, new, hold, hnew, hfailed, hnext⟩,
    hobjects, hdogs, ?_, ?_⟩
  · rw [hlater _ _ 0, hobject]
  · rw [hlater _ _ 1, hdog]

end ClassAudit
