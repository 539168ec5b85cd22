import ClassAudit.Proofs.BreadthFirst
import ClassAudit.Proofs.Subtyping

/-!
# Which classes are reported as missing

The first question about a type leaves behind the types above it and the names of the
classes that could not be placed on the way. That list tells how far an answer can be
trusted. It names each class once that hides a part of the hierarchy, in the order in
which a search comes across them, and nothing that was asked before can change it
(`missing_classes_exact`).

What is kept for a type stands beside it from the first question on, through whatever
happens to the repository later. So the proof is an invariant of reached contexts: all
that is kept is in order (`Recorded`). For that it has to be known that placing types,
which changes nodes in many ways, never makes up ancestors. `Lasting` says it once for
every operation.
-/

namespace ClassAudit

open TypeRepository

/-! ## What placing a type cannot change -/

/-- Something about repositories that is kept when a type is held, and when anything is
noted about a type except its ancestors. -/
structure TypeRepository.Lasting (p : TypeRepository → Prop) : Prop where
  hold : ∀ r type, p r → p (r.hold type).2
  note : ∀ r id change, (∀ node, TypeNode.ancestry (change node) = node.ancestry) →
    p r → p (r.update id change)

namespace TypeRepository.Lasting

variable {p : TypeRepository → Prop} {r : TypeRepository}

theorem intern (hp : Lasting p) (h : p r) (type : JavaType) :
    p (r.intern type).2 := by
  unfold TypeRepository.intern
  split
  · exact hp.hold r type h
  · exact hp.hold _ type (hp.hold r _ h)

theorem connectLinks (hp : Lasting p) (h : p r) (id : TypeId) (links : List Link) :
    p (r.connectLinks id links) := by
  induction links generalizing r with
  | nil => exact h
  | cons link rest ih =>
      have hintern := hp.intern h link.2
      exact ih (hp.note _ id _ (fun _ => rfl) hintern)

theorem placeClass (hp : Lasting p) (h : p r) (id : TypeId) (facts : ClassFacts) :
    p (TypeContext.placeClass r id facts) := by
  rw [placeClass_eq]
  have hlinks := hp.connectLinks h id facts.stated
  exact hp.note _ id _ (fun _ => rfl) hlinks

variable {σ : Type} {c : TypeContext σ}

theorem settle (hp : Lasting p) (h : p c.repository) (id : TypeId) (type : JavaType)
    (outcome : Except ClassNotFound Unit) :
    p (c.settle id type outcome).2.repository := by
  cases outcome with
  | ok => exact hp.note _ id _ (fun _ => rfl) h
  | error cause => exact hp.note _ id _ (fun _ => rfl) h

variable [ClassSource σ]

theorem resolveClass (hp : Lasting p) (h : p c.repository) (id : TypeId)
    (name : String) : p (c.resolveClass id name).2.repository := by
  have hask : p (c.askClass id name).2.repository := by
    unfold TypeContext.askClass
    split
    · exact hp.placeClass h id _
    · exact h
  unfold TypeContext.resolveClass
  split
  · exact h
  · exact h
  · exact h
  · exact hp.settle hask id _ _

theorem deriveArray (hp : Lasting p) (h : p c.repository) (id : TypeId)
    (dimensions : Nat) (name : String) :
    p (c.deriveArray id dimensions name).2.repository := by
  have hclass : p ((c.intern (.named name)).2.resolveClass
      (c.intern (.named name)).1 name).2.repository :=
    hp.resolveClass (c := (c.intern (.named name)).2)
      (hp.intern h (.named name)) _ name
  unfold TypeContext.deriveArray
  dsimp only
  split
  · next hresult =>
      rw [hresult] at hclass
      exact hclass
  · next hresult =>
      rw [hresult] at hclass
      split
      · exact hclass
      · show p (TypeContext.placeArrayOver _ id dimensions _)
        rw [placeArrayOver_connectLinks]
        exact hp.connectLinks hclass id _

theorem resolve (hp : Lasting p) (h : p c.repository) (id : TypeId) :
    p (c.resolve id).2.repository := by
  have harray (type : JavaType) : p (c.resolveArray id type).2.repository := by
    unfold TypeContext.resolveArray
    dsimp only
    split
    · exact hp.connectLinks h id ((.superclass, .object) :: arrayLinks)
    · split
      · exact hp.connectLinks h id ((.superclass, _) :: arrayLinks)
      · exact hp.deriveArray h id _ _
  unfold TypeContext.resolve
  split
  · exact h
  · split
    · exact h
    · exact h
    · split
      · exact hp.settle h id _ _
      · exact hp.resolveClass h id _
      · exact hp.settle (harray _) id _ _

end TypeRepository.Lasting

/-! ## What is kept -/

/-- The ancestors that are kept in the second repository were kept in the first. -/
def TypeRepository.Recalls (r r' : TypeRepository) : Prop :=
  ∀ id node found, r'.node? id = some node → node.ancestry = some found →
    ∃ old, r.node? id = some old ∧ old.ancestry = some found

theorem TypeRepository.Recalls.refl (r : TypeRepository) : r.Recalls r :=
  fun _ node _ hnode hfound => ⟨node, hnode, hfound⟩

theorem TypeRepository.lasting_recalls (r : TypeRepository) :
    Lasting (Recalls r) := by
  constructor
  · intro r' type h id node found hnode hfound
    rcases hold_added hnode with hold | ⟨hfresh, -⟩
    · exact h id node found hold hfound
    · rw [hfresh] at hfound
      cases hfound
  · intro r' id change hancestry h j node found hnode hfound
    rw [node?_update] at hnode
    split at hnode
    · obtain ⟨old, hold, rfl⟩ := Option.map_eq_some_iff.1 hnode
      rw [hancestry] at hfound
      exact h j old found hold hfound
    · exact h j node found hnode hfound

/-- All that is kept is in order. -/
def TypeRepository.Recorded (table : Classpath) (r : TypeRepository) : Prop :=
  ∀ id node found, r.node? id = some node → node.ancestry = some found →
    Listed table r node.type found

section Recorded

variable {table : Classpath} {r r' : TypeRepository} {c c' : TypeContext Classpath}

theorem Listed.mono {start : JavaType} {found : Ancestry}
    (h : Listed table r start found)
    (htypes : ∀ j type, r.type? j = some type → r'.type? j = some type)
    (htried : ∀ j, r.Tried j → r'.Tried j) : Listed table r' start found where
  reached := h.reached.mono htypes
  missing := h.missing
  tried := fun j hj => htried j (h.tried j hj)

theorem Advances.tried (h : Advances table c c') (id : TypeId)
    (hid : c.repository.Tried id) : c'.repository.Tried id := by
  obtain ⟨node, hnode, hresolution⟩ := hid
  exact ⟨node, h.settled id node hnode hresolution, hresolution⟩

theorem TypeRepository.Recorded.advances (h : c.repository.Recorded table)
    (hadvances : Advances table c c') (hrecalls : c.repository.Recalls c'.repository) :
    c'.repository.Recorded table := by
  intro id node found hnode hfound
  obtain ⟨old, hold, hkept⟩ := hrecalls id node found hnode hfound
  rw [node_type (hadvances.types id old.type (type?_of_node? hold)) hnode]
  exact (h id old found hold hkept).mono hadvances.types hadvances.tried

theorem TypeRepository.Recorded.keepAncestry (h : r.Recorded table) {id : TypeId}
    {found : Ancestry}
    (hfound : ∀ start, r.type? id = some start → Listed table r start found) :
    (r.keepAncestry id found).Recorded table := by
  have hgrows : Grows id r (r.keepAncestry id found) := grows_update id r fun _ => rfl
  have htried : ∀ j, r.Tried j → (r.keepAncestry id found).Tried j := by
    intro j hj
    obtain ⟨node, hnode, hresolution⟩ := hj
    rw [Tried, TypeRepository.keepAncestry, node?_update]
    split
    · rw [hnode]
      exact ⟨_, rfl, hresolution⟩
    · exact ⟨node, hnode, hresolution⟩
  intro j node kept hnode hkept
  rw [TypeRepository.keepAncestry, node?_update] at hnode
  split at hnode
  · next hid =>
      obtain ⟨old, hold, rfl⟩ := Option.map_eq_some_iff.1 hnode
      cases hkept
      rw [← hid] at hold
      exact (hfound old.type (type?_of_node? hold)).mono hgrows.types htried
  · exact (h j node kept hnode hkept).mono hgrows.types htried

end Recorded

namespace TypeContext

variable {table : Classpath} {c : TypeContext Classpath}

theorem recorded_resolve (hs : c.repository.Sound table)
    (hsource : c.source.classes = table.classes) (h : c.repository.Recorded table)
    (id : TypeId) : (c.resolve id).2.repository.Recorded table := by
  cases hnode : c.repository.node? id with
  | none =>
      rw [resolve_unheld hnode]
      exact h
  | some node =>
      have hadvances := (resolve_resolves hs hsource hnode).advances
      exact h.advances hadvances ((lasting_recalls _).resolve (.refl _) id)

theorem recorded_isSubtype (hs : c.repository.Sound table)
    (hsource : c.source.classes = table.classes) (h : c.repository.Recorded table)
    (sub super : TypeId) : (c.isSubtype sub super).2.repository.Recorded table := by
  cases hkept : (c.repository.node? sub).bind TypeNode.ancestry with
  | some found =>
      rw [isSubtype_kept hkept]
      exact h
  | none =>
      rw [isSubtype_search hkept]
      cases hnode : c.repository.node? sub with
      | none =>
          -- What was found is kept with a type, and here there is none.
          have hcontext : (c.searchAncestors sub).context = c := run_unheld hnode _
          refine Recorded.keepAncestry ?_ fun start hstart => ?_
          · rw [hcontext]
            exact h
          · rw [hcontext, type?, hnode] at hstart
            cases hstart
      | some node =>
          have hsub := type?_of_node? hnode
          have hadvances := (searchAncestors_exact hs hsource hsub).2.1
          have hrecalls : c.repository.Recalls
              (c.searchAncestors sub).context.repository :=
            Search.run_keeps (p := fun c' => c.repository.Recalls c'.repository)
              (fun _ id h => (lasting_recalls _).resolve h id) _ _ (.refl _)
          refine (h.advances hadvances hrecalls).keepAncestry fun start hstart => ?_
          have hsame := hadvances.types sub node.type hsub
          rw [hstart] at hsame
          cases hsame
          exact searchAncestors_listed hs hsource hsub

/-- Whatever was done, all that is kept is in order. -/
theorem Reached.recorded (h : Reached table c) : c.repository.Recorded table := by
  induction h with
  | start =>
      intro id node found hnode hfound
      cases id with
      | zero =>
          cases hnode
          cases hfound
      | succ n => cases hnode
  | @perform c hc operation asks ih =>
      obtain ⟨hsource, hs⟩ := hc.sound
      refine perform_asks (p := fun c' => c'.repository.Recorded table) asks ih ?_
        (recorded_resolve hs hsource ih) (recorded_isSubtype hs hsource ih)
      intro type
      have hrecalls := (lasting_recalls _).intern (.refl c.repository) type
      exact ih.advances (.intern hs type) hrecalls

end TypeContext

/-! ## The list -/

section Report

variable {table : Classpath} {r : TypeRepository} {start : JavaType}
  {found : Ancestry}

theorem AncestrySound.mem_missing (h : AncestrySound table r start found)
    {name : String} :
    name ∈ found.missing ↔
      table.Lacks name ∧ ∃ n, Ancestor table start ⟨n, .named name⟩ := by
  rw [h.missing name]
  constructor
  · intro hname
    obtain ⟨⟨n, element⟩, habove, hlinks, helement⟩ := hname
    obtain ⟨other, hother, hlacks⟩ := Classpath.links?_eq_none.1 hlinks
    cases helement
    cases hother
    exact ⟨hlacks, n, habove⟩
  · intro hname
    obtain ⟨hlacks, n, habove⟩ := hname
    exact ⟨⟨n, .named name⟩, habove,
      Classpath.links?_eq_none.2 ⟨name, rfl, hlacks⟩, rfl⟩

theorem Listed.mem_breadthFirst (h : Listed table r start found) (hr : r.Distinct)
    (hs : AncestrySound table r start found) {type : JavaType} :
    type ∈ table.breadthFirst start ↔ Ancestor table start type := by
  constructor
  · intro htype
    obtain ⟨id, hid, hheld⟩ := h.reached.exists_of_mem htype
    obtain ⟨above, habove, hancestor⟩ := hs.sound id hid
    rw [hheld] at habove
    cases habove
    exact hancestor
  · intro habove
    obtain ⟨id, hid, hheld⟩ := hs.complete type habove
    exact (h.reached.mem_iff hr hheld).1 hid

/-- A type that was tried is known, or the table lacks its class and it failed by
that. -/
theorem TypeRepository.Sound.known_or_failed (hs : r.Sound table) {node : TypeNode}
    {id : TypeId} (hnode : r.node? id = some node) (htried : r.Tried id) :
    node.resolution = .known ∨ ∃ name, node.type.element = .named name ∧
      table.Lacks name ∧ node.resolution = .failed ⟨name⟩ := by
  obtain ⟨_, hsame, hresolution⟩ := htried
  cases hnode.symm.trans hsame
  cases hres : node.resolution with
  | unresolved => exact absurd hres hresolution
  | known => exact .inl rfl
  | failed cause =>
      obtain ⟨-, hlinks, helement⟩ := (hs.nodes id node hnode).failed cause hres
      obtain ⟨name, hname, hlacks⟩ := Classpath.links?_eq_none.1 hlinks
      rw [helement] at hname
      cases hname
      exact .inr ⟨cause.name, helement, hlacks, rfl⟩

theorem TypeRepository.Sound.not_lacks (hs : r.Sound table) {node : TypeNode}
    {id : TypeId} (hnode : r.node? id = some node) (hknown : node.resolution = .known)
    {n : Nat} {name : String} (htype : node.type = ⟨n, .named name⟩) :
    ¬ table.Lacks name := by
  intro hlacks
  obtain ⟨-, links, hlinks, -⟩ := (hs.nodes id node hnode).known hknown
  have hnone : table.links? node.type = none := by
    rw [Classpath.links?_eq_none, htype]
    exact ⟨name, rfl, hlacks⟩
  rw [hlinks] at hnone
  cases hnone

/-- A type that cannot be placed is among those reached all the same. -/
theorem AncestrySound.exists_failed (h : AncestrySound table r start found)
    (hs : r.Sound table) (htried : ∀ j ∈ found.reached, r.Tried j) {name : String}
    {n : Nat} (hlacks : table.Lacks name)
    (habove : Ancestor table start ⟨n, .named name⟩) :
    ∃ id ∈ found.reached, ∃ above, r.node? id = some above ∧
      above.type = ⟨n, .named name⟩ ∧ above.resolution = .failed ⟨name⟩ := by
  obtain ⟨id, hid, hheld⟩ := h.complete _ habove
  obtain ⟨above, hnode, htype⟩ := type?_eq_some.1 hheld
  refine ⟨id, hid, above, hnode, htype, ?_⟩
  rcases hs.known_or_failed hnode (htried id hid) with
    hknown | ⟨other, helement, -, hfailed⟩
  · exact absurd hlacks (hs.not_lacks hnode hknown htype)
  · rw [htype] at helement
    cases helement
    exact hfailed

theorem AncestrySound.missing_eq_nil (h : AncestrySound table r start found)
    (hs : r.Sound table) (htried : ∀ j ∈ found.reached, r.Tried j) :
    found.missing = [] ↔ ∀ type, Ancestor table start type →
      ∃ id above, r.node? id = some above ∧ above.type = type ∧
        above.resolution = .known := by
  constructor
  · intro hempty type habove
    obtain ⟨id, hid, hheld⟩ := h.complete type habove
    obtain ⟨above, hnode, rfl⟩ := type?_eq_some.1 hheld
    rcases hs.known_or_failed hnode (htried id hid) with
      hknown | ⟨name, helement, hlacks, -⟩
    · exact ⟨id, above, hnode, rfl, hknown⟩
    · rw [JavaType.eq_mk rfl helement] at habove
      have hmem := h.mem_missing.2 ⟨hlacks, _, habove⟩
      rw [hempty] at hmem
      cases hmem
  · intro hall
    rw [List.eq_nil_iff_forall_not_mem]
    intro name hname
    obtain ⟨hlacks, n, habove⟩ := h.mem_missing.1 hname
    obtain ⟨id, above, hnode, htype, hknown⟩ := hall _ habove
    exact hs.not_lacks hnode hknown htype hlacks

end Report

/-- The missing classes that are kept with a type once it has been asked about. They
are the classes the table lacks that are above the type or have arrays that are, each
named once and in the order in which going up breadth first comes across them. The
types that cannot be placed are ancestors nevertheless. Contexts that were asked other
questions before have the same list, and it is empty if all ancestors are known. -/
theorem missing_classes_exact {table : Classpath} {c : TypeContext Classpath}
    (hc : TypeContext.Reached table c) {sub : TypeId} {start : JavaType}
    (hsub : c.repository.type? sub = some start) (super : TypeId) :
    ∃ node found, (c.isSubtype sub super).2.repository.node? sub = some node ∧
      node.ancestry = some found ∧
      (∀ name, name ∈ found.missing ↔
        table.Lacks name ∧ ∃ n, Ancestor table start ⟨n, .named name⟩) ∧
      found.missing.Nodup ∧
      (∀ type, type ∈ table.breadthFirst start ↔ Ancestor table start type) ∧
      (c.isSubtype sub super).2.repository.Holds found.reached
        (table.breadthFirst start) ∧
      found.missing =
        ((table.breadthFirst start).filterMap table.missing?).eraseDups ∧
      (∀ name n, table.Lacks name → Ancestor table start ⟨n, .named name⟩ →
        ∃ id ∈ found.reached, ∃ above,
          (c.isSubtype sub super).2.repository.node? id = some above ∧
          above.type = ⟨n, .named name⟩ ∧ above.resolution = .failed ⟨name⟩) ∧
      (∀ c' sub' super' node' found', TypeContext.Reached table c' →
        c'.repository.type? sub' = some start →
        (c'.isSubtype sub' super').2.repository.node? sub' = some node' →
        node'.ancestry = some found' → found'.missing = found.missing) ∧
      (found.missing = [] ↔ ∀ type, Ancestor table start type →
        ∃ id above, (c.isSubtype sub super).2.repository.node? id = some above ∧
          above.type = type ∧ above.resolution = .known) := by
  obtain ⟨hsource, hs⟩ := hc.sound
  obtain ⟨⟨-, hs', -, -⟩, node, found, hnode, rfl, hfound, -⟩ :=
    TypeContext.isSubtype_asked hs hsource hsub super
  have hlisted := (hc.isSubtype sub super).recorded sub node found hnode hfound
  have hexact := ((hs'.nodes sub node hnode).ancestry found hfound).2
  refine ⟨node, found, hnode, hfound, fun name => hexact.mem_missing, ?_,
    fun type => hlisted.mem_breadthFirst hs'.distinct hexact, hlisted.reached,
    hlisted.missing, fun name n => hexact.exists_failed hs' hlisted.tried, ?_,
    hexact.missing_eq_nil hs' hlisted.tried⟩
  · rw [hlisted.missing]
    exact nodup_eraseDups _
  · intro c' sub' super' node' found' hc' hsub' hnode' hfound'
    have hlisted' :=
      (hc'.isSubtype sub' super').recorded sub' node' found' hnode' hfound'
    have hsame :=
      node_type ((TypeContext.edits_isSubtype c' sub' super').types hsub') hnode'
    rw [hlisted'.missing, hsame, hlisted.missing]

/-- Above an array of arrays of dogs an interface is missing, and so are the two that
arrays have. -/
theorem missing_classes_exact_pets :
    petContext.repository.type? 2 = some (.array 2 (.named "Dog")) ∧
      ∃ node found, (petContext.isSubtype 2 1).2.repository.node? 2 = some node ∧
        node.ancestry = some found ∧
        found.missing =
          ["Runnable", "java/io/Serializable", "java/lang/Cloneable"] := by
  have hsub : petContext.repository.type? 2 =
      some (.array 2 (.named "Dog")) := by decide +kernel
  obtain ⟨node, found, hnode, hfound, -, -, -, -, hmissing, -⟩ :=
    missing_classes_exact petContext_reached hsub 1
  refine ⟨hsub, node, found, hnode, hfound, ?_⟩
  rw [hmissing]
  decide +kernel

end ClassAudit
