import ClassAudit.Proofs.ImpossibleCasts
import ClassAudit.Proofs.RepositoryEdits

/-!
# The verdict on a cast is one on the table

A cast is called impossible if its types are severed, and that is all there is to
it: what was held, resolved or asked before plays no part (`alwaysFails_iff`).

One direction is that the rule is right when it calls. The other one needs that it
does not hold back. It looks at three things that questions leave behind, and two
of them are about the types asked for. The third is whether the elements are known
to be no interfaces, and for an array that is a type which nobody asked for. But an
array is placed by way of the class below it, so where an array is known its
element is too (`Founded`).
-/

namespace ClassAudit

namespace TypeRepository

variable {r r' : TypeRepository} {id : TypeId}

/-- A type is held, and its direct supertypes are known. -/
def Knows (r : TypeRepository) (type : JavaType) : Prop :=
  ∃ id node, r.node? id = some node ∧ node.type = type ∧ node.resolution = .known

/-- The root is known, and so is the class below every array that is. -/
structure Founded (r : TypeRepository) : Prop where
  root : r.Knows .object
  elements : ∀ n name, r.Knows ⟨n + 1, .named name⟩ → r.Knows (.named name)

theorem founded_initial : initial.Founded where
  root := ⟨0, _, rfl, rfl, rfl⟩
  elements := by
    rintro n name ⟨id, node, hnode, htype, _⟩
    cases id with
    | zero =>
        cases hnode
        cases htype
    | succ id => cases hnode

/-- What is known stays known when another type is placed. -/
theorem Knows.grows {type : JavaType} (h : r.Knows type) (hg : Grows id r r')
    (hid : ∀ node, r.node? id = some node → node.resolution ≠ .known) :
    r'.Knows type := by
  obtain ⟨j, node, hnode, htype, hknown⟩ := h
  refine ⟨j, node, hg.others j node ?_ hnode, htype, hknown⟩
  rintro rfl
  exact hid node hnode hknown

theorem fresh_not_known {n : Nat} {name : String} {node : TypeNode}
    (hfresh : node = .fresh node.type) (htype : node.type = ⟨n + 1, .named name⟩) :
    node.resolution ≠ .known := by
  rw [hfresh, htype]
  exact Resolution.noConfusion

/-- Placing a type keeps the foundations, if the class below it is known. -/
theorem Founded.grows (h : r.Founded) (hg : Grows id r r')
    (hid : ∀ node, r.node? id = some node → node.resolution ≠ .known)
    (hplaced : ∀ node n name, r'.node? id = some node →
      node.type = ⟨n + 1, .named name⟩ → node.resolution = .known →
      r.Knows (.named name)) : r'.Founded where
  root := h.root.grows hg hid
  elements := by
    rintro n name ⟨j, node, hnode, htype, hknown⟩
    refine Knows.grows ?_ hg hid
    by_cases hj : j = id
    · subst hj
      exact hplaced node n name hnode htype hknown
    · rcases hg.added j node hj hnode with hold | ⟨hfresh, _⟩
      · exact h.elements n name ⟨j, node, hold, htype, hknown⟩
      · exact absurd hknown (fresh_not_known hfresh htype)

theorem Founded.intern (h : r.Founded) (type : JavaType) :
    (r.intern type).2.Founded := by
  refine h.grows (intern_grows (r.intern type).2.size r type) ?_ ?_
  · intro node hnode
    have hkept : (r.intern type).2.node? _ = some node := intern_node? hnode
    rw [node?_size] at hkept
    cases hkept
  · intro node n name hnode
    rw [node?_size] at hnode
    cases hnode

theorem knows_keepAncestry {ancestry : Ancestry} {type : JavaType} :
    (r.keepAncestry id ancestry).Knows type ↔ r.Knows type := by
  unfold Knows
  refine exists_congr fun j => ?_
  rw [keepAncestry, node?_update]
  split
  · constructor
    · rintro ⟨node, hnode, htype, hknown⟩
      obtain ⟨old, hold, rfl⟩ := Option.map_eq_some_iff.1 hnode
      exact ⟨old, hold, htype, hknown⟩
    · rintro ⟨node, hnode, htype, hknown⟩
      refine ⟨{ node with ancestry := some ancestry }, ?_, htype, hknown⟩
      rw [hnode, Option.map_some]
  · exact Iff.rfl

theorem Founded.keepAncestry (h : r.Founded) (id : TypeId) (ancestry : Ancestry) :
    (r.keepAncestry id ancestry).Founded where
  root := knows_keepAncestry.2 h.root
  elements := fun n name hknows =>
    knows_keepAncestry.2 (h.elements n name (knows_keepAncestry.1 hknows))

end TypeRepository

open TypeRepository

/-! ## Foundations are kept -/

namespace TypeContext

section Founded

variable {σ : Type} {c c' : TypeContext σ} {id : TypeId} {node : TypeNode}

/-- A node that was settled shows the outcome. -/
theorem settle_node? (hnode : c.repository.node? id = some node) (type : JavaType)
    (outcome : Except ClassNotFound Unit) :
    (c.settle id type outcome).2.repository.node? id =
      some { node with resolution := .ofOutcome outcome } := by
  have hsettled : (c.settle id type outcome).2.repository =
      c.repository.setResolution id (.ofOutcome outcome) := by
    cases outcome <;> rfl
  rw [hsettled, setResolution, node?_update, if_pos rfl, hnode]
  rfl

/-- Settling a type keeps the foundations. If it went well, the class below the type
has to be known. -/
theorem founded_settle (h : c.repository.Founded)
    (hnode : c.repository.node? id = some node)
    (hres : node.resolution = .unresolved)
    (hedits : EditsAt id c.repository c'.repository)
    (outcome : Except ClassNotFound Unit)
    (helement : outcome = .ok () → ∀ n name, node.type = ⟨n + 1, .named name⟩ →
      c.repository.Knows (.named name)) :
    (c'.settle id node.type outcome).2.repository.Founded := by
  have hgrows := hedits.grows.trans (edits_settle c' id node.type outcome).grows
  refine h.grows hgrows ?_ ?_
  · intro other hother
    cases hnode.symm.trans hother
    rw [hres]
    exact Resolution.noConfusion
  · intro placed n name hplaced htype hknown
    obtain ⟨before, hbefore, _⟩ :=
      type?_eq_some.1 (hedits.grows.types id _ (type?_of_node? hnode))
    have hshows := settle_node? hbefore node.type outcome
    have hkept := hgrows.types id _ (type?_of_node? hnode)
    rw [type?_of_node? hplaced, htype] at hkept
    refine helement ?_ n name (Option.some.inj hkept).symm
    cases hplaced.symm.trans hshows
    cases outcome with
    | ok => rfl
    | error cause => cases hknown

variable [ClassSource σ]

/-- Once a class was placed, it is known. -/
theorem resolveClass_knows {name : String}
    (hnode : c.repository.node? id = some node) (htype : node.type = .named name)
    (h : c.resolveClass id name = (.ok (), c')) :
    c'.repository.Knows (.named name) := by
  rw [resolveClass, hnode, Option.map_some] at h
  cases hres : node.resolution with
  | known =>
      rw [hres] at h
      cases h
      exact ⟨id, node, hnode, htype, hres⟩
  | failed cause =>
      rw [hres] at h
      cases h
  | unresolved =>
      rw [hres] at h
      dsimp only at h
      obtain ⟨asked, hasked, htype'⟩ := type?_eq_some.1
        ((edits_askClass c id name).grows.types id _ (type?_of_node? hnode))
      have hshows := settle_node? hasked (.named name) (c.askClass id name).1
      rw [h] at hshows
      refine ⟨id, _, hshows, htype'.trans htype, ?_⟩
      cases houtcome : (c.askClass id name).1 with
      | ok => rfl
      | error cause =>
          rw [houtcome] at h
          cases h

theorem founded_resolveClass (h : c.repository.Founded)
    (hnode : c.repository.node? id = some node) {name : String}
    (htype : node.type = .named name) :
    (c.resolveClass id name).2.repository.Founded := by
  rw [resolveClass, hnode, Option.map_some]
  cases hres : node.resolution with
  | known | failed cause => exact h
  | unresolved =>
      dsimp only
      rw [← htype]
      refine founded_settle h hnode hres (edits_askClass c id _) _ ?_
      intro _ n other hother
      rw [htype] at hother
      cases hother

/-- An array that is derived from the class below it. The class is another type, so
the array is still to be placed when the class has been. -/
theorem founded_deriveArray (h : c.repository.Founded)
    (hnode : c.repository.node? id = some node)
    (hres : node.resolution = .unresolved) {n : Nat} {name : String}
    (htype : node.type = ⟨n + 1, .named name⟩) :
    ((c.deriveArray id (n + 1) name).2.settle id node.type
      (c.deriveArray id (n + 1) name).1).2.repository.Founded := by
  obtain ⟨element, helement, hname⟩ : ∃ element,
      (c.intern (.named name)).2.repository.node? (c.intern (.named name)).1 =
        some element ∧ element.type = .named name :=
    type?_eq_some.1 (intern_type? c.repository (.named name))
  have hnode' : (c.intern (.named name)).2.repository.node? id = some node := by
    show (c.repository.intern (.named name)).2.node? id = some node
    exact TypeRepository.intern_node? hnode
  have hne : id ≠ (c.intern (.named name)).1 := by
    intro heq
    rw [heq] at hnode'
    cases helement.symm.trans hnode'
    rw [htype] at hname
    cases hname
  have hintern : (c.intern (.named name)).2.repository.Founded :=
    h.intern (.named name)
  have hclass := founded_resolveClass hintern helement hname
  have hkept := (edits_resolveClass (c.intern (.named name)).2
    (c.intern (.named name)).1 name).grows.others id node hne hnode'
  have hknows : ∀ c', (c.intern (.named name)).2.resolveClass
      (c.intern (.named name)).1 name = (.ok (), c') →
      c'.repository.Knows (.named name) :=
    fun c' => resolveClass_knows helement hname
  unfold deriveArray
  dsimp only
  generalize (c.intern (.named name)).2.resolveClass (c.intern (.named name)).1
    name = result at hclass hkept hknows ⊢
  obtain ⟨outcome, c'⟩ := result
  cases outcome with
  | error cause =>
      exact founded_settle hclass hkept hres .refl (.error cause) nofun
  | ok =>
      have hbelow : ∀ m other, node.type = ⟨m + 1, .named other⟩ →
          c'.repository.Knows (.named other) := by
        intro m other hother
        cases htype.symm.trans hother
        exact hknows c' rfl
      dsimp only
      split
      · exact founded_settle hclass hkept hres .refl (.ok ()) fun _ => hbelow
      · exact founded_settle hclass hkept hres
          (edits_placeArrayOver _ id (n + 1) _) (.ok ()) fun _ => hbelow

theorem founded_resolveArray (h : c.repository.Founded)
    (hnode : c.repository.node? id = some node)
    (hres : node.resolution = .unresolved) {n : Nat} {element : ElementType}
    (htype : node.type = ⟨n + 1, element⟩) :
    ((c.resolveArray id node.type).2.settle id node.type
      (c.resolveArray id node.type).1).2.repository.Founded := by
  have hbelow (superclass : JavaType) : EditsAt id c.repository
      (placeArray (c.repository.connectTo id .superclass superclass) id) :=
    (edits_connectTo _ id .superclass superclass).trans (edits_placeArray _ id)
  unfold resolveArray
  dsimp only
  split
  · next basic hbasic =>
      refine founded_settle h hnode hres (hbelow .object) (.ok ()) ?_
      intro _ m name hname
      rw [hname] at hbasic
      cases hbasic
  · next name hname =>
      split
      · next hobject =>
          refine founded_settle h hnode hres (hbelow _) (.ok ()) ?_
          intro _ m other hother
          rw [hother] at hname
          cases hname
          rw [hobject]
          exact h.root
      · have hdimensions : node.type.dimensions = n + 1 := by rw [htype]
        rw [hdimensions]
        exact founded_deriveArray h hnode hres (JavaType.eq_mk hdimensions hname)

theorem founded_resolve (h : c.repository.Founded) (id : TypeId) :
    (c.resolve id).2.repository.Founded := by
  unfold resolve
  split
  · exact h
  · next node hnode =>
      split
      · exact h
      · exact h
      · next hres =>
          split
          · next hdimensions _ =>
              refine founded_settle h hnode hres .refl (.ok ()) ?_
              intro _ n name htype
              rw [htype] at hdimensions
              cases hdimensions
          · next hdimensions helement =>
              exact founded_resolveClass h hnode
                (JavaType.eq_mk hdimensions helement)
          · next n hdimensions =>
              exact founded_resolveArray h hnode hres (JavaType.eq_mk hdimensions rfl)

theorem founded_isSubtype (h : c.repository.Founded) (sub super : TypeId) :
    (c.isSubtype sub super).2.repository.Founded := by
  unfold isSubtype
  split
  · exact h
  · refine Founded.keepAncestry ?_ sub _
    exact Search.run_keeps (p := fun c => c.repository.Founded)
      (fun _ id hc => founded_resolve hc id) _ _ h

end Founded

/-- A context that has learnt what it knows from a table. -/
structure Fed (table : Classpath) (c : TypeContext Classpath) : Prop where
  source : c.source.classes = table.classes
  sound : c.repository.Sound table
  founded : c.repository.Founded

section Fed

variable {table : Classpath} {c : TypeContext Classpath}

theorem fed_ofSource (table : Classpath) : Fed table (.ofSource table) :=
  ⟨rfl, sound_initial, founded_initial⟩

theorem Fed.intern (h : Fed table c) (type : JavaType) :
    Fed table (c.intern type).2 :=
  ⟨h.source, h.sound.intern type, h.founded.intern type⟩

theorem Fed.internSignature (h : Fed table c) (signature : String) :
    Fed table (c.internSignature signature).2 := by
  unfold TypeContext.internSignature
  split
  · exact h.intern _
  · exact h

theorem Fed.isSubtype (h : Fed table c) (sub super : TypeId) :
    Fed table (c.isSubtype sub super).2 := by
  obtain ⟨hsource, hsound⟩ := isSubtype_keeps h.sound h.source sub super
  exact ⟨hsource, hsound, founded_isSubtype h.founded sub super⟩

end Fed

end TypeContext

/-! ## Verdicts -/

namespace ImpossibleCast

open TypeContext

variable {table : Classpath} {c : TypeContext Classpath}

section Queries

variable {r : TypeRepository} {id : TypeId} {type : JavaType} {node : TypeNode}
  {ancestry : Ancestry}

theorem isIncomplete_eq_false (hs : r.Sound table) (hnode : r.node? id = some node)
    (hancestry : node.ancestry = some ancestry)
    (hcomplete : Complete table node.type) : isIncomplete r id = false := by
  obtain ⟨_, hexact⟩ := (hs.nodes id node hnode).ancestry ancestry hancestry
  have hmissing : ancestry.missing = [] := by
    refine List.eq_nil_iff_forall_not_mem.2 fun name hname => ?_
    obtain ⟨above, habove, hlinks, _⟩ := (hexact.missing name).1 hname
    have hplaces := Classpath.links?_isSome.2 (hcomplete above habove)
    rw [hlinks] at hplaces
    cases hplaces
  rw [isIncomplete, hnode, Option.bind_some, hancestry]
  simp [hmissing]

/-- A type that was asked for is known, if it can be placed. -/
theorem knows_of_ancestry (hs : r.Sound table) (hnode : r.node? id = some node)
    (hancestry : node.ancestry = some ancestry)
    (hcomplete : Complete table node.type) : r.Knows node.type := by
  have hsound := hs.nodes id node hnode
  refine ⟨id, node, hnode, rfl, ?_⟩
  cases hres : node.resolution with
  | known => rfl
  | unresolved => exact absurd hres (hsound.ancestry ancestry hancestry).1
  | failed cause =>
      have hplaces := Classpath.links?_isSome.2 (hcomplete node.type .refl)
      rw [(hsound.failed cause hres).2.1] at hplaces
      cases hplaces

theorem involvesInterface_eq_false (hs : r.Sound table) (hf : r.Founded)
    (htype : r.type? id = some type) (hknows : r.Knows type)
    (hclass : ClassElements table type) : involvesInterface r id = false := by
  obtain ⟨dimensions, element⟩ := type
  cases element with
  | basic basic => rw [involvesInterface, htype]
  | named name =>
      obtain ⟨j, node, hnode, hname, hknown⟩ : r.Knows (.named name) := by
        cases dimensions with
        | zero => exact hknows
        | succ n => exact hf.elements n name hknows
      have hflag : node.interfaceFlag = some false := by
        rw [((hs.nodes j node hnode).known hknown).1, hname]
        exact hclass name rfl
      have hj : r.type? j = some (.named name) := by
        rw [type?_of_node? hnode, hname]
      have hfind : r.find? (.named name) = some j := by
        cases hfind : r.find? (.named name) with
        | none => exact absurd hj (find?_eq_none hfind j)
        | some k => rw [hs.distinct k j _ (find?_eq_some hfind) hj]
      simp only [involvesInterface, htype, hfind, Option.bind_some, hnode]
      simp [TypeNode.isInterface?, hname, JavaType.named, hflag]

end Queries

/-- Casts between types are impossible exactly if the types are severed. -/
theorem isImpossible_iff (h : Fed table c) {source target : TypeId}
    {s t : JavaType} (hsource : c.repository.type? source = some s)
    (htarget : c.repository.type? target = some t) :
    (isImpossible c source target).1 = true ↔ Severed table s t := by
  refine ⟨severed_of_isImpossible h.sound h.source hsource htarget, ?_⟩
  intro hsevered
  obtain ⟨hfirst, node, ancestry, hnode, rfl, hancestry, _⟩ :=
    isSubtype_asked h.sound h.source hsource target
  have hfed := h.isSubtype source target
  have htarget' := hfirst.types target _ htarget
  obtain ⟨hsecond, node', ancestry', hnode', rfl, hancestry', _⟩ :=
    isSubtype_asked hfed.sound hfed.source htarget' source
  have hfed' := hfed.isSubtype target source
  have hkept := hsecond.kept source node ancestry hnode hancestry
  refine (isImpossible_eq_true rfl rfl).2 ⟨?_, ?_, ?_⟩
  · rw [Bool.eq_false_iff, ne_eq,
      isSubtype_exact h.sound h.source hsource htarget]
    exact hsevered.notBelow
  · rw [Bool.eq_false_iff, ne_eq, isSubtype_exact hfed.sound hfed.source htarget'
      (type?_of_node? hnode)]
    exact hsevered.notAbove
  · intro id hid
    rcases List.mem_pair.1 hid with rfl | rfl
    · exact ⟨isIncomplete_eq_false hfed'.sound hkept hancestry
          hsevered.completeLeft,
        involvesInterface_eq_false hfed'.sound hfed'.founded (type?_of_node? hkept)
          (knows_of_ancestry hfed'.sound hkept hancestry hsevered.completeLeft)
          hsevered.left⟩
    · exact ⟨isIncomplete_eq_false hfed'.sound hnode' hancestry'
          hsevered.completeRight,
        involvesInterface_eq_false hfed'.sound hfed'.founded (type?_of_node? hnode')
          (knows_of_ancestry hfed'.sound hnode' hancestry' hsevered.completeRight)
          hsevered.right⟩

theorem isImpossible_fed (h : Fed table c) (source target : TypeId) :
    Fed table (isImpossible c source target).2 := by
  simp only [isImpossible]
  split
  · exact h.isSubtype source target
  · split
    · exact (h.isSubtype source target).isSubtype target source
    · exact (h.isSubtype source target).isSubtype target source

/-- Whether casts between two signatures always fail, going by a table. -/
def FailsBy (table : Classpath) (source target : String) : Prop :=
  Kind.ofSignature? source = some .reference ∧
    ∃ s t, JavaType.ofSignature source = .ok s ∧
      JavaType.ofSignature target = .ok t ∧ Severed table s t

theorem internSignature_error {signature : String} {error : SignatureError}
    (h : JavaType.ofSignature signature = .error error) :
    c.internSignature signature = (.error error, c) := by
  rw [TypeContext.internSignature, h]

/-- Whatever a context went through, its verdicts are those of the table it is fed
by. -/
theorem alwaysFails_iff (h : Fed table c) (source target : String) :
    (alwaysFails c source target).1 = true ↔ FailsBy table source target := by
  unfold alwaysFails FailsBy
  by_cases hkind : Kind.ofSignature? source = some .reference
  · rw [if_neg (not_not.2 hkind)]
    cases hs : JavaType.ofSignature source with
    | error fault => simp [internSignature_error hs]
    | ok s =>
        cases ht : JavaType.ofSignature target with
        | error fault => simp [internSignature_ok hs, internSignature_error ht]
        | ok t =>
            have hheld := intern_type? c.repository s
            have hheld' := intern_type? (c.repository.intern s).2 t
            have hgrows := intern_grows objectId (c.repository.intern s).2 t
            have hverdict := isImpossible_iff ((h.intern s).intern t)
              (hgrows.types _ _ hheld) hheld'
            simp only [internSignature_ok hs, internSignature_ok ht]
            refine hverdict.trans
              ⟨fun hsevered => ⟨hkind, s, t, rfl, rfl, hsevered⟩, ?_⟩
            rintro ⟨_, s', t', hs', ht', hsevered⟩
            cases hs'
            cases ht'
            exact hsevered
  · rw [if_pos hkind]
    exact ⟨fun h => (nomatch h), fun h => absurd h.1 hkind⟩

theorem alwaysFails_fed (h : Fed table c) (source target : String) :
    Fed table (alwaysFails c source target).2 := by
  have hheld := (h.internSignature source).internSignature target
  unfold alwaysFails
  split
  · exact h
  · dsimp only
    split
    · exact isImpossible_fed hheld _ _
    · exact ⟨hheld.source, hheld.sound, hheld.founded⟩
    · exact ⟨hheld.source, hheld.sound, hheld.founded⟩

end ImpossibleCast

end ClassAudit
