import ClassAudit.Rules.ImpossibleCast
import ClassAudit.Proofs.SingleInheritance
import ClassAudit.Proofs.Subtyping

/-!
# A cast that always fails does

The rule calls a cast between two classes impossible after two subtype
questions, one each way, and a look at what they left behind: that neither
search came upon a class that is not in the table, and that both types are known
to be no interfaces. Over a legal table that is enough. The two classes are then
unrelated, and no class and no interface can be below both of them, whatever else
the table holds and in whatever order it was asked. So an object that has the
type of the source, whatever its own class is, does not have that of the target.

For the second question must not disturb what the first one left. It does not:
what was kept for a type is never touched again (`TypeContext.Asked.kept`).
-/

namespace ClassAudit

open TypeRepository Classpath

variable {table : Classpath}

/-- The elements of a type are basic values, or objects of a class that the table
knows to be no interface. -/
def ClassElements (table : Classpath) (type : JavaType) : Prop :=
  ∀ name, type.element = .named name → table.flag? (.named name) = some false

/-- Two types, neither below the other, with nothing missing above them and no
interfaces among their elements. -/
structure Severed (table : Classpath) (a b : JavaType) : Prop where
  notBelow : ¬ Ancestor table a b
  notAbove : ¬ Ancestor table b a
  completeLeft : Complete table a
  completeRight : Complete table b
  left : ClassElements table a
  right : ClassElements table b

theorem Severed.symm {a b : JavaType} (h : Severed table a b) :
    Severed table b a :=
  ⟨h.notAbove, h.notBelow, h.completeRight, h.completeLeft, h.right, h.left⟩

/-- With no missing class, everything above a type is in the table. -/
theorem AncestrySound.complete_of_missing {r : TypeRepository} {type : JavaType}
    {ancestry : Ancestry} (h : AncestrySound table r type ancestry)
    (hmissing : ancestry.missing = []) : Complete table type := by
  intro above habove
  by_contra hplaces
  have hlinks : table.links? above = none := by
    rw [← Option.not_isSome_iff_eq_none, links?_isSome]
    exact hplaces
  cases helement : above.element with
  | basic basic =>
      rw [helement] at hplaces
      exact hplaces trivial
  | named name =>
      have hmem := (h.missing name).2 ⟨above, habove, hlinks, helement⟩
      rw [hmissing] at hmem
      cases hmem

namespace ImpossibleCast

section Queries

variable {r : TypeRepository} {id : TypeId}

theorem complete_of_isIncomplete (hs : r.Sound table) {node : TypeNode}
    {ancestry : Ancestry} (hnode : r.node? id = some node)
    (hancestry : node.ancestry = some ancestry)
    (h : isIncomplete r id = false) : Complete table node.type := by
  rw [isIncomplete, hnode, Option.bind_some, hancestry] at h
  obtain ⟨_, hsound⟩ := (hs.nodes id node hnode).ancestry ancestry hancestry
  refine hsound.complete_of_missing ?_
  simpa using h

theorem classElements_of_involvesInterface (hs : r.Sound table) {type : JavaType}
    (htype : r.type? id = some type) (h : involvesInterface r id = false) :
    ClassElements table type := by
  intro name hname
  obtain ⟨dimensions, element⟩ := type
  dsimp only at hname
  subst hname
  simp only [involvesInterface, htype] at h
  cases hfind : r.find? (.named name) with
  | none =>
      rw [hfind] at h
      cases h
  | some j =>
      obtain ⟨node, hnode, hnodeType⟩ := type?_eq_some.1 (find?_eq_some hfind)
      have hflag : node.interfaceFlag = some false := by
        rw [hfind, Option.bind_some, hnode] at h
        simpa [TypeNode.isInterface?, hnodeType, JavaType.named] using h
      have hsound := hs.nodes j node hnode
      cases hres : node.resolution with
      | unresolved =>
          rw [(hsound.unresolved hres).2.1] at hflag
          cases hflag
      | known => rw [← hflag, (hsound.known hres).1, hnodeType]
      | failed cause =>
          rw [(hsound.failed cause hres).1] at hflag
          cases hflag

end Queries

variable {c : TypeContext Classpath}

theorem isImpossible_eq_true {source target : TypeId}
    {first second : TypeContext Classpath}
    (hfirst : (c.isSubtype source target).2 = first)
    (hsecond : (first.isSubtype target source).2 = second) :
    (isImpossible c source target).1 = true ↔
      (c.isSubtype source target).1 = false ∧
      (first.isSubtype target source).1 = false ∧
      ∀ id ∈ [source, target], isIncomplete second.repository id = false ∧
        involvesInterface second.repository id = false := by
  subst hfirst hsecond
  simp only [isImpossible]
  split
  · next hbelow => simp [hbelow]
  · next hbelow =>
      split
      · next habove => simp [habove]
      · next habove =>
          simp only [Bool.eq_false_iff.2 hbelow, Bool.eq_false_iff.2 habove,
            Bool.and_eq_true, Bool.not_eq_eq_eq_not, Bool.not_true,
            List.forall_mem_cons, true_and]
          simp only [List.not_mem_nil, false_implies, implies_true, and_true]
          constructor
          · rintro ⟨⟨⟨hsource, htarget⟩, hsource'⟩, htarget'⟩
            exact ⟨⟨hsource, hsource'⟩, htarget, htarget'⟩
          · rintro ⟨⟨hsource, hsource'⟩, htarget, htarget'⟩
            exact ⟨⟨⟨hsource, htarget⟩, hsource'⟩, htarget'⟩

/-- Types between which casts are impossible are severed. -/
theorem severed_of_isImpossible (hs : c.repository.Sound table)
    (hclasses : c.source.classes = table.classes) {source target : TypeId}
    {s t : JavaType} (hsource : c.repository.type? source = some s)
    (htarget : c.repository.type? target = some t)
    (h : (isImpossible c source target).1 = true) : Severed table s t := by
  obtain ⟨hbelow, habove, hends⟩ := (isImpossible_eq_true rfl rfl).1 h
  obtain ⟨hfirst, node, ancestry, hnode, hname, hancestry, _⟩ :=
    TypeContext.isSubtype_asked hs hclasses hsource target
  have hsource' := hfirst.types source _ hsource
  have htarget' := hfirst.types target _ htarget
  obtain ⟨hsecond, node', ancestry', hnode', hname', hancestry', _⟩ :=
    TypeContext.isSubtype_asked hfirst.sound hfirst.source htarget' source
  -- The second question left what was kept for the first one alone.
  have hkept := hsecond.kept source node ancestry hnode hancestry
  obtain ⟨hcomplete, hinterface⟩ := hends source (by simp)
  obtain ⟨hcomplete', hinterface'⟩ := hends target (by simp)
  constructor
  case notBelow =>
    rw [← TypeContext.isSubtype_exact hs hclasses hsource htarget, hbelow]
    exact Bool.false_ne_true
  case notAbove =>
    rw [← TypeContext.isSubtype_exact hfirst.sound hfirst.source htarget'
      hsource', habove]
    exact Bool.false_ne_true
  case completeLeft =>
    rw [← hname]
    exact complete_of_isIncomplete hsecond.sound hkept hancestry hcomplete
  case completeRight =>
    rw [← hname']
    exact complete_of_isIncomplete hsecond.sound hnode' hancestry' hcomplete'
  case left =>
    exact classElements_of_involvesInterface hsecond.sound
      (hsecond.types source _ hsource') hinterface
  case right =>
    exact classElements_of_involvesInterface hsecond.sound
      (hsecond.types target _ htarget') hinterface'

theorem internSignature_ok {signature : String} {type : JavaType}
    (h : JavaType.ofSignature signature = .ok type) :
    c.internSignature signature = (.ok (c.intern type).1, (c.intern type).2) := by
  rw [TypeContext.internSignature, h]

/-- A cast that is said to fail always is one between severed types. -/
theorem severed_of_alwaysFails (hc : TypeContext.Reached table c)
    {source target : String} {s t : JavaType}
    (hsource : JavaType.ofSignature source = .ok s)
    (htarget : JavaType.ofSignature target = .ok t)
    (h : (alwaysFails c source target).1 = true) : Severed table s t := by
  simp only [alwaysFails, internSignature_ok hsource,
    internSignature_ok htarget] at h
  split at h
  · cases h
  · obtain ⟨hclasses, hs⟩ := (hc.intern s).intern t |>.sound
    have hfirst := intern_type? c.repository s
    have hgrows := intern_grows objectId (c.repository.intern s).2 t
    have hsecond := intern_type? (c.repository.intern s).2 t
    exact severed_of_isImpossible hs hclasses (hgrows.types _ _ hfirst)
      hsecond h

theorem unrelated_of_alwaysFails (hc : TypeContext.Reached table c)
    {source target s t : String}
    (hsource : JavaType.ofSignature source = .ok (.named s))
    (htarget : JavaType.ofSignature target = .ok (.named t))
    (h : (alwaysFails c source target).1 = true) :
    Unrelated table (.named s) (.named t) := by
  have hsevered := severed_of_alwaysFails hc hsource htarget h
  exact ⟨hsevered.left s rfl, hsevered.right t rfl, hsevered.completeLeft,
    hsevered.completeRight, hsevered.notBelow, hsevered.notAbove⟩

end ImpossibleCast

/-- A cast between classes that is called impossible fails. In a legal table, no
class and no interface is ever a subtype of both the source and the target. So no
object has both types, whatever class it is of, and whatever array it is unless
the table makes classes of the interfaces that arrays have. -/
theorem impossible_casts_fail (hlegal : table.Legal) {c : TypeContext Classpath}
    (hc : TypeContext.Reached table c) {source target s t : String}
    (hsource : JavaType.ofSignature source = .ok (.named s))
    (htarget : JavaType.ofSignature target = .ok (.named t))
    (hfails : (ImpossibleCast.alwaysFails c source target).1 = true) :
    (∀ c', TypeContext.Reached table c' → ∀ x a b name,
      c'.repository.type? x = some (.named name) →
      c'.repository.type? a = some (.named s) →
      c'.repository.type? b = some (.named t) →
      ¬ ((c'.isSubtype x a).1 = true ∧ (c'.isSubtype x b).1 = true)) ∧
    ∀ type : JavaType, type.dimensions = 0 ∨
        ¬ table.Declares .serializable ∧ ¬ table.Declares .cloneable →
      Ancestor table type (.named s) → ¬ Ancestor table type (.named t) := by
  have hunrelated :=
    ImpossibleCast.unrelated_of_alwaysFails hc hsource htarget hfails
  refine ⟨?_, fun type harrays => hunrelated.no_common_type hlegal harrays⟩
  rintro c' hc' x a b name hx ha hb ⟨hbelow, hbelow'⟩
  obtain ⟨hclasses, hs⟩ := hc'.sound
  rw [TypeContext.isSubtype_exact hs hclasses hx ha] at hbelow
  rw [TypeContext.isSubtype_exact hs hclasses hx hb] at hbelow'
  exact hunrelated.no_common_class hlegal name ⟨hbelow, hbelow'⟩

/-- A context over the library types in which a question was asked already. -/
def libraryContext : TypeContext Classpath :=
  let context := TypeContext.ofSource Classpath.core
  let context := (context.internSignature "Ljava/lang/Long;").2
  (context.isSubtype 1 0).2

/-- No integer is a string, not even one of a class that is both. -/
theorem impossible_casts_fail_integer :
    (ImpossibleCast.alwaysFails libraryContext "Ljava/lang/Integer;"
      "Ljava/lang/String;").1 = true ∧
    ∀ name, Ancestor Classpath.core (.named name) (.named "java/lang/Integer") →
      ¬ Ancestor Classpath.core (.named name) (.named "java/lang/String") := by
  have hfails : (ImpossibleCast.alwaysFails libraryContext
      "Ljava/lang/Integer;" "Ljava/lang/String;").1 = true := by
    decide +kernel
  obtain ⟨_, htypes⟩ := impossible_casts_fail core_legal
    (.isSubtype (.internSignature .start _) _ _) (by rfl) (by rfl) hfails
  exact ⟨hfails, fun name => htypes (.named name) (.inl rfl)⟩

end ClassAudit
