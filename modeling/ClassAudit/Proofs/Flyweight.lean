import ClassAudit.Proofs.Operations
import ClassAudit.Proofs.Signatures

/-!
# One position for each type, and a sound graph

Edits keep three things (`Kept`): no type is held at two positions, the element of
an array is held before the array, and the edges of every type are tidy. All that
can be done with a context is edits, so these hold in every run, however types are
asked for, whatever is stated by hand and whoever answers the questions.

Since signatures tell types apart, it is all the same whether a type is asked for
by name, by signature or as an array over another, and when: the position is the
one of its signature (`Flyweight`).

Some of this holds by the form of a repository. A signature is looked up among the
types that are held, so what is found has that signature, and the edges of a type stand
beside it, so every type has one list of them. What is left to be shown is that no type
is held twice, which makes the type found the only one, that elements are held before
arrays, and that the lists are tidy.
-/

namespace ClassAudit

open Relation TypeRepository

/-! ## What edits keep -/

namespace TypeRepository

variable {r r' : TypeRepository} {id : TypeId}

/-- Edges that lead to types that are held, one of them to a superclass at most, and
none of them twice. -/
structure Tidy (r : TypeRepository) (edges : List Edge) : Prop where
  targets : ∀ edge ∈ edges, ∃ type, r.type? edge.target = some type
  superclass : (edges.filter (·.kind == .superclass)).length ≤ 1
  nodup : edges.Nodup

theorem Tidy.mono {edges : List Edge} (h : Tidy r edges)
    (htypes : ∀ j type, r.type? j = some type → r'.type? j = some type) :
    Tidy r' edges where
  targets := fun edge hedge => (h.targets edge hedge).imp (htypes edge.target)
  superclass := h.superclass
  nodup := h.nodup

theorem tidy_nil (r : TypeRepository) : Tidy r [] :=
  ⟨fun _ h => (nomatch h), Nat.zero_le 1, List.nodup_nil⟩

/-- An edge that is not there yet, and no second one to a superclass. -/
theorem Tidy.append {edges : List Edge} (h : Tidy r edges) {edge : Edge}
    {type : JavaType} (htarget : r.type? edge.target = some type)
    (hnew : edge ∉ edges)
    (hsuperclass : edge.kind = .superclass →
      edges.filter (·.kind == .superclass) = []) :
    Tidy r (edges ++ [edge]) where
  targets := by
    intro other hother
    rcases List.mem_append.1 hother with hother | hother
    · exact h.targets other hother
    · obtain rfl := List.mem_singleton.1 hother
      exact ⟨type, htarget⟩
  superclass := by
    rw [List.filter_append, List.length_append]
    by_cases hkind : edge.kind = .superclass
    · rw [hsuperclass hkind, List.length_nil, Nat.zero_add]
      exact List.length_filter_le _ [edge]
    · rw [List.filter_cons_of_neg (by simpa using hkind)]
      exact h.superclass
  nodup := List.nodup_append'.2
    ⟨h.nodup, List.nodup_singleton edge, by simpa using hnew⟩

theorem Tidy.addEdge {edges : List Edge} (h : Tidy r edges) {edge : Edge}
    {type : JavaType} (htarget : r.type? edge.target = some type) :
    Tidy r (addEdge edges edge) := by
  have hadd : ∀ {kept : List Edge}, Tidy r kept →
      (edge.kind = .superclass → kept.filter (·.kind == .superclass) = []) →
      Tidy r (if kept.contains edge then kept else kept ++ [edge]) := by
    intro kept hkept hsuperclass
    split
    · exact hkept
    · next hnew =>
        exact hkept.append htarget (by simpa using hnew) hsuperclass
  unfold ClassAudit.addEdge
  dsimp only
  by_cases hkind : edge.kind = .superclass
  · have hnone : (edges.filter (·.kind != .superclass)).filter
        (·.kind == .superclass) = [] := by
      simp [List.filter_eq_nil_iff]
    have hkept : Tidy r (edges.filter (·.kind != .superclass)) :=
      ⟨fun other hother => h.targets other (List.mem_of_mem_filter hother),
        by simp [hnone], h.nodup.filter _⟩
    rw [if_pos hkind]
    exact hadd hkept fun _ => hnone
  · rw [if_neg hkind]
    exact hadd h fun h => absurd h hkind

/-- What edits keep. -/
structure Kept (r : TypeRepository) : Prop where
  distinct : r.Distinct
  elements : ∀ id type, r.type? id = some type → type.dimensions ≠ 0 →
    ∃ j < id, r.type? j = some ⟨0, type.element⟩
  edges : ∀ id node, r.node? id = some node → Tidy r node.edges

theorem lt_size_of_type? {type : JavaType} (h : r.type? id = some type) :
    id < r.size := by
  obtain ⟨node, hnode, _⟩ := type?_eq_some.1 h
  obtain ⟨hlt, _⟩ := Array.getElem?_eq_some_iff.1 hnode
  exact hlt

theorem kept_initial : initial.Kept := by
  have hnode : ∀ id node, initial.node? id = some node →
      id = 0 ∧ node.type = .object ∧ node.edges = [] := by
    intro id node h
    cases id with
    | zero =>
        cases h
        exact ⟨rfl, rfl, rfl⟩
    | succ n => cases h
  constructor
  case distinct =>
    intro i j type hi hj
    obtain ⟨_, hi, _⟩ := type?_eq_some.1 hi
    obtain ⟨_, hj, _⟩ := type?_eq_some.1 hj
    rw [(hnode _ _ hi).1, (hnode _ _ hj).1]
  case elements =>
    intro id type h hdimensions
    obtain ⟨node, hid, rfl⟩ := type?_eq_some.1 h
    rw [(hnode id node hid).2.1] at hdimensions
    exact absurd rfl hdimensions
  case edges =>
    intro id node h
    rw [(hnode id node h).2.2]
    exact tidy_nil _

theorem Kept.hold (h : r.Kept) {type : JavaType}
    (helement : type.dimensions = 0 ∨ ∃ j, r.type? j = some ⟨0, type.element⟩) :
    (r.hold type).2.Kept where
  distinct := hold_distinct h.distinct
  elements := by
    have hkept := (hold_grows objectId r type).types
    have hearlier {id : TypeId} {other : JavaType} (hid : r.type? id = some other)
        (hdimensions : other.dimensions ≠ 0) :
        ∃ j < id, (r.hold type).2.type? j = some ⟨0, other.element⟩ := by
      obtain ⟨j, hlt, hj⟩ := h.elements id other hid hdimensions
      exact ⟨j, hlt, hkept j _ hj⟩
    intro id other hid hdimensions
    obtain ⟨node, hnode, rfl⟩ := type?_eq_some.1 hid
    unfold TypeRepository.hold at hnode
    split at hnode
    · exact hearlier (type?_of_node? hnode) hdimensions
    · rw [node?_push] at hnode
      split at hnode
      · next hsize =>
          -- The new type is the last one, behind whatever is held.
          cases hnode
          obtain ⟨j, hj⟩ := helement.resolve_left hdimensions
          refine ⟨j, ?_, hkept j _ hj⟩
          rw [hsize]
          exact lt_size_of_type? hj
      · exact hearlier (type?_of_node? hnode) hdimensions
  edges := by
    intro id node hnode
    rcases hold_added hnode with hold | ⟨hfresh, _⟩
    · exact (h.edges id node hold).mono (hold_grows id r type).types
    · rw [hfresh]
      exact tidy_nil _

theorem Kept.update (h : r.Kept) (id : TypeId) {change : TypeNode → TypeNode}
    (htypes : ∀ node, (change node).type = node.type)
    (hedges : ∀ node, r.node? id = some node → Tidy r (change node).edges) :
    (r.update id change).Kept where
  distinct := (grows_update id r htypes).distinct h.distinct
  elements := by
    intro j type hj hdimensions
    rw [type?_update r id j htypes] at hj
    obtain ⟨i, hlt, hi⟩ := h.elements j type hj hdimensions
    exact ⟨i, hlt, (grows_update id r htypes).types i _ hi⟩
  edges := by
    intro j node hj
    rw [node?_update] at hj
    split at hj
    · next hid =>
        obtain ⟨old, hold, rfl⟩ := Option.map_eq_some_iff.1 hj
        exact (hedges old (hid ▸ hold)).mono (grows_update id r htypes).types
    · exact (h.edges j node hj).mono (grows_update id r htypes).types

theorem Edit.kept (h : Edit id r r') (hr : r.Kept) : r'.Kept := by
  cases h with
  | hold element => exact hr.hold element
  | note types edges =>
      refine hr.update id types fun node hnode => ?_
      rw [edges]
      exact hr.edges id node hnode
  | connect target =>
      exact hr.update id (fun _ => rfl)
        fun node hnode => (hr.edges id node hnode).addEdge target

theorem Edits.kept (h : Edits r r') (hr : r.Kept) : r'.Kept := by
  induction h with
  | refl => exact hr
  | tail _ hedit ih =>
      obtain ⟨id, hedit⟩ := hedit
      exact hedit.kept ih

/-! ## Flyweights -/

/-- The signature of a type at a position, by what kind of type it is. -/
inductive Spelled (r : TypeRepository) (id : TypeId) : JavaType → String → Prop
  | basic (type : BasicType) :
      Spelled r id (.basic type) (String.singleton type.code)
  | named (name : String) : Spelled r id (.named name) ("L" ++ name ++ ";")
  | array {dimensions : Nat} {j : TypeId} {element : JavaType}
      (positive : 1 ≤ dimensions) (earlier : j < id)
      (held : r.type? j = some element) (flat : element.dimensions = 0) :
      Spelled r id (.array dimensions element)
        (String.ofList (List.replicate dimensions '[') ++ element.signature)

/-- Every type has one position, which its signature leads to, and the graph over the
positions is sound: each node has its own list of edges, and the lists are tidy. -/
structure Flyweight (r : TypeRepository) : Prop where
  lookup : ∀ text id, r.lookup? text = some id ↔
    ∃ type, r.type? id = some type ∧ type.signature = text
  spelled : ∀ id type, r.type? id = some type → Spelled r id type type.signature
  edges : ∀ id node, r.node? id = some node → Tidy r node.edges

theorem Kept.lookup?_eq_some (h : r.Kept) (text : String) (id : TypeId) :
    r.lookup? text = some id ↔
      ∃ type, r.type? id = some type ∧ type.signature = text := by
  have hsound : ∀ {j : TypeId}, r.lookup? text = some j →
      ∃ type, r.type? j = some type ∧ type.signature = text := by
    intro j hj
    obtain ⟨hlt, htext, _⟩ := Array.findIdx?_eq_some_iff_getElem.1 hj
    have hnode : r.node? j = some r.nodes[j] := Array.getElem?_eq_getElem hlt
    exact ⟨_, type?_of_node? hnode, by simpa using htext⟩
  refine ⟨hsound, ?_⟩
  rintro ⟨type, htype, rfl⟩
  cases hj : r.lookup? type.signature with
  | none =>
      obtain ⟨node, hnode, rfl⟩ := type?_eq_some.1 htype
      have hfalse := Array.findIdx?_eq_none_iff.1 hj node
        (Array.mem_of_getElem? hnode)
      simp at hfalse
  | some j =>
      obtain ⟨other, hother, hsignature⟩ := hsound hj
      rw [JavaType.signature_injective hsignature] at hother
      rw [h.distinct j id type hother htype]

theorem Kept.spelled (h : r.Kept) {type : JavaType}
    (htype : r.type? id = some type) : Spelled r id type type.signature := by
  obtain ⟨dimensions, element⟩ := type
  cases dimensions with
  | zero =>
      have hsignature : (⟨0, element⟩ : JavaType).signature = element.signature := by
        rw [← String.toList_inj, JavaType.signature_toList]
        rfl
      rw [hsignature]
      cases element with
      | basic type => exact .basic type
      | named name => exact .named name
  | succ n =>
      obtain ⟨j, hearlier, hj⟩ := h.elements id _ htype (Nat.succ_ne_zero n)
      have hsignature : (⟨n + 1, element⟩ : JavaType).signature =
          String.ofList (List.replicate (n + 1) '[') ++
            (⟨0, element⟩ : JavaType).signature := by
        rw [← String.toList_inj, String.toList_append, String.toList_ofList,
          JavaType.signature_toList, JavaType.signature_toList]
        rfl
      rw [hsignature]
      exact .array (Nat.le_add_left 1 n) hearlier hj rfl

theorem Kept.flyweight (h : r.Kept) : r.Flyweight :=
  ⟨h.lookup?_eq_some, fun _ _ => h.spelled, h.edges⟩

end TypeRepository

/-! ## Runs -/

/-- The signature that is asked for, which need not be one. -/
def TypeRequest.spelling? (r : TypeRepository) : TypeRequest → Option String
  | named name => some ("L" ++ name ++ ";")
  | dotted name => some ("L" ++ name.map (fun c => if c = '.' then '/' else c) ++ ";")
  | basicSignature text | arraySignature text | signature text => some text
  | array dimensions element => (r.type? element).map fun type =>
      String.ofList (List.replicate dimensions '[') ++ type.signature

theorem ok_of_toOption {ε α : Type} {m : Except ε α} {a : α}
    (h : m.toOption = some a) : m = .ok a := by
  cases m with
  | error e => cases h
  | ok b =>
      cases h
      rfl

/-- What is asked for is a type that is spelled so. -/
theorem TypeRequest.spelling?_of_type? {r : TypeRepository} {asked : TypeRequest}
    {type : JavaType} (h : asked.type? r = some type) :
    asked.spelling? r = some type.signature := by
  cases asked with
  | named name =>
      cases h
      rfl
  | dotted name =>
      cases h
      rw [spelling?, ← String.ofList_toList (s := name.map _), String.toList_map]
      rfl
  | basicSignature text =>
      rw [spelling?, JavaType.signature_of_ofBasicSignature (ok_of_toOption h)]
  | arraySignature text =>
      rw [spelling?, JavaType.signature_of_ofArraySignature (ok_of_toOption h)]
  | signature text =>
      rw [spelling?, JavaType.signature_of_ofSignature (ok_of_toOption h)]
  | array dimensions element =>
      obtain ⟨below, hbelow, rfl⟩ := Option.map_eq_some_iff.1 h
      rw [spelling?, hbelow, Option.map_some, JavaType.signature_array]

namespace TypeContext

variable {σ : Type}

/-- A request that is granted leads to the type that was asked for. -/
theorem request_type? {c c' : TypeContext σ} {asked : TypeRequest} {id : TypeId}
    (h : c.request asked = (some id, c')) :
    ∃ type, asked.type? c.repository = some type ∧
      c'.repository.type? id = some type := by
  unfold request at h
  split at h
  · next type htype =>
      cases h
      exact ⟨type, htype, intern_type? c.repository type⟩
  · cases h

variable [ClassSource σ]

/-- A step of a run: an operation is performed that states only supertypes that are
held. The source can be exchanged at any time. -/
inductive Step : TypeContext σ → TypeContext σ → Prop
  | perform {c : TypeContext σ} (operation : Operation)
      (founded : operation.Founded c.repository) : Step c (c.perform operation)
  | exchange {c : TypeContext σ} (source : σ) (log : Array Event) :
      Step c { c with source, log }

/-- Any number of steps. -/
abbrev Run : TypeContext σ → TypeContext σ → Prop := ReflTransGen Step

variable {c c' : TypeContext σ}

theorem Step.edits (h : Step c c') : Edits c.repository c'.repository := by
  cases h with
  | perform operation founded => exact edits_perform founded
  | exchange source log => exact .refl

theorem Run.edits (h : Run c c') : Edits c.repository c'.repository := by
  induction h with
  | refl => exact .refl
  | tail _ hstep ih => exact ih.trans hstep.edits

theorem Run.kept {source : σ} (h : Run (.ofSource source) c) :
    c.repository.Kept :=
  h.edits.kept kept_initial

theorem request_step {asked : TypeRequest} {answer : Option TypeId}
    (h : c.request asked = (answer, c')) : Step c c' := by
  have hstep : Step c (c.request asked).2 := .perform (.request asked) trivial
  rw [h] at hstep
  exact hstep

/-- Two requests in a run lead to one position if they spell one type. -/
theorem request_eq_iff {source : σ} (hc : Run (.ofSource source) c)
    {first second : TypeRequest} {id id' : TypeId} {c₁ c₂ c₃ : TypeContext σ}
    (hfirst : c.request first = (some id, c₁)) (hrun : Run c₁ c₂)
    (hsecond : c₂.request second = (some id', c₃)) :
    id = id' ↔ first.spelling? c.repository = second.spelling? c₂.repository := by
  obtain ⟨type, htype, hid⟩ := request_type? hfirst
  obtain ⟨type', htype', hid'⟩ := request_type? hsecond
  have hlater : Run c₁ c₃ := hrun.tail (request_step hsecond)
  have hkept := Run.kept ((hc.tail (request_step hfirst)).trans hlater)
  have hheld := (Run.edits hlater).types hid
  rw [TypeRequest.spelling?_of_type? htype, TypeRequest.spelling?_of_type? htype',
    Option.some_inj, JavaType.signature_injective.eq_iff]
  constructor
  · rintro rfl
    exact Option.some.inj (hheld.symm.trans hid')
  · rintro rfl
    exact hkept.distinct id id' type hheld hid'

/-- An array over an array is one over its element. -/
theorem request_array_array {source : σ} (hc : Run (.ofSource source) c)
    {m n : Nat} {element inner outer : TypeId} {c₁ c₂ c₃ c₄ : TypeContext σ}
    (hinner : c.request (.array n element) = (some inner, c₁)) (hrun : Run c₁ c₂)
    (houter : c₂.request (.array m inner) = (some outer, c₃)) (hrun' : Run c₃ c₄) :
    (c₄.request (.array (m + n) element)).1 = some outer := by
  obtain ⟨type, htype, hid⟩ := request_type? hinner
  obtain ⟨below, hbelow, rfl⟩ := Option.map_eq_some_iff.1 htype
  have hbefore : Run c c₂ := .head (request_step hinner) hrun
  have hafter : Run c₂ c₄ := .head (request_step houter) hrun'
  have hnested : (TypeRequest.array m inner).type? c₂.repository =
      some (.array m (.array n below)) := by
    rw [TypeRequest.type?, (Run.edits hrun).types hid, Option.map_some]
  have hflat : (TypeRequest.array (m + n) element).type? c₄.repository =
      some (.array m (.array n below)) := by
    rw [TypeRequest.type?, (Run.edits (hbefore.trans hafter)).types hbelow,
      Option.map_some]
    simp only [JavaType.array, Nat.add_assoc]
  have hspelling : (TypeRequest.array m inner).spelling? c₂.repository =
      (TypeRequest.array (m + n) element).spelling? c₄.repository := by
    rw [TypeRequest.spelling?_of_type? hnested, TypeRequest.spelling?_of_type? hflat]
  have hrequest : c₄.request (.array (m + n) element) =
      (some (c₄.intern (.array m (.array n below))).1,
        (c₄.intern (.array m (.array n below))).2) := by
    rw [request, hflat]
  rw [hrequest, (request_eq_iff (hc.trans hbefore) houter hrun' hrequest).2 hspelling]

end TypeContext

/-- In every run, whatever is held, stated, resolved or asked, and whoever answers:
the repository has one position for each type, and the graph over it is sound. Types
stay where they are. Two requests, however they are made and whatever happens in
between, lead to one position exactly if they spell one type, and an array over an
array is one over its element. -/
theorem repository_flyweight {σ : Type} [ClassSource σ] {source : σ}
    {c : TypeContext σ} (hc : TypeContext.Run (.ofSource source) c) :
    c.repository.Flyweight ∧
    (∀ c', c.Run c' → ∀ id type, c.repository.type? id = some type →
      c'.repository.type? id = some type) ∧
    (∀ first second id id' c₁ c₂ c₃, c.request first = (some id, c₁) → c₁.Run c₂ →
      c₂.request second = (some id', c₃) →
      (id = id' ↔
        first.spelling? c.repository = second.spelling? c₂.repository)) ∧
    ∀ m n element inner outer c₁ c₂ c₃ c₄,
      c.request (.array n element) = (some inner, c₁) → c₁.Run c₂ →
      c₂.request (.array m inner) = (some outer, c₃) → c₃.Run c₄ →
      (c₄.request (.array (m + n) element)).1 = some outer :=
  ⟨(TypeContext.Run.kept hc).flyweight,
    fun _ hrun _ _ htype => (TypeContext.Run.edits hrun).types htype,
    fun _ _ _ _ _ _ _ => TypeContext.request_eq_iff hc,
    fun _ _ _ _ _ _ _ _ _ => TypeContext.request_array_array hc⟩

/-- A run in which arrays of arrays of strings are placed, and a supertype is stated
by hand. -/
def stringRun : TypeContext Classpath :=
  let context := TypeContext.ofSource Classpath.core
  let context := (context.request (.dotted "java.lang.String")).2
  let context := (context.request (.array 2 1)).2
  let context := (context.isSubtype 2 0).2
  context.withRepository (·.link 1 .interface 0)

/-- An array over arrays of strings, asked for by position and by signature. -/
theorem repository_flyweight_strings :
    TypeContext.Run (.ofSource Classpath.core) stringRun ∧
      stringRun.repository.Flyweight ∧
      (stringRun.request (.array 1 2)).1 = some 12 ∧
      ((stringRun.request (.array 1 2)).2.request
        (.arraySignature "[[[Ljava/lang/String;")).1 = some 12 ∧
      (TypeRequest.array 1 2).spelling? stringRun.repository =
        some "[[[Ljava/lang/String;" := by
  have hobject : ((((TypeContext.ofSource Classpath.core).request
      (.dotted "java.lang.String")).2.request (.array 2 1)).2.isSubtype 2
        0).2.repository.type? 0 = some .object := by decide +kernel
  have hrun : TypeContext.Run (.ofSource Classpath.core) stringRun :=
    (((ReflTransGen.single (.perform (.request _) trivial)).tail
      (.perform (.request _) trivial)).tail (.perform (.isSubtype 2 0) trivial)).tail
        (.perform (.link 1 .interface 0) ⟨_, hobject⟩)
  have hfirst : (stringRun.request (.array 1 2)).1 = some 12 := by decide +kernel
  have hsecond : ((stringRun.request (.array 1 2)).2.request
      (.arraySignature "[[[Ljava/lang/String;")).1 = some 12 := by decide +kernel
  obtain ⟨hflyweight, _, hrequests, _⟩ := repository_flyweight hrun
  have hspelling := hrequests (.array 1 2) (.arraySignature "[[[Ljava/lang/String;")
    12 12 _ _ _ (Prod.ext hfirst rfl) .refl (Prod.ext hsecond rfl)
  exact ⟨hrun, hflyweight, hfirst, hsecond, hspelling.1 rfl⟩

end ClassAudit
