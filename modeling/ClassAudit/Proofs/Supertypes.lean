import ClassAudit.Types.Ancestry
import ClassAudit.Types.Classpath
import Mathlib.Logic.Relation

/-!
# The supertype relation of a table

A table of classes fixes which types are directly above which, without any
repository: `DirectSupertype` says it rule by rule, and `Ancestor` is its
reflexive and transitive closure.

What a repository keeps is not a relation but a list of edges for each type, with
kinds, in the order in which they were added and each held once. `links?` is that
list, computed from the table alone, and `directSupertype_iff` says that it holds
the right types. A type without a list is one that cannot be placed: it is a
class that is not in the table, or an array of one.

Going up never adds dimensions, and an element is the one that was started from
or one that the table mentions. So only finitely many types are above a given
one, and `typesAbove` lists them all.
-/

namespace ClassAudit

/-- Whether a table can place an element type. -/
def Classpath.Places (table : Classpath) : ElementType → Prop
  | .basic _ => True
  | .named name => JavaType.named name = .object ∨
      ∃ facts, table.find? name = some facts

/-- The types directly above a type. -/
inductive DirectSupertype (table : Classpath) : JavaType → JavaType → Prop
  | superclass {name : String} {facts : ClassFacts}
    (hname : JavaType.named name ≠ .object) (h : table.find? name = some facts) :
    DirectSupertype table (.named name)
      ((facts.superclass.map JavaType.named).getD .object)
  | interface {name interface : String} {facts : ClassFacts}
    (hname : JavaType.named name ≠ .object) (h : table.find? name = some facts)
    (hi : interface ∈ facts.interfaces) :
    DirectSupertype table (.named name) (.named interface)
  | overBasic {basic : BasicType} {n : Nat} :
    DirectSupertype table ⟨n + 1, .basic basic⟩ .object
  | overObject {n : Nat} :
    DirectSupertype table (.array (n + 1) .object) (.array n .object)
  | overClass {name : String} {n : Nat} {super : JavaType}
    (h : DirectSupertype table (.named name) super) :
    DirectSupertype table (.array (n + 1) (.named name)) (.array (n + 1) super)
  | serializable {n : Nat} {element : ElementType} (h : table.Places element) :
    DirectSupertype table ⟨n + 1, element⟩ .serializable
  | cloneable {n : Nat} {element : ElementType} (h : table.Places element) :
    DirectSupertype table ⟨n + 1, element⟩ .cloneable

/-- The types that are a type or above it. -/
abbrev Ancestor (table : Classpath) : JavaType → JavaType → Prop :=
  Relation.ReflTransGen (DirectSupertype table)

/-! ## Lists of links -/

/-- An edge, by the type it leads to. -/
abbrev Link := EdgeKind × JavaType

/-- The links with one more, by the rule for edges. -/
def addLink (links : List Link) (link : Link) : List Link :=
  let kept :=
    if link.1 = .superclass then links.filter (·.1 != .superclass) else links
  if kept.contains link then kept else kept ++ [link]

/-- The links that are held after some were added to none. -/
def gather (links : List Link) : List Link := links.foldl addLink []

def superclassOf (links : List Link) : Option JavaType :=
  (links.find? (·.1 == .superclass)).map Prod.snd

def interfacesOf (links : List Link) : List JavaType :=
  (links.filter (·.1 == .interface)).map Prod.snd

/-- The links that every array has. -/
def arrayLinks : List Link :=
  [(.interface, .serializable), (.interface, .cloneable)]

/-- The links that are stated of a class, in their order. -/
def ClassFacts.stated (facts : ClassFacts) : List Link :=
  (.superclass, (facts.superclass.map JavaType.named).getD .object) ::
    facts.interfaces.map fun name => (.interface, .named name)

/-- The links of a class. -/
def ClassFacts.links (facts : ClassFacts) : List Link := gather facts.stated

/-- The links that are stated of an array, from those of the class it is
over. -/
def statedOver (dimensions : Nat) (links : List Link) : List Link :=
  (superclassOf links).toList.map
      (fun type => (.superclass, type.array dimensions))
    ++ (interfacesOf links).map (fun type => (.interface, type.array dimensions))
    ++ arrayLinks

/-- The links of an array, from those of the class it is over. -/
def linksOver (dimensions : Nat) (links : List Link) : List Link :=
  gather (statedOver dimensions links)

namespace Classpath

/-- The links of a class, if it can be placed. -/
def classLinks? (table : Classpath) (name : String) : Option (List Link) :=
  if JavaType.named name = .object then some []
  else (table.find? name).map ClassFacts.links

/-- The links of a type, if it can be placed. -/
def links? (table : Classpath) (type : JavaType) : Option (List Link) :=
  match type.dimensions, type.element with
  | 0, .basic _ => some []
  | 0, .named name => table.classLinks? name
  | _ + 1, .basic _ => some (gather ((.superclass, .object) :: arrayLinks))
  | n + 1, .named name =>
    if JavaType.named name = .object then
      some (gather ((.superclass, ⟨n, .named name⟩) :: arrayLinks))
    else (table.classLinks? name).map (linksOver (n + 1))

end Classpath

/-- Adding interfaces forgets nothing. -/
theorem mem_foldl_addLink {links more : List Link} {link : Link}
    (hmore : ∀ l ∈ more, l.1 = .interface) :
    link ∈ more.foldl addLink links ↔ link ∈ links ∨ link ∈ more := by
  induction more generalizing links with
  | nil => simp
  | cons first rest ih =>
      have hfirst : first.1 = .interface := hmore first List.mem_cons_self
      have hadd : link ∈ addLink links first ↔ link ∈ links ∨ link = first := by
        unfold addLink
        rw [hfirst]
        simp only [reduceCtorEq, if_false]
        split
        · next hheld =>
            have hmem : first ∈ links := by simpa using hheld
            constructor
            · exact .inl
            · rintro (h | rfl)
              · exact h
              · exact hmem
        · simp
      rw [List.foldl_cons, ih fun l hl => hmore l (List.mem_cons_of_mem _ hl),
        hadd, List.mem_cons, or_assoc]

theorem gather_cons (first : Link) (rest : List Link) :
    gather (first :: rest) = rest.foldl addLink [first] := by
  have hfirst : addLink [] first = [first] := by
    unfold addLink
    split <;> simp
  rw [gather, List.foldl_cons, hfirst]

theorem mem_gather_cons {first link : Link} {rest : List Link}
    (hrest : ∀ l ∈ rest, l.1 = .interface) :
    link ∈ gather (first :: rest) ↔ link = first ∨ link ∈ rest := by
  rw [gather_cons, mem_foldl_addLink hrest, List.mem_singleton]

theorem mem_gather_targets {first : Link} {rest : List Link} {type : JavaType}
    (hrest : ∀ l ∈ rest, l.1 = .interface) :
    type ∈ (gather (first :: rest)).map Prod.snd ↔
      type = first.2 ∨ type ∈ rest.map Prod.snd := by
  simp only [List.mem_map, mem_gather_cons hrest]
  constructor
  · rintro ⟨link, rfl | hlink, rfl⟩
    · exact .inl rfl
    · exact .inr ⟨link, hlink, rfl⟩
  · rintro (rfl | ⟨link, hlink, rfl⟩)
    · exact ⟨first, .inl rfl, rfl⟩
    · exact ⟨link, .inr hlink, rfl⟩

theorem arrayLinks_interface : ∀ l ∈ arrayLinks, l.1 = .interface := by
  simp [arrayLinks]

theorem foldl_addLink_cons {first : Link} {links more : List Link}
    (hmore : ∀ l ∈ more, l.1 = .interface) :
    ∃ rest, more.foldl addLink (first :: links) = first :: rest := by
  induction more generalizing links with
  | nil => exact ⟨links, rfl⟩
  | cons link more ih =>
      have hlink : link.1 = .interface := hmore link List.mem_cons_self
      have hadd : ∃ rest, addLink (first :: links) link = first :: rest := by
        unfold addLink
        rw [hlink]
        simp only [reduceCtorEq, if_false]
        split
        · exact ⟨links, rfl⟩
        · exact ⟨links ++ [link], rfl⟩
      obtain ⟨rest, hrest⟩ := hadd
      rw [List.foldl_cons, hrest]
      exact ih fun l hl => hmore l (List.mem_cons_of_mem _ hl)

/-- One superclass and then interfaces: the superclass is the one given. -/
theorem superclassOf_gather {super : JavaType} {rest : List Link}
    (hrest : ∀ l ∈ rest, l.1 = .interface) :
    superclassOf (gather ((.superclass, super) :: rest)) = some super := by
  obtain ⟨tail, htail⟩ : ∃ tail, rest.foldl addLink [(.superclass, super)] =
      (.superclass, super) :: tail := foldl_addLink_cons hrest
  rw [gather_cons, htail]
  rfl

theorem mem_interfacesOf {links : List Link} {type : JavaType} :
    type ∈ interfacesOf links ↔ (.interface, type) ∈ links := by
  simp [interfacesOf]

/-! ## Links and the relation -/

namespace ClassFacts

variable (facts : ClassFacts)

theorem superclassOf_links :
    superclassOf facts.links =
      some ((facts.superclass.map JavaType.named).getD .object) :=
  superclassOf_gather (by simp)

theorem mem_interfacesOf_links {type : JavaType} :
    type ∈ interfacesOf facts.links ↔
      ∃ name ∈ facts.interfaces, type = .named name := by
  rw [mem_interfacesOf, links, stated, mem_gather_cons (by simp)]
  simp [eq_comm]

theorem mem_links {type : JavaType} :
    type ∈ facts.links.map Prod.snd ↔
      type = (facts.superclass.map JavaType.named).getD .object ∨
        ∃ name ∈ facts.interfaces, type = .named name := by
  rw [links, stated, mem_gather_targets (by simp)]
  simp [eq_comm]

/-- An array of a class has the arrays of what is above the class, and the two
interfaces. -/
theorem mem_linksOver_links {n : Nat} {type : JavaType} :
    type ∈ (linksOver n facts.links).map Prod.snd ↔
      (∃ super ∈ facts.links.map Prod.snd, type = super.array n) ∨
        type = .serializable ∨ type = .cloneable := by
  have hinterfaces : ∀ l ∈ (interfacesOf facts.links).map
      (fun type => ((.interface, type.array n) : Link)) ++ arrayLinks,
      l.1 = .interface := by
    intro l hl
    rcases List.mem_append.1 hl with hl | hl
    · obtain ⟨_, _, rfl⟩ := List.mem_map.1 hl
      rfl
    · exact arrayLinks_interface l hl
  have hinner : type ∈ ((interfacesOf facts.links).map
      (fun type => ((.interface, type.array n) : Link)) ++ arrayLinks).map
        Prod.snd ↔
      (∃ name ∈ facts.interfaces, type = (JavaType.named name).array n) ∨
        type = .serializable ∨ type = .cloneable := by
    rw [List.map_append, List.mem_append, List.map_map, List.mem_map]
    simp only [mem_interfacesOf_links, arrayLinks]
    constructor
    · rintro (⟨super, ⟨name, hname, rfl⟩, rfl⟩ | h)
      · exact .inl ⟨name, hname, rfl⟩
      · exact .inr (by simpa using h)
    · rintro (⟨name, hname, rfl⟩ | h)
      · exact .inl ⟨_, ⟨name, hname, rfl⟩, rfl⟩
      · exact .inr (by simpa using h)
  rw [linksOver, statedOver, superclassOf_links, List.append_assoc]
  refine (mem_gather_targets hinterfaces).trans ?_
  rw [hinner]
  constructor
  · rintro (rfl | ⟨name, hname, rfl⟩ | h)
    · exact .inl ⟨_, facts.mem_links.2 (.inl rfl), rfl⟩
    · exact .inl ⟨_, facts.mem_links.2 (.inr ⟨name, hname, rfl⟩), rfl⟩
    · exact .inr h
  · rintro (⟨super, hsuper, rfl⟩ | h)
    · rcases facts.mem_links.1 hsuper with rfl | ⟨name, hname, rfl⟩
      · exact .inl rfl
      · exact .inr (.inl ⟨name, hname, rfl⟩)
    · exact .inr (.inr h)

end ClassFacts

variable {table : Classpath}

namespace Classpath

theorem classLinks?_object {name : String}
    (h : JavaType.named name = .object) : table.classLinks? name = some [] := by
  rw [classLinks?, if_pos h]

theorem classLinks?_class {name : String} (h : JavaType.named name ≠ .object) :
    table.classLinks? name = (table.find? name).map ClassFacts.links := by
  rw [classLinks?, if_neg h]

theorem links?_overObject {name : String} (h : JavaType.named name = .object)
    (n : Nat) :
    table.links? ⟨n + 1, .named name⟩ =
      some (gather ((.superclass, ⟨n, .named name⟩) :: arrayLinks)) := by
  simp only [links?]
  rw [if_pos h]

theorem links?_overClass {name : String} (h : JavaType.named name ≠ .object)
    (n : Nat) :
    table.links? ⟨n + 1, .named name⟩ =
      (table.classLinks? name).map (linksOver (n + 1)) := by
  simp only [links?]
  rw [if_neg h]

theorem links?_isSome {type : JavaType} :
    (table.links? type).isSome ↔ table.Places type.element := by
  obtain ⟨dimensions, element⟩ := type
  cases element with
  | basic basic => cases dimensions <;> simp [links?, Places]
  | named name =>
      by_cases hobject : JavaType.named name = .object
      · cases dimensions with
        | zero => simp [links?, classLinks?_object hobject, Places, hobject]
        | succ n => simp [links?_overObject hobject, Places, hobject]
      · cases dimensions with
        | zero =>
            simp [links?, classLinks?_class hobject, Places, hobject,
              Option.isSome_iff_exists]
        | succ n =>
            simp [links?_overClass hobject, classLinks?_class hobject, Places,
              hobject, Option.isSome_iff_exists]

/-- A class other than the root that is not in the table. -/
def Lacks (table : Classpath) (name : String) : Prop :=
  JavaType.named name ≠ .object ∧ table.find? name = none

instance (name : String) : Decidable (table.Lacks name) :=
  inferInstanceAs (Decidable (_ ∧ _))

/-- A type has no links if it is such a class or an array over one. -/
theorem links?_eq_none {type : JavaType} :
    table.links? type = none ↔
      ∃ name, type.element = .named name ∧ table.Lacks name := by
  rw [← Option.not_isSome_iff_eq_none, links?_isSome]
  cases type.element with
  | basic basic => simp [Places]
  | named name => simp [Places, Lacks, ← Option.ne_none_iff_exists']

end Classpath

theorem not_directSupertype_object {super : JavaType} :
    ¬ DirectSupertype table .object super := by
  intro h
  cases h with
  | superclass hname _ => exact hname rfl
  | interface hname _ _ => exact hname rfl

theorem directSupertype_named {name : String} {super : JavaType} :
    DirectSupertype table (.named name) super ↔
      ∃ links, table.classLinks? name = some links ∧
        super ∈ links.map Prod.snd := by
  by_cases hobject : JavaType.named name = .object
  · rw [Classpath.classLinks?_object hobject, hobject]
    constructor
    · intro h
      exact absurd h not_directSupertype_object
    · rintro ⟨links, hlinks, h⟩
      cases hlinks
      cases h
  · rw [Classpath.classLinks?_class hobject]
    simp only [Option.map_eq_some_iff]
    constructor
    · intro h
      cases h with
      | superclass _ hfind =>
          exact ⟨_, ⟨_, hfind, rfl⟩, (ClassFacts.mem_links _).2 (.inl rfl)⟩
      | interface _ hfind hi =>
          exact ⟨_, ⟨_, hfind, rfl⟩,
            (ClassFacts.mem_links _).2 (.inr ⟨_, hi, rfl⟩)⟩
    · rintro ⟨links, ⟨facts, hfind, rfl⟩, h⟩
      rcases facts.mem_links.1 h with rfl | ⟨interface, hi, rfl⟩
      · exact .superclass hobject hfind
      · exact .interface hobject hfind hi

theorem mem_arrayLinks {type : JavaType} :
    type ∈ arrayLinks.map Prod.snd ↔
      type = .serializable ∨ type = .cloneable := by
  simp [arrayLinks]

theorem directSupertype_overBasic {basic : BasicType} {n : Nat}
    {super : JavaType} :
    DirectSupertype table ⟨n + 1, .basic basic⟩ super ↔
      super = .object ∨ super = .serializable ∨ super = .cloneable := by
  constructor
  · intro h
    cases h with
    | overBasic => exact .inl rfl
    | serializable _ => exact .inr (.inl rfl)
    | cloneable _ => exact .inr (.inr rfl)
  · rintro (rfl | rfl | rfl)
    · exact .overBasic
    · exact .serializable trivial
    · exact .cloneable trivial

theorem directSupertype_overObject {name : String}
    (hobject : JavaType.named name = .object) {n : Nat} {super : JavaType} :
    DirectSupertype table ⟨n + 1, .named name⟩ super ↔
      super = ⟨n, .named name⟩ ∨ super = .serializable ∨
        super = .cloneable := by
  constructor
  · intro h
    cases h with
    | overObject => exact .inl rfl
    | overClass h =>
        rw [hobject] at h
        exact absurd h not_directSupertype_object
    | serializable _ => exact .inr (.inl rfl)
    | cloneable _ => exact .inr (.inr rfl)
  · rintro (rfl | rfl | rfl)
    · cases hobject
      exact .overObject
    · exact .serializable (.inl hobject)
    · exact .cloneable (.inl hobject)

theorem directSupertype_overClass {name : String}
    (hobject : JavaType.named name ≠ .object) {n : Nat} {super : JavaType} :
    DirectSupertype table ⟨n + 1, .named name⟩ super ↔
      ∃ facts, table.find? name = some facts ∧
        super ∈ (linksOver (n + 1) facts.links).map Prod.snd := by
  simp only [ClassFacts.mem_linksOver_links]
  constructor
  · intro h
    cases h with
    | overObject => exact absurd rfl hobject
    | overClass h =>
        obtain ⟨links, hlinks, hmem⟩ := directSupertype_named.1 h
        rw [Classpath.classLinks?_class hobject] at hlinks
        obtain ⟨facts, hfind, rfl⟩ := Option.map_eq_some_iff.1 hlinks
        exact ⟨facts, hfind, .inl ⟨_, hmem, rfl⟩⟩
    | serializable hplaced =>
        obtain ⟨facts, hfind⟩ := hplaced.resolve_left hobject
        exact ⟨facts, hfind, .inr (.inl rfl)⟩
    | cloneable hplaced =>
        obtain ⟨facts, hfind⟩ := hplaced.resolve_left hobject
        exact ⟨facts, hfind, .inr (.inr rfl)⟩
  · rintro ⟨facts, hfind, ⟨above, habove, rfl⟩ | rfl | rfl⟩
    · refine .overClass (directSupertype_named.2 ⟨facts.links, ?_, habove⟩)
      rw [Classpath.classLinks?_class hobject, hfind]
      rfl
    · exact .serializable (.inr ⟨facts, hfind⟩)
    · exact .cloneable (.inr ⟨facts, hfind⟩)

/-- The links of a type lead to the types directly above it. -/
theorem directSupertype_iff {sub super : JavaType} :
    DirectSupertype table sub super ↔
      ∃ links, table.links? sub = some links ∧
        super ∈ links.map Prod.snd := by
  obtain ⟨dimensions, element⟩ := sub
  cases dimensions with
  | zero =>
      cases element with
      | basic basic =>
          constructor
          · intro h
            cases h
          · rintro ⟨links, hlinks, h⟩
            cases hlinks
            cases h
      | named name => exact directSupertype_named
  | succ n =>
      cases element with
      | basic basic =>
          rw [directSupertype_overBasic]
          simp only [Classpath.links?, Option.some.injEq, exists_eq_left',
            mem_gather_targets arrayLinks_interface, mem_arrayLinks]
      | named name =>
          by_cases hobject : JavaType.named name = .object
          · rw [directSupertype_overObject hobject,
              Classpath.links?_overObject hobject]
            simp only [Option.some.injEq, exists_eq_left',
              mem_gather_targets arrayLinks_interface, mem_arrayLinks]
          · rw [directSupertype_overClass hobject,
              Classpath.links?_overClass hobject,
              Classpath.classLinks?_class hobject]
            simp only [Option.map_map, Option.map_eq_some_iff, Function.comp]
            constructor
            · rintro ⟨facts, hfind, h⟩
              exact ⟨_, ⟨facts, hfind, rfl⟩, h⟩
            · rintro ⟨_, ⟨facts, hfind, rfl⟩, h⟩
              exact ⟨facts, hfind, h⟩

/-! ## Finitely many types above -/

/-- The types over some elements, with a limit to their dimensions. -/
def typesWithin (elements : List ElementType) (depth : Nat) : List JavaType :=
  elements.flatMap fun element =>
    (List.range (depth + 1)).map fun n => ⟨n, element⟩

theorem length_typesWithin (elements : List ElementType) (depth : Nat) :
    (typesWithin elements depth).length = elements.length * (depth + 1) := by
  rw [typesWithin, List.length_flatMap]
  simp only [List.length_map, List.length_range, List.map_const',
    List.sum_replicate_nat]

theorem mem_typesWithin {elements : List ElementType} {depth : Nat}
    {type : JavaType} :
    type ∈ typesWithin elements depth ↔
      type.element ∈ elements ∧ type.dimensions ≤ depth := by
  obtain ⟨dimensions, element⟩ := type
  simp only [typesWithin, List.mem_flatMap, List.mem_map, List.mem_range,
    JavaType.mk.injEq]
  constructor
  · rintro ⟨_, helement, n, hn, rfl, rfl⟩
    exact ⟨helement, by omega⟩
  · rintro ⟨helement, hle⟩
    exact ⟨element, helement, dimensions, by omega, rfl, rfl⟩

namespace Classpath

/-- The names that the classes of a table hang off. -/
def mentioned (table : Classpath) : List String :=
  table.classes.flatMap fun entry =>
    entry.2.superclass.toList ++ entry.2.interfaces

theorem length_mentioned_le :
    table.mentioned.length ≤ ClassSource.mentions table := by
  obtain ⟨classes, asked⟩ := table
  have hsum : ∀ classes : List (String × ClassFacts),
      (classes.flatMap fun entry =>
        entry.2.superclass.toList ++ entry.2.interfaces).length ≤
      classes.foldr (fun entry total => entry.2.interfaces.length + 2 + total)
        0 := by
    intro classes
    induction classes with
    | nil => exact Nat.le_refl _
    | cons entry rest ih =>
        obtain ⟨name, facts⟩ := entry
        rw [List.flatMap_cons, List.length_append, List.length_append,
          List.foldr_cons]
        have hone : facts.superclass.toList.length ≤ 1 := by
          cases facts.superclass <;> simp
        dsimp only at ih ⊢
        omega
  exact hsum classes

theorem find?_mem {name : String} {facts : ClassFacts}
    (h : table.find? name = some facts) : (name, facts) ∈ table.classes := by
  rw [find?, List.lookup_eq_some_iff] at h
  obtain ⟨before, after, hsplit, _⟩ := h
  rw [hsplit]
  simp

theorem superclass_mentioned {name super : String} {facts : ClassFacts}
    (h : table.find? name = some facts) (hsuper : facts.superclass = some super) :
    super ∈ table.mentioned :=
  List.mem_flatMap.2 ⟨_, find?_mem h, by simp [hsuper]⟩

theorem interface_mentioned {name interface : String} {facts : ClassFacts}
    (h : table.find? name = some facts) (hi : interface ∈ facts.interfaces) :
    interface ∈ table.mentioned :=
  List.mem_flatMap.2 ⟨_, find?_mem h, by simp [hi]⟩

/-- The elements that types above a given one can have. -/
def elementsAbove (table : Classpath) (start : ElementType) : List ElementType :=
  start :: JavaType.object.element :: JavaType.serializable.element ::
    JavaType.cloneable.element :: table.mentioned.map .named

/-- The types that can be above a given one. -/
def typesAbove (table : Classpath) (start : JavaType) : List JavaType :=
  typesWithin (table.elementsAbove start.element) start.dimensions

theorem length_typesAbove (start : JavaType) :
    (table.typesAbove start).length =
      (table.mentioned.length + 4) * (start.dimensions + 1) := by
  have hlength : (table.elementsAbove start.element).length =
      table.mentioned.length + 4 := by simp [elementsAbove]
  rw [← hlength]
  exact length_typesWithin _ _

theorem mem_typesAbove {start type : JavaType} :
    type ∈ table.typesAbove start ↔
      type.element ∈ table.elementsAbove start.element ∧
        type.dimensions ≤ start.dimensions :=
  mem_typesWithin

theorem mem_elementsAbove_mentioned {start : ElementType} {name : String}
    (h : name ∈ table.mentioned) :
    .named name ∈ table.elementsAbove start := by
  simp [elementsAbove, h]

theorem object_mem_elementsAbove (start : ElementType) :
    JavaType.object.element ∈ table.elementsAbove start := by
  simp [elementsAbove]

end Classpath

/-- One step up adds no dimension, and its element is the old one or one that
can be above any. -/
theorem DirectSupertype.mem_elementsAbove {sub super : JavaType}
    (h : DirectSupertype table sub super) (start : ElementType)
    (hsub : sub.element ∈ table.elementsAbove start) :
    super.element ∈ table.elementsAbove start ∧
      super.dimensions ≤ sub.dimensions := by
  induction h with
  | @superclass name facts _ hfind =>
      cases hsuper : facts.superclass with
      | none => exact ⟨Classpath.object_mem_elementsAbove start, Nat.le_refl _⟩
      | some above =>
          exact ⟨Classpath.mem_elementsAbove_mentioned
            (Classpath.superclass_mentioned hfind hsuper), Nat.le_refl _⟩
  | interface _ hfind hi =>
      exact ⟨Classpath.mem_elementsAbove_mentioned
        (Classpath.interface_mentioned hfind hi), Nat.le_refl _⟩
  | overBasic => exact ⟨Classpath.object_mem_elementsAbove start, Nat.zero_le _⟩
  | overObject => exact ⟨hsub, Nat.le_succ _⟩
  | overClass h ih =>
      obtain ⟨helement, hdimensions⟩ := ih hsub
      exact ⟨helement, Nat.add_le_add_left hdimensions _⟩
  | serializable _ | cloneable _ =>
      exact ⟨by simp [Classpath.elementsAbove], Nat.zero_le _⟩

/-- Everything above a type is in the list for it. -/
theorem mem_typesAbove_of_ancestor {start type : JavaType}
    (h : Ancestor table start type) : type ∈ table.typesAbove start := by
  rw [Classpath.mem_typesAbove]
  induction h with
  | refl => exact ⟨List.mem_cons_self, Nat.le_refl _⟩
  | tail _ hstep ih =>
      obtain ⟨helement, hdimensions⟩ := hstep.mem_elementsAbove _ ih.1
      exact ⟨helement, Nat.le_trans hdimensions ih.2⟩

end ClassAudit
