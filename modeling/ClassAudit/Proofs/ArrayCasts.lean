import ClassAudit.Proofs.ImpossibleCasts

/-!
# Casts between arrays, judged and misjudged

When an array is cast, the machine compares components: an array is a subtype of
another if its components are references and subtypes of the other's, and every
array is a subtype of the root and of two interfaces (`RuntimeSubtype`). The type
repository has edges of its own, which do not quite agree. An array of basic
values hangs off the root directly, however many dimensions it has, while to the
machine an `int[][]` is an array of objects as well: its components are arrays.

So the verdict on casts is wrong for such arrays, and it is wrong for no others
(`Severed.common_array_iff`). The reason that it is right otherwise is the one
for classes. Below two arrays of the same depth there is an array only if there
is a class below both elements, and below two arrays of different depths only if
the element of the shallow one is above arrays.

A table can make classes of the two interfaces that arrays have. Then they are
above arrays without being interfaces, and the rule, which trusts the table,
misjudges them too.
-/

namespace ClassAudit

open TypeRepository Classpath

/-- Values of the type are references. -/
def JavaType.IsReference (type : JavaType) : Prop :=
  ∀ basic, type ≠ ⟨0, .basic basic⟩

/-- Something that is above every array. -/
def AboveArrays (table : Classpath) (type : JavaType) : Prop :=
  ∃ root ∈ [JavaType.object, .serializable, .cloneable], Ancestor table root type

/-- Subtyping as the machine has it when it executes a cast. -/
inductive RuntimeSubtype (table : Classpath) : JavaType → JavaType → Prop
  | named {a b : String} (h : Ancestor table (.named a) (.named b)) :
    RuntimeSubtype table (.named a) (.named b)
  | same {n : Nat} {element : ElementType} :
    RuntimeSubtype table ⟨n + 1, element⟩ ⟨n + 1, element⟩
  | component {n m : Nat} {a b : ElementType}
    (hsub : JavaType.IsReference ⟨n, a⟩) (hsuper : JavaType.IsReference ⟨m, b⟩)
    (h : RuntimeSubtype table ⟨n, a⟩ ⟨m, b⟩) :
    RuntimeSubtype table ⟨n + 1, a⟩ ⟨m + 1, b⟩
  | above {n : Nat} {element : ElementType} {super : JavaType}
    (h : AboveArrays table super) : RuntimeSubtype table ⟨n + 1, element⟩ super

section Runtime

variable {table : Classpath} {a b : ElementType} {k n : Nat}

theorem ancestor_named_named {name : String} {super : JavaType}
    (h : Ancestor table (.named name) super) : ∃ above, super = .named above := by
  induction h with
  | refl => exact ⟨name, rfl⟩
  | tail _ hstep ih =>
      obtain ⟨middle, rfl⟩ := ih
      exact directSupertype_named_named hstep

theorem AboveArrays.named {type : JavaType} (h : AboveArrays table type) :
    ∃ name, type = .named name := by
  obtain ⟨root, hroot, habove⟩ := h
  simp only [List.mem_cons, List.not_mem_nil, or_false] at hroot
  rcases hroot with rfl | rfl | rfl <;> exact ancestor_named_named habove

/-- The machine takes an array apart as often as the other has dimensions, and
compares what is left. -/
theorem RuntimeSubtype.peel (h : RuntimeSubtype table ⟨k, a⟩ ⟨n, b⟩) :
    ∃ j, k = n + j ∧ ((⟨j, a⟩ : JavaType) = ⟨0, b⟩ ∨
      RuntimeSubtype table ⟨j, a⟩ ⟨0, b⟩) := by
  generalize hsub : (⟨k, a⟩ : JavaType) = sub at h
  generalize hsuper : (⟨n, b⟩ : JavaType) = super at h
  induction h generalizing k n with
  | named h =>
      cases hsub
      cases hsuper
      exact ⟨0, rfl, .inr (.named h)⟩
  | same =>
      cases hsub
      cases hsuper
      exact ⟨0, rfl, .inl rfl⟩
  | component _ _ _ ih =>
      cases hsub
      cases hsuper
      obtain ⟨j, rfl, hrest⟩ := ih rfl rfl
      exact ⟨j, Nat.add_right_comm _ _ _, hrest⟩
  | @above m _ _ h =>
      cases hsub
      obtain ⟨name, rfl⟩ := h.named
      cases hsuper
      exact ⟨m + 1, (Nat.zero_add _).symm, .inr (.above h)⟩

/-- A whole array below something without dimensions: that is above arrays. -/
theorem RuntimeSubtype.aboveArrays
    (h : RuntimeSubtype table ⟨k + 1, a⟩ ⟨0, b⟩) : AboveArrays table ⟨0, b⟩ := by
  generalize hsub : (⟨k + 1, a⟩ : JavaType) = sub at h
  generalize hsuper : (⟨0, b⟩ : JavaType) = super at h
  cases h with
  | named => cases hsub
  | same | component => cases hsuper
  | above h => exact h

theorem RuntimeSubtype.ancestor {name : String}
    (h : RuntimeSubtype table (.named name) ⟨0, b⟩) :
    Ancestor table (.named name) ⟨0, b⟩ := by
  generalize hsub : JavaType.named name = sub at h
  generalize hsuper : (⟨0, b⟩ : JavaType) = super at h
  cases h with
  | named h => exact h
  | same | component | above => cases hsub

theorem RuntimeSubtype.not_basic {basic : BasicType} {super : JavaType} :
    ¬ RuntimeSubtype table ⟨0, .basic basic⟩ super := by
  intro h
  generalize hsub : (⟨0, .basic basic⟩ : JavaType) = sub at h
  cases h <;> cases hsub

theorem isReference_succ (n : Nat) (element : ElementType) :
    JavaType.IsReference ⟨n + 1, element⟩ :=
  fun _ heq => nomatch heq

theorem isReference_named (name : String) : (JavaType.named name).IsReference :=
  fun _ heq => nomatch heq

/-- More dimensions on both sides keep the order of references. -/
theorem RuntimeSubtype.add {j : Nat} (hsub : JavaType.IsReference ⟨j, a⟩)
    (hsuper : JavaType.IsReference ⟨n, b⟩)
    (h : RuntimeSubtype table ⟨j, a⟩ ⟨n, b⟩) (m : Nat) :
    RuntimeSubtype table ⟨j + m, a⟩ ⟨n + m, b⟩ := by
  induction m with
  | zero => exact h
  | succ m ih =>
      refine .component ?_ ?_ ih
      · cases m with
        | zero => exact hsub
        | succ m => exact isReference_succ _ a
      · cases m with
        | zero => exact hsuper
        | succ m => exact isReference_succ _ b

/-- An array is below a shallower one whose element is above arrays. -/
theorem AboveArrays.runtimeSubtype {name : String} {m : Nat}
    (h : AboveArrays table (.named name)) (hlt : m < n) :
    RuntimeSubtype table ⟨n, a⟩ ⟨m, .named name⟩ := by
  obtain ⟨j, rfl⟩ : ∃ j, n = j + 1 + m := ⟨n - m - 1, by omega⟩
  have hbase : RuntimeSubtype table ⟨j + 1, a⟩ (.named name) := .above h
  have hadd := hbase.add (isReference_succ j a) (isReference_named name) m
  rwa [Nat.zero_add] at hadd

end Runtime

/-! ## What the repository has of it -/

section Lifting

variable {table : Classpath} {super : JavaType} {name : String}

/-- What is above a class is above its arrays, dimension by dimension. -/
theorem ancestor_array (h : Ancestor table (.named name) super) (n : Nat) :
    Ancestor table (.array n (.named name)) (super.array n) := by
  cases n with
  | zero => simpa [JavaType.array] using h
  | succ n =>
      induction h with
      | refl => exact .refl
      | tail hrest hstep ih =>
          obtain ⟨middle, rfl⟩ := ancestor_named_named hrest
          exact ih.tail (.overClass hstep)

/-- Arrays of objects are arrays of objects with fewer dimensions. -/
theorem ancestor_object_array {n m : Nat} (h : m ≤ n) :
    Ancestor table (.array n .object) (.array m .object) := by
  induction h with
  | refl => exact .refl
  | step _ ih => exact .head .overObject ih

theorem Complete.element {n : Nat}
    (h : Complete table (.array n (.named name))) :
    Complete table (.named name) := fun above habove => by
  have hplaces := h _ (ancestor_array habove n)
  exact hplaces

/-- With nothing missing, an array over a class is an array of objects. -/
theorem ancestor_array_object (hlegal : table.Legal) {n m : Nat}
    (hcomplete : Complete table (.array n (.named name))) (h : m ≤ n) :
    Ancestor table (.array n (.named name)) (.array m .object) :=
  (ancestor_array (ancestor_object hlegal hcomplete.element) n).trans
    (ancestor_object_array h)

end Lifting

/-! ## The verdict -/

/-- A class that the table puts above arrays, because it makes classes of their
interfaces. -/
def DeclaredAboveArrays (table : Classpath) (name : String) : Prop :=
  table.Declares (.named name) ∧ AboveArrays table (.named name)

/-- Arrays of which the first is one of the second to the machine, or shares
arrays with it, though the repository has no edges to say so. -/
inductive Overlooked (table : Classpath) : JavaType → JavaType → Prop
  | basic {basic : BasicType} {n m : Nat} (hpos : 0 < m) (hlt : m < n) :
    Overlooked table ⟨n, .basic basic⟩ (.array m .object)
  | declared {n m : Nat} {element : ElementType} {name : String} (hpos : 0 < m)
    (hlt : m < n) (h : DeclaredAboveArrays table name) :
    Overlooked table ⟨n, element⟩ ⟨m, .named name⟩
  | level {n : Nat} {first second : String} (hpos : 0 < n)
    (hfirst : DeclaredAboveArrays table first)
    (hsecond : DeclaredAboveArrays table second) :
    Overlooked table ⟨n, .named first⟩ ⟨n, .named second⟩

section Verdict

variable {table : Classpath} {s t : JavaType}

/-- Some array is a subtype of both. -/
def CommonArray (table : Classpath) (s t : JavaType) : Prop :=
  ∃ type : JavaType, 0 < type.dimensions ∧ RuntimeSubtype table type s ∧
    RuntimeSubtype table type t

theorem CommonArray.symm (h : CommonArray table s t) : CommonArray table t s := by
  obtain ⟨type, hpos, hs, ht⟩ := h
  exact ⟨type, hpos, ht, hs⟩

theorem aboveArrays_object : AboveArrays table .object :=
  ⟨.object, by simp, .refl⟩

theorem Overlooked.commonArray (h : Overlooked table s t) :
    CommonArray table s t := by
  cases h with
  | @basic basic n m hpos hlt =>
      obtain ⟨k, rfl⟩ : ∃ k, n = k + 1 := ⟨n - 1, by omega⟩
      exact ⟨⟨k + 1, .basic basic⟩, Nat.succ_pos k, .same,
        aboveArrays_object.runtimeSubtype hlt⟩
  | @declared n m element name hpos hlt habove =>
      obtain ⟨k, rfl⟩ : ∃ k, n = k + 1 := ⟨n - 1, by omega⟩
      exact ⟨⟨k + 1, element⟩, Nat.succ_pos k, .same,
        habove.2.runtimeSubtype hlt⟩
  | @level n first second hpos hfirst hsecond =>
      exact ⟨⟨n + 1, .named first⟩, Nat.succ_pos n,
        hfirst.2.runtimeSubtype n.lt_succ_self,
        hsecond.2.runtimeSubtype n.lt_succ_self⟩

/-- The array that is overlooked to be above is not the deeper one, and its
elements are objects. -/
theorem Overlooked.shape (h : Overlooked table s t) :
    t.dimensions ≤ s.dimensions ∧ ∃ name, t.element = .named name := by
  cases h with
  | basic _ hlt => exact ⟨Nat.le_of_lt hlt, _, rfl⟩
  | declared _ hlt _ => exact ⟨Nat.le_of_lt hlt, _, rfl⟩
  | level => exact ⟨Nat.le_refl _, _, rfl⟩

/-- The element of an array that is above arrays is the root or declared. -/
theorem ClassElements.aboveArrays {m : Nat} {b : ElementType}
    (h : ClassElements table ⟨m, b⟩) (habove : AboveArrays table ⟨0, b⟩) :
    b = JavaType.object.element ∨
      ∃ name, b = .named name ∧ DeclaredAboveArrays table name := by
  obtain ⟨name, hname⟩ := habove.named
  cases hname
  rcases flag?_eq_false (h name rfl) with hroot | hdeclares
  · injection hroot with _ helement
    exact .inl helement
  · exact .inr ⟨name, rfl, hdeclares, habove⟩

/-- Severed arrays of one depth are arrays of unrelated classes. -/
theorem Severed.unrelated {n : Nat} {x y : String}
    (h : Severed table ⟨n, .named x⟩ ⟨n, .named y⟩) :
    Unrelated table (.named x) (.named y) where
  left := h.left x rfl
  right := h.right y rfl
  completeLeft := Complete.element (n := n) h.completeLeft
  completeRight := Complete.element (n := n) h.completeRight
  notBelow := fun hbelow => h.notBelow (ancestor_array hbelow n)
  notAbove := fun habove => h.notAbove (ancestor_array habove n)

/-- Over a class there is no array that is severed from the arrays of objects with
as many dimensions or fewer. -/
theorem Severed.basic_of_object (hlegal : table.Legal) {n m : Nat}
    {a : ElementType} (h : Severed table ⟨n, a⟩ (.array m .object))
    (hle : m ≤ n) : ∃ basic, a = .basic basic := by
  cases a with
  | basic basic => exact ⟨basic, rfl⟩
  | named name =>
      have hbelow := ancestor_array_object (n := n) hlegal h.completeLeft hle
      exact absurd hbelow h.notBelow

theorem aboveArrays_of_peel {i : Nat} {e b : ElementType}
    (h : (⟨i + 1, e⟩ : JavaType) = ⟨0, b⟩ ∨
      RuntimeSubtype table ⟨i + 1, e⟩ ⟨0, b⟩) : AboveArrays table ⟨0, b⟩ := by
  rcases h with heq | h
  · cases heq
  · exact h.aboveArrays

/-- Below severed arrays of one depth there is no array of that depth. -/
theorem Severed.no_common_element (hlegal : table.Legal) {n : Nat}
    {a b e : ElementType} (h : Severed table ⟨n, a⟩ ⟨n, b⟩)
    (ha : (⟨0, e⟩ : JavaType) = ⟨0, a⟩ ∨ RuntimeSubtype table ⟨0, e⟩ ⟨0, a⟩)
    (hb : (⟨0, e⟩ : JavaType) = ⟨0, b⟩ ∨ RuntimeSubtype table ⟨0, e⟩ ⟨0, b⟩) :
    False := by
  cases e with
  | basic basic =>
      have hsame : ∀ {b}, (⟨0, .basic basic⟩ : JavaType) = ⟨0, b⟩ ∨
          RuntimeSubtype table ⟨0, .basic basic⟩ ⟨0, b⟩ → b = .basic basic := by
        rintro b (heq | hbelow)
        · cases heq
          rfl
        · exact absurd hbelow RuntimeSubtype.not_basic
      rw [hsame ha, hsame hb] at h
      exact h.notBelow .refl
  | named x =>
      have habove : ∀ {b}, JavaType.named x = ⟨0, b⟩ ∨
          RuntimeSubtype table (.named x) ⟨0, b⟩ →
          Ancestor table (.named x) ⟨0, b⟩ := by
        rintro b (heq | hbelow)
        · rw [heq]
        · exact hbelow.ancestor
      have hxa := habove ha
      have hxb := habove hb
      obtain ⟨y, hy⟩ := ancestor_named_named hxa
      obtain ⟨z, hz⟩ := ancestor_named_named hxb
      cases hy
      cases hz
      exact h.unrelated.no_common_class hlegal x ⟨hxa, hxb⟩

theorem Severed.level (hlegal : table.Legal) {n : Nat} {a b : ElementType}
    (h : Severed table ⟨n, a⟩ ⟨n, b⟩) (hpos : 0 < n)
    (ha : AboveArrays table ⟨0, a⟩) (hb : AboveArrays table ⟨0, b⟩) :
    Overlooked table ⟨n, a⟩ ⟨n, b⟩ := by
  rcases h.left.aboveArrays ha with rfl | ⟨x, rfl, hx⟩
  · obtain ⟨basic, rfl⟩ := h.symm.basic_of_object hlegal (Nat.le_refl n)
    obtain ⟨_, hname⟩ := hb.named
    cases hname
  · rcases h.right.aboveArrays hb with rfl | ⟨y, rfl, hy⟩
    · obtain ⟨_, hbasic⟩ := h.basic_of_object hlegal (Nat.le_refl n)
      cases hbasic
    · exact .level hpos hx hy

/-- What two severed arrays share is overlooked. The second one is the shallower,
or as deep as the first. -/
theorem Severed.overlooked (hlegal : table.Legal) {n m : Nat}
    {a b : ElementType} (h : Severed table ⟨n, a⟩ ⟨m, b⟩) (hpos : 0 < m)
    (hle : m ≤ n) (hcommon : CommonArray table ⟨n, a⟩ ⟨m, b⟩) :
    Overlooked table ⟨n, a⟩ ⟨m, b⟩ := by
  obtain ⟨⟨k, e⟩, _, hs, ht⟩ := hcommon
  obtain ⟨i, hi, ha⟩ := hs.peel
  obtain ⟨j, hj, hb⟩ := ht.peel
  rcases Nat.eq_or_lt_of_le hle with heq | hlt
  · -- The array was taken apart equally often on both sides.
    obtain rfl : i = j := by omega
    subst heq
    cases i with
    | zero => exact absurd hb (fun hb => h.no_common_element hlegal ha hb)
    | succ i =>
        exact h.level hlegal hpos (aboveArrays_of_peel ha)
          (aboveArrays_of_peel hb)
  · -- What was left on the side of the shallower one is an array.
    obtain ⟨d, rfl⟩ : ∃ d, j = d + 1 := ⟨j - 1, by omega⟩
    rcases h.right.aboveArrays (aboveArrays_of_peel hb) with rfl | ⟨y, rfl, hy⟩
    · obtain ⟨basic, rfl⟩ := h.basic_of_object hlegal hle
      exact .basic hpos hlt
    · exact .declared hpos hlt hy

/-- Two severed arrays share an array exactly if one is overlooked to be one of
the other. -/
theorem Severed.common_array_iff (hlegal : table.Legal) (h : Severed table s t)
    (hs : 0 < s.dimensions) (ht : 0 < t.dimensions) :
    CommonArray table s t ↔ Overlooked table s t ∨ Overlooked table t s := by
  constructor
  · intro hcommon
    rcases Nat.le_total t.dimensions s.dimensions with hle | hle
    · exact .inl (h.overlooked hlegal ht hle hcommon)
    · exact .inr (h.symm.overlooked hlegal hs hle hcommon.symm)
  · rintro (hover | hover)
    · exact hover.commonArray
    · exact hover.commonArray.symm

end Verdict

/-- Between arrays, a cast that is called impossible fails for every value, but
for the arrays that are overlooked: there is an array that is a subtype of both
types exactly if one type has values of a basic type and the other is an array of
objects with fewer dimensions, or if the table makes classes of the interfaces
that arrays have. -/
theorem impossible_array_casts_fail {table : Classpath} (hlegal : table.Legal)
    {c : TypeContext Classpath} (hc : TypeContext.Reached table c)
    {source target : String} {s t : JavaType}
    (hsource : JavaType.ofSignature source = .ok s)
    (htarget : JavaType.ofSignature target = .ok t)
    (hs : 0 < s.dimensions) (ht : 0 < t.dimensions)
    (hfails : (ImpossibleCast.alwaysFails c source target).1 = true) :
    (∃ type : JavaType, 0 < type.dimensions ∧ RuntimeSubtype table type s ∧
      RuntimeSubtype table type t) ↔
      Overlooked table s t ∨ Overlooked table t s :=
  (ImpossibleCast.severed_of_alwaysFails hc hsource htarget
    hfails).common_array_iff hlegal hs ht

/-- No array of arrays of integers is one of basic values. -/
theorem impossible_array_casts_fail_integers :
    (ImpossibleCast.alwaysFails libraryContext "[[Ljava/lang/Integer;" "[I").1 =
      true ∧
    ¬ ∃ type : JavaType, 0 < type.dimensions ∧
      RuntimeSubtype Classpath.core type
        (.array 2 (.named "java/lang/Integer")) ∧
      RuntimeSubtype Classpath.core type (.array 1 (.basic .int)) := by
  have hfails : (ImpossibleCast.alwaysFails libraryContext
      "[[Ljava/lang/Integer;" "[I").1 = true := by decide +kernel
  have hiff := impossible_array_casts_fail core_legal
    (.isSubtype (.internSignature .start _) _ _)
    (s := .array 2 (.named "java/lang/Integer")) (t := .array 1 (.basic .int))
    (by rfl) (by rfl) (Nat.succ_pos 1) (Nat.succ_pos 0) hfails
  refine ⟨hfails, fun hcommon => ?_⟩
  rcases hiff.1 hcommon with h | h
  · obtain ⟨_, hbasic⟩ := h.shape.2
    cases hbasic
  · exact absurd h.shape.1 (by decide)

/-- Casting an `int[][]` to `Object[]` succeeds, and is said to fail always. -/
theorem impossible_cast_succeeds :
    Classpath.core.Legal ∧
      TypeContext.Reached Classpath.core (.ofSource Classpath.core) ∧
      (JavaType.ofSignature "[[I").toOption = some (.array 2 (.basic .int)) ∧
      (JavaType.ofSignature "[Ljava/lang/Object;").toOption =
        some (.array 1 .object) ∧
      (ImpossibleCast.alwaysFails (.ofSource Classpath.core) "[[I"
        "[Ljava/lang/Object;").1 = true ∧
      ∃ type : JavaType, 0 < type.dimensions ∧
        RuntimeSubtype Classpath.core type (.array 2 (.basic .int)) ∧
        RuntimeSubtype Classpath.core type (.array 1 .object) :=
  ⟨core_legal, .start, by decide +kernel, by decide +kernel, by decide +kernel,
    .array 2 (.basic .int), Nat.succ_pos 1, .same,
    aboveArrays_object.runtimeSubtype (Nat.lt_succ_self 1)⟩

end ClassAudit
