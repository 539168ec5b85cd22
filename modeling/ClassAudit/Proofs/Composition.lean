import ClassAudit.Analysis
import ClassAudit.Proofs.CastVerdicts

/-!
# Analysis goes class by class

The rules share one type context, and what it has learnt for one class is there for
the next. It cannot be seen in what they find. Only casts ask the context anything,
and a verdict on a cast depends on nothing but the classes that can be looked up
(`alwaysFails_iff`). So a rule finds the same in a class wherever the class stands
and whatever was analysed before it, and when the class is the only one to be
analysed and the others are there to be looked up. For that the classes need
different names, or it would matter which of two comes last.
-/

namespace ClassAudit

open TypeContext

/-! ## Tables with the same classes -/

/-- Two tables answer every question alike. -/
def Classpath.Agrees (table table' : Classpath) : Prop :=
  ∀ name, table.find? name = table'.find? name

section Agree

variable {table table' : Classpath} {a b : JavaType}

theorem Classpath.Agrees.symm (h : table.Agrees table') : table'.Agrees table :=
  fun name => (h name).symm

theorem Classpath.Agrees.links? (h : table.Agrees table') (type : JavaType) :
    table.links? type = table'.links? type := by
  simp only [Classpath.links?, Classpath.classLinks?, h _]

theorem Classpath.Agrees.flag? (h : table.Agrees table') (type : JavaType) :
    table.flag? type = table'.flag? type := by
  simp only [Classpath.flag?, h _]

theorem Classpath.Agrees.ancestor (h : table.Agrees table') :
    Ancestor table a b ↔ Ancestor table' a b := by
  have hdirect : DirectSupertype table = DirectSupertype table' := by
    funext sub super
    rw [directSupertype_iff, directSupertype_iff, h.links?]
  rw [Ancestor, hdirect]

theorem Complete.agrees (hcomplete : Complete table a) (h : table.Agrees table') :
    Complete table' a := by
  intro above habove
  rw [← Classpath.links?_isSome, ← h.links?, Classpath.links?_isSome]
  exact hcomplete above (h.ancestor.2 habove)

theorem Severed.agrees (hsevered : Severed table a b) (h : table.Agrees table') :
    Severed table' a b where
  notBelow := fun hbelow => hsevered.notBelow (h.ancestor.2 hbelow)
  notAbove := fun habove => hsevered.notAbove (h.ancestor.2 habove)
  completeLeft := hsevered.completeLeft.agrees h
  completeRight := hsevered.completeRight.agrees h
  left := fun name hname => (h.flag? _).symm.trans (hsevered.left name hname)
  right := fun name hname => (h.flag? _).symm.trans (hsevered.right name hname)

theorem ImpossibleCast.FailsBy.agrees {source target : String}
    (hfails : FailsBy table source target) (h : table.Agrees table') :
    FailsBy table' source target := by
  obtain ⟨hkind, s, t, hs, ht, hsevered⟩ := hfails
  exact ⟨hkind, s, t, hs, ht, hsevered.agrees h⟩

end Agree

/-! ## Rules that are blind to the past -/

/-- Something that is asked of a context is answered by the classes alone. -/
structure Blind {α : Type}
    (ask : TypeContext Classpath → α × TypeContext Classpath) : Prop where
  keeps : ∀ {table c}, Fed table c → Fed table (ask c).2
  answers : ∀ {table table' c c'}, table.Agrees table' → Fed table c →
    Fed table' c' → (ask c).1 = (ask c').1

theorem blind_alwaysFails (source target : String) :
    Blind fun c => ImpossibleCast.alwaysFails c source target where
  keeps := fun h => ImpossibleCast.alwaysFails_fed h source target
  answers := by
    intro table table' c c' hagrees h h'
    rw [Bool.eq_iff_iff, ImpossibleCast.alwaysFails_iff h,
      ImpossibleCast.alwaysFails_iff h']
    exact ⟨fun hfails => hfails.agrees hagrees,
      fun hfails => hfails.agrees hagrees.symm⟩

theorem blind_checkAll (casts : List ImpossibleCast.Cast) :
    Blind fun c => ImpossibleCast.checkAll c casts := by
  induction casts with
  | nil => exact ⟨fun h => h, fun _ _ _ => rfl⟩
  | cons cast rest ih =>
      have hfirst := blind_alwaysFails cast.source cast.target
      constructor
      · intro table c h
        have hrest := ih.keeps (hfirst.keeps h)
        simp only [ImpossibleCast.checkAll]
        split
        · exact hrest
        · exact hrest
      · intro table table' c c' hagrees h h'
        have hfails := hfirst.answers hagrees h h'
        have hrest := ih.answers hagrees (hfirst.keeps h) (hfirst.keeps h')
        simp only [ImpossibleCast.checkAll, hfails]
        split
        · rw [hrest]
        · exact hrest

namespace Rule

theorem blind_checkMethod (rule : Rule) (pool : ConstantPool) (method : Method) :
    Blind (rule.checkMethod pool method) := by
  have hlogged {table : Classpath} {c : TypeContext Classpath} (h : Fed table c)
      (log : Array Event) : Fed table { c with log } :=
    ⟨h.source, h.sound, h.founded⟩
  cases rule with
  | divideByZero => exact ⟨fun h => hlogged h _, fun _ _ _ => rfl⟩
  | nullReceiver => exact ⟨fun h => hlogged h _, fun _ _ _ => rfl⟩
  | impossibleCast =>
      have hcasts := blind_checkAll
        ((method.visits pool).filterMap (ImpossibleCast.cast? pool))
      exact ⟨fun h => hcasts.keeps (hlogged h _), fun hagrees h h' =>
        hcasts.answers hagrees (hlogged h _) (hlogged h' _)⟩

theorem blind_checkMethods (rule : Rule) (model : ClassModel)
    (methods : List Method) :
    Blind fun c => rule.checkMethods model c methods := by
  induction methods with
  | nil => exact ⟨fun h => h, fun _ _ _ => rfl⟩
  | cons method rest ih =>
      have hfirst := rule.blind_checkMethod model.pool method
      constructor
      · intro table c h
        exact ih.keeps (hfirst.keeps h)
      · intro table table' c c' hagrees h h'
        have hfound := hfirst.answers hagrees h h'
        have hrest := ih.answers hagrees (hfirst.keeps h) (hfirst.keeps h')
        simp only [checkMethods, hfound, hrest]

/-- What a rule finds in some classes is what it finds in each of them, and for that
any table will do that answers alike. -/
theorem checkClasses_eq (rule : Rule) {table : Classpath}
    {tables : ClassModel → Classpath} {classes : List ClassModel}
    (hagrees : ∀ model ∈ classes, table.Agrees (tables model))
    {c : TypeContext Classpath} (h : Fed table c) :
    Fed table (rule.checkClasses c classes).2 ∧
      (rule.checkClasses c classes).1 = classes.flatMap fun model =>
        (rule.checkMethods model (.ofSource (tables model)) model.methods).1 := by
  induction classes generalizing c with
  | nil => exact ⟨h, rfl⟩
  | cons model rest ih =>
      have hblind := rule.blind_checkMethods model model.methods
      have hfirst := hblind.answers (hagrees model List.mem_cons_self) h
        (fed_ofSource (tables model))
      obtain ⟨hfed, hrest⟩ :=
        ih (fun other hother => hagrees other (List.mem_cons_of_mem _ hother))
          (hblind.keeps h)
      refine ⟨hfed, ?_⟩
      rw [List.flatMap_cons, ← hrest, ← hfirst]
      rfl

end Rule

theorem runRules_eq {table : Classpath} {tables : ClassModel → Classpath}
    {classes : List ClassModel}
    (hagrees : ∀ model ∈ classes, table.Agrees (tables model)) (rules : List Rule)
    {c : TypeContext Classpath} (h : Fed table c) :
    (runRules classes c rules).1 = rules.flatMap fun rule =>
      classes.flatMap fun model =>
        (rule.checkMethods model (.ofSource (tables model)) model.methods).1 := by
  induction rules generalizing c with
  | nil => rfl
  | cons rule rest ih =>
      obtain ⟨hfed, hfound⟩ := rule.checkClasses_eq hagrees h
      have hrest := ih (c := (rule.checkClasses c classes).2.record
          (.ruleFinished rule.id (rule.checkClasses c classes).1.length))
        ⟨hfed.source, hfed.sound, hfed.founded⟩
      rw [List.flatMap_cons, ← hrest, ← hfound]
      rfl

/-! ## Looking up classes -/

/-- What a table says of a class. -/
def ClassModel.facts (model : ClassModel) : ClassFacts :=
  ⟨model.superclass, model.interfaces, model.isInterface⟩

namespace Classpath

/-- Some classes in front of a table. -/
def extend (table : Classpath) (classes : List ClassModel) : Classpath :=
  classes.foldl (fun table model => table.insert model.name model.facts) table

variable {table : Classpath} {name : String} {classes classes' : List ClassModel}

theorem find?_insert_self (table : Classpath) (name : String) (facts : ClassFacts) :
    (table.insert name facts).find? name = some facts := by
  simp [find?, insert]

theorem find?_insert_of_ne {other : String} (h : name ≠ other)
    (facts : ClassFacts) :
    (table.insert other facts).find? name = table.find? name := by
  simp [find?, insert, List.lookup_cons, beq_eq_false_iff_ne.2 h]

theorem find?_extend_of_ne (h : ∀ model ∈ classes, name ≠ model.name) :
    (table.extend classes).find? name = table.find? name := by
  induction classes generalizing table with
  | nil => rfl
  | cons model rest ih =>
      rw [extend, List.foldl_cons, ← extend,
        ih fun other hother => h other (List.mem_cons_of_mem _ hother)]
      exact find?_insert_of_ne (h model List.mem_cons_self) model.facts

/-- With different names, every class is found under its own. -/
theorem find?_extend_of_mem (hnames : (classes.map ClassModel.name).Nodup)
    {model : ClassModel} (h : model ∈ classes) :
    (table.extend classes).find? model.name = some model.facts := by
  induction classes generalizing table with
  | nil => cases h
  | cons first rest ih =>
      rw [List.map_cons, List.nodup_cons] at hnames
      rw [extend, List.foldl_cons, ← extend]
      rcases List.mem_cons.1 h with rfl | h
      · rw [find?_extend_of_ne, find?_insert_self]
        intro other hother hname
        rw [hname] at hnames
        exact hnames.1 (List.mem_map_of_mem hother)
      · exact ih hnames.2 h

/-- The order of the classes does not matter. -/
theorem extend_agrees (hnames : (classes.map ClassModel.name).Nodup)
    (hperm : classes.Perm classes') :
    (table.extend classes).Agrees (table.extend classes') := by
  intro name
  have hnames' : (classes'.map ClassModel.name).Nodup :=
    (hperm.map ClassModel.name).nodup_iff.1 hnames
  by_cases h : ∃ model ∈ classes, name = model.name
  · obtain ⟨model, hmodel, rfl⟩ := h
    rw [find?_extend_of_mem hnames hmodel,
      find?_extend_of_mem hnames' (hperm.mem_iff.1 hmodel)]
  · have hne : ∀ model ∈ classes, name ≠ model.name :=
      fun model hmodel hname => h ⟨model, hmodel, hname⟩
    rw [find?_extend_of_ne hne,
      find?_extend_of_ne fun model hmodel => hne model (hperm.mem_iff.2 hmodel)]

theorem ofClasses_eq (classes : List ClassModel) :
    ofClasses classes = core.extend classes := rfl

end Classpath

/-! ## Analysis -/

namespace Program

/-- The program with one class to be analysed, and the others there to be looked
up. -/
def alone (program : Program) (model : ClassModel) : Program where
  classes := [model]
  libraries := program.libraries ++
    program.classes.filter fun other => other.name != model.name

theorem perm_alone {program : Program}
    (hnames : ((program.classes ++ program.libraries).map ClassModel.name).Nodup)
    {model : ClassModel} (hmodel : model ∈ program.classes) :
    (program.classes ++ program.libraries).Perm
      ((program.alone model).classes ++ (program.alone model).libraries) := by
  obtain ⟨before, after, hsplit⟩ := List.mem_iff_append.1 hmodel
  rw [List.map_append, List.nodup_append] at hnames
  have hothers : ∀ other ∈ before ++ after, other.name ≠ model.name := by
    intro other hother hname
    rw [hsplit, List.map_append, List.map_cons, List.nodup_middle,
      ← List.map_append, List.nodup_cons] at hnames
    exact hnames.1.1 (hname ▸ List.mem_map_of_mem hother)
  have hfilter : (program.classes.filter fun other => other.name != model.name) =
      before ++ after := by
    rw [hsplit, List.filter_append, List.filter_cons_of_neg (by simp),
      ← List.filter_append]
    exact List.filter_eq_self.2 fun other hother => bne_iff_ne.2 (hothers other hother)
  have hmiddle : (program.classes ++ program.libraries).Perm
      (model :: (before ++ after ++ program.libraries)) := by
    rw [hsplit]
    exact List.perm_middle.append_right program.libraries
  rw [alone, hfilter]
  exact hmiddle.trans (.cons model List.perm_append_comm)

theorem findings_alone (program : Program) (rule : Rule) (model : ClassModel) :
    ((program.alone model).analyze [rule]).findings =
      (rule.checkMethods model (.ofSource (program.alone model).classpath)
        model.methods).1 := by
  simp [analyze, runRules, alone, Rule.checkClasses]

end Program

/-- Analysis goes class by class, in any order. What the rules find in a program is,
rule by rule and class by class, what each finds in each class alone, with all other
classes as libraries. So what is found in a class does not depend on the classes that
were analysed before it. -/
theorem analyze_compositional (program : Program)
    (hnames : ((program.classes ++ program.libraries).map ClassModel.name).Nodup)
    (rules : List Rule) {classes : List ClassModel}
    (hperm : classes.Perm program.classes) :
    ({ program with classes }.analyze rules).findings =
      rules.flatMap fun rule => classes.flatMap fun model =>
        ((program.alone model).analyze [rule]).findings := by
  have hagrees : ∀ model ∈ classes,
      ({ program with classes } : Program).classpath.Agrees
        (program.alone model).classpath := by
    intro model hmodel
    have hsame := hperm.append_right program.libraries
    have hnames' := (hsame.map ClassModel.name).nodup_iff.2 hnames
    rw [Program.classpath, Program.classpath, Classpath.ofClasses_eq,
      Classpath.ofClasses_eq]
    exact Classpath.extend_agrees hnames'
      (hsame.trans (Program.perm_alone hnames (hperm.mem_iff.1 hmodel)))
  simp only [Program.findings_alone]
  exact runRules_eq hagrees rules (fed_ofSource _)

/-- A class that makes an object of its own and casts it to another class. -/
def casting (name other : String) : ClassModel where
  name := name
  superclass := none
  interfaces := []
  isInterface := false
  pool := .ofEntries [.utf8 name, .classRef 1, .utf8 other, .classRef 3]
  methods := [{
    name := "f"
    descriptor := "()V"
    body := [⟨0, .new, .pool 2⟩, ⟨3, .checkcast, .pool 4⟩, ⟨6, .voidReturn, .none⟩]
    handlers := []
    locals := [] }]
  artifact := 0

/-- Two classes that are cast to each other, in either order. That the casts fail can
only be told with both classes at hand. -/
theorem analyze_compositional_casting :
    (["a/Cat", "a/Dog"] : List String).Nodup ∧
    (Program.analyze ⟨[casting "a/Dog" "a/Cat", casting "a/Cat" "a/Dog"], []⟩
      Rule.all).findings.map (fun finding => (finding.rule, finding.method)) =
        [(.impossibleCast, "a/Dog.f()V"), (.impossibleCast, "a/Cat.f()V")] ∧
    (Program.analyze ⟨[casting "a/Dog" "a/Cat", casting "a/Cat" "a/Dog"], []⟩
      Rule.all).findings =
      Rule.all.flatMap fun rule =>
        [casting "a/Dog" "a/Cat", casting "a/Cat" "a/Dog"].flatMap fun model =>
          ((Program.alone ⟨[casting "a/Cat" "a/Dog", casting "a/Dog" "a/Cat"], []⟩
            model).analyze [rule]).findings := by
  have hnames : (["a/Cat", "a/Dog"] : List String).Nodup := by decide
  refine ⟨hnames, by decide +kernel, ?_⟩
  exact analyze_compositional
    ⟨[casting "a/Cat" "a/Dog", casting "a/Dog" "a/Cat"], []⟩ hnames Rule.all
    (.swap _ _ [])

end ClassAudit
