import ClassAudit.Proofs.Composition
import ClassAudit.Proofs.DefectSoundness

/-!
# Selecting rules only leaves findings out

The rules run one after the other over one type context, so to leave a rule out is
to hand the next rule a context that has seen less. None of them can tell: what a
rule finds in a class is what it finds in a context that has seen nothing
(`runRules_eq`). The findings of a list of rules are therefore the findings of each,
put together in the order of the list, and since each finding carries its own rule,
a part of the rules has just the findings that carry one of them.

A selection is a part of all rules. It is read off the ids that were asked for, and
neither their order nor how often an id stands there can be seen in it.
-/

namespace ClassAudit

namespace Rule

/-- What the tool tells of a rule. -/
structure Metadata where
  id : String
  name : String
  description : String
  deriving DecidableEq, Repr

def metadata (rule : Rule) : Metadata := ⟨rule.id, rule.name, rule.description⟩

/-- An id that belongs to a rule. -/
def Known (id : String) : Prop := ∃ rule ∈ all, rule.id = id

/-! ## What is selected -/

variable {ids : List String}

theorem contains_id_iff (id : String) : (all.map Rule.id).contains id ↔ Known id := by
  rw [List.contains_iff_mem, List.mem_map, Known]

theorem select_known (hids : ids ≠ []) (h : ∀ id ∈ ids, Known id) :
    select ids = .ok (all.filter fun rule => ids.contains rule.id) := by
  have hnone : (ids.find? fun id => !(all.map Rule.id).contains id) = none := by
    rw [List.find?_eq_none]
    intro id hid
    rw [(contains_id_iff id).2 (h id hid)]
    decide
  rw [select, List.isEmpty_eq_false_iff.2 hids, hnone]
  rfl

theorem select_unknown {id : String} (hid : id ∈ ids) (h : ¬ Known id) :
    ∃ unknown, select ids = .error unknown := by
  have hids : ids ≠ [] := List.ne_nil_of_mem hid
  have hsome : (ids.find? fun id => !(all.map Rule.id).contains id).isSome := by
    rw [List.find?_isSome]
    refine ⟨id, hid, ?_⟩
    rw [← contains_id_iff, Bool.not_eq_true] at h
    rw [h]
    rfl
  obtain ⟨first, hfirst⟩ := Option.isSome_iff_exists.1 hsome
  refine ⟨⟨first⟩, ?_⟩
  rw [select, List.isEmpty_eq_false_iff.2 hids, hfirst]
  rfl

theorem select_fails_iff (hids : ids ≠ []) :
    (∃ unknown, select ids = .error unknown) ↔ ∃ id ∈ ids, ¬ Known id := by
  constructor
  · intro ⟨unknown, hfails⟩
    by_contra hnone
    have hknown : ∀ id ∈ ids, Known id := by
      intro id hid
      by_contra hunknown
      exact hnone ⟨id, hid, hunknown⟩
    rw [select_known hids hknown] at hfails
    cases hfails
  · intro ⟨id, hid, hunknown⟩
    exact select_unknown hid hunknown

theorem select_eq_ok (hids : ids ≠ []) {rules : List Rule}
    (h : select ids = .ok rules) :
    rules = all.filter fun rule => ids.contains rule.id := by
  have hknown : ∀ id ∈ ids, Known id := by
    intro id hid
    by_contra hunknown
    obtain ⟨unknown, hfails⟩ := select_unknown hid hunknown
    rw [h] at hfails
    cases hfails
  rw [select_known hids hknown] at h
  exact (Except.ok.inj h).symm

end Rule

/-! ## What a part of the rules finds -/

namespace Program

/-- What one rule finds, on its own. -/
def found (program : Program) (rule : Rule) : List Finding :=
  program.classes.flatMap fun model =>
    (rule.checkMethods model (.ofSource program.classpath) model.methods).1

theorem findings_eq (program : Program) (rules : List Rule) :
    (program.analyze rules).findings = rules.flatMap program.found :=
  runRules_eq (fun _ _ _ => rfl) rules (TypeContext.fed_ofSource program.classpath)

theorem rule_of_mem_found {program : Program} {rule : Rule} {finding : Finding}
    (h : finding ∈ program.found rule) : finding.rule = rule := by
  obtain ⟨model, _, hfinding⟩ := List.mem_flatMap.1 h
  obtain ⟨method, _, defect, _, rfl⟩ := Rule.mem_checkMethods hfinding
  rfl

/-- Dropping rules before the analysis drops their findings after it. -/
theorem findings_filter (program : Program) (p : Rule → Bool) (rules : List Rule) :
    (program.analyze (rules.filter p)).findings =
      (program.analyze rules).findings.filter fun finding => p finding.rule := by
  rw [findings_eq, findings_eq]
  induction rules with
  | nil => rfl
  | cons rule rest ih =>
      rw [List.flatMap_cons, List.filter_append, ← ih]
      have hrule : ∀ finding ∈ program.found rule, p finding.rule = p rule :=
        fun finding hfinding => by rw [rule_of_mem_found hfinding]
      cases hp : p rule with
      | true =>
          have hkept : (program.found rule).filter (fun finding => p finding.rule) =
              program.found rule := by
            rw [List.filter_eq_self]
            intro finding hfinding
            rw [hrule finding hfinding, hp]
          rw [List.filter_cons_of_pos hp, List.flatMap_cons, hkept]
      | false =>
          have hdropped : (program.found rule).filter (fun finding => p finding.rule) =
              [] := by
            rw [List.filter_eq_nil_iff]
            intro finding hfinding
            rw [hrule finding hfinding, hp]
            decide
          rw [List.filter_cons_of_neg (by rw [hp]; decide), hdropped, List.nil_append]

end Program

/-- A selection by ids, in any order and with repeats, is refused just when one of
the ids belongs to no rule. Otherwise it finds what all rules find, less the findings
of other rules, and tells of its rules what is told of all rules, less the others. -/
theorem selection_only_filters (program : Program) {ids : List String}
    (hids : ids ≠ []) :
    ((∃ unknown, Rule.select ids = .error unknown) ↔
      ∃ id ∈ ids, ∀ rule ∈ Rule.all, rule.id ≠ id) ∧
    ∀ rules, Rule.select ids = .ok rules →
      (program.analyze rules).findings =
        (program.analyze Rule.all).findings.filter
          (fun finding => ids.contains finding.rule.id) ∧
      rules.map Rule.metadata =
        (Rule.all.map Rule.metadata).filter
          (fun metadata => ids.contains metadata.id) := by
  constructor
  · rw [Rule.select_fails_iff hids]
    simp [Rule.Known]
  · intro rules hrules
    rw [Rule.select_eq_ok hids hrules]
    constructor
    · exact program.findings_filter (fun rule => ids.contains rule.id) Rule.all
    · rw [List.filter_map]
      rfl

/-- Three classes in which each rule finds something. -/
def faulty : Program where
  classes := [casting "a/Dog" "a/Cat", failing, casting "a/Cat" "a/Dog"]
  libraries := []

/-- Two of the rules, one of them asked for twice. The casts, which come last, are
judged alike without the calls on null in between. -/
theorem selection_only_filters_faulty :
    ["IMPOSSIBLE_CAST", "DIVIDE_BY_ZERO", "IMPOSSIBLE_CAST"] ≠ [] ∧
    Rule.select ["IMPOSSIBLE_CAST", "DIVIDE_BY_ZERO", "IMPOSSIBLE_CAST"] =
      .ok [.divideByZero, .impossibleCast] ∧
    (faulty.analyze Rule.all).findings.map Finding.rule =
      [.divideByZero, .nullReceiver, .impossibleCast, .impossibleCast] ∧
    (faulty.analyze [.divideByZero, .impossibleCast]).findings =
      (faulty.analyze Rule.all).findings.filter (fun finding =>
        ["IMPOSSIBLE_CAST", "DIVIDE_BY_ZERO", "IMPOSSIBLE_CAST"].contains
          finding.rule.id) ∧
    ∃ unknown, Rule.select ["IMPOSSIBLE_CAST", "CAST"] = .error unknown := by
  have hids : ["IMPOSSIBLE_CAST", "DIVIDE_BY_ZERO", "IMPOSSIBLE_CAST"] ≠ [] := by
    decide
  have hselect : Rule.select ["IMPOSSIBLE_CAST", "DIVIDE_BY_ZERO", "IMPOSSIBLE_CAST"] =
      .ok [.divideByZero, .impossibleCast] := by rfl
  refine ⟨hids, hselect, by decide +kernel, ?_, ?_⟩
  · exact ((selection_only_filters faulty hids).2 _ hselect).1
  · refine (selection_only_filters faulty (by decide)).1.2 ?_
    exact ⟨"CAST", by decide, by decide⟩

end ClassAudit
