import ClassAudit.Analysis
import ClassAudit.Proofs.WalkSoundness

/-!
# Reported defects are real

Two of the rules speak about values: an integer division by zero, and the use of
an object where null is. Both look only at what the walk shows before an
instruction, and what it shows is true of every run. So whenever a run stands at
an instruction that was reported, the divisor there is zero or the reference
there is null, and no run gets past it.

What is left is that the rule looks at the right place. For a division that is
the top of the stack. An object lies below the other operands, and for a call
the rule counts those in the descriptor by itself, apart from the effect that
the walk gives the call. `Machine.Dereferences` says where the object lies
without any of this, from the type of the callee, and
`NullReceiver.receiverDepth?_eq_some` says that the rule finds that place and no
other. That it is the right place is not a matter of definition either: whenever
such an instruction completes, that is where it found an object, as the deepest
of its operands (`Machine.Yields.dereferenced`).

A finding carries the name of its method and not the method. The last section
traces each finding of an analysis back to the method and the walk it came from.
-/

namespace ClassAudit

namespace Machine

/-! ## What makes an instruction throw -/

/-- Whether an instruction can complete on a stack. -/
def Completes (pool : ConstantPool) (i : Instruction) (stack : List Value) : Prop :=
  ∃ operands results rest, stack = operands ++ rest ∧ Yields pool i operands results

/-- An instruction that needs an object has it below this many other operands. -/
inductive Dereferences (pool : ConstantPool) (i : Instruction) : Nat → Prop
  | top (h : i.opcode ∈ [.getfield, .arraylength, .athrow, .monitorenter]) :
    Dereferences pool i 0
  | putfield (h : i.opcode = .putfield) : Dereferences pool i 1
  | invoke {invocation : Invocation} {type : MethodType}
    (h : i.opcode = .invoke invocation)
    (hvirtual : invocation ∈ [.virtual, .interface])
    (hcallee : CalleeOf pool i invocation type) :
    Dereferences pool i type.parameters.length

/-- An integer division stands before a divisor of zero. -/
structure DividesByZero (pool : ConstantPool) (i : Instruction)
    (stack : List Value) : Prop where
  divides : ∃ op ∈ [ArithmeticOp.div, .rem], ∃ kind ∈ [NumericKind.int, .long],
    i.opcode = .arithmetic op kind
  divisor : ∃ zero ∈ [Value.int 0, .long 0], ∃ below, stack = zero :: below
  throws : ¬ Completes pool i stack

/-- An instruction that needs an object stands before null. -/
structure DereferencesNull (pool : ConstantPool) (i : Instruction)
    (stack : List Value) : Prop where
  needs : ∃ depth, Dereferences pool i depth
  null : ∀ depth, Dereferences pool i depth →
    stack[depth]? = some (.reference .null)
  throws : ¬ Completes pool i stack

section Completing

variable {pool : ConstantPool} {i : Instruction} {operands results : List Value}

theorem Yields.of_arithmetic (hy : Yields pool i operands results)
    {op : ArithmeticOp} {kind : NumericKind} (h : i.opcode = .arithmetic op kind) :
    ∃ l r v, operands = [r, l] ∧ Machine.arithmetic op l r = some v := by
  cases hy
  case arithmetic op' kind' l r v h' hl hv =>
    rw [h'] at h
    cases h
    exact ⟨l, r, v, rfl, hv⟩
  case idle h' => simp [h] at h'
  all_goals grind

/-- A zero leaves no quotient and no remainder. -/
theorem arithmetic_zero {op : ArithmeticOp} (hop : op ∈ [.div, .rem])
    {zero : Value} (hzero : zero ∈ [.int 0, .long 0]) (l : Value) :
    arithmetic op l zero = none := by
  have hexact : ∀ n : Int, Exact.arithmetic op n 0 = none := by
    intro n
    rcases List.mem_pair.1 hop with rfl | rfl <;> rfl
  rcases List.mem_pair.1 hzero with rfl | rfl
  · cases l
    case int a => exact congrArg (Option.map _) (hexact a.toInt)
    all_goals rfl
  · cases l
    case long a => exact congrArg (Option.map _) (hexact a.toInt)
    all_goals rfl

theorem CalleeOf.arity_unique {invocation : Invocation} {a b : MethodType}
    (ha : CalleeOf pool i invocation a) (hb : CalleeOf pool i invocation b) :
    a.parameters.length = b.parameters.length := by
  obtain ⟨hawell, index, hindex, hentry⟩ := ha
  obtain ⟨hbwell, index', hindex', hentry'⟩ := hb
  rw [hindex] at hindex'
  cases hindex'
  refine (MethodType.shape_of_descriptor hawell hbwell ?_).1
  split at hentry
  · next hdynamic =>
      rw [if_pos hdynamic, hentry] at hentry'
      exact Option.some.inj hentry'
  · next hdynamic =>
      rw [if_neg hdynamic] at hentry'
      obtain ⟨member, hmember, hdescriptor⟩ := hentry
      obtain ⟨member', hmember', hdescriptor'⟩ := hentry'
      rw [hmember] at hmember'
      cases hmember'
      rw [← hdescriptor, hdescriptor']

/-- An instruction that completes had an object where it needs one, and that was
the deepest operand it took. -/
theorem Yields.dereferenced (hy : Yields pool i operands results) {depth : Nat}
    (hd : Dereferences pool i depth) :
    operands.length = depth + 1 ∧
      ∃ r, r ≠ .null ∧ operands[depth]? = some (.reference r) := by
  cases hd with
  | top h =>
      cases hy
      case getfield r _ _ _ hnull _ => exact ⟨rfl, r, hnull, rfl⟩
      case arraylength r _ _ hnull => exact ⟨rfl, r, hnull, rfl⟩
      case monitor r _ hnull => exact ⟨rfl, r, hnull, rfl⟩
      all_goals grind
  | putfield h =>
      cases hy
      case putfield r _ _ _ hnull _ => exact ⟨rfl, r, hnull, rfl⟩
      all_goals grind
  | @invoke invocation type h hvirtual hcallee =>
      cases hy
      case invoke invocation' type' r arguments h' hcallee' hnull harguments _ =>
        rw [h] at h'
        cases h'
        have hlength := congrArg List.length harguments
        rw [List.length_map, List.length_map,
          hcallee'.arity_unique hcallee] at hlength
        have hreceivers : receivers invocation r = [.reference r] := by
          rcases List.mem_pair.1 hvirtual with rfl | rfl <;> rfl
        rw [hreceivers]
        refine ⟨by simp [hlength], r, hnull, ?_⟩
        rw [List.getElem?_append_right (by simp [hlength]),
          List.length_reverse, hlength, Nat.sub_self]
        rfl
      all_goals grind

end Completing

end Machine

open Machine

/-! ## What the rules look at -/

theorem DivideByZero.divides_eq_true {opcode : Opcode}
    (h : divides opcode = true) :
    ∃ op ∈ [ArithmeticOp.div, .rem], ∃ kind ∈ [NumericKind.int, .long],
      opcode = .arithmetic op kind := by
  unfold divides at h
  split at h
  · exact ⟨.div, by decide, .int, by decide, rfl⟩
  · exact ⟨.rem, by decide, .int, by decide, rfl⟩
  · exact ⟨.div, by decide, .long, by decide, rfl⟩
  · exact ⟨.rem, by decide, .long, by decide, rfl⟩
  · cases h

theorem StackValue.Describes.isZero {shown : StackValue} {v : Value}
    (h : shown.Describes v) (hzero : DivideByZero.isZero shown = true) :
    v ∈ [.int 0, .long 0] := by
  rw [DivideByZero.isZero, Bool.or_eq_true, beq_iff_eq, beq_iff_eq] at hzero
  rcases hzero with hint | hlong
  · rw [h.int? hint]
    exact List.mem_cons_self
  · rw [h.long? hlong]
    exact List.mem_cons_of_mem _ List.mem_cons_self

namespace NullReceiver

variable {pool : ConstantPool} {i : Instruction} {depth : Nat}

theorem memberOf?_eq_some {member : Member} :
    memberOf? i pool = some member ↔
      ∃ index, i.operands = .pool index ∧ pool.member? index = some member := by
  unfold memberOf?
  split
  · next index hoperands =>
      rw [hoperands]
      constructor
      · intro h
        exact ⟨index, rfl, h⟩
      · rintro ⟨_, hsame, h⟩
        cases hsame
        exact h
  · next hoperands =>
      constructor
      · intro h
        cases h
      · rintro ⟨index, h, _⟩
        exact absurd h (hoperands index)

/-- The receiver of a call is looked for below as many values as the type of the
callee has parameters. -/
theorem receiverDepth?_invoke (hpool : pool.WellFormed)
    {invocation : Invocation} (h : i.opcode = .invoke invocation)
    (hvirtual : invocation ∈ [.virtual, .interface]) :
    receiverDepth? i pool = some depth ↔
      ∃ type, CalleeOf pool i invocation type ∧
        type.parameters.length = depth := by
  have hdynamic : invocation ≠ .dynamic := by
    rcases List.mem_pair.1 hvirtual with rfl | rfl <;> decide
  have hdepth : receiverDepth? i pool = (memberOf? i pool).bind fun member =>
      ((MethodShape.ofDescriptor member.descriptor).toOption).map
        MethodShape.arity := by
    simp only [Option.map_eq_bind]
    rcases List.mem_pair.1 hvirtual with rfl | rfl <;>
      · rw [receiverDepth?, h]
        rfl
  rw [hdepth]
  constructor
  · intro hsome
    obtain ⟨member, hmember, harity⟩ := Option.bind_eq_some_iff.1 hsome
    obtain ⟨index, hoperands, hentry⟩ := memberOf?_eq_some.1 hmember
    rcases hpool.member _ _ hentry with ⟨field, _, hfield⟩ |
      ⟨type, hwell, hparen, hmethod⟩
    · rw [hfield, MethodShape.ofDescriptor_signature] at harity
      cases harity
    · rw [hmethod, MethodShape.arity_spelled hwell hparen] at harity
      refine ⟨type, ⟨hwell, index, hoperands, ?_⟩, Option.some.inj harity⟩
      rw [if_neg hdynamic]
      exact ⟨member, hentry, hmethod⟩
  · rintro ⟨type, hcallee, rfl⟩
    have hparen := hcallee.no_paren hpool
    obtain ⟨hwell, index, hoperands, hentry⟩ := hcallee
    rw [if_neg hdynamic] at hentry
    obtain ⟨member, hmember, hdescriptor⟩ := hentry
    rw [memberOf?_eq_some.2 ⟨index, hoperands, hmember⟩, Option.bind_some,
      hdescriptor, MethodShape.arity_spelled hwell hparen]

/-- The rule looks for the object where the machine needs it, and looks for one
wherever the machine needs it. -/
theorem receiverDepth?_eq_some (hpool : pool.WellFormed) :
    receiverDepth? i pool = some depth ↔ Dereferences pool i depth := by
  constructor
  · intro hdepth
    have hcall : ∀ invocation ∈ [Invocation.virtual, .interface],
        i.opcode = .invoke invocation → Dereferences pool i depth := by
      intro invocation hvirtual h
      obtain ⟨type, hcallee, rfl⟩ :=
        (receiverDepth?_invoke hpool h hvirtual).1 hdepth
      exact .invoke h hvirtual hcallee
    rw [receiverDepth?] at hdepth
    split at hdepth
    case h_5 h =>
      cases hdepth
      exact .putfield h
    case h_6 h => exact hcall .virtual (by decide) h
    case h_7 h => exact hcall .interface (by decide) h
    case h_8 => cases hdepth
    all_goals
      next h =>
        cases hdepth
        exact .top (by rw [h]; decide)
  · intro hd
    cases hd with
    | top h =>
        simp only [List.mem_cons, List.not_mem_nil, or_false] at h
        rcases h with h | h | h | h <;> rw [receiverDepth?, h]
    | putfield h => rw [receiverDepth?, h]
    | invoke h hvirtual hcallee =>
        exact (receiverDepth?_invoke hpool h hvirtual).2 ⟨_, hcallee, rfl⟩

end NullReceiver

/-! ## What the rules report -/

/-- A rule reports a finding for a method, whatever was asked before. -/
def Rule.Reports (rule : Rule) (pool : ConstantPool) (method : Method)
    (found : MethodFinding) : Prop :=
  ∃ context, found ∈ (rule.checkMethod pool method context).1

section Reports

variable {pool : ConstantPool} {method : Method} {found : MethodFinding}

theorem Rule.Reports.zero_divisor
    (h : Rule.divideByZero.Reports pool method found) :
    ∃ visit ∈ method.visits pool, visit.instruction.offset = found.offset ∧
      DivideByZero.divides visit.instruction.opcode = true ∧
      ∃ shown, visit.stack.itemAt? 0 = some shown ∧
        DivideByZero.isZero shown = true := by
  obtain ⟨context, hfound⟩ := h
  obtain ⟨visit, hvisit, hcheck⟩ := List.mem_filterMap.1 hfound
  rw [DivideByZero.check] at hcheck
  split at hcheck
  · next hif =>
      rw [Bool.and_eq_true, Option.any_eq_true] at hif
      cases hcheck
      exact ⟨visit, hvisit, rfl, hif⟩
  · cases hcheck

theorem Rule.Reports.null_receiver
    (h : Rule.nullReceiver.Reports pool method found) :
    ∃ visit ∈ method.visits pool, visit.instruction.offset = found.offset ∧
      ∃ depth, NullReceiver.receiverDepth? visit.instruction pool = some depth ∧
        ∃ shown, visit.stack.itemAt? depth = some shown ∧
          shown.isNull = true := by
  obtain ⟨context, hfound⟩ := h
  obtain ⟨visit, hvisit, hcheck⟩ := List.mem_filterMap.1 hfound
  obtain ⟨depth, hdepth, hcheck⟩ := Option.bind_eq_some_iff.1 hcheck
  obtain ⟨shown, hshown, hcheck⟩ := Option.bind_eq_some_iff.1 hcheck
  split at hcheck
  · next hnull =>
      cases hcheck
      exact ⟨visit, hvisit, rfl, depth, hdepth, shown, hshown, hnull⟩
  · cases hcheck

variable {code : List UInt8} {state : State} {i : Instruction}

/-- At a reported offset stands the instruction of the stop that was reported,
and what that stop shows is true. -/
theorem reported_shown (hcode : decode code = .ok method.body)
    (hpool : pool.WellFormed) (hrun : Reaches pool method state)
    (hi : i ∈ method.body) (hat : i.offset = state.offset) {visit : Visit}
    (hvisit : visit ∈ method.visits pool)
    (hoffset : visit.instruction.offset = state.offset) :
    visit.instruction = i ∧ Covers visit.stack.values state.stack := by
  obtain ⟨stop, hstop, rfl⟩ := Method.exists_visit pool hi
  rw [Method.visit_unique hcode hvisit hstop (hoffset.trans hat.symm)]
  exact ⟨rfl, reaches_shown hcode hpool hrun stop hstop hat⟩

theorem dividesByZero_of_reported (hcode : decode code = .ok method.body)
    (hpool : pool.WellFormed) (hrun : Reaches pool method state)
    (hi : i ∈ method.body) (hat : i.offset = state.offset)
    (hfound : found.offset = state.offset)
    (hreports : Rule.divideByZero.Reports pool method found) :
    DividesByZero pool i state.stack := by
  obtain ⟨visit, hvisit, hoffset, hdivides, shown, hshown, hzero⟩ :=
    hreports.zero_divisor
  obtain ⟨rfl, hcovers⟩ := reported_shown hcode hpool hrun hi hat hvisit
    (hoffset.trans hfound)
  obtain ⟨op, hop, kind, hkind, hopcode⟩ :=
    DivideByZero.divides_eq_true hdivides
  obtain ⟨v, hv, hdescribes⟩ := hcovers.getElem? hshown
  have hvzero := hdescribes.isZero hzero
  refine ⟨⟨op, hop, kind, hkind, hopcode⟩, ⟨v, hvzero, state.stack.tail, ?_⟩, ?_⟩
  · exact List.eq_cons_of_mem_head? (by rw [List.head?_eq_getElem?, hv]; rfl)
  · rintro ⟨operands, results, rest, hstack, hy⟩
    obtain ⟨l, r, w, rfl, harithmetic⟩ := hy.of_arithmetic hopcode
    rw [hstack] at hv
    cases hv
    rw [arithmetic_zero hop hvzero] at harithmetic
    cases harithmetic

theorem dereferencesNull_of_reported (hcode : decode code = .ok method.body)
    (hpool : pool.WellFormed) (hrun : Reaches pool method state)
    (hi : i ∈ method.body) (hat : i.offset = state.offset)
    (hfound : found.offset = state.offset)
    (hreports : Rule.nullReceiver.Reports pool method found) :
    DereferencesNull pool i state.stack := by
  obtain ⟨visit, hvisit, hoffset, depth, hdepth, shown, hshown, hnull⟩ :=
    hreports.null_receiver
  obtain ⟨rfl, hcovers⟩ := reported_shown hcode hpool hrun hi hat hvisit
    (hoffset.trans hfound)
  obtain ⟨v, hv, hdescribes⟩ := hcovers.getElem? hshown
  rw [hdescribes.null hnull] at hv
  have hneeds := (NullReceiver.receiverDepth?_eq_some hpool).1 hdepth
  refine ⟨⟨depth, hneeds⟩, fun depth' hneeds' => ?_, ?_⟩
  · rw [← NullReceiver.receiverDepth?_eq_some hpool, hdepth] at hneeds'
    cases hneeds'
    exact hv
  · rintro ⟨operands, results, rest, hstack, hy⟩
    obtain ⟨hlength, r, hr, hoperand⟩ := hy.dereferenced hneeds
    rw [hstack, List.getElem?_append_left (by omega), hoperand] at hv
    cases hv
    exact hr rfl

end Reports

/-! ## Where a finding comes from -/

namespace Rule

variable {finding : Finding} {context : TypeContext Classpath}

theorem mem_checkMethods {rule : Rule} {model : ClassModel}
    {methods : List Method}
    (h : finding ∈ (rule.checkMethods model context methods).1) :
    ∃ method ∈ methods, ∃ found, rule.Reports model.pool method found ∧
      finding = .of rule model method found := by
  induction methods generalizing context with
  | nil => cases h
  | cons method rest ih =>
      rcases List.mem_append.1 h with h | h
      · obtain ⟨found, hfound, rfl⟩ := List.mem_map.1 h
        exact ⟨method, List.mem_cons_self, found, ⟨context, hfound⟩, rfl⟩
      · obtain ⟨other, hother, hrest⟩ := ih h
        exact ⟨other, List.mem_cons_of_mem _ hother, hrest⟩

theorem mem_checkClasses {rule : Rule} {classes : List ClassModel}
    (h : finding ∈ (rule.checkClasses context classes).1) :
    ∃ model ∈ classes, ∃ method ∈ model.methods, ∃ found,
      rule.Reports model.pool method found ∧
        finding = .of rule model method found := by
  induction classes generalizing context with
  | nil => cases h
  | cons model rest ih =>
      rcases List.mem_append.1 h with h | h
      · exact ⟨model, List.mem_cons_self, mem_checkMethods h⟩
      · obtain ⟨other, hother, hrest⟩ := ih h
        exact ⟨other, List.mem_cons_of_mem _ hother, hrest⟩

theorem mem_runRules {rules : List Rule} {classes : List ClassModel}
    (h : finding ∈ (runRules classes context rules).1) :
    ∃ rule ∈ rules, ∃ model ∈ classes, ∃ method ∈ model.methods, ∃ found,
      rule.Reports model.pool method found ∧
        finding = .of rule model method found := by
  induction rules generalizing context with
  | nil => cases h
  | cons rule rest ih =>
      rcases List.mem_append.1 h with h | h
      · exact ⟨rule, List.mem_cons_self, mem_checkClasses h⟩
      · obtain ⟨other, hother, hrest⟩ := ih h
        exact ⟨other, List.mem_cons_of_mem _ hother, hrest⟩

end Rule

/-- Every finding of an analysis was reported for a method of one of its
classes. Where a division is reported for a method, every run that comes there
divides by zero; where a null receiver is, every run that comes there has null
where it needs an object. -/
theorem reported_defects_are_real (program : Program) (rules : List Rule) :
    (∀ finding ∈ (program.analyze rules).findings,
      ∃ rule ∈ rules, ∃ model ∈ program.classes, ∃ method ∈ model.methods,
        ∃ found, rule.Reports model.pool method found ∧
          finding = .of rule model method found) ∧
    ∀ model ∈ program.classes, ∀ method ∈ model.methods,
      ∀ code, decode code = .ok method.body → model.pool.WellFormed →
      ∀ state, Reaches model.pool method state →
      ∀ i ∈ method.body, i.offset = state.offset →
      ∀ found : MethodFinding, found.offset = state.offset →
        (Rule.divideByZero.Reports model.pool method found →
          DividesByZero model.pool i state.stack) ∧
        (Rule.nullReceiver.Reports model.pool method found →
          DereferencesNull model.pool i state.stack) := by
  refine ⟨fun finding h => Rule.mem_runRules h, ?_⟩
  intro model _ method _ code hcode hpool state hrun i hi hat found hfound
  exact ⟨dividesByZero_of_reported hcode hpool hrun hi hat hfound,
    dereferencesNull_of_reported hcode hpool hrun hi hat hfound⟩

/-- The pool of a class that calls a method with one `long` parameter. -/
def callingPool : ConstantPool :=
  .ofEntries [.utf8 "a/B", .classRef 1, .utf8 "m", .utf8 "(J)V", .nameAndType 3 4,
    .methodRef 2 5]

/-- Calls that method on null. -/
def calling : Method where
  name := "g"
  descriptor := "()V"
  body := [⟨0, .aconstNull, .none⟩, ⟨1, .lconst ⟨0, by decide⟩, .none⟩,
    ⟨2, .invoke .virtual, .pool 6⟩, ⟨5, .voidReturn, .none⟩]
  handlers := []
  locals := []

theorem calling_decoded :
    decode [0x01, 0x09, 0xb6, 0x00, 0x06, 0xb1] = .ok calling.body :=
  decode_of_toOption (by decide +kernel)

theorem calling_reaches :
    Reaches callingPool calling ⟨2, [.long 0, .reference .null]⟩ := by
  have halone : ∀ state, EntersAlone calling state := fun _ _ h => nomatch h
  have h0 : Reaches callingPool calling ⟨0, []⟩ := .start (halone _)
  have h1 := h0.fall (i := ⟨0, .aconstNull, .none⟩) [] (.null rfl) rfl
    ⟨[], _, rfl⟩ (halone ⟨1, _⟩)
  exact h1.fall (i := ⟨1, .lconst ⟨0, by decide⟩, .none⟩) [.reference .null]
    (.lconst rfl) rfl ⟨[_], _, rfl⟩ (halone ⟨2, _⟩)

theorem callingPool_wellFormed : callingPool.WellFormed := by
  have hmem : ∀ {index : UInt16} {entry : PoolEntry},
      callingPool.get? index = some entry →
        entry ∈ [.unusable, .utf8 "a/B", .classRef 1, .utf8 "m", .utf8 "(J)V",
          .nameAndType 3 4, .methodRef 2 5] := fun h =>
    Array.mem_toList_iff.2 (Array.mem_of_getElem? h)
  constructor
  · intro index member hmember
    right
    refine ⟨⟨[⟨0, .basic .long⟩], none⟩, ?_, by decide, ?_⟩
    · refine ⟨?_, fun _ h => nomatch h⟩
      intro parameter h
      rw [List.mem_singleton.1 h]
      exact ⟨by decide, by decide⟩
    · rw [ConstantPool.member?] at hmember
      split at hmember
      · next h => exact absurd (hmem h) (by simp)
      · next owner nameAndType h =>
          have hentry := hmem h
          simp only [List.mem_cons, PoolEntry.methodRef.injEq, reduceCtorEq,
            List.not_mem_nil, false_or, or_false] at hentry
          obtain ⟨rfl, rfl⟩ := hentry
          cases hmember
          decide
      · next h => exact absurd (hmem h) (by simp)
      · cases hmember
  · intro index descriptor hdynamic
    rw [ConstantPool.dynamicDescriptor?] at hdynamic
    split at hdynamic
    · next h => exact absurd (hmem h) (by simp)
    · cases hdynamic
  · intro index descriptor hdynamic
    rw [ConstantPool.loadable?] at hdynamic
    cases hget : callingPool.get? index with
    | none =>
        rw [hget] at hdynamic
        cases hdynamic
    | some entry =>
        rw [hget] at hdynamic
        have hentry := hmem hget
        cases entry
        case dynamic => simp at hentry
        all_goals simp at hdynamic

/-- A class that divides by zero and calls on null. -/
def failing : ClassModel where
  name := "a/A"
  superclass := none
  interfaces := []
  isInterface := false
  pool := callingPool
  methods := [dividing, calling]
  artifact := 0

/-- Both methods are reported, and both reports are right. -/
theorem reported_defects_are_real_failing :
    (Program.analyze ⟨[failing], []⟩ Rule.all).findings.map
      (fun finding => (finding.rule, finding.offset)) =
        [(.divideByZero, 3), (.nullReceiver, 2)] ∧
    (∀ finding ∈ (Program.analyze ⟨[failing], []⟩ Rule.all).findings,
      ∃ rule ∈ Rule.all, ∃ method ∈ failing.methods,
        ∃ found, rule.Reports callingPool method found ∧
          finding = .of rule failing method found) ∧
    DividesByZero callingPool ⟨3, .arithmetic .div .int, .none⟩
      [.int 0, .int 1, .reference .null] ∧
    DereferencesNull callingPool ⟨2, .invoke .virtual, .pool 6⟩
      [.long 0, .reference .null] := by
  obtain ⟨horigin, hreal⟩ :=
    reported_defects_are_real ⟨[failing], []⟩ Rule.all
  refine ⟨by decide +kernel, ?_, ?_, ?_⟩
  · intro finding h
    obtain ⟨rule, hrule, model, hmodel, hrest⟩ := horigin finding h
    rw [List.mem_singleton.1 hmodel] at hrest
    exact ⟨rule, hrule, hrest⟩
  · refine (hreal failing List.mem_cons_self dividing List.mem_cons_self _
      dividing_decoded callingPool_wellFormed _ (dividing_reaches callingPool)
      _ (by decide) rfl ⟨3, .zeroDivisor (.arithmetic .div .int)⟩ rfl).1 ?_
    exact ⟨.ofSource (.ofClasses []), by decide +kernel⟩
  · refine (hreal failing List.mem_cons_self calling
      (List.mem_cons_of_mem _ List.mem_cons_self) _ calling_decoded
      callingPool_wellFormed _ calling_reaches _ (by decide) rfl
      ⟨2, .nullDereference (.invoke .virtual) (some ⟨"a/B", "m", "(J)V"⟩)⟩
      rfl).2 ?_
    exact ⟨.ofSource (.ofClasses []), by decide +kernel⟩

end ClassAudit
