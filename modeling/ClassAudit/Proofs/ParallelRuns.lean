import ClassAudit.Proofs.EffectTracking

/-!
# Two runs side by side

The effect of an instruction is put together from a handful of operations on the
stack, and it looks at little of what it moves: at the signature of a value, and
at its constant if there is something to fold. So if two stacks are alike, entry
by entry, in a sense that these few looks cannot break, then the effect leaves
two stacks that are again alike, or it faults on both in the same way.

`Likeness` says what such a sense is. The second stack may also stand on top of
more values, the same before and after. That adds one way to differ: where the
first run ends because there are too few values, the second may find some below.

Which likeness is meant is left open here. Equal values on top of others give
the frame law, values that are equal but for their constants say that folding has
no influence. The case distinction over all instructions, `effect_parallel`, is
the same for both.
-/

namespace ClassAudit

namespace StackValue

/-- The value that is pushed for a folded constant. -/
def ofFolded (signature : String) (folded : Option Constant) : StackValue :=
  (folded.bind (withConstant? signature)).getD (.typed signature)

end StackValue

namespace StackM

theorem drop_eq (count : Nat) (values : List StackValue) :
    drop count values =
      if values.length < count then .error (.underflow count values.length)
      else .ok ((), values.drop count) := by
  rw [drop, bind_apply, require]
  split <;> rfl

theorem exchange_eq (values : List StackValue) :
    exchange values =
      if values.length < 2 then .error (.underflow 2 values.length)
      else .ok ((), (values.drop 1).take 1 ++ (values.take 1 ++ values.drop 2)) := by
  match values with
  | [] | [_] => rfl
  | first :: second :: rest => rfl

end StackM

/-- A sense in which values can be alike that no instruction breaks: it keeps the
signature, all that comes from outside the stack is like itself, and operands
that are alike fold to results that are. -/
structure Likeness (Alike : StackValue → StackValue → Prop) : Prop where
  signature {v w : StackValue} (h : Alike v w) : v.signature = w.signature
  typed (signature : String) : Alike (.typed signature) (.typed signature)
  constant (constant : Constant) : Alike (.ofConstant constant) (.ofConstant constant)
  null : Alike .null .null
  arithmetic {l l' r r' : StackValue} (op : ArithmeticOp) (kind : NumericKind)
    (hl : Alike l l') (hr : Alike r r') :
    Alike (.ofFolded kind.toKind.signature (Folding.arithmetic op kind l r))
      (.ofFolded kind.toKind.signature (Folding.arithmetic op kind l' r'))
  negate {v w : StackValue} (kind : NumericKind) (h : Alike v w) :
    Alike (.ofFolded kind.toKind.signature (v.constant?.bind Folding.negate))
      (.ofFolded kind.toKind.signature (w.constant?.bind Folding.negate))
  bitwise {l l' r r' : StackValue} (op : BitwiseOp) (kind : IntegralKind)
    (hl : Alike l l') (hr : Alike r r') :
    Alike (.ofFolded kind.toKind.signature (Folding.bitwise op kind l r))
      (.ofFolded kind.toKind.signature (Folding.bitwise op kind l' r'))
  convert {v w : StackValue} (conversion : Conversion) (h : Alike v w) :
    Alike
      (.ofFolded conversion.signature
        (v.constant?.bind (Folding.convert conversion)))
      (.ofFolded conversion.signature
        (w.constant?.bind (Folding.convert conversion)))
  compare {l l' r r' : StackValue} (comparison : Comparison)
    (hl : Alike l l') (hr : Alike r r') :
    Alike (.ofFolded "I" (Folding.compare comparison l r))
      (.ofFolded "I" (Folding.compare comparison l' r'))

theorem Likeness.kind? {Alike : StackValue → StackValue → Prop}
    (hlike : Likeness Alike) {v w : StackValue} (h : Alike v w) :
    v.kind? = w.kind? := by
  rw [StackValue.kind?, StackValue.kind?, hlike.signature h]

/-- Two computations ended alike. Either both succeeded, with stacks that are
alike and the same values below the second as before, or both faulted in the same
way. If there is something below the second, it may also go on where the first
ran out of values. -/
inductive EndAlike (Alike : StackValue → StackValue → Prop)
    (below : List StackValue) {α : Type} (Related : α → α → Prop) :
    Except Fault (α × List StackValue) → Except Fault (α × List StackValue) → Prop
  | done {a b : α} {s t : List StackValue} (hab : Related a b)
    (hst : List.Forall₂ Alike s t) :
    EndAlike Alike below Related (.ok (a, s)) (.ok (b, t ++ below))
  | fault (fault : Fault) :
    EndAlike Alike below Related (.error fault) (.error fault)
  | short {needed available : Nat} (hbelow : below ≠ [])
    (outcome : Except Fault (α × List StackValue)) :
    EndAlike Alike below Related (.error (.underflow needed available)) outcome

/-- From stacks that are alike, the second on top of `below`, two computations
end alike. -/
def Parallel (Alike : StackValue → StackValue → Prop) (below : List StackValue)
    {α : Type} (Related : α → α → Prop) (m m' : StackM α) : Prop :=
  ∀ s t, List.Forall₂ Alike s t →
    EndAlike Alike below Related (m s) (m' (t ++ below))

namespace Parallel

variable {Alike : StackValue → StackValue → Prop} {below : List StackValue}
  {α β : Type}

theorem pure {Related : α → α → Prop} {a b : α} (h : Related a b) :
    Parallel Alike below Related (Pure.pure a) (Pure.pure b) := by
  intro s t hst
  exact .done h hst

theorem throw {Related : α → α → Prop} (fault : Fault) :
    Parallel Alike below Related (MonadExcept.throw fault : StackM α)
      (MonadExcept.throw fault) := by
  intro s t hst
  exact .fault fault

theorem bind {Related : α → α → Prop} {Related' : β → β → Prop} {m m' : StackM α}
    {f f' : α → StackM β} (hm : Parallel Alike below Related m m')
    (hf : ∀ a b, Related a b → Parallel Alike below Related' (f a) (f' b)) :
    Parallel Alike below Related' (m >>= f) (m' >>= f') := by
  intro s t hst
  have hends := hm s t hst
  rw [StackM.bind_apply, StackM.bind_apply]
  generalize m s = first at hends ⊢
  generalize m' (t ++ below) = second at hends ⊢
  cases hends with
  | done hab hst' => exact hf _ _ hab _ _ hst'
  | fault fault => exact .fault fault
  | short hbelow _ => exact .short hbelow _

theorem bind_eq {Related : β → β → Prop} {m m' : StackM α} {f f' : α → StackM β}
    (hm : Parallel Alike below Eq m m')
    (hf : ∀ a, Parallel Alike below Related (f a) (f' a)) :
    Parallel Alike below Related (m >>= f) (m' >>= f') := by
  refine hm.bind fun a b hab => ?_
  subst hab
  exact hf a

theorem push {v w : StackValue} (h : Alike v w) :
    Parallel Alike below Eq (StackM.push v) (StackM.push w) := by
  intro s t hst
  exact .done rfl (hst.cons h)

/-- Where a computation asks for some number of values and then changes the stack
by a function, only that function has to be looked at, on stacks that are long
enough. -/
theorem checked {Related : α → α → Prop} {needed : Nat}
    {f : List StackValue → α × List StackValue} {m : StackM α}
    (hm : ∀ values, m values = if values.length < needed then
      .error (.underflow needed values.length) else .ok (f values))
    (hf : ∀ s t, List.Forall₂ Alike s t → needed ≤ t.length →
      EndAlike Alike below Related (.ok (f s)) (.ok (f (t ++ below)))) :
    Parallel Alike below Related m m := by
  intro s t hst
  have hlength := hst.length_eq
  rw [hm, hm]
  by_cases hfew : s.length < needed
  · rw [if_pos hfew]
    cases below with
    | nil =>
        rw [List.append_nil, ← hlength, if_pos hfew]
        exact .fault _
    | cons v below => exact .short (by simp) _
  · have henough : ¬ (t ++ below).length < needed := by
      rw [List.length_append]
      omega
    rw [if_neg hfew, if_neg henough]
    exact hf s t hst (by omega)

theorem drop (count : Nat) :
    Parallel Alike below Eq (StackM.drop count) (StackM.drop count) := by
  refine checked (StackM.drop_eq count) fun s t hst henough => ?_
  rw [List.drop_append_of_le_length henough]
  exact .done rfl (List.forall₂_drop count hst)

theorem duplicate (copied skipped : Nat) :
    Parallel Alike below Eq (StackM.duplicate copied skipped)
      (StackM.duplicate copied skipped) := by
  refine checked (StackM.duplicate_eq copied skipped) fun s t hst henough => ?_
  rw [List.take_append_of_le_length henough,
    List.take_append_of_le_length (by omega : copied ≤ t.length),
    List.drop_append_of_le_length henough, ← List.append_assoc (t.take copied),
    ← List.append_assoc (t.take (copied + skipped))]
  have hlow := List.forall₂_drop (copied + skipped) hst
  have hmid := List.rel_append (List.forall₂_take copied hst) hlow
  exact .done rfl
    (List.rel_append (List.forall₂_take (copied + skipped) hst) hmid)

theorem exchange :
    Parallel Alike below Eq StackM.exchange StackM.exchange := by
  refine checked StackM.exchange_eq fun s t hst henough => ?_
  cases hst with
  | nil => cases henough
  | cons hv hrest =>
      cases hrest with
      | nil => exact absurd henough (by simp)
      | cons hw hrest => exact .done rfl ((hrest.cons hv).cons hw)

theorem pop : Parallel Alike below Alike StackM.pop StackM.pop := by
  intro s t hst
  cases hst with
  | nil =>
      cases below with
      | nil => exact .fault _
      | cons v below => exact .short (by simp) _
  | cons hvw hst => exact .done hvw hst

section Likeness

variable (hlike : Likeness Alike)

include hlike

theorem popKind (kind : Kind) :
    Parallel Alike below Alike (StackM.popKind kind) (StackM.popKind kind) := by
  refine pop.bind fun v w hvw => ?_
  rw [hlike.kind? hvw, hlike.signature hvw]
  split
  · exact pure hvw
  · exact throw _

theorem popKind_bind {Related : β → β → Prop} {kind : Kind}
    {f f' : StackValue → StackM β}
    (h : ∀ v w, Alike v w → Parallel Alike below Related (f v) (f' w)) :
    Parallel Alike below Related (StackM.popKind kind >>= f)
      (StackM.popKind kind >>= f') :=
  (popKind hlike kind).bind h

theorem pairAt (depth : Nat) :
    Parallel Alike below Eq (StackM.pairAt depth) (StackM.pairAt depth) := by
  refine checked (StackM.pairAt_eq depth) fun s t hst henough => ?_
  have ht : depth < t.length := henough
  have hs : depth < s.length := by
    rw [hst.length_eq]
    exact ht
  have halike : Alike s[depth] t[depth] := hst.get hs ht
  have hwide : s[depth].isWide = t[depth].isWide := by
    rw [StackValue.isWide, StackValue.isWide, hlike.kind? halike]
  rw [List.getElem?_append_left ht, List.getElem?_eq_getElem hs,
    List.getElem?_eq_getElem ht, Option.any_some, Option.any_some, hwide]
  exact .done rfl hst

/-- What is pushed in both runs is like itself, but for what was loaded from an
array: that takes its signature from the array, which is alike. -/
theorem push_component (component : Component) {v w : StackValue} (h : Alike v w) :
    Parallel Alike below Eq
      (StackM.push (Instruction.componentValue component v))
      (StackM.push (Instruction.componentValue component w)) := by
  have hsame : Instruction.componentValue component v =
      Instruction.componentValue component w := by
    rw [Instruction.componentValue, Instruction.componentValue, hlike.signature h]
  obtain ⟨signature, htyped, _⟩ := componentValue_typed component w
  rw [hsame, htyped]
  exact push (hlike.typed signature)

theorem push_loaded (loadable : Loadable) :
    Parallel Alike below Eq (StackM.push (Instruction.loadedValue loadable))
      (StackM.push (Instruction.loadedValue loadable)) := by
  cases loadable with
  | constant constant => exact push (hlike.constant constant)
  | classObject _ | methodType | methodHandle | dynamic _ =>
      exact push (hlike.typed _)

end Likeness

end Parallel

/-! ## What operands refer to

None of this looks at the stack. It gives the same in both runs, or fails in
both. -/

section Operands

variable {Alike : StackValue → StackValue → Prop} {below : List StackValue}

theorem poolIndex_parallel (i : Instruction) :
    Parallel Alike below Eq i.poolIndex i.poolIndex := by
  rw [Instruction.poolIndex]
  split
  · exact .pure rfl
  · exact .throw _

theorem member_parallel (i : Instruction) (pool : ConstantPool) :
    Parallel Alike below Eq (i.member pool) (i.member pool) := by
  refine (poolIndex_parallel i).bind_eq fun index => ?_
  split
  · exact .pure rfl
  · exact .throw _

theorem className_parallel (i : Instruction) (pool : ConstantPool) :
    Parallel Alike below Eq (i.className pool) (i.className pool) := by
  refine (poolIndex_parallel i).bind_eq fun index => ?_
  split
  · exact .pure rfl
  · exact .throw _

theorem fieldKind_parallel (descriptor : String) :
    Parallel Alike below Eq (Instruction.fieldKind descriptor)
      (Instruction.fieldKind descriptor) := by
  rw [Instruction.fieldKind]
  split
  · exact .pure rfl
  · exact .throw _

theorem invokedDescriptor_parallel (i : Instruction) (pool : ConstantPool)
    (invocation : Invocation) :
    Parallel Alike below Eq (i.invokedDescriptor pool invocation)
      (i.invokedDescriptor pool invocation) := by
  rw [Instruction.invokedDescriptor]
  split
  · refine (poolIndex_parallel i).bind_eq fun index => ?_
    split
    · exact .pure rfl
    · exact .throw _
  · exact (member_parallel i pool).bind_eq fun member => .pure rfl

theorem shapeOf_parallel (descriptor : String) :
    Parallel Alike below Eq (Instruction.shapeOf descriptor)
      (Instruction.shapeOf descriptor) := by
  rw [Instruction.shapeOf]
  split
  · exact .pure rfl
  · exact .throw _

end Operands

/-! ## Every instruction -/

theorem effect_parallel {Alike : StackValue → StackValue → Prop}
    (hlike : Likeness Alike) (below : List StackValue) (i : Instruction)
    (pool : ConstantPool) (locals : LocalVariables) :
    Parallel Alike below Eq (i.effect pool locals) (i.effect pool locals) := by
  cases hop : i.opcode with
  | nop | goto | gotoW | ret | voidReturn | iinc | athrow | checkcast =>
      simp only [Instruction.effect, hop]
      exact .pure rfl
  | aconstNull =>
      simp only [Instruction.effect, hop]
      exact .push hlike.null
  | iconst _ | lconst _ | fconst _ | dconst _ =>
      simp only [Instruction.effect, hop]
      exact .push (hlike.constant _)
  | bipush | sipush =>
      simp only [Instruction.effect, hop]
      split
      · exact .push (hlike.constant _)
      · exact .throw _
  | ldc | ldcW | ldc2W =>
      simp only [Instruction.effect, hop]
      refine (poolIndex_parallel i).bind_eq fun index => ?_
      split
      · exact .push_loaded hlike _
      · exact .throw _
  | load kind =>
      simp only [Instruction.effect, hop]
      split
      · exact .push (hlike.typed _)
      · exact .throw _
  | loadFrom kind slot =>
      simp only [Instruction.effect, hop]
      exact .push (hlike.typed _)
  | arrayLoad component =>
      simp only [Instruction.effect, hop]
      refine .popKind_bind hlike fun _ _ _ => ?_
      refine .popKind_bind hlike fun array array' harray => ?_
      exact .push_component hlike component harray
  | store _ | storeTo _ _ | valueReturn _ | ifZero _ | tableswitch | lookupswitch
  | ifNull _ | monitorenter | monitorexit =>
      simp only [Instruction.effect, hop]
      exact .popKind_bind hlike fun _ _ _ => .pure rfl
  | arrayStore component =>
      simp only [Instruction.effect, hop]
      exact .popKind_bind hlike fun _ _ _ => .popKind_bind hlike fun _ _ _ =>
        .popKind_bind hlike fun _ _ _ => .pure rfl
  | pop =>
      simp only [Instruction.effect, hop]
      exact Parallel.pop.bind fun _ _ _ => .pure rfl
  | pop2 =>
      simp only [Instruction.effect, hop]
      exact (Parallel.pairAt hlike 0).bind_eq fun count => .drop count
  | dup | dupX1 =>
      simp only [Instruction.effect, hop]
      exact .duplicate _ _
  | dupX2 =>
      simp only [Instruction.effect, hop]
      exact (Parallel.pairAt hlike 1).bind_eq fun skipped => .duplicate 1 skipped
  | dup2 | dup2X1 =>
      simp only [Instruction.effect, hop]
      exact (Parallel.pairAt hlike 0).bind_eq fun copied => .duplicate copied _
  | dup2X2 =>
      simp only [Instruction.effect, hop]
      refine (Parallel.pairAt hlike 0).bind_eq fun copied => ?_
      exact (Parallel.pairAt hlike copied).bind_eq fun skipped =>
        .duplicate copied skipped
  | swap =>
      simp only [Instruction.effect, hop]
      exact .exchange
  | arithmetic op kind =>
      simp only [Instruction.effect, hop]
      refine .popKind_bind hlike fun right right' hright => ?_
      refine .popKind_bind hlike fun left left' hleft => ?_
      exact .push (hlike.arithmetic op kind hleft hright)
  | negate kind =>
      simp only [Instruction.effect, hop]
      refine .popKind_bind hlike fun value value' hvalue => ?_
      exact .push (hlike.negate kind hvalue)
  | bitwise op kind =>
      simp only [Instruction.effect, hop]
      refine .popKind_bind hlike fun right right' hright => ?_
      refine .popKind_bind hlike fun left left' hleft => ?_
      exact .push (hlike.bitwise op kind hleft hright)
  | convert conversion =>
      simp only [Instruction.effect, hop]
      refine .popKind_bind hlike fun value value' hvalue => ?_
      exact .push (hlike.convert conversion hvalue)
  | compare comparison =>
      simp only [Instruction.effect, hop]
      refine .popKind_bind hlike fun right right' hright => ?_
      refine .popKind_bind hlike fun left left' hleft => ?_
      exact .push (hlike.compare comparison hleft hright)
  | ifInt _ | ifSame _ =>
      simp only [Instruction.effect, hop]
      exact .popKind_bind hlike fun _ _ _ => .popKind_bind hlike fun _ _ _ => .pure rfl
  | getstatic =>
      simp only [Instruction.effect, hop]
      exact (member_parallel i pool).bind_eq fun member => .push (hlike.typed _)
  | putstatic =>
      simp only [Instruction.effect, hop]
      refine (member_parallel i pool).bind_eq fun member => ?_
      refine (fieldKind_parallel member.descriptor).bind_eq fun kind => ?_
      exact .popKind_bind hlike fun _ _ _ => .pure rfl
  | getfield =>
      simp only [Instruction.effect, hop]
      refine (member_parallel i pool).bind_eq fun member => ?_
      exact .popKind_bind hlike fun _ _ _ => .push (hlike.typed _)
  | putfield =>
      simp only [Instruction.effect, hop]
      refine (member_parallel i pool).bind_eq fun member => ?_
      refine (fieldKind_parallel member.descriptor).bind_eq fun kind => ?_
      exact .popKind_bind hlike fun _ _ _ => .popKind_bind hlike fun _ _ _ => .pure rfl
  | invoke invocation =>
      simp only [Instruction.effect, hop]
      refine (invokedDescriptor_parallel i pool invocation).bind_eq
        fun descriptor => ?_
      refine (shapeOf_parallel descriptor).bind_eq fun shape => ?_
      refine (Parallel.drop _).bind_eq fun _ => ?_
      split
      · exact .push (hlike.typed _)
      · exact .pure rfl
  | new =>
      simp only [Instruction.effect, hop]
      exact (className_parallel i pool).bind_eq fun name => .push (hlike.typed _)
  | newarray =>
      simp only [Instruction.effect, hop]
      split
      · split
        · exact .popKind_bind hlike fun _ _ _ => .push (hlike.typed _)
        · exact .throw _
      · exact .throw _
  | anewarray =>
      simp only [Instruction.effect, hop]
      refine (className_parallel i pool).bind_eq fun name => ?_
      exact .popKind_bind hlike fun _ _ _ => .push (hlike.typed _)
  | arraylength | instanceof =>
      simp only [Instruction.effect, hop]
      exact .popKind_bind hlike fun _ _ _ => .push (hlike.typed _)
  | jsr | jsrW | wide | multianewarray | breakpoint | unassigned _ | impdep1
  | impdep2 =>
      simp only [Instruction.effect, hop]
      exact .throw _

/-! ## Steps and runs -/

/-- One step from stacks that are alike, the second on top of `below`. -/
theorem OperandStack.step_parallel {Alike : StackValue → StackValue → Prop}
    (hlike : Likeness Alike) {below t : List StackValue} {stack other : OperandStack}
    (hst : List.Forall₂ Alike stack.values t) (hother : other.values = t ++ below)
    (i : Instruction) (pool : ConstantPool) (locals : LocalVariables) :
    (∃ s' t', stack.step i pool locals = (⟨s', stack.valid⟩, none) ∧
      other.step i pool locals = (⟨t' ++ below, other.valid⟩, none) ∧
      List.Forall₂ Alike s' t') ∨
    (∃ fault, stack.step i pool locals = (failed, some fault) ∧
      other.step i pool locals = (failed, some fault)) ∨
    below ≠ [] ∧ ∃ needed available,
      stack.step i pool locals = (failed, some (.underflow needed available)) := by
  have hends := effect_parallel hlike below i pool locals stack.values t hst
  rw [← hother] at hends
  rw [step, step]
  generalize i.effect pool locals stack.values = first at hends ⊢
  generalize i.effect pool locals other.values = second at hends ⊢
  cases hends with
  | done _ hst' => exact .inl ⟨_, _, rfl, rfl, hst'⟩
  | fault fault => exact .inr (.inl ⟨fault, rfl, rfl⟩)
  | short hbelow _ => exact .inr (.inr ⟨hbelow, _, _, rfl⟩)

/-! ## Single stacks

A property of single values is a likeness of a stack with itself. To keep it, it has
to hold of all that can be pushed. -/

theorem likeness_of_pushed {p : StackValue → Prop}
    (typed : ∀ signature, p (.typed signature))
    (constant : ∀ constant, p (.ofConstant constant)) (null : p .null)
    (result : ∀ (kind : Kind) (folded : Option Constant),
      p (.ofFolded kind.signature folded))
    (converted : ∀ (conversion : Conversion) (value : StackValue),
      p (.ofFolded conversion.signature
        (value.constant?.bind (Folding.convert conversion)))) :
    Likeness fun v w => p v ∧ v = w where
  signature h := congrArg StackValue.signature h.2
  typed signature := ⟨typed signature, rfl⟩
  constant value := ⟨constant value, rfl⟩
  null := ⟨null, rfl⟩
  arithmetic _ kind hl hr := ⟨result kind.toKind _, by rw [hl.2, hr.2]⟩
  negate kind h := ⟨result kind.toKind _, by rw [h.2]⟩
  bitwise _ kind hl hr := ⟨result kind.toKind _, by rw [hl.2, hr.2]⟩
  convert conversion h := ⟨converted conversion _, by rw [h.2]⟩
  compare _ hl hr := ⟨result .int _, by rw [hl.2, hr.2]⟩

theorem OperandStack.step_keeps {p : StackValue → Prop}
    (hlike : Likeness fun v w => p v ∧ v = w) {stack : OperandStack}
    (i : Instruction) (pool : ConstantPool) (locals : LocalVariables)
    (h : ∀ value ∈ stack.values, p value) :
    ∀ value ∈ (stack.step i pool locals).1.values, p value := by
  have hself : List.Forall₂ (fun v w => p v ∧ v = w) stack.values stack.values :=
    List.forall₂_same.2 fun value hmem => ⟨h value hmem, rfl⟩
  obtain ⟨s, t, hstep, _, hst⟩ | ⟨fault, hstep, _⟩ | ⟨hbelow, _⟩ :=
    step_parallel hlike hself (List.append_nil _).symm i pool locals
  · rw [hstep]
    exact ((List.forall₂_and_left _ _).1 hst).1
  · rw [hstep]
    intro value hmem
    cases hmem
  · exact absurd rfl hbelow

/-- What the instructions of a sequence leave, one after the other, each with the
fault that it raised. -/
def OperandStack.outcomes (stack : OperandStack) (pool : ConstantPool)
    (locals : LocalVariables) :
    List Instruction → List (OperandStack × Option Fault)
  | [] => []
  | i :: code =>
    stack.step i pool locals ::
      (stack.step i pool locals).1.outcomes pool locals code

end ClassAudit
