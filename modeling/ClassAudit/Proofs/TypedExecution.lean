import ClassAudit.Proofs.EffectTracking
import ClassAudit.Proofs.KindTyping

/-!
# Typed code never faults

An instruction that finds operands of the kinds that its type asks for has an
effect, and what it leaves has the kinds that its type promises. So code that is
accepted from the empty stack runs without a fault, and at each point the values
shown have the kinds that the typing assigns there.

`Carries` is the form in which this goes through a computation on shown values:
from any values of the first kinds it succeeds, with values of the second. Unlike
`Tracks` it is about total correctness, so every check on the way has to be shown
to pass. There is one lemma for each operation of `StackM`, one for each family of
instructions (`effect_carries`), and an induction along the code (`run_holds`).
-/

namespace ClassAudit

open Machine

theorem StackValue.kind?_ofConstant (constant : Constant) :
    (ofConstant constant).kind? = constant.value.kind? := by
  obtain ⟨kind, hsig, hvalue⟩ := constant.kind_signature
  exact hsig.trans hvalue.symm

/-- Values shown have these kinds, entry by entry. -/
def HasKinds (values : List StackValue) (kinds : List Kind) : Prop :=
  values.map StackValue.kind? = kinds.map some

namespace HasKinds

variable {values values' : List StackValue} {kinds kinds' : List Kind}

theorem length_eq (h : HasKinds values kinds) : values.length = kinds.length := by
  have hlength := congrArg List.length h
  rwa [List.length_map, List.length_map] at hlength

theorem cons {shown : StackValue} {kind : Kind} (hshown : shown.kind? = some kind)
    (h : HasKinds values kinds) : HasKinds (shown :: values) (kind :: kinds) := by
  show shown.kind? :: values.map StackValue.kind? = some kind :: kinds.map some
  rw [hshown, h]

theorem uncons {kind : Kind} (h : HasKinds values (kind :: kinds)) :
    ∃ shown rest, values = shown :: rest ∧ shown.kind? = some kind ∧
      HasKinds rest kinds := by
  obtain ⟨shown, rest, hvalues, hshown, hrest⟩ := List.map_eq_cons_iff.1 h
  exact ⟨shown, rest, hvalues, hshown, hrest⟩

theorem append (h : HasKinds values kinds) (h' : HasKinds values' kinds') :
    HasKinds (values ++ values') (kinds ++ kinds') := by
  rw [HasKinds, List.map_append, List.map_append, h, h']

theorem take (h : HasKinds values kinds) (count : Nat) :
    HasKinds (values.take count) (kinds.take count) := by
  rw [HasKinds, List.map_take, List.map_take, h]

theorem drop (h : HasKinds values kinds) (count : Nat) :
    HasKinds (values.drop count) (kinds.drop count) := by
  rw [HasKinds, List.map_drop, List.map_drop, h]

theorem getElem? (h : HasKinds values kinds) {depth : Nat} {kind : Kind}
    (hkind : kinds[depth]? = some kind) :
    ∃ shown, values[depth]? = some shown ∧ shown.kind? = some kind := by
  have hmap := congrArg (fun entries => entries[depth]?) h
  simp only [List.getElem?_map, hkind, Option.map_some] at hmap
  exact Option.map_eq_some_iff.1 hmap

theorem unique (h : HasKinds values kinds) (h' : HasKinds values kinds') :
    kinds = kinds' :=
  List.map_injective_iff.2 (fun _ _ => Option.some.inj) (h.symm.trans h')

end HasKinds

/-- From any values of the first kinds a computation succeeds, with values of the
second. -/
def Carries {α : Type} (m : StackM α) (before after : List Kind) : Prop :=
  ∀ values, HasKinds values before →
    ∃ a values', m values = .ok (a, values') ∧ HasKinds values' after

namespace Carries

variable {α β : Type} {kinds : List Kind}

theorem pure {a : α} : Carries (Pure.pure a) kinds kinds := by
  intro values h
  exact ⟨a, values, rfl, h⟩

theorem bind {m : StackM α} {f : α → StackM β} {before mid after : List Kind}
    (hm : Carries m before mid) (hf : ∀ a, Carries (f a) mid after) :
    Carries (m >>= f) before after := by
  intro values h
  obtain ⟨a, values', hrun, h'⟩ := hm values h
  obtain ⟨b, values'', hrest, h''⟩ := hf a values' h'
  refine ⟨b, values'', ?_, h''⟩
  rw [StackM.bind_apply, hrun]
  exact hrest

theorem push {shown : StackValue} {kind : Kind} (h : shown.kind? = some kind) :
    Carries (StackM.push shown) kinds (kind :: kinds) := by
  intro values hkinds
  exact ⟨(), shown :: values, rfl, hkinds.cons h⟩

theorem push_typed {signature : String} {kind : Kind}
    (h : Kind.ofSignature? signature = some kind) :
    Carries (StackM.push (.typed signature)) kinds (kind :: kinds) :=
  push h

/-- What is pushed for a folded constant has the kind of the signature, whether
the constant fits or not. -/
theorem pushFolded {signature : String} {folded : Option Constant} {kind : Kind}
    (h : Kind.ofSignature? signature = some kind) :
    Carries (StackM.pushFolded signature folded) kinds (kind :: kinds) := by
  refine push ?_
  cases folded with
  | none => exact h
  | some constant =>
      rw [Option.bind_some, StackValue.withConstant?]
      split <;> exact h

theorem pop {kind : Kind} : Carries StackM.pop (kind :: kinds) kinds := by
  intro values h
  obtain ⟨shown, rest, rfl, _, hrest⟩ := h.uncons
  exact ⟨shown, rest, rfl, hrest⟩

theorem popKind {kind : Kind} :
    Carries (StackM.popKind kind) (kind :: kinds) kinds := by
  intro values h
  obtain ⟨shown, rest, rfl, hshown, hrest⟩ := h.uncons
  refine ⟨shown, rest, ?_, hrest⟩
  show (if shown.kind? = some kind then Pure.pure shown
    else throw (.kindMismatch kind shown.signature) : StackM StackValue) rest = _
  rw [if_pos hshown]
  rfl

theorem drop {top : List Kind} :
    Carries (StackM.drop top.length) (top ++ kinds) kinds := by
  intro values h
  have hrequire : StackM.require top.length values = .ok ((), values) := by
    have hlength := h.length_eq
    rw [List.length_append] at hlength
    rw [StackM.require, if_neg (by omega)]
  refine ⟨(), values.drop top.length, ?_, ?_⟩
  · rw [StackM.drop, StackM.bind_apply, hrequire]
    rfl
  · have hdrop := h.drop top.length
    rwa [List.drop_left] at hdrop

/-- What fills two slots is one value if that one is wide, and two otherwise. -/
theorem pairAt_bind (above : List Kind) {pair after : List Kind}
    {f : Nat → StackM β} (hpair : Kind.slots pair = 2)
    (h : Carries (f pair.length) (above ++ (pair ++ kinds)) after) :
    Carries (StackM.pairAt above.length >>= f) (above ++ (pair ++ kinds)) after := by
  intro values hvalues
  obtain ⟨first, more, rfl, hlength⟩ := Kind.length_of_slots_two hpair
  obtain ⟨shown, hshown, hkind⟩ : ∃ shown, values[above.length]? = some shown ∧
      shown.kind? = some first := hvalues.getElem? (by simp)
  have hpairAt : StackM.pairAt above.length values =
      .ok ((first :: more).length, values) := by
    have hlt : ¬ values.length < above.length + 1 := by
      have hdepth := (List.getElem?_eq_some_iff.1 hshown).1
      omega
    rw [StackM.pairAt_eq, if_neg hlt, hshown, hlength, Option.any_some,
      StackValue.isWide, hkind, Option.any_some]
  obtain ⟨b, values', hrun, hafter⟩ := h values hvalues
  refine ⟨b, values', ?_, hafter⟩
  rw [StackM.bind_apply, hpairAt]
  exact hrun

theorem duplicate (copied skipped : List Kind) :
    Carries (StackM.duplicate copied.length skipped.length)
      (copied ++ skipped ++ kinds) (copied ++ skipped ++ copied ++ kinds) := by
  intro values h
  have hlength : ¬ values.length < copied.length + skipped.length := by
    rw [h.length_eq, List.length_append, List.length_append]
    omega
  rw [StackM.duplicate_eq, if_neg hlength]
  refine ⟨(), _, rfl, ?_⟩
  have hcopied := h.take copied.length
  have hall := h.take (copied ++ skipped).length
  have hbelow := h.drop (copied ++ skipped).length
  rw [List.take_left] at hall
  rw [List.drop_left] at hbelow
  rw [List.append_assoc, List.take_left] at hcopied
  rw [List.length_append] at hall hbelow
  rw [List.append_assoc (copied ++ skipped)]
  exact hall.append (hcopied.append hbelow)

theorem exchange {first second : Kind} :
    Carries StackM.exchange (first :: second :: kinds)
      (second :: first :: kinds) := by
  intro values h
  obtain ⟨v, rest, rfl, hv, h⟩ := h.uncons
  obtain ⟨w, rest, rfl, hw, h⟩ := h.uncons
  exact ⟨(), w :: v :: rest, rfl, (h.cons hv).cons hw⟩

end Carries

/-! ## The table, family by family -/

namespace Opcode

theorem stackRule?_arrayLoad (component : Component) :
    (arrayLoad component).stackRule? =
      some ([.int, .reference], [component.toKind]) := by
  cases component <;> rfl

theorem stackRule?_arrayStore (component : Component) :
    (arrayStore component).stackRule? =
      some ([component.toKind, .int, .reference], []) := by
  cases component <;> rfl

theorem stackRule?_arithmetic (op : ArithmeticOp) (kind : NumericKind) :
    (arithmetic op kind).stackRule? =
      some ([kind.toKind, kind.toKind], [kind.toKind]) := by
  cases kind <;> rfl

theorem stackRule?_negate (kind : NumericKind) :
    (negate kind).stackRule? = some ([kind.toKind], [kind.toKind]) := by
  cases kind <;> rfl

theorem stackRule?_bitwise (op : BitwiseOp) (kind : IntegralKind) :
    (bitwise op kind).stackRule? =
      some ([if op.isShift then .int else kind.toKind, kind.toKind],
        [kind.toKind]) := by
  cases kind with
  | int => cases op <;> rfl
  | long => cases op <;> rfl

theorem stackRule?_convert (conversion : Conversion) :
    ∃ kind, Kind.ofSignature? conversion.signature = some kind ∧
      (convert conversion).stackRule? = some ([conversion.source], [kind]) := by
  cases conversion <;> exact ⟨_, rfl, rfl⟩

theorem stackRule?_compare (comparison : Comparison) :
    (compare comparison).stackRule? =
      some ([comparison.operandKind, comparison.operandKind], [.int]) := by
  cases comparison <;> rfl

end Opcode

/-! ## Each family of instructions -/

section Families

variable {pool : ConstantPool} {locals : LocalVariables} {i : Instruction}
  {below : List Kind}

theorem carries_plain {operands results : List Kind}
    (h : i.opcode.stackRule? = some (operands, results)) :
    Carries (i.effect pool locals) (operands ++ below) (results ++ below) := by
  cases hop : i.opcode with
  | nop | iinc | goto | gotoW | ret =>
      rw [hop] at h
      cases h
      simp only [Instruction.effect, hop]
      exact .pure
  | aconstNull =>
      rw [hop] at h
      cases h
      simp only [Instruction.effect, hop]
      exact .push rfl
  | iconst _ | lconst _ | fconst _ | dconst _ =>
      rw [hop] at h
      cases h
      simp only [Instruction.effect, hop]
      exact .push (StackValue.kind?_ofConstant _)
  | loadFrom kind slot =>
      rw [hop] at h
      cases h
      simp only [Instruction.effect, hop]
      exact .push (localValue_kind locals kind _ _)
  | store _ | storeTo _ _ | ifZero _ | tableswitch | lookupswitch | ifNull _
  | monitorenter | monitorexit =>
      rw [hop] at h
      cases h
      simp only [Instruction.effect, hop]
      exact Carries.popKind.bind fun _ => .pure
  | arrayLoad component =>
      rw [hop, Opcode.stackRule?_arrayLoad] at h
      cases h
      simp only [Instruction.effect, hop]
      refine Carries.popKind.bind fun _ => Carries.popKind.bind fun array => ?_
      obtain ⟨signature, htyped, hsig⟩ := componentValue_typed component array
      rw [htyped]
      exact .push_typed hsig
  | arrayStore component =>
      rw [hop, Opcode.stackRule?_arrayStore] at h
      cases h
      simp only [Instruction.effect, hop]
      exact Carries.popKind.bind fun _ => Carries.popKind.bind fun _ =>
        Carries.popKind.bind fun _ => .pure
  | arithmetic op kind =>
      rw [hop, Opcode.stackRule?_arithmetic] at h
      cases h
      simp only [Instruction.effect, hop]
      exact Carries.popKind.bind fun _ => Carries.popKind.bind fun _ =>
        .pushFolded (Kind.ofSignature?_signature _)
  | negate kind =>
      rw [hop, Opcode.stackRule?_negate] at h
      cases h
      simp only [Instruction.effect, hop]
      exact Carries.popKind.bind fun _ =>
        .pushFolded (Kind.ofSignature?_signature _)
  | bitwise op kind =>
      rw [hop, Opcode.stackRule?_bitwise] at h
      cases h
      simp only [Instruction.effect, hop]
      exact Carries.popKind.bind fun _ => Carries.popKind.bind fun _ =>
        .pushFolded (Kind.ofSignature?_signature _)
  | convert conversion =>
      obtain ⟨kind, hsig, hrule⟩ := Opcode.stackRule?_convert conversion
      rw [hop, hrule] at h
      cases h
      simp only [Instruction.effect, hop]
      exact Carries.popKind.bind fun _ => .pushFolded hsig
  | compare comparison =>
      rw [hop, Opcode.stackRule?_compare] at h
      cases h
      simp only [Instruction.effect, hop]
      exact Carries.popKind.bind fun _ => Carries.popKind.bind fun _ =>
        .pushFolded (Kind.ofSignature?_signature .int)
  | ifInt _ | ifSame _ =>
      rw [hop] at h
      cases h
      simp only [Instruction.effect, hop]
      exact Carries.popKind.bind fun _ => Carries.popKind.bind fun _ => .pure
  | arraylength =>
      rw [hop] at h
      cases h
      simp only [Instruction.effect, hop]
      exact Carries.popKind.bind fun _ =>
        .push_typed (Kind.ofSignature?_signature .int)
  | _ =>
      rw [hop] at h
      cases h

theorem carries_drop {dropped : List Kind}
    (h : i.opcode = .pop ∧ Kind.slots dropped = 1 ∨
      i.opcode = .pop2 ∧ Kind.slots dropped = 2) :
    Carries (i.effect pool locals) (dropped ++ below) below := by
  cases h with
  | inl h =>
      obtain ⟨kind, rfl⟩ := Kind.slots_eq_one h.2
      simp only [Instruction.effect, h.1]
      exact Carries.pop.bind fun _ => .pure
  | inr h =>
      simp only [Instruction.effect, h.1]
      exact Carries.pairAt_bind [] h.2 .drop

theorem carries_copy {copied skipped : List Kind}
    (h : i.opcode.copies? = some (Kind.slots copied, Kind.slots skipped)) :
    Carries (i.effect pool locals) (copied ++ skipped ++ below)
      (copied ++ skipped ++ copied ++ below) := by
  -- In the end it is one `duplicate`; the cases differ in how its counts are found.
  have hduplicate : Carries _ (copied ++ skipped ++ below) _ :=
    Carries.duplicate copied skipped
  have hslots {m n : Nat} (hrow : i.opcode.copies? = some (m, n)) :
      Kind.slots copied = m ∧ Kind.slots skipped = n := by
    rw [h] at hrow
    exact Prod.mk.inj (Option.some.inj hrow)
  cases hop : i.opcode with
  | dup =>
      obtain ⟨hcopied, hskipped⟩ := hslots (by rw [hop]; rfl)
      obtain ⟨kind, rfl⟩ := Kind.slots_eq_one hcopied
      obtain rfl := Kind.slots_eq_zero hskipped
      simp only [Instruction.effect, hop]
      exact hduplicate
  | dupX1 =>
      obtain ⟨hcopied, hskipped⟩ := hslots (by rw [hop]; rfl)
      obtain ⟨kind, rfl⟩ := Kind.slots_eq_one hcopied
      obtain ⟨other, rfl⟩ := Kind.slots_eq_one hskipped
      simp only [Instruction.effect, hop]
      exact hduplicate
  | dupX2 =>
      obtain ⟨hcopied, hskipped⟩ := hslots (by rw [hop]; rfl)
      obtain ⟨kind, rfl⟩ := Kind.slots_eq_one hcopied
      simp only [Instruction.effect, hop]
      rw [List.append_assoc [kind]] at hduplicate ⊢
      exact Carries.pairAt_bind [kind] hskipped hduplicate
  | dup2 =>
      obtain ⟨hcopied, hskipped⟩ := hslots (by rw [hop]; rfl)
      obtain rfl := Kind.slots_eq_zero hskipped
      simp only [Instruction.effect, hop]
      rw [List.append_assoc copied] at hduplicate ⊢
      exact Carries.pairAt_bind [] hcopied hduplicate
  | dup2X1 =>
      obtain ⟨hcopied, hskipped⟩ := hslots (by rw [hop]; rfl)
      obtain ⟨other, rfl⟩ := Kind.slots_eq_one hskipped
      simp only [Instruction.effect, hop]
      rw [List.append_assoc copied] at hduplicate ⊢
      exact Carries.pairAt_bind [] hcopied hduplicate
  | dup2X2 =>
      obtain ⟨hcopied, hskipped⟩ := hslots (by rw [hop]; rfl)
      simp only [Instruction.effect, hop]
      rw [List.append_assoc copied] at hduplicate ⊢
      exact Carries.pairAt_bind [] hcopied
        (Carries.pairAt_bind copied hskipped hduplicate)
  | _ =>
      rw [hop] at h
      cases h

theorem carries_ldc {index : UInt16} {loadable : Loadable} {v : Value} {kind : Kind}
    (h : i.opcode ∈ [.ldc, .ldcW, .ldc2W]) (ho : i.operands = .pool index)
    (hentry : pool.loadable? index = some loadable) (hv : Loads loadable v)
    (hkind : v.kind? = some kind) :
    Carries (i.effect pool locals) below (kind :: below) := by
  obtain ⟨shown, hshown, hvalue⟩ := (loadedValue_describes hv).kind
  rw [hkind] at hvalue
  cases hvalue
  simp only [List.mem_cons, List.not_mem_nil, or_false] at h
  rcases h with h | h | h <;>
    simp only [Instruction.effect, h, Instruction.poolIndex_eq ho, pure_bind,
      hentry] <;>
    exact .push hshown

/-- The arguments and the receiver are as many as the reader of the descriptor
says, and the result shown has the kind of the result type. -/
theorem carries_invoke {invocation : Invocation} {type : MethodType}
    {arguments results : List Kind} (h : i.opcode = .invoke invocation)
    (hcallee : CalleeOf pool i invocation type) (hparen : ')' ∉ type.resultText)
    (harguments : arguments.map some = type.parameters.map JavaType.kind?)
    (hresults : results.map some = type.result.toList.map JavaType.kind?) :
    Carries (i.effect pool locals)
      (arguments.reverse ++ invocation.receiver ++ below) (results ++ below) := by
  have hcount : (type.parameters.map JavaType.isReference).length +
      (if invocation.hasReceiver then 1 else 0) =
        (arguments.reverse ++ invocation.receiver).length := by
    have hlength := congrArg List.length harguments
    rw [List.length_map, List.length_map] at hlength
    rw [List.length_append, List.length_reverse, List.length_map, hlength]
    cases invocation <;> rfl
  have hshape := Instruction.shapeOf_eq hcallee.1 hparen
  simp only [Instruction.effect, h, Instruction.invokedDescriptor_eq hcallee,
    pure_bind, hshape, MethodShape.arity]
  rw [hcount]
  refine Carries.drop.bind fun _ => ?_
  rw [MethodShape.resultSignature]
  cases hresult : type.result with
  | none =>
      rw [hresult] at hresults
      rw [List.map_eq_nil_iff.1 hresults]
      exact .pure
  | some result =>
      rw [hresult] at hresults
      obtain ⟨kind, rfl, hkind⟩ := List.map_eq_singleton_iff.1 hresults
      refine .push_typed ?_
      rw [result.ofSignature?_signature, ← hkind]

theorem carries_newarray {code : UInt8} (h : i.opcode = .newarray)
    (ho : i.operands = .elementType code)
    (hcode : 4 ≤ code.toNat ∧ code.toNat ≤ 11) :
    Carries (i.effect pool locals) (.int :: below) (.reference :: below) := by
  obtain ⟨signature, hsome⟩ : ∃ signature, arrayOfTypeCode? code = some signature := by
    have hcases : code.toNat = 4 ∨ code.toNat = 5 ∨ code.toNat = 6 ∨
        code.toNat = 7 ∨ code.toNat = 8 ∨ code.toNat = 9 ∨ code.toNat = 10 ∨
        code.toNat = 11 := by omega
    rw [arrayOfTypeCode?]
    rcases hcases with h | h | h | h | h | h | h | h <;> rw [h] <;> exact ⟨_, rfl⟩
  simp only [Instruction.effect, h, ho, hsome]
  exact Carries.popKind.bind fun _ =>
    .push_typed (ofSignature?_arrayOfTypeCode hsome)

end Families

/-- A typed instruction has an effect, and leaves what its type says. -/
theorem effect_carries {pool : ConstantPool} (locals : LocalVariables)
    {i : Instruction} {operands results : List Kind}
    (h : Typed pool i operands results) (hsupported : i.opcode.isSupported = true)
    (below : List Kind) :
    Carries (i.effect pool locals) (operands ++ below) (results ++ below) := by
  cases h with
  | plain h => exact carries_plain h
  | literal h ho =>
      simp only [List.mem_cons, List.not_mem_nil, or_false] at h
      rcases h with h | h <;> simp only [Instruction.effect, h, ho] <;>
        exact .push (StackValue.kind?_ofConstant _)
  | load h ho =>
      simp only [Instruction.effect, h, ho]
      exact .push (localValue_kind locals _ _ _)
  | ldc h ho hentry hv hkind =>
      refine carries_ldc ?_ ho hentry hv hkind
      rcases h with ⟨h, _⟩ | ⟨h, _⟩
      · exact List.mem_append_left [.ldc2W] h
      · simp [h]
  | drop h => exact carries_drop h
  | copy h => exact carries_copy h
  | swap h _ _ =>
      simp only [Instruction.effect, h]
      exact .exchange
  | @getstatic type kind h hfield hkind =>
      obtain ⟨_, index, member, ho, hm, hdescriptor⟩ := hfield
      simp only [Instruction.effect, h, Instruction.member_eq ho hm, pure_bind,
        hdescriptor]
      exact .push_typed (type.ofSignature?_signature.trans hkind)
  | putstatic h hfield hkind =>
      obtain ⟨_, index, member, ho, hm, hdescriptor⟩ := hfield
      simp only [Instruction.effect, h, Instruction.member_eq ho hm, pure_bind,
        hdescriptor, Instruction.fieldKind_eq hkind]
      exact Carries.popKind.bind fun _ => .pure
  | @getfield type kind h hfield hkind =>
      obtain ⟨_, index, member, ho, hm, hdescriptor⟩ := hfield
      simp only [Instruction.effect, h, Instruction.member_eq ho hm, pure_bind,
        hdescriptor]
      exact Carries.popKind.bind fun _ =>
        .push_typed (type.ofSignature?_signature.trans hkind)
  | putfield h hfield hkind =>
      obtain ⟨_, index, member, ho, hm, hdescriptor⟩ := hfield
      simp only [Instruction.effect, h, Instruction.member_eq ho hm, pure_bind,
        hdescriptor, Instruction.fieldKind_eq hkind]
      exact Carries.popKind.bind fun _ => Carries.popKind.bind fun _ => .pure
  | invoke h hcallee hparen harguments hresults =>
      exact carries_invoke h hcallee hparen harguments hresults
  | new h hclass =>
      obtain ⟨index, name, ho, hname⟩ := hclass
      simp only [Instruction.effect, h, Instruction.className_eq ho hname,
        pure_bind]
      exact .push_typed (ofSignature?_signatureOfName name)
  | newarray h ho hcode => exact carries_newarray h ho hcode
  | anewarray h hclass =>
      obtain ⟨index, name, ho, hname⟩ := hclass
      simp only [Instruction.effect, h, Instruction.className_eq ho hname,
        pure_bind]
      exact Carries.popKind.bind fun _ => .push_typed (ofSignature?_array _)
  | multianewarray h _ _ _ =>
      rw [h] at hsupported
      cases hsupported
  | checkcast h _ =>
      simp only [Instruction.effect, h]
      exact .pure
  | instanceof h _ =>
      simp only [Instruction.effect, h]
      exact Carries.popKind.bind fun _ =>
        .push_typed (Kind.ofSignature?_signature .int)

/-! ## Running code -/

namespace OperandStack

/-- The stack after a sequence of instructions, one step for each. -/
def run (stack : OperandStack) (code : List Instruction) (pool : ConstantPool)
    (locals : LocalVariables) : OperandStack :=
  code.foldl (fun stack i => (stack.step i pool locals).1) stack

/-- A stack is valid and its values have these kinds, the top first. -/
def Holds (stack : OperandStack) (kinds : List Kind) : Prop :=
  stack.valid = true ∧ HasKinds stack.values kinds

theorem step_holds {pool : ConstantPool} {locals : LocalVariables} {i : Instruction}
    {operands results below : List Kind} (h : Typed pool i operands results)
    (hsupported : i.opcode.isSupported = true) {stack : OperandStack}
    (hstack : stack.Holds (operands ++ below)) :
    (stack.step i pool locals).1.Holds (results ++ below) := by
  obtain ⟨_, values, heffect, hvalues⟩ :=
    effect_carries locals h hsupported below stack.values hstack.2
  rw [step, heffect]
  exact ⟨hstack.1, hvalues⟩

/-- Along code that never leaves the method, each stack has the kinds that the
typing assigns. -/
theorem run_holds {pool : ConstantPool} {locals : LocalVariables}
    {code : List Instruction} {kinds last : List Kind}
    (h : Accepts pool code kinds last)
    (hsupported : ∀ i ∈ code, i.opcode.isSupported = true)
    (hstays : ∀ i ∈ code, i.opcode.exit? = none) {stack : OperandStack}
    (hstack : stack.Holds kinds) : (stack.run code pool locals).Holds last := by
  induction h generalizing stack with
  | nil kinds => exact hstack
  | next h _ ih =>
      rw [List.forall_mem_cons] at hsupported hstays
      exact ih hsupported.2 hstays.2 (step_holds h hsupported.1 hstack)
  | exit h _ _ =>
      rw [List.forall_mem_cons, h] at hstays
      cases hstays.1

end OperandStack

/-- If the typing accepts code from the empty stack, then after each part of it
that does not return or throw, a run that started fresh is valid and shows the
kinds that the typing assigns there, and no other. -/
theorem typed_code_never_faults (pool : ConstantPool) (locals : LocalVariables)
    {before after : List Instruction} {last : List Kind}
    (haccepts : Accepts pool (before ++ after) [] last)
    (hsupported : ∀ i ∈ before, i.opcode.isSupported = true)
    (hstays : ∀ i ∈ before, i.opcode.exit? = none) :
    ∃ kinds, (∀ other, Accepts pool before [] other ↔ other = kinds) ∧
      Accepts pool after kinds last ∧
      (OperandStack.fresh.run before pool locals).valid = true ∧
      (OperandStack.fresh.run before pool locals).values.reverse.map
        StackValue.kind? = kinds.reverse.map some := by
  have hruns : ∀ other, Accepts pool before [] other →
      (OperandStack.fresh.run before pool locals).Holds other :=
    fun other h => OperandStack.run_holds h hsupported hstays ⟨rfl, rfl⟩
  obtain ⟨kinds, hbefore, hafter⟩ := haccepts.split hstays
  obtain ⟨hvalid, hkinds⟩ := hruns kinds hbefore
  refine ⟨kinds, fun other => ⟨?_, ?_⟩, hafter, hvalid, ?_⟩
  · intro hother
    exact (hruns other hother).2.unique hkinds
  · intro hother
    rwa [hother]
  · rw [List.map_reverse, List.map_reverse, hkinds]

/-- A pool that names a field of type `double`, at index 6, and a method that
takes a `long` and an `int` and gives a string, at index 10. -/
def chimeraPool : ConstantPool := .ofEntries
  [.utf8 "Chimera", .classRef 1, .utf8 "weight", .utf8 "D", .nameAndType 3 4,
    .fieldRef 2 5, .utf8 "roar", .utf8 "(JI)Ljava/lang/String;",
    .nameAndType 7 8, .methodRef 2 9]

/-- Code that moves wide and narrow values past each other. -/
def chimeraCode : List Instruction :=
  [⟨0, .lconst 1, .none⟩, ⟨1, .iconst ⟨3, by decide⟩, .none⟩, ⟨2, .dupX2, .none⟩,
    ⟨3, .invoke .static, .pool 10⟩, ⟨6, .getstatic, .pool 6⟩, ⟨9, .dup2, .none⟩]

/-- It goes on with a return, behind which the stack may be any. -/
def chimeraEnd : List Instruction :=
  [⟨10, .valueReturn .double, .none⟩, ⟨11, .arraylength, .none⟩]

theorem chimeraCode_accepted : Accepts chimeraPool chimeraCode []
    [.double, .double, .reference, .int] := by
  have hfield : FieldOf chimeraPool ⟨6, .getstatic, .pool 6⟩ ⟨0, .basic .double⟩ :=
    ⟨by simp [JavaType.IsField], 6, ⟨"Chimera", "weight", "D"⟩, rfl,
      by decide +kernel, by decide +kernel⟩
  have hcallee : CalleeOf chimeraPool ⟨3, .invoke .static, .pool 10⟩ .static
      ⟨[⟨0, .basic .long⟩, ⟨0, .basic .int⟩], some (.named "java/lang/String")⟩ := by
    refine ⟨by simp [MethodType.WellFormed, JavaType.IsField, JavaType.named], 10,
      rfl, ⟨"Chimera", "roar", "(JI)Ljava/lang/String;"⟩, ?_, ?_⟩
    · decide +kernel
    · decide +kernel
  refine .next (.plain rfl : Typed _ _ [] [.long]) ?_
  show Accepts _ _ ([] ++ [.long]) _
  refine .next (.plain rfl : Typed _ _ [] [.int]) ?_
  show Accepts _ _ ([.int, .long] ++ []) _
  refine .next (.copy rfl : Typed _ _ ([.int] ++ [.long]) _) ?_
  show Accepts _ _ ([.int, .long] ++ [.int]) _
  refine .next (.invoke rfl hcallee (by decide +kernel) rfl rfl :
    Typed _ _ ([.long, .int].reverse ++ []) [.reference]) ?_
  show Accepts _ _ ([] ++ [.reference, .int]) _
  refine .next (.getstatic rfl hfield rfl : Typed _ _ [] [.double]) ?_
  show Accepts _ _ ([.double] ++ [.reference, .int]) _
  exact .next (.copy rfl : Typed _ _ ([.double] ++ []) _)
    (.nil [.double, .double, .reference, .int])

theorem chimera_accepted :
    Accepts chimeraPool (chimeraCode ++ chimeraEnd) [] [.int] := by
  have hlength : Accepts chimeraPool [⟨11, .arraylength, .none⟩] ([.reference] ++ [])
      [.int] := .next (.plain rfl) (.nil [.int])
  refine chimeraCode_accepted.append ?_
  show Accepts _ _ ([.double] ++ [.double, .reference, .int]) _
  exact .exit rfl hlength

theorem typed_code_never_faults_chimera :
    Accepts chimeraPool (chimeraCode ++ chimeraEnd) [] [.int] ∧
    (∀ i ∈ chimeraCode, i.opcode.isSupported = true) ∧
    (∀ i ∈ chimeraCode, i.opcode.exit? = none) ∧
    (OperandStack.fresh.run chimeraCode chimeraPool []).valid = true ∧
    (OperandStack.fresh.run chimeraCode chimeraPool []).values.reverse.map
      StackValue.kind? = [some .int, some .reference, some .double, some .double] := by
  have hsupported : ∀ i ∈ chimeraCode, i.opcode.isSupported = true := by decide
  have hstays : ∀ i ∈ chimeraCode, i.opcode.exit? = none := by decide
  obtain ⟨kinds, hkinds, _, hvalid, hshown⟩ :=
    typed_code_never_faults chimeraPool [] chimera_accepted hsupported hstays
  obtain rfl := (hkinds _).1 chimeraCode_accepted
  exact ⟨chimera_accepted, hsupported, hstays, hvalid, hshown⟩

end ClassAudit
