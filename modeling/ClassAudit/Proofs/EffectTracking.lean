import ClassAudit.Proofs.Tracking

/-!
# Every instruction is tracked

`Yields` says what an instruction does to the values on the stack and
`Instruction.effect` what it does to the values shown. This file ties the two
together, rule by rule: if an instruction completes, its effect on values that
covered the stack before leaves values that cover the stack after it
(`effect_tracks`).

Two facts do the work besides the operations of `Tracking`. Folding a constant
gives the value that the machine computes, which is a matter of arithmetic. And
a descriptor is read to as many parameters, and to a result of the same kind,
as the method type it spells has; here the condition on the pool is used, since
the result shown is the text behind the last `)`.
-/

namespace ClassAudit

open Machine

/-! ## Constants -/

namespace StackValue

variable {shown : StackValue} {v : Value}

theorem Describes.int? (h : shown.Describes v) {x : Int32}
    (hx : shown.int? = some x) : v = .int x := by
  obtain ⟨constant, hconstant, hint⟩ := Option.bind_eq_some_iff.1 hx
  cases constant with
  | int value =>
      cases hint
      exact h.constant _ hconstant
  | long _ | float _ | double _ | string _ => cases hint

theorem Describes.long? (h : shown.Describes v) {x : Int64}
    (hx : shown.long? = some x) : v = .long x := by
  obtain ⟨constant, hconstant, hlong⟩ := Option.bind_eq_some_iff.1 hx
  cases constant with
  | long value =>
      cases hlong
      exact h.constant _ hconstant
  | int _ | float _ | double _ | string _ => cases hlong

theorem Describes.float? (h : shown.Describes v) {x : Float32}
    (hx : shown.float? = some x) : v = .float x := by
  obtain ⟨constant, hconstant, hfloat⟩ := Option.bind_eq_some_iff.1 hx
  cases constant with
  | float value =>
      cases hfloat
      exact h.constant _ hconstant
  | int _ | long _ | double _ | string _ => cases hfloat

theorem Describes.double? (h : shown.Describes v) {x : Float}
    (hx : shown.double? = some x) : v = .double x := by
  obtain ⟨constant, hconstant, hdouble⟩ := Option.bind_eq_some_iff.1 hx
  cases constant with
  | double value =>
      cases hdouble
      exact h.constant _ hconstant
  | int _ | long _ | float _ | string _ => cases hdouble

end StackValue

namespace Machine

theorem arithmetic_kind {op : ArithmeticOp} {l r v : Value}
    (h : arithmetic op l r = some v) : v.kind? = l.kind? := by
  unfold arithmetic at h
  split at h
  · obtain ⟨n, _, rfl⟩ := Option.map_eq_some_iff.1 h
    rfl
  · obtain ⟨n, _, rfl⟩ := Option.map_eq_some_iff.1 h
    rfl
  · cases h
    rfl
  · cases h
    rfl
  · cases h

theorem negate_kind {a v : Value} (h : negate a = some v) :
    v.kind? = a.kind? := by
  unfold negate at h
  split at h <;> cases h <;> rfl

theorem bitwise_kind {op : BitwiseOp} {l r v : Value}
    (h : bitwise op l r = some v) : v.kind? = l.kind? := by
  unfold bitwise at h
  split at h
  · cases h
    rfl
  · split at h <;> cases h
    rfl
  · split at h <;> cases h
    rfl
  · cases h

theorem convert_kind {conversion : Conversion} {a v : Value}
    (h : convert conversion a = some v) :
    ∃ kind, Kind.ofSignature? conversion.signature = some kind ∧
      v.kind? = some kind := by
  unfold convert at h
  split at h <;> cases h <;> exact ⟨_, rfl, rfl⟩

theorem compare_kind {comparison : Comparison} {l r v : Value}
    (h : compare comparison l r = some v) : v.kind? = some .int := by
  unfold compare at h
  split at h <;> cases h <;> rfl

end Machine

namespace Folding

variable {left right : StackValue} {l r v : Value}

/-- A folded result is the one that the machine computes. -/
theorem arithmetic_value {op : ArithmeticOp} {kind : NumericKind}
    (hl : left.Describes l) (hr : right.Describes r)
    (hv : Machine.arithmetic op l r = some v) {constant : Constant}
    (h : arithmetic op kind left right = some constant) :
    constant.value = v := by
  cases kind with
  | int =>
      simp only [arithmetic, Option.bind_eq_bind, Option.bind_eq_some_iff] at h
      obtain ⟨x, hx, y, hy, z, hz, hc⟩ := h
      cases hc
      rw [hl.int? hx, hr.int? hy, Machine.arithmetic] at hv
      rw [Exact.folding_int] at hz
      obtain ⟨n, hn, rfl⟩ := Option.map_eq_some_iff.1 hz
      rw [hn] at hv
      cases hv
      rfl
  | long =>
      simp only [arithmetic, Option.bind_eq_bind, Option.bind_eq_some_iff] at h
      obtain ⟨x, hx, y, hy, z, hz, hc⟩ := h
      cases hc
      rw [hl.long? hx, hr.long? hy, Machine.arithmetic] at hv
      rw [Exact.folding_long] at hz
      obtain ⟨n, hn, rfl⟩ := Option.map_eq_some_iff.1 hz
      rw [hn] at hv
      cases hv
      rfl
  | float =>
      simp only [arithmetic, Option.bind_eq_bind, Option.bind_eq_some_iff] at h
      obtain ⟨x, hx, y, hy, hc⟩ := h
      cases hc
      rw [hl.float? hx, hr.float? hy, Machine.arithmetic] at hv
      cases hv
      cases op <;> rfl
  | double =>
      simp only [arithmetic, Option.bind_eq_bind, Option.bind_eq_some_iff] at h
      obtain ⟨x, hx, y, hy, hc⟩ := h
      cases hc
      rw [hl.double? hx, hr.double? hy, Machine.arithmetic] at hv
      cases hv
      cases op <;> rfl

theorem negate_value (hl : left.Describes l) (hv : Machine.negate l = some v)
    {constant : Constant} (h : left.constant?.bind negate = some constant) :
    constant.value = v := by
  obtain ⟨operand, hoperand, hnegate⟩ := Option.bind_eq_some_iff.1 h
  have hvalue := hl.constant _ hoperand
  subst hvalue
  cases operand with
  | int x =>
      cases hnegate
      cases hv
      simp only [Constant.value, Int32.ofInt_neg, Int32.ofInt_toInt]
  | long x =>
      cases hnegate
      cases hv
      simp only [Constant.value, Int64.ofInt_neg, Int64.ofInt_toInt]
  | float x | double x =>
      cases hnegate
      cases hv
      rfl
  | string x => cases hnegate

theorem bitwise_value {op : BitwiseOp} {kind : IntegralKind}
    (hl : left.Describes l) (hr : right.Describes r)
    (hv : Machine.bitwise op l r = some v) {constant : Constant}
    (h : bitwise op kind left right = some constant) : constant.value = v := by
  cases kind with
  | int =>
      simp only [bitwise, Option.bind_eq_bind, Option.bind_eq_some_iff] at h
      obtain ⟨x, hx, y, hy, hc⟩ := h
      cases hc
      rw [hl.int? hx, hr.int? hy, Machine.bitwise] at hv
      cases hv
      rw [Exact.folding_intBits]
      rfl
  | long =>
      -- The second operand is an `int` for a shift and a `long` otherwise.
      by_cases hshift : op.isShift = true
      · simp only [bitwise, hshift, if_true, Option.bind_eq_bind,
          Option.bind_eq_some_iff, Option.map_eq_some_iff] at h
        obtain ⟨_, ⟨y, hy, rfl⟩, x, hx, hc⟩ := h
        cases hc
        rw [hl.long? hx, hr.int? hy, Machine.bitwise, if_pos hshift] at hv
        cases hv
        rw [Exact.folding_longBits, Int32.toInt_toInt64]
        rfl
      · simp only [bitwise, hshift, Bool.false_eq_true, if_false,
          Option.bind_eq_bind, Option.bind_eq_some_iff] at h
        obtain ⟨y, hy, x, hx, hc⟩ := h
        cases hc
        rw [hl.long? hx, hr.long? hy, Machine.bitwise, if_neg hshift] at hv
        cases hv
        rw [Exact.folding_longBits]
        rfl

theorem convert_value {conversion : Conversion} (hl : left.Describes l)
    (hv : Machine.convert conversion l = some v) {constant : Constant}
    (h : left.constant?.bind (convert conversion) = some constant) :
    constant.value = v := by
  obtain ⟨operand, hoperand, hconvert⟩ := Option.bind_eq_some_iff.1 h
  have hvalue := hl.constant _ hoperand
  subst hvalue
  unfold convert at hconvert
  split at hconvert <;> cases hconvert <;> cases hv
  case h_1 => rw [Int64.ofInt_int32ToInt]; rfl
  case h_4 => rw [← Exact.toInt8_toInt32]; rfl
  case h_5 => rw [← Exact.toUInt16_toInt32]; rfl
  case h_6 => rw [← Exact.toInt16_toInt32]; rfl
  case h_7 => rw [Int32.ofInt_int64ToInt]; rfl
  all_goals rfl

theorem compare_value {comparison : Comparison} (hl : left.Describes l)
    (hr : right.Describes r) (hv : Machine.compare comparison l r = some v)
    {constant : Constant} (h : compare comparison left right = some constant) :
    constant.value = v := by
  cases comparison with
  | lcmp =>
      simp only [compare, Option.bind_eq_bind, Option.bind_eq_some_iff] at h
      obtain ⟨x, hx, y, hy, hc⟩ := h
      cases hc
      rw [hl.long? hx, hr.long? hy] at hv
      cases hv
      rw [← Exact.signOf_long]
      rfl
  | fcmpl | fcmpg =>
      simp only [compare, Option.bind_eq_bind, Option.bind_eq_some_iff] at h
      obtain ⟨x, hx, y, hy, hc⟩ := h
      cases hc
      rw [hl.float? hx, hr.float? hy] at hv
      cases hv
      rfl
  | dcmpl | dcmpg =>
      simp only [compare, Option.bind_eq_bind, Option.bind_eq_some_iff] at h
      obtain ⟨x, hx, y, hy, hc⟩ := h
      cases hc
      rw [hl.double? hx, hr.double? hy] at hv
      cases hv
      rfl

end Folding

/-! ## What operands refer to -/

namespace Instruction

variable {pool : ConstantPool} {i : Instruction} {index : UInt16}

theorem poolIndex_eq (ho : i.operands = .pool index) :
    i.poolIndex = pure index := by
  simp only [poolIndex, ho]

theorem member_eq {member : Member} (ho : i.operands = .pool index)
    (hm : pool.member? index = some member) : i.member pool = pure member := by
  rw [Instruction.member, poolIndex_eq ho, pure_bind, hm]

theorem className_eq {name : String} (ho : i.operands = .pool index)
    (hn : pool.className? index = some name) : i.className pool = pure name := by
  rw [className, poolIndex_eq ho, pure_bind, hn]

theorem fieldKind_eq {type : JavaType} {kind : Kind}
    (hkind : type.kind? = some kind) :
    fieldKind type.signature = pure kind := by
  rw [fieldKind, type.ofSignature?_signature, hkind]

theorem invokedDescriptor_eq {invocation : Invocation} {type : MethodType}
    (h : CalleeOf pool i invocation type) :
    i.invokedDescriptor pool invocation = pure type.descriptor := by
  obtain ⟨_, index, ho, hentry⟩ := h
  rw [invokedDescriptor]
  split
  · next hdynamic =>
      rw [if_pos hdynamic] at hentry
      rw [poolIndex_eq ho, pure_bind, hentry]
  · next hdynamic =>
      rw [if_neg hdynamic] at hentry
      obtain ⟨member, hm, hdescriptor⟩ := hentry
      rw [member_eq ho hm, pure_bind, hdescriptor]

theorem shapeOf_eq {type : MethodType} (h : type.WellFormed)
    (hparen : ')' ∉ type.resultText) :
    shapeOf type.descriptor =
      pure ⟨type.parameters.map JavaType.isReference,
        MethodShape.resultSignature type⟩ := by
  rw [shapeOf, MethodShape.ofDescriptor_spelled h hparen]

end Instruction

/-- The result of a called method holds no `)`, because a descriptor spells only
one result. -/
theorem Machine.CalleeOf.no_paren {pool : ConstantPool} (hpool : pool.WellFormed)
    {i : Instruction} {invocation : Invocation} {type : MethodType}
    (h : CalleeOf pool i invocation type) : ')' ∉ type.resultText := by
  obtain ⟨hwell, index, _, hentry⟩ := h
  split at hentry
  · obtain ⟨spelled, hspelled, hparen, hdescriptor⟩ :=
      hpool.invokeDynamic _ _ hentry
    rw [(MethodType.shape_of_descriptor hwell hspelled hdescriptor).2]
    exact hparen
  · obtain ⟨member, hm, hdescriptor⟩ := hentry
    rcases hpool.member _ _ hm with ⟨field, _, hfield⟩ |
      ⟨spelled, hspelled, hparen, hmethod⟩
    · rw [hdescriptor] at hfield
      exact absurd hfield (type.descriptor_ne_signature field)
    · rw [hdescriptor] at hmethod
      rw [(MethodType.shape_of_descriptor hwell hspelled hmethod).2]
      exact hparen

/-! ## Values that come from elsewhere -/

theorem ofSignature?_signatureOfName (name : String) :
    Kind.ofSignature? (signatureOfName name) = some .reference := by
  rw [signatureOfName]
  split
  · next h => rw [Kind.ofSignature?, h]; rfl
  · simp [Kind.ofSignature?, Kind.ofLead?]

theorem ofSignature?_array (element : String) :
    Kind.ofSignature? ("[" ++ element) = some .reference := by
  rw [Kind.ofSignature?, String.toList_append]
  rfl

theorem Component.ofSignature?_signature (component : Component) :
    Kind.ofSignature? component.signature = some component.toKind := by
  cases component <;> rfl

theorem ofSignature?_arrayOfTypeCode {code : UInt8} {signature : String}
    (h : arrayOfTypeCode? code = some signature) :
    Kind.ofSignature? signature = some .reference := by
  unfold arrayOfTypeCode? at h
  split at h <;> cases h <;> rfl

theorem localValue_kind (locals : LocalVariables) (kind : Kind) (slot : UInt16)
    (offset : Nat) :
    (Instruction.localValue locals kind slot offset).kind? = some kind := by
  show Kind.ofSignature? (Option.getD _ kind.signature) = some kind
  cases hdeclared : (locals.signatureAt? slot offset).filter fun signature =>
      Kind.ofSignature? signature == some kind with
  | none => exact Kind.ofSignature?_signature kind
  | some signature =>
      have hkind := (Option.filter_eq_some_iff.1 hdeclared).2
      exact eq_of_beq hkind

theorem localValue_describes {locals : LocalVariables} {kind : Kind}
    {slot : UInt16} {offset : Nat} {v : Value} (hv : v.kind? = some kind) :
    (Instruction.localValue locals kind slot offset).Describes v :=
  StackValue.describes_typed (localValue_kind locals kind slot offset) hv

theorem componentValue_typed (component : Component) (array : StackValue) :
    ∃ signature, Instruction.componentValue component array = .typed signature ∧
      Kind.ofSignature? signature = some component.toKind := by
  unfold Instruction.componentValue
  split
  · dsimp only
    split
    · next helement => exact ⟨_, rfl, helement⟩
    · exact ⟨_, rfl, component.ofSignature?_signature⟩
  · exact ⟨_, rfl, component.ofSignature?_signature⟩

theorem componentValue_describes {component : Component} {array : StackValue}
    {v : Value} (hv : v.kind? = some component.toKind) :
    (Instruction.componentValue component array).Describes v := by
  obtain ⟨signature, htyped, hsig⟩ := componentValue_typed component array
  rw [htyped]
  exact StackValue.describes_typed hsig hv

theorem loadedValue_describes {loadable : Loadable} {v : Value}
    (h : Loads loadable v) : (Instruction.loadedValue loadable).Describes v := by
  cases h with
  | constant constant => exact StackValue.describes_ofConstant constant
  | classObject _ _ | methodType _ | methodHandle _ =>
      refine StackValue.describes_typed
        (?_ : Kind.ofSignature? _ = some .reference) rfl
      decide
  | @dynamic type v hfield hkind =>
      obtain ⟨kind, hsome⟩ := hfield.kind?_isSome
      rw [hsome] at hkind
      refine StackValue.describes_typed ?_ hkind
      rw [type.ofSignature?_signature, hsome]

/-! ## Each family of instructions -/

section Families

variable {pool : ConstantPool} {locals : LocalVariables} {i : Instruction}
  {rest : List Value}

theorem tracks_idle (h : i.opcode ∈ [.nop, .iinc, .goto, .gotoW, .ret]) :
    Tracks (i.effect pool locals) rest fun _ stack => stack = rest := by
  simp only [List.mem_cons, List.not_mem_nil, or_false] at h
  rcases h with h | h | h | h | h <;> simp only [Instruction.effect, h] <;>
    exact Tracks.pure rfl

theorem tracks_literal {value : Int32} (h : i.opcode ∈ [.bipush, .sipush])
    (ho : i.operands = .literal value) :
    Tracks (i.effect pool locals) rest
      fun _ stack => stack = .int value :: rest := by
  simp only [List.mem_cons, List.not_mem_nil, or_false] at h
  rcases h with h | h <;> simp only [Instruction.effect, h, ho] <;>
    exact Tracks.push (StackValue.describes_ofConstant (.int value))

theorem tracks_ldc {index : UInt16} {loadable : Loadable} {v : Value}
    (h : i.opcode ∈ [.ldc, .ldcW, .ldc2W]) (ho : i.operands = .pool index)
    (hentry : pool.loadable? index = some loadable) (hv : Loads loadable v) :
    Tracks (i.effect pool locals) rest fun _ stack => stack = v :: rest := by
  simp only [List.mem_cons, List.not_mem_nil, or_false] at h
  rcases h with h | h | h <;>
    simp only [Instruction.effect, h, Instruction.poolIndex_eq ho, pure_bind,
      hentry] <;>
    exact Tracks.push (loadedValue_describes hv)

theorem tracks_load {kind : Kind} {v : Value}
    (h : i.opcode = .load kind ∨ ∃ slot, i.opcode = .loadFrom kind slot)
    (hv : v.kind? = some kind) :
    Tracks (i.effect pool locals) rest fun _ stack => stack = v :: rest := by
  rcases h with h | ⟨slot, h⟩
  · simp only [Instruction.effect, h]
    split
    · exact Tracks.push (localValue_describes hv)
    · exact Tracks.throw _
  · simp only [Instruction.effect, h]
    exact Tracks.push (localValue_describes hv)

theorem tracks_store {kind : Kind} {v : Value}
    (h : i.opcode = .store kind ∨ ∃ slot, i.opcode = .storeTo kind slot) :
    Tracks (i.effect pool locals) (v :: rest) fun _ stack => stack = rest := by
  rcases h with h | ⟨slot, h⟩ <;> simp only [Instruction.effect, h] <;>
    exact Tracks.popKind_bind fun _ _ => Tracks.pure rfl

theorem tracks_pop2 {vs : List Value} (h : i.opcode = .pop2) (hvs : Pair vs) :
    Tracks (i.effect pool locals) (vs ++ rest)
      fun _ stack => stack = rest := by
  simp only [Instruction.effect, h]
  exact Tracks.pairAt_bind [] hvs Tracks.drop

theorem tracks_dupX2 {v : Value} {ws : List Value} (h : i.opcode = .dupX2)
    (hws : Pair ws) :
    Tracks (i.effect pool locals) ([v] ++ ws ++ rest)
      fun _ stack => stack = [v] ++ ws ++ [v] ++ rest := by
  simp only [Instruction.effect, h]
  rw [List.append_assoc [v] ws rest]
  refine Tracks.pairAt_bind [v] hws ?_
  rw [← List.append_assoc]
  exact Tracks.duplicate [v] ws

theorem tracks_dup2 {vs : List Value} (h : i.opcode = .dup2) (hvs : Pair vs) :
    Tracks (i.effect pool locals) (vs ++ rest)
      fun _ stack => stack = vs ++ vs ++ rest := by
  simp only [Instruction.effect, h]
  refine Tracks.pairAt_bind [] hvs ?_
  have hduplicate : Tracks _ (vs ++ [] ++ rest) _ := Tracks.duplicate vs []
  rwa [List.append_nil] at hduplicate

theorem tracks_dup2X1 {vs : List Value} {w : Value} (h : i.opcode = .dup2X1)
    (hvs : Pair vs) :
    Tracks (i.effect pool locals) (vs ++ [w] ++ rest)
      fun _ stack => stack = vs ++ [w] ++ vs ++ rest := by
  simp only [Instruction.effect, h]
  rw [List.append_assoc vs [w] rest]
  refine Tracks.pairAt_bind [] hvs ?_
  rw [List.nil_append, ← List.append_assoc]
  exact Tracks.duplicate vs [w]

theorem tracks_dup2X2 {vs ws : List Value} (h : i.opcode = .dup2X2)
    (hvs : Pair vs) (hws : Pair ws) :
    Tracks (i.effect pool locals) (vs ++ ws ++ rest)
      fun _ stack => stack = vs ++ ws ++ vs ++ rest := by
  simp only [Instruction.effect, h]
  rw [List.append_assoc vs ws rest]
  refine Tracks.pairAt_bind [] hvs ?_
  refine Tracks.pairAt_bind vs hws ?_
  rw [← List.append_assoc]
  exact Tracks.duplicate vs ws

theorem tracks_arithmetic {op : ArithmeticOp} {kind : NumericKind} {l r v : Value}
    (h : i.opcode = .arithmetic op kind) (hl : l.kind? = some kind.toKind)
    (hv : arithmetic op l r = some v) :
    Tracks (i.effect pool locals) (r :: l :: rest)
      fun _ stack => stack = v :: rest := by
  simp only [Instruction.effect, h]
  refine Tracks.popKind_bind fun right hright => ?_
  refine Tracks.popKind_bind fun left hleft => ?_
  have hkind : v.kind? = some kind.toKind := by rw [arithmetic_kind hv, hl]
  exact Tracks.pushFolded (Kind.ofSignature?_signature _) hkind
    fun _ hfold => Folding.arithmetic_value hleft hright hv hfold

theorem tracks_negate {kind : NumericKind} {a v : Value}
    (h : i.opcode = .negate kind) (ha : a.kind? = some kind.toKind)
    (hv : negate a = some v) :
    Tracks (i.effect pool locals) (a :: rest)
      fun _ stack => stack = v :: rest := by
  simp only [Instruction.effect, h]
  refine Tracks.popKind_bind fun shown hshown => ?_
  have hkind : v.kind? = some kind.toKind := by rw [negate_kind hv, ha]
  exact Tracks.pushFolded (Kind.ofSignature?_signature _) hkind
    fun _ hfold => Folding.negate_value hshown hv hfold

theorem tracks_bitwise {op : BitwiseOp} {kind : IntegralKind} {l r v : Value}
    (h : i.opcode = .bitwise op kind) (hl : l.kind? = some kind.toKind)
    (hv : bitwise op l r = some v) :
    Tracks (i.effect pool locals) (r :: l :: rest)
      fun _ stack => stack = v :: rest := by
  simp only [Instruction.effect, h]
  refine Tracks.popKind_bind fun right hright => ?_
  refine Tracks.popKind_bind fun left hleft => ?_
  have hkind : v.kind? = some kind.toKind := by rw [bitwise_kind hv, hl]
  exact Tracks.pushFolded (Kind.ofSignature?_signature _) hkind
    fun _ hfold => Folding.bitwise_value hleft hright hv hfold

theorem tracks_convert {conversion : Conversion} {a v : Value}
    (h : i.opcode = .convert conversion) (hv : convert conversion a = some v) :
    Tracks (i.effect pool locals) (a :: rest)
      fun _ stack => stack = v :: rest := by
  simp only [Instruction.effect, h]
  refine Tracks.popKind_bind fun shown hshown => ?_
  obtain ⟨kind, hsig, hkind⟩ := convert_kind hv
  exact Tracks.pushFolded hsig hkind
    fun _ hfold => Folding.convert_value hshown hv hfold

theorem tracks_compare {comparison : Comparison} {l r v : Value}
    (h : i.opcode = .compare comparison) (hv : compare comparison l r = some v) :
    Tracks (i.effect pool locals) (r :: l :: rest)
      fun _ stack => stack = v :: rest := by
  simp only [Instruction.effect, h]
  refine Tracks.popKind_bind fun right hright => ?_
  refine Tracks.popKind_bind fun left hleft => ?_
  exact Tracks.pushFolded (Kind.ofSignature?_signature .int) (compare_kind hv)
    fun _ hfold => Folding.compare_value hleft hright hv hfold

theorem tracks_testInt {n : Int32}
    (h : (∃ condition, i.opcode = .ifZero condition) ∨
      i.opcode ∈ [.tableswitch, .lookupswitch]) :
    Tracks (i.effect pool locals) (.int n :: rest)
      fun _ stack => stack = rest := by
  simp only [List.mem_cons, List.not_mem_nil, or_false] at h
  rcases h with ⟨_, h⟩ | h | h <;> simp only [Instruction.effect, h] <;>
    exact Tracks.popKind_bind fun _ _ => Tracks.pure rfl

theorem tracks_monitor {r : Reference}
    (h : i.opcode ∈ [.monitorenter, .monitorexit]) :
    Tracks (i.effect pool locals) (.reference r :: rest)
      fun _ stack => stack = rest := by
  simp only [List.mem_cons, List.not_mem_nil, or_false] at h
  rcases h with h | h <;> simp only [Instruction.effect, h] <;>
    exact Tracks.popKind_bind fun _ _ => Tracks.pure rfl

theorem Machine.FieldOf.describes {type : JavaType} {v : Value}
    (hfield : FieldOf pool i type) (hv : v.kind? = type.kind?) :
    (StackValue.typed type.signature).Describes v := by
  obtain ⟨kind, hkind⟩ := hfield.1.kind?_isSome
  rw [hkind] at hv
  refine StackValue.describes_typed ?_ hv
  rw [type.ofSignature?_signature, hkind]

theorem tracks_getstatic {type : JavaType} {v : Value} (h : i.opcode = .getstatic)
    (hfield : FieldOf pool i type) (hv : v.kind? = type.kind?) :
    Tracks (i.effect pool locals) rest fun _ stack => stack = v :: rest := by
  have hshown := hfield.describes hv
  obtain ⟨_, index, member, ho, hm, hdescriptor⟩ := hfield
  simp only [Instruction.effect, h, Instruction.member_eq ho hm, pure_bind,
    hdescriptor]
  exact Tracks.push hshown

theorem tracks_getfield {type : JavaType} {r : Reference} {v : Value}
    (h : i.opcode = .getfield) (hfield : FieldOf pool i type)
    (hv : v.kind? = type.kind?) :
    Tracks (i.effect pool locals) (.reference r :: rest)
      fun _ stack => stack = v :: rest := by
  have hshown := hfield.describes hv
  obtain ⟨_, index, member, ho, hm, hdescriptor⟩ := hfield
  simp only [Instruction.effect, h, Instruction.member_eq ho hm, pure_bind,
    hdescriptor]
  exact Tracks.popKind_bind fun _ _ => Tracks.push hshown

theorem tracks_putstatic {type : JavaType} {v : Value} (h : i.opcode = .putstatic)
    (hfield : FieldOf pool i type) :
    Tracks (i.effect pool locals) (v :: rest) fun _ stack => stack = rest := by
  obtain ⟨hfield, index, member, ho, hm, hdescriptor⟩ := hfield
  obtain ⟨kind, hkind⟩ := hfield.kind?_isSome
  simp only [Instruction.effect, h, Instruction.member_eq ho hm, pure_bind,
    hdescriptor, Instruction.fieldKind_eq hkind]
  exact Tracks.popKind_bind fun _ _ => Tracks.pure rfl

theorem tracks_putfield {type : JavaType} {r : Reference} {v : Value}
    (h : i.opcode = .putfield) (hfield : FieldOf pool i type) :
    Tracks (i.effect pool locals) (v :: .reference r :: rest)
      fun _ stack => stack = rest := by
  obtain ⟨hfield, index, member, ho, hm, hdescriptor⟩ := hfield
  obtain ⟨kind, hkind⟩ := hfield.kind?_isSome
  simp only [Instruction.effect, h, Instruction.member_eq ho hm, pure_bind,
    hdescriptor, Instruction.fieldKind_eq hkind]
  exact Tracks.popKind_bind fun _ _ =>
    Tracks.popKind_bind fun _ _ => Tracks.pure rfl

/-- What a call takes off the stack is as long as the reader of its descriptor
says. -/
theorem length_consumed {invocation : Invocation} {type : MethodType}
    {r : Reference} {arguments : List Value}
    (harguments :
      arguments.map Value.kind? = type.parameters.map JavaType.kind?) :
    (arguments.reverse ++ receivers invocation r).length =
      (type.parameters.map JavaType.isReference).length +
        if invocation.hasReceiver then 1 else 0 := by
  have hlength := congrArg List.length harguments
  rw [List.length_map, List.length_map] at hlength
  rw [List.length_append, List.length_reverse, List.length_map, hlength,
    receivers]
  split <;> rfl

theorem tracks_invoke (hpool : pool.WellFormed) {invocation : Invocation}
    {type : MethodType} {r : Reference} {arguments results : List Value}
    (h : i.opcode = .invoke invocation)
    (hcallee : CalleeOf pool i invocation type)
    (harguments : arguments.map Value.kind? = type.parameters.map JavaType.kind?)
    (hresults :
      results.map Value.kind? = type.result.toList.map JavaType.kind?) :
    Tracks (i.effect pool locals)
      (arguments.reverse ++ receivers invocation r ++ rest)
      fun _ stack => stack = results ++ rest := by
  have hshape := Instruction.shapeOf_eq hcallee.1 (hcallee.no_paren hpool)
  simp only [Instruction.effect, h, Instruction.invokedDescriptor_eq hcallee,
    pure_bind, hshape, MethodShape.arity]
  rw [← length_consumed harguments (r := r)]
  refine Tracks.drop.bind fun _ stack hstack => ?_
  subst hstack
  rw [MethodShape.resultSignature]
  cases hresult : type.result with
  | none =>
      rw [hresult] at hresults
      rw [List.map_eq_nil_iff.1 hresults]
      exact Tracks.pure rfl
  | some result =>
      rw [hresult] at hresults
      obtain ⟨v, rfl, hv⟩ := List.map_eq_singleton_iff.1 hresults
      obtain ⟨kind, hkind⟩ := (hcallee.1.2 result hresult).kind?_isSome
      rw [hkind] at hv
      refine Tracks.push (StackValue.describes_typed ?_ hv)
      rw [result.ofSignature?_signature, hkind]

theorem tracks_newarray {code : UInt8} {n : Int32} {r : Reference}
    (h : i.opcode = .newarray) (ho : i.operands = .elementType code) :
    Tracks (i.effect pool locals) (.int n :: rest)
      fun _ stack => stack = .reference r :: rest := by
  simp only [Instruction.effect, h, ho]
  split
  · next signature hcode =>
      exact Tracks.popKind_bind fun _ _ => Tracks.push
        (StackValue.describes_typed (ofSignature?_arrayOfTypeCode hcode) rfl)
  · exact Tracks.throw _

theorem tracks_new {r : Reference} (h : i.opcode = .new)
    (hclass : NamesClass pool i) :
    Tracks (i.effect pool locals) rest
      fun _ stack => stack = .reference r :: rest := by
  obtain ⟨index, name, ho, hname⟩ := hclass
  simp only [Instruction.effect, h, Instruction.className_eq ho hname, pure_bind]
  exact Tracks.push
    (StackValue.describes_typed (ofSignature?_signatureOfName name) rfl)

theorem tracks_anewarray {n : Int32} {r : Reference} (h : i.opcode = .anewarray)
    (hclass : NamesClass pool i) :
    Tracks (i.effect pool locals) (.int n :: rest)
      fun _ stack => stack = .reference r :: rest := by
  obtain ⟨index, name, ho, hname⟩ := hclass
  simp only [Instruction.effect, h, Instruction.className_eq ho hname, pure_bind]
  exact Tracks.popKind_bind fun _ _ => Tracks.push
    (StackValue.describes_typed (ofSignature?_array (signatureOfName name)) rfl)

/-- The subroutine calls and the creation of arrays of arrays are not
supported, so nothing is shown after them. -/
theorem tracks_unsupported {stack : List Value}
    {post : Unit → List Value → Prop}
    (h : i.opcode ∈ [.jsr, .jsrW, .multianewarray]) :
    Tracks (i.effect pool locals) stack post := by
  simp only [List.mem_cons, List.not_mem_nil, or_false] at h
  rcases h with h | h | h <;> simp only [Instruction.effect, h] <;>
    exact Tracks.throw _

end Families

/-- If an instruction completes, its effect keeps the values shown on top of the
concrete ones. -/
theorem effect_tracks {pool : ConstantPool} (hpool : pool.WellFormed)
    (locals : LocalVariables) {i : Instruction} {operands results : List Value}
    (hy : Yields pool i operands results) (rest : List Value) :
    Tracks (i.effect pool locals) (operands ++ rest)
      fun _ stack => stack = results ++ rest := by
  cases hy with
  | idle h => exact tracks_idle h
  | null h =>
      simp only [Instruction.effect, h]
      exact Tracks.push StackValue.describes_null
  | iconst h | lconst h | fconst h | dconst h =>
      simp only [Instruction.effect, h]
      exact Tracks.push (StackValue.describes_ofConstant _)
  | literal h ho => exact tracks_literal h ho
  | ldc h ho hentry hv _ => exact tracks_ldc h ho hentry hv
  | load h hv => exact tracks_load h hv
  | arrayLoad h _ hv =>
      simp only [Instruction.effect, h]
      exact Tracks.popKind_bind fun _ _ => Tracks.popKind_bind fun _ _ =>
        Tracks.push (componentValue_describes hv)
  | store h _ => exact tracks_store h
  | arrayStore h _ _ =>
      simp only [Instruction.effect, h]
      exact Tracks.popKind_bind fun _ _ => Tracks.popKind_bind fun _ _ =>
        Tracks.popKind_bind fun _ _ => Tracks.pure rfl
  | pop h _ =>
      simp only [Instruction.effect, h]
      exact Tracks.pop.bind fun _ _ hpop => Tracks.pure hpop.2
  | pop2 h hvs => exact tracks_pop2 h hvs
  | @dup v h _ =>
      simp only [Instruction.effect, h]
      exact Tracks.duplicate [v] []
  | @dupX1 v w h _ _ =>
      simp only [Instruction.effect, h]
      exact Tracks.duplicate [v] [w]
  | dupX2 h _ hws => exact tracks_dupX2 h hws
  | dup2 h hvs => exact tracks_dup2 h hvs
  | dup2X1 h hvs _ => exact tracks_dup2X1 h hvs
  | dup2X2 h hvs hws => exact tracks_dup2X2 h hvs hws
  | swap h _ _ =>
      simp only [Instruction.effect, h]
      exact Tracks.exchange
  | arithmetic h hl hv => exact tracks_arithmetic h hl hv
  | negate h ha hv => exact tracks_negate h ha hv
  | bitwise h hl hv => exact tracks_bitwise h hl hv
  | convert h hv => exact tracks_convert h hv
  | compare h hv => exact tracks_compare h hv
  | testInt h => exact tracks_testInt h
  | compareInts h | compareReferences h =>
      simp only [Instruction.effect, h]
      exact Tracks.popKind_bind fun _ _ =>
        Tracks.popKind_bind fun _ _ => Tracks.pure rfl
  | testReference h =>
      simp only [Instruction.effect, h]
      exact Tracks.popKind_bind fun _ _ => Tracks.pure rfl
  | monitor h _ => exact tracks_monitor h
  | getstatic h hfield hv => exact tracks_getstatic h hfield hv
  | putstatic h hfield _ => exact tracks_putstatic h hfield
  | getfield h hfield _ hv => exact tracks_getfield h hfield hv
  | putfield h hfield _ _ => exact tracks_putfield h hfield
  | invoke h hcallee _ harguments hresults =>
      exact tracks_invoke hpool h hcallee harguments hresults
  | new h hclass => exact tracks_new h hclass
  | newarray h ho _ => exact tracks_newarray h ho
  | anewarray h hclass => exact tracks_anewarray h hclass
  | multianewarray h _ _ _ _ => exact tracks_unsupported (by simp [h])
  | arraylength h _ | instanceof h _ _ =>
      simp only [Instruction.effect, h]
      exact Tracks.popKind_bind fun _ _ => Tracks.push
        (StackValue.describes_typed (Kind.ofSignature?_signature .int) rfl)
  | checkcast h _ =>
      simp only [Instruction.effect, h]
      exact Tracks.pure rfl
  | call h =>
      simp only [List.mem_cons, List.not_mem_nil, or_false] at h
      exact tracks_unsupported (by rcases h with h | h <;> simp [h])

end ClassAudit
