import ClassAudit.Proofs.ParallelRuns
import ClassAudit.Proofs.TypedExecution
import ClassAudit.Proofs.WordLaws
import ClassAudit.Rules.DivideByZero

/-!
# Folded integers are those of the manual

Where all operands of an integer instruction are known, the value that it pushes
carries the result. It is what the manual asks for, in terms of the integers that
the operands are (`Opcode.IntegerLaw`); and if one operand is not known or a
divisor is zero, nothing is known of the result but its kind.

A constant always has a signature that fits it. Values are made so, and no
instruction changes that (`OperandStack.run_wellFormed`). So a value of kind `int`
carries an `int` or nothing, and its integer is all that folding can look at. Each
family of instructions then folds to the exact result, put into a word
(`effect_folds`), and that is the one number which the law allows
(`integerLaw_iff`).
-/

namespace ClassAudit

/-! ## Constants and operands -/

namespace IntegralKind

def numeric : IntegralKind → NumericKind
  | int => .int
  | long => .long

/-- How many bits a word of this kind has. -/
def width : IntegralKind → Nat
  | int => 32
  | long => 64

/-- The word that an exact result becomes. -/
def constant : IntegralKind → Int → Constant
  | int, n => .int (.ofInt n)
  | long, n => .long (.ofInt n)

theorem width_pos (kind : IntegralKind) : 0 < kind.width := by
  cases kind <;> decide

theorem toKind_numeric (kind : IntegralKind) : kind.numeric.toKind = kind.toKind := by
  cases kind <;> rfl

theorem fits_constant (kind : IntegralKind) (n : Int) :
    (kind.constant n).fits kind.toKind.signature = true := by
  cases kind <;> rfl

end IntegralKind

/-- The integer that a constant is, if it is one. -/
def Constant.integer? : Constant → Option Int
  | int value => some value.toInt
  | long value => some value.toInt
  | _ => none

theorem Constant.integer?_constant (kind : IntegralKind) (n : Int) :
    (kind.constant n).integer? = some (n.bmod (Nat.pow 2 kind.width)) := by
  cases kind with
  | int => exact congrArg some Int32.toInt_ofInt
  | long => exact congrArg some Int64.toInt_ofInt

theorem Constant.kind_of_fits {constant : Constant} {signature : String}
    (h : constant.fits signature = true) :
    Kind.ofSignature? signature = constant.value.kind? := by
  have hself : Kind.ofSignature? constant.signature = constant.value.kind? :=
    StackValue.kind?_ofConstant constant
  cases constant with
  | int value =>
      have hnarrow : ∀ narrow ∈ ["I", "B", "C", "S", "Z"],
          Kind.ofSignature? narrow = some .int := by decide
      exact hnarrow signature (List.contains_iff_mem.1 h)
  | long _ | float _ | double _ | string _ =>
      rw [← hself, eq_of_beq h]

namespace StackValue

/-- A constant has a signature that fits it. -/
def WellFormed (value : StackValue) : Prop :=
  ∀ constant, value.constant? = some constant → constant.fits value.signature = true

/-- The integer that a value is known to be. -/
def integer? (value : StackValue) : Option Int :=
  value.constant?.bind Constant.integer?

theorem wellFormed_typed (signature : String) : (typed signature).WellFormed := by
  intro constant h
  cases h

theorem wellFormed_ofConstant (constant : Constant) :
    (ofConstant constant).WellFormed := by
  intro other h
  cases h
  cases constant with
  | int _ => rfl
  | long _ | float _ | double _ | string _ => exact beq_self_eq_true _

theorem wellFormed_ofFolded (signature : String) (folded : Option Constant) :
    (ofFolded signature folded).WellFormed := by
  cases folded with
  | none => exact wellFormed_typed signature
  | some constant =>
      rw [ofFolded, Option.bind_some, withConstant?]
      split
      · next hfits =>
          intro other h
          cases h
          exact hfits
      · exact wellFormed_typed signature

theorem kind?_ofFolded (signature : String) (folded : Option Constant) :
    (ofFolded signature folded).kind? = Kind.ofSignature? signature := by
  cases folded with
  | none => rfl
  | some constant =>
      rw [ofFolded, Option.bind_some, withConstant?]
      split <;> rfl

theorem constant?_ofFolded {signature : String} {kind : IntegralKind}
    (hfits : ∀ n, (kind.constant n).fits signature = true) (exact : Option Int) :
    (ofFolded signature (exact.map kind.constant)).constant? =
      exact.map kind.constant := by
  cases exact with
  | none => rfl
  | some n =>
      rw [Option.map_some, ofFolded, Option.bind_some, withConstant?, if_pos (hfits n)]
      rfl

end StackValue

theorem likeness_wellFormed : Likeness fun v w => v.WellFormed ∧ v = w :=
  likeness_of_pushed StackValue.wellFormed_typed StackValue.wellFormed_ofConstant nofun
    (fun _ _ => StackValue.wellFormed_ofFolded _ _)
    fun _ _ => StackValue.wellFormed_ofFolded _ _

namespace OperandStack

theorem step_wellFormed {stack : OperandStack} (i : Instruction)
    (pool : ConstantPool) (locals : LocalVariables)
    (h : ∀ value ∈ stack.values, value.WellFormed) :
    ∀ value ∈ (stack.step i pool locals).1.values, value.WellFormed :=
  step_keeps likeness_wellFormed i pool locals h

/-- Whatever is run, every value it shows has a signature that fits its constant. -/
theorem run_wellFormed {stack : OperandStack} (code : List Instruction)
    (pool : ConstantPool) (locals : LocalVariables)
    (h : ∀ value ∈ stack.values, value.WellFormed) :
    ∀ value ∈ (stack.run code pool locals).values, value.WellFormed := by
  induction code generalizing stack with
  | nil => exact h
  | cons i code ih => exact ih (step_wellFormed i pool locals h)

end OperandStack

/-- A value that an integer instruction can take as an operand of this kind. -/
structure IsOperand (kind : IntegralKind) (value : StackValue) : Prop where
  kind : value.kind? = some kind.toKind
  formed : value.WellFormed

namespace IsOperand

variable {v : StackValue}

theorem constant_kind {kind : IntegralKind} (h : IsOperand kind v)
    {constant : Constant} (hc : v.constant? = some constant) :
    constant.value.kind? = some kind.toKind := by
  rw [← Constant.kind_of_fits (h.formed constant hc)]
  exact h.kind

theorem int (h : IsOperand .int v) : v.constant? = v.int?.map .int := by
  cases hc : v.constant? with
  | none => rw [StackValue.int?, hc]; rfl
  | some constant =>
      have hkind := h.constant_kind hc
      cases constant with
      | int value => rw [StackValue.int?, hc]; rfl
      | long _ | float _ | double _ | string _ => cases hkind

theorem long (h : IsOperand .long v) : v.constant? = v.long?.map .long := by
  cases hc : v.constant? with
  | none => rw [StackValue.long?, hc]; rfl
  | some constant =>
      have hkind := h.constant_kind hc
      cases constant with
      | long value => rw [StackValue.long?, hc]; rfl
      | int _ | float _ | double _ | string _ => cases hkind

theorem ofFolded {kind : IntegralKind} {signature : String}
    (h : Kind.ofSignature? signature = some kind.toKind) (folded : Option Constant) :
    IsOperand kind (.ofFolded signature folded) :=
  ⟨(StackValue.kind?_ofFolded signature folded).trans h,
    StackValue.wellFormed_ofFolded signature folded⟩

theorem integer?_int (h : IsOperand .int v) : v.integer? = v.int?.map Int32.toInt := by
  rw [StackValue.integer?, h.int]
  cases v.int? <;> rfl

theorem integer?_long (h : IsOperand .long v) :
    v.integer? = v.long?.map Int64.toInt := by
  rw [StackValue.integer?, h.long]
  cases v.long? <;> rfl

theorem inRange {kind : IntegralKind} {n : Int}
    (h : IsOperand kind v) (hn : v.integer? = some n) :
    Exact.InRange kind.width n := by
  cases kind with
  | int =>
      rw [h.integer?_int] at hn
      obtain ⟨x, _, rfl⟩ := Option.map_eq_some_iff.1 hn
      exact ⟨x.le_toInt, x.toInt_lt⟩
  | long =>
      rw [h.integer?_long] at hn
      obtain ⟨x, _, rfl⟩ := Option.map_eq_some_iff.1 hn
      exact ⟨x.le_toInt, x.toInt_lt⟩

end IsOperand

/-! ## Each family of instructions -/

/-- The kinds that a conversion between integers takes and leaves. -/
def Conversion.integral? : Conversion → Option (IntegralKind × IntegralKind)
  | i2l => some (.int, .long)
  | l2i => some (.long, .int)
  | i2b | i2c | i2s => some (.int, .int)
  | _ => none

/-- What is left of an integer before it is put into a word. -/
def Conversion.narrowed : Conversion → Int → Int
  | i2b, a => a.bmod 256
  | i2s, a => a.bmod 65536
  | i2c, a => a % 65536
  | _, a => a

theorem Conversion.kinds_of_integral? {conversion : Conversion}
    {source target : IntegralKind}
    (h : conversion.integral? = some (source, target)) :
    conversion.source = source.toKind ∧
      Kind.ofSignature? conversion.signature = some target.toKind ∧
      ∀ n, (target.constant n).fits conversion.signature = true := by
  cases conversion with
  | i2l | l2i | i2b | i2c | i2s =>
      cases h
      exact ⟨rfl, by decide, fun n => rfl⟩
  | i2f | i2d | l2f | l2d | f2i | f2l | f2d | d2i | d2l | d2f => cases h

section Families

variable {kind : IntegralKind} {left right value : StackValue}

theorem arithmetic_folds (op : ArithmeticOp) (hleft : IsOperand kind left)
    (hright : IsOperand kind right) :
    Folding.arithmetic op kind.numeric left right =
      (left.integer?.bind fun a => right.integer?.bind fun b =>
        Exact.arithmetic op a b).map kind.constant := by
  cases kind with
  | int =>
      rw [hleft.integer?_int, hright.integer?_int]
      simp only [IntegralKind.numeric, Folding.arithmetic, Exact.folding_int]
      cases left.int? with
      | none => rfl
      | some a =>
          cases right.int? with
          | none => rfl
          | some b =>
              simp only [Option.bind_eq_bind, Option.bind_some, Option.map_some]
              cases Exact.arithmetic op a.toInt b.toInt <;> rfl
  | long =>
      rw [hleft.integer?_long, hright.integer?_long]
      simp only [IntegralKind.numeric, Folding.arithmetic, Exact.folding_long]
      cases left.long? with
      | none => rfl
      | some a =>
          cases right.long? with
          | none => rfl
          | some b =>
              simp only [Option.bind_eq_bind, Option.bind_some, Option.map_some]
              cases Exact.arithmetic op a.toInt b.toInt <;> rfl

theorem negate_folds (h : IsOperand kind value) :
    value.constant?.bind Folding.negate =
      (value.integer?.map fun a => -a).map kind.constant := by
  cases kind with
  | int =>
      rw [h.integer?_int, h.int]
      cases value.int? with
      | none => rfl
      | some a => simp [Folding.negate, IntegralKind.constant, Int32.ofInt_neg]
  | long =>
      rw [h.integer?_long, h.long]
      cases value.long? with
      | none => rfl
      | some a => simp [Folding.negate, IntegralKind.constant, Int64.ofInt_neg]

theorem bitwise_folds (op : BitwiseOp) (hleft : IsOperand kind left)
    (hright : IsOperand (if op.isShift then .int else kind) right) :
    Folding.bitwise op kind left right =
      (left.integer?.bind fun a => right.integer?.bind fun b =>
        some (Exact.bitwise kind.width op a b)).map kind.constant := by
  cases kind with
  | int =>
      rw [ite_self] at hright
      rw [hleft.integer?_int, hright.integer?_int]
      simp only [Folding.bitwise, Exact.folding_intBits]
      cases left.int? <;> cases right.int? <;>
        simp [IntegralKind.constant, IntegralKind.width]
  | long =>
      rw [hleft.integer?_long]
      simp only [Folding.bitwise, Exact.folding_longBits]
      by_cases hshift : op.isShift = true
      · rw [if_pos hshift] at hright
        rw [hright.integer?_int, if_pos hshift]
        cases left.long? <;> cases right.int? <;>
          simp [IntegralKind.constant, IntegralKind.width]
      · rw [if_neg hshift] at hright
        rw [hright.integer?_long, if_neg hshift]
        cases left.long? <;> cases right.long? <;>
          simp [IntegralKind.constant, IntegralKind.width]

theorem compare_folds (hleft : IsOperand .long left) (hright : IsOperand .long right) :
    Folding.compare .lcmp left right =
      (left.integer?.bind fun a => right.integer?.bind fun b =>
        some (a - b).sign).map IntegralKind.int.constant := by
  rw [hleft.integer?_long, hright.integer?_long]
  simp only [Folding.compare, Exact.signOf_long]
  cases left.long? <;> cases right.long? <;> simp [IntegralKind.constant]

theorem convert_int {conversion : Conversion} {target : IntegralKind}
    (hkinds : conversion.integral? = some (.int, target)) (a : Int32) :
    Folding.convert conversion (.int a) =
      some (target.constant (conversion.narrowed a.toInt)) := by
  cases conversion with
  | i2l =>
      cases hkinds
      simp [Folding.convert, Conversion.narrowed, IntegralKind.constant]
  | i2b =>
      cases hkinds
      exact congrArg (some ∘ Constant.int) (Exact.toInt8_toInt32 a)
  | i2c =>
      cases hkinds
      exact congrArg (some ∘ Constant.int) (Exact.toUInt16_toInt32 a)
  | i2s =>
      cases hkinds
      exact congrArg (some ∘ Constant.int) (Exact.toInt16_toInt32 a)
  | l2i | i2f | i2d | l2f | l2d | f2i | f2l | f2d | d2i | d2l | d2f => cases hkinds

theorem convert_long {conversion : Conversion} {target : IntegralKind}
    (hkinds : conversion.integral? = some (.long, target)) (a : Int64) :
    Folding.convert conversion (.long a) =
      some (target.constant (conversion.narrowed a.toInt)) := by
  cases conversion with
  | l2i =>
      cases hkinds
      simp [Folding.convert, Conversion.narrowed, IntegralKind.constant]
  | i2l | i2b | i2c | i2s | i2f | i2d | l2f | l2d | f2i | f2l | f2d | d2i | d2l
  | d2f => cases hkinds

theorem convert_folds {conversion : Conversion} {source target : IntegralKind}
    (hkinds : conversion.integral? = some (source, target))
    (h : IsOperand source value) :
    value.constant?.bind (Folding.convert conversion) =
      (value.integer?.map conversion.narrowed).map target.constant := by
  cases source with
  | int =>
      rw [h.integer?_int, h.int]
      cases value.int? with
      | none => rfl
      | some a => exact convert_int hkinds a
  | long =>
      rw [h.integer?_long, h.long]
      cases value.long? with
      | none => rfl
      | some a => exact convert_long hkinds a

end Families

/-! ## The instructions together -/

theorem forall₂_one {α β : Type} {R : α → β → Prop} {x : α} {ys : List β}
    (h : List.Forall₂ R [x] ys) : ∃ y, ys = [y] ∧ R x y := by
  obtain _ | ⟨hx, _ | _⟩ := h
  exact ⟨_, rfl, hx⟩

theorem forall₂_two {α β : Type} {R : α → β → Prop} {x x' : α} {ys : List β}
    (h : List.Forall₂ R [x, x'] ys) : ∃ y y', ys = [y, y'] ∧ R x y ∧ R x' y' := by
  obtain _ | ⟨hx, hrest⟩ := h
  obtain ⟨_, rfl, hx'⟩ := forall₂_one hrest
  exact ⟨_, _, rfl, hx, hx'⟩

/-- The integer instructions, with the kinds of their operands, the top first, and
of their result. -/
inductive IntegerRule : Opcode → List IntegralKind → IntegralKind → Prop
  | arithmetic (op : ArithmeticOp) (kind : IntegralKind) :
    IntegerRule (.arithmetic op kind.numeric) [kind, kind] kind
  | negate (kind : IntegralKind) : IntegerRule (.negate kind.numeric) [kind] kind
  | bitwise (op : BitwiseOp) (kind : IntegralKind) :
    IntegerRule (.bitwise op kind) [if op.isShift then .int else kind, kind] kind
  | convert {conversion : Conversion} {source target : IntegralKind}
    (h : conversion.integral? = some (source, target)) :
    IntegerRule (.convert conversion) [source] target
  | compare : IntegerRule (.compare .lcmp) [.long, .long] .int

namespace Opcode

/-- What an integer instruction has to leave, from operands with the top first. -/
def IntegerLaw : Opcode → List Int → Int → Prop
  | arithmetic op .int, [b, a], r => Exact.ArithmeticLaw 32 op a b r
  | arithmetic op .long, [b, a], r => Exact.ArithmeticLaw 64 op a b r
  | negate .int, [a], r => Exact.Reduces 32 (-a) r
  | negate .long, [a], r => Exact.Reduces 64 (-a) r
  | bitwise op .int, [b, a], r => Exact.BitwiseLaw 32 op a b r
  | bitwise op .long, [b, a], r => Exact.BitwiseLaw 64 op a b r
  | convert .i2l, [a], r => r = a
  | convert .l2i, [a], r => Exact.Reduces 32 a r
  | convert .i2b, [a], r => Exact.Reduces 8 a r
  | convert .i2s, [a], r => Exact.Reduces 16 a r
  | convert .i2c, [a], r => 0 ≤ r ∧ r < 65536 ∧ 65536 ∣ r - a
  | compare .lcmp, [b, a], r => r = (a - b).sign
  | _, _, _ => False

/-- The exact result, before it is put into a word. -/
def exactResult? : Opcode → List Int → Option Int
  | arithmetic op _, [b, a] => Exact.arithmetic op a b
  | negate _, [a] => some (-a)
  | bitwise op kind, [b, a] => some (Exact.bitwise kind.width op a b)
  | convert conversion, [a] => some (conversion.narrowed a)
  | compare _, [b, a] => some (a - b).sign
  | _, _ => none

end Opcode

theorem convertLaw_iff {conversion : Conversion} {source target : IntegralKind}
    {a r : Int} (hkinds : conversion.integral? = some (source, target))
    (ha : Exact.InRange source.width a) :
    (Opcode.convert conversion).IntegerLaw [a] r ↔
      (conversion.narrowed a).bmod (Nat.pow 2 target.width) = r := by
  -- What was narrowed is in range of the word, which then changes nothing.
  have hkeep {width : Nat} (hwidth : 0 < width) (hle : width ≤ 32) :
      Exact.Reduces width a r ↔
        (a.bmod (Nat.pow 2 width)).bmod (Nat.pow 2 32) = r := by
    have hin : Exact.InRange width (a.bmod (Nat.pow 2 width)) :=
      ((Exact.reduces_iff hwidth).2 rfl).1
    rw [Exact.bmod_of_inRange (by decide) (hin.mono hle)]
    exact Exact.reduces_iff hwidth
  cases conversion with
  | i2l =>
      cases hkinds
      simp only [Opcode.IntegerLaw, Conversion.narrowed]
      rw [Exact.bmod_of_inRange (by decide) (ha.mono (by decide))]
      exact eq_comm
  | l2i =>
      cases hkinds
      exact Exact.reduces_iff (by decide)
  | i2b =>
      cases hkinds
      exact hkeep (by decide) (by decide)
  | i2s =>
      cases hkinds
      exact hkeep (by decide) (by decide)
  | i2c =>
      cases hkinds
      have hin : Exact.InRange IntegralKind.int.width (a % 65536) := by
        have hhalf : Exact.half IntegralKind.int.width = 2147483648 := by decide
        exact ⟨by omega, by omega⟩
      simp only [Opcode.IntegerLaw, Conversion.narrowed]
      rw [Exact.bmod_of_inRange (by decide) hin]
      omega
  | i2f | i2d | l2f | l2d | f2i | f2l | f2d | d2i | d2l | d2f => cases hkinds

/-- The law has one result, and it is the exact one put into a word. -/
theorem integerLaw_iff {opcode : Opcode} {operands : List IntegralKind}
    {result : IntegralKind} {numbers : List Int} {r : Int}
    (hrule : IntegerRule opcode operands result)
    (hrange :
      List.Forall₂ (fun kind n => Exact.InRange kind.width n) operands numbers) :
    opcode.IntegerLaw numbers r ↔
      (opcode.exactResult? numbers).map (·.bmod (Nat.pow 2 result.width)) =
        some r := by
  cases hrule with
  | arithmetic op =>
      obtain ⟨b, a, rfl, hb, ha⟩ := forall₂_two hrange
      have hlaw := Exact.arithmeticLaw_iff (r := r) result.width_pos op ha hb
      cases result <;> exact hlaw
  | negate =>
      obtain ⟨a, rfl, ha⟩ := forall₂_one hrange
      rw [Opcode.exactResult?, Option.map_some, Option.some.injEq,
        ← Exact.reduces_iff result.width_pos]
      cases result <;> rfl
  | bitwise op =>
      obtain ⟨b, a, rfl, hb, ha⟩ := forall₂_two hrange
      rw [Opcode.exactResult?, Option.map_some, Option.some.injEq,
        ← Exact.bitwiseLaw_iff result.width_pos op ha]
      cases result <;> rfl
  | convert hkinds =>
      obtain ⟨a, rfl, ha⟩ := forall₂_one hrange
      rw [Opcode.exactResult?, Option.map_some, Option.some.injEq]
      exact convertLaw_iff hkinds ha
  | compare =>
      obtain ⟨b, a, rfl, _, _⟩ := forall₂_two hrange
      have hin : Exact.InRange IntegralKind.int.width (a - b).sign := by
        have hhalf : Exact.half IntegralKind.int.width = 2147483648 := by decide
        have hsign := Int.sign_trichotomy (a - b)
        exact ⟨by omega, by omega⟩
      rw [Opcode.exactResult?, Option.map_some, Option.some.injEq, Opcode.IntegerLaw,
        Exact.bmod_of_inRange (by decide) hin]
      exact eq_comm

/-- Only a division by zero has no result. -/
theorem exactResult?_isSome {opcode : Opcode} {operands : List IntegralKind}
    {result : IntegralKind} {numbers : List Int}
    (hrule : IntegerRule opcode operands result)
    (hlength : operands.length = numbers.length) :
    (opcode.exactResult? numbers).isSome ↔
      ¬ (DivideByZero.divides opcode = true ∧ numbers.head? = some 0) := by
  cases hrule with
  | arithmetic op =>
      obtain ⟨b, a, rfl⟩ := List.length_eq_two.1 hlength.symm
      rw [Opcode.exactResult?, List.head?_cons, Option.some.injEq]
      cases op with
      | add | sub | mul =>
          cases result <;> simp [Exact.arithmetic, DivideByZero.divides]
      | div | rem =>
          have hdivides (op : ArithmeticOp) (hop : op = .div ∨ op = .rem) :
              DivideByZero.divides (.arithmetic op result.numeric) = true := by
            obtain rfl | rfl := hop <;> cases result <;> rfl
          rw [hdivides _ (by simp)]
          by_cases hzero : b = 0 <;> simp [Exact.arithmetic, hzero]
  | negate | convert _ =>
      obtain ⟨a, rfl⟩ := List.length_eq_one_iff.1 hlength.symm
      simp [Opcode.exactResult?, DivideByZero.divides]
  | bitwise _ | compare =>
      obtain ⟨b, a, rfl⟩ := List.length_eq_two.1 hlength.symm
      simp [Opcode.exactResult?, DivideByZero.divides]

/-- A folded constant is the exact result put into a word where every operand is
known, and there is none where one is not. -/
structure FoldsTo (values : List StackValue) (result : IntegralKind)
    (exactResult? : List Int → Option Int) (folded : Option Constant) : Prop where
  known {numbers : List Int}
    (h : values.map StackValue.integer? = numbers.map some) :
    folded = (exactResult? numbers).map result.constant
  unknown (h : none ∈ values.map StackValue.integer?) : folded = none

namespace FoldsTo

variable {left right value : StackValue} {result : IntegralKind}

theorem binary {f : Int → Int → Option Int} {exactResult? : List Int → Option Int}
    (hexact : ∀ a b, exactResult? [b, a] = f a b) :
    FoldsTo [right, left] result exactResult?
      ((left.integer?.bind fun a => right.integer?.bind fun b => f a b).map
        result.constant) where
  known {numbers} h := by
    have hlength : numbers.length = 2 := by simpa using (congrArg List.length h).symm
    obtain ⟨b, a, rfl⟩ := List.length_eq_two.1 hlength
    simp only [List.map_cons, List.map_nil, List.cons.injEq, and_true] at h
    rw [h.1, h.2, hexact]
    rfl
  unknown h := by
    simp only [List.map_cons, List.map_nil, List.mem_cons, List.not_mem_nil,
      or_false] at h
    obtain hright | hleft := h
    · rw [← hright]
      cases left.integer? <;> rfl
    · rw [← hleft]
      rfl

theorem unary {f : Int → Int} {exactResult? : List Int → Option Int}
    (hexact : ∀ a, exactResult? [a] = some (f a)) :
    FoldsTo [value] result exactResult?
      ((value.integer?.map f).map result.constant) where
  known {numbers} h := by
    have hlength : numbers.length = 1 := by simpa using (congrArg List.length h).symm
    obtain ⟨a, rfl⟩ := List.length_eq_one_iff.1 hlength
    simp only [List.map_cons, List.map_nil, List.cons.injEq, and_true] at h
    rw [h, hexact]
    rfl
  unknown h := by
    simp only [List.map_cons, List.map_nil, List.mem_cons, List.not_mem_nil,
      or_false] at h
    rw [← h]
    rfl

theorem ofFolded {values : List StackValue} {exactResult? : List Int → Option Int}
    {folded : Option Constant} {signature : String}
    (h : FoldsTo values result exactResult? folded)
    (hfits : ∀ n, (result.constant n).fits signature = true) :
    FoldsTo values result exactResult?
      (StackValue.ofFolded signature folded).constant? where
  known hnumbers := by rw [h.known hnumbers, StackValue.constant?_ofFolded hfits]
  unknown hnone := by rw [h.unknown hnone]; rfl

end FoldsTo

namespace StackM

variable {left right value : StackValue} {kind kind' : Kind} {signature : String}

theorem popKind_cons (h : value.kind? = some kind) (below : List StackValue) :
    popKind kind (value :: below) = .ok (value, below) := by
  show (if value.kind? = some kind then pure value
    else throw (.kindMismatch kind value.signature) : StackM StackValue) below = _
  rw [if_pos h]
  rfl

theorem pushFolded_one (h : value.kind? = some kind)
    (fold : StackValue → Option Constant) (below : List StackValue) :
    (popKind kind >>= fun value => pushFolded signature (fold value))
        (value :: below) =
      .ok ((), .ofFolded signature (fold value) :: below) := by
  rw [bind_apply, popKind_cons h]
  rfl

theorem pushFolded_two (hright : right.kind? = some kind)
    (hleft : left.kind? = some kind')
    (fold : StackValue → StackValue → Option Constant) (below : List StackValue) :
    (popKind kind >>= fun right => popKind kind' >>= fun left =>
        pushFolded signature (fold left right)) (right :: left :: below) =
      .ok ((), .ofFolded signature (fold left right) :: below) := by
  rw [bind_apply, popKind_cons hright]
  exact pushFolded_one hleft (fold · right) below

end StackM

/-- What an integer instruction does to operands of its kinds. -/
theorem effect_folds {i : Instruction} {operands : List IntegralKind}
    {result : IntegralKind} {values : List StackValue}
    (hrule : IntegerRule i.opcode operands result)
    (hvalues : List.Forall₂ IsOperand operands values) (below : List StackValue)
    (pool : ConstantPool) (locals : LocalVariables) :
    ∃ pushed,
      i.effect pool locals (values ++ below) = .ok ((), pushed :: below) ∧
      IsOperand result pushed ∧
      FoldsTo values result i.opcode.exactResult? pushed.constant? := by
  have hown : Kind.ofSignature? result.toKind.signature = some result.toKind :=
    Kind.ofSignature?_signature _
  generalize hop : i.opcode = opcode at hrule
  cases hrule with
  | arithmetic op =>
      obtain ⟨right, left, rfl, hright, hleft⟩ := forall₂_two hvalues
      refine ⟨_, ?_, .ofFolded hown (Folding.arithmetic op result.numeric left right),
        .ofFolded ?_ result.fits_constant⟩
      · simp only [Instruction.effect, hop, result.toKind_numeric]
        exact StackM.pushFolded_two hright.kind hleft.kind _ below
      · rw [arithmetic_folds op hleft hright]
        exact .binary fun a b => rfl
  | negate =>
      obtain ⟨value, rfl, hvalue⟩ := forall₂_one hvalues
      refine ⟨_, ?_, .ofFolded hown (value.constant?.bind Folding.negate),
        .ofFolded ?_ result.fits_constant⟩
      · simp only [Instruction.effect, hop, result.toKind_numeric]
        exact StackM.pushFolded_one hvalue.kind _ below
      · rw [negate_folds hvalue]
        exact .unary fun a => rfl
  | bitwise op =>
      obtain ⟨right, left, rfl, hright, hleft⟩ := forall₂_two hvalues
      refine ⟨_, ?_, .ofFolded hown (Folding.bitwise op result left right),
        .ofFolded ?_ result.fits_constant⟩
      · simp only [Instruction.effect, hop]
        refine StackM.pushFolded_two ?_ hleft.kind _ below
        rw [hright.kind]
        split <;> rfl
      · rw [bitwise_folds op hleft hright]
        exact .binary fun a b => rfl
  | @convert conversion source target hkinds =>
      obtain ⟨value, rfl, hvalue⟩ := forall₂_one hvalues
      obtain ⟨hsource, htarget, hfits⟩ := Conversion.kinds_of_integral? hkinds
      refine ⟨_, ?_,
        .ofFolded htarget (value.constant?.bind (Folding.convert conversion)),
        .ofFolded ?_ hfits⟩
      · simp only [Instruction.effect, hop, hsource]
        exact StackM.pushFolded_one hvalue.kind _ below
      · rw [convert_folds hkinds hvalue]
        exact .unary fun a => rfl
  | compare =>
      obtain ⟨right, left, rfl, hright, hleft⟩ := forall₂_two hvalues
      refine ⟨_, ?_, .ofFolded hown (Folding.compare .lcmp left right),
        .ofFolded ?_ IntegralKind.int.fits_constant⟩
      · simp only [Instruction.effect, hop]
        exact StackM.pushFolded_two hright.kind hleft.kind _ below
      · rw [compare_folds hleft hright]
        exact .binary fun a b => rfl

theorem IsOperand.inRange_all {operands : List IntegralKind}
    {values : List StackValue} {numbers : List Int}
    (hvalues : List.Forall₂ IsOperand operands values)
    (hnumbers : values.map StackValue.integer? = numbers.map some) :
    List.Forall₂ (fun kind n => Exact.InRange kind.width n) operands numbers := by
  induction hvalues generalizing numbers with
  | nil =>
      rw [List.map_eq_nil_iff.1 hnumbers.symm]
      exact .nil
  | cons hvalue _ ih =>
      obtain ⟨n, numbers, rfl, hn, hrest⟩ := List.map_eq_cons_iff.1 hnumbers.symm
      exact .cons (hvalue.inRange hn.symm) (ih hrest.symm)

theorem IsOperand.isSome_integer? {kind : IntegralKind} {value : StackValue}
    (h : IsOperand kind value) : value.integer?.isSome = value.constant?.isSome := by
  cases kind with
  | int => rw [h.integer?_int, h.int, Option.isSome_map, Option.isSome_map]
  | long => rw [h.integer?_long, h.long, Option.isSome_map, Option.isSome_map]

theorem IsOperand.isSome_all {operands : List IntegralKind} {values : List StackValue}
    (hvalues : List.Forall₂ IsOperand operands values) :
    (∀ value ∈ values, value.integer?.isSome) ↔
      ∀ value ∈ values, value.constant?.isSome := by
  induction hvalues with
  | nil => simp
  | cons hvalue _ ih =>
      rw [List.forall_mem_cons, List.forall_mem_cons, ih, hvalue.isSome_integer?]

/-- Some operand is unknown, or they are all numbers. -/
theorem unknown_or_numbers (values : List StackValue) :
    none ∈ values.map StackValue.integer? ∨
      ∃ numbers : List Int, values.map StackValue.integer? = numbers.map some := by
  induction values with
  | nil => exact .inr ⟨[], rfl⟩
  | cons value values ih =>
      cases hn : value.integer? with
      | none => exact .inl (by simp [hn])
      | some n =>
          obtain hunknown | ⟨numbers, hnumbers⟩ := ih
          · exact .inl (List.mem_cons_of_mem _ hunknown)
          · exact .inr ⟨n :: numbers, by rw [List.map_cons, hn, hnumbers]; rfl⟩

/-- A result is known if every operand is, but for a division by zero. -/
theorem FoldsTo.isSome_iff {opcode : Opcode} {operands : List IntegralKind}
    {result : IntegralKind} {values : List StackValue} {folded : Option Constant}
    (hfolds : FoldsTo values result opcode.exactResult? folded)
    (hrule : IntegerRule opcode operands result)
    (hvalues : List.Forall₂ IsOperand operands values) :
    folded.isSome ↔
      (∀ value ∈ values, value.integer?.isSome) ∧
        ¬ (DivideByZero.divides opcode = true ∧
          values.head?.bind StackValue.integer? = some 0) := by
  obtain hunknown | ⟨numbers, hnumbers⟩ := unknown_or_numbers values
  · obtain ⟨value, hmem, hnone⟩ := List.mem_map.1 hunknown
    rw [hfolds.unknown hunknown]
    refine ⟨(fun h => nomatch h), fun ⟨hall, _⟩ => ?_⟩
    have hsome := hall value hmem
    rw [hnone] at hsome
    cases hsome
  · have hlength : operands.length = numbers.length :=
      (IsOperand.inRange_all hvalues hnumbers).length_eq
    have hhead : values.head?.bind StackValue.integer? = numbers.head? := by
      have hmap := congrArg List.head? hnumbers
      rw [List.head?_map, List.head?_map] at hmap
      cases hv : values.head? <;> cases hn : numbers.head? <;> simp_all
    have hall : ∀ value ∈ values, value.integer?.isSome := by
      intro value hmem
      have himage := List.mem_map_of_mem (f := StackValue.integer?) hmem
      rw [hnumbers] at himage
      obtain ⟨n, _, hn⟩ := List.mem_map.1 himage
      rw [← hn]
      rfl
    rw [hfolds.known hnumbers, Option.isSome_map,
      exactResult?_isSome hrule hlength, hhead]
    exact ⟨fun h => ⟨hall, h⟩, And.right⟩

/-- Integer instructions compute what the manual says. On operands of the kinds that
they take they push one value of the kind that they leave. It is known if every
operand is, unless a divisor is zero, and then it is the one number that the law of
the instruction allows. -/
theorem integer_folding_exact {i : Instruction} {operands : List IntegralKind}
    {result : IntegralKind} {values : List StackValue}
    (hrule : IntegerRule i.opcode operands result)
    (hvalues : List.Forall₂ IsOperand operands values) (below : List StackValue)
    (valid : Bool) (pool : ConstantPool) (locals : LocalVariables) :
    ∃ pushed,
      (OperandStack.mk (values ++ below) valid).step i pool locals =
        (⟨pushed :: below, valid⟩, none) ∧
      IsOperand result pushed ∧
      (pushed.constant?.isSome ↔
        (∀ value ∈ values, value.constant?.isSome) ∧
          ¬ (DivideByZero.divides i.opcode = true ∧
            values.head?.bind StackValue.integer? = some 0)) ∧
      ∀ numbers, values.map StackValue.integer? = numbers.map some →
        ∀ r, pushed.integer? = some r ↔ i.opcode.IntegerLaw numbers r := by
  obtain ⟨pushed, heffect, hpushed, hfolds⟩ :=
    effect_folds hrule hvalues below pool locals
  refine ⟨pushed, ?_, hpushed, ?_, ?_⟩
  · rw [OperandStack.step, heffect]
  · rw [hfolds.isSome_iff hrule hvalues, IsOperand.isSome_all hvalues]
  · intro numbers hnumbers r
    rw [integerLaw_iff hrule (IsOperand.inRange_all hvalues hnumbers),
      StackValue.integer?, hfolds.known hnumbers]
    cases i.opcode.exactResult? numbers with
    | none => rfl
    | some n =>
        rw [Option.map_some, Option.bind_some, Constant.integer?_constant]
        rfl

/-- Leaves the least `long`, which is 1 shifted by 63, below -1 and above null. -/
def shiftingCode : List Instruction :=
  [⟨0, .aconstNull, .none⟩, ⟨1, .bipush, .literal 1⟩, ⟨3, .convert .i2l, .none⟩,
    ⟨4, .bipush, .literal 63⟩, ⟨6, .bitwise .shl .long, .none⟩,
    ⟨7, .bipush, .literal (-1)⟩, ⟨9, .convert .i2l, .none⟩]

theorem run_shiftingCode :
    (OperandStack.mk [] true).run shiftingCode .empty [] =
      ⟨[.ofConstant (.long (-1)), .ofConstant (.long (-9223372036854775808)), .null],
        true⟩ := by
  have hvalues : ((OperandStack.mk [] true).run shiftingCode .empty []).values =
      [.ofConstant (.long (-1)), .ofConstant (.long (-9223372036854775808)),
        .null] := by
    decide +kernel
  have hvalid :
      ((OperandStack.mk [] true).run shiftingCode .empty []).valid = true := by
    decide +kernel
  generalize (OperandStack.mk [] true).run shiftingCode .empty [] = left at *
  rw [← hvalues, ← hvalid]

/-- The least `long` divided by -1 is itself, a shift by -1 goes 63 bits far, and a
remainder by zero is an `int` of which nothing is known. The operands of the division
are what a run has left, and so they fit their signatures. -/
theorem integer_folding_exact_corners :
    (∃ pushed,
      ((OperandStack.mk [] true).run shiftingCode .empty []).step
        ⟨10, .arithmetic .div .long, .none⟩ .empty [] =
          (⟨[pushed, .null], true⟩, none) ∧
      pushed.integer? = some (-9223372036854775808)) ∧
    (∃ pushed,
      (OperandStack.mk [.ofConstant (.int (-1)), .ofConstant (.long 1)] true).step
        ⟨0, .bitwise .shl .long, .none⟩ .empty [] = (⟨[pushed], true⟩, none) ∧
      pushed.integer? = some (-9223372036854775808)) ∧
    ∃ pushed,
      (OperandStack.mk [.ofConstant (.int 0), .ofConstant (.int 7)] true).step
        ⟨0, .arithmetic .rem .int, .none⟩ .empty [] = (⟨[pushed], true⟩, none) ∧
      pushed.kind? = some .int ∧ pushed.constant? = none := by
  have hint (n : Int32) : IsOperand .int (.ofConstant (.int n)) :=
    ⟨StackValue.kind?_ofConstant _, StackValue.wellFormed_ofConstant _⟩
  refine ⟨?_, ?_, ?_⟩
  · have hformed : ∀ value ∈ ((OperandStack.mk [] true).run shiftingCode .empty
        []).values, value.WellFormed :=
      OperandStack.run_wellFormed shiftingCode .empty [] (List.forall_mem_nil _)
    rw [run_shiftingCode] at hformed ⊢
    simp only [List.forall_mem_cons] at hformed
    obtain ⟨hdivisor, hdividend, _⟩ := hformed
    obtain ⟨pushed, hstep, _, _, hlaw⟩ := integer_folding_exact
      (i := ⟨10, .arithmetic .div .long, .none⟩) (.arithmetic .div .long)
      (.cons ⟨StackValue.kind?_ofConstant _, hdivisor⟩
        (.cons ⟨StackValue.kind?_ofConstant _, hdividend⟩ .nil))
      [.null] true .empty []
    refine ⟨pushed, hstep, (hlaw [-1, -9223372036854775808] (by decide) _).2 ?_⟩
    exact ⟨by decide, by rw [Exact.IsQuotient, if_pos (by decide)]⟩
  · have hlong : IsOperand .long (.ofConstant (.long 1)) :=
      ⟨StackValue.kind?_ofConstant _, StackValue.wellFormed_ofConstant _⟩
    obtain ⟨pushed, hstep, _, _, hlaw⟩ := integer_folding_exact
      (i := ⟨0, .bitwise .shl .long, .none⟩) (.bitwise .shl .long)
      (.cons (hint (-1)) (.cons hlong .nil)) [] true .empty []
    refine ⟨pushed, hstep, (hlaw [-1, 1] (by decide) _).2 ?_⟩
    show Exact.Reduces 64 (Exact.bitwise 64 .shl 1 (-1)) (-9223372036854775808)
    decide
  · obtain ⟨pushed, hstep, hpushed, hsome, _⟩ := integer_folding_exact
      (i := ⟨0, .arithmetic .rem .int, .none⟩) (.arithmetic .rem .int)
      (.cons (hint 0) (.cons (hint 7) .nil)) [] true .empty []
    refine ⟨pushed, hstep, hpushed.kind, ?_⟩
    refine Option.not_isSome_iff_eq_none.1 fun h => ?_
    exact (hsome.1 h).2 ⟨rfl, by decide⟩

end ClassAudit
