import ClassAudit.Proofs.ExactArithmetic
import ClassAudit.Proofs.ParallelRuns

/-!
# Values on the stack are consistent

Whoever looks at a value takes its signature and its constant for two descriptions
of one thing. `StackValue.Consistent` says that they are: the constant is of the type
that the signature names, a number under a narrow type is one of that type, and null
is an object of which nothing else is known.

Making a value does not see to all of that. `withConstant?` asks whether a signature
computes as `int` and not how large the number is, and it would take any number for a
boolean. So the ranges rest on who pushes what. Literals and pool entries stand under
the signature of their own type. What is folded stands under the signature that the
instruction states, and that is a narrow one for three conversions only, which have
just cut the number down to size (`belongs_of_narrowing`).

Everything else moves values or pushes them without a constant, so no instruction
breaks this, and neither does a fresh start or the entry of a handler.
-/

namespace ClassAudit

/-- The signatures that a constant can have, and which numbers the narrow ones
hold. -/
inductive Constant.Belongs : Constant → String → Prop
  | int (value : Int32) : Belongs (.int value) "I"
  | byte {value : Int32} (low : -128 ≤ value.toInt) (high : value.toInt ≤ 127) :
      Belongs (.int value) "B"
  | char {value : Int32} (low : 0 ≤ value.toInt) (high : value.toInt ≤ 65535) :
      Belongs (.int value) "C"
  | short {value : Int32} (low : -32768 ≤ value.toInt)
      (high : value.toInt ≤ 32767) : Belongs (.int value) "S"
  | long (value : Int64) : Belongs (.long value) "J"
  | float (value : Float32) : Belongs (.float value) "F"
  | double (value : Float) : Belongs (.double value) "D"
  | string (value : String) : Belongs (.string value) "Ljava/lang/String;"

/-- A value whose signature, constant and null flag describe one thing. -/
structure StackValue.Consistent (value : StackValue) : Prop where
  constant : ∀ constant, value.constant? = some constant →
    constant.Belongs value.signature
  null : value.isNull = true →
    value.signature = "Ljava/lang/Object;" ∧ value.constant? = none

/-! ## What is pushed -/

namespace Constant

theorem belongs_signature (constant : Constant) :
    constant.Belongs constant.signature := by
  cases constant with
  | int value => exact .int value
  | long value => exact .long value
  | float value => exact .float value
  | double value => exact .double value
  | string value => exact .string value

/-- Fitting is enough under a signature that is not narrow. -/
theorem belongs_of_fits {constant : Constant} {signature : String}
    (h : constant.fits signature = true)
    (hwide : signature ∉ ["B", "C", "S", "Z"]) : constant.Belongs signature := by
  have hself := constant.belongs_signature
  cases constant with
  | int value =>
      have hmem := List.contains_iff_mem.1 h
      rw [List.mem_cons] at hmem
      rw [hmem.resolve_right hwide]
      exact hself
  | long _ | float _ | double _ | string _ =>
      rw [eq_of_beq h]
      exact hself

/-- A number that was narrowed is one of the type that it was narrowed to. -/
theorem belongs_of_narrowing {conversion : Conversion} {before after : Constant}
    (hnarrow : conversion.signature ∈ ["B", "C", "S", "Z"])
    (h : Folding.convert conversion before = some after) :
    after.Belongs conversion.signature := by
  cases conversion with
  | i2b =>
      cases before with
      | int value =>
          cases h
          have hlow := value.toInt8.le_toInt
          have hhigh := value.toInt8.toInt_lt
          refine .byte ?_ ?_ <;> rw [Int8.toInt_toInt32] <;> omega
      | long _ | float _ | double _ | string _ => cases h
  | i2c =>
      cases before with
      | int value =>
          cases h
          have hword :
              (Int32.ofInt (value.toInt % 65536)).toInt = value.toInt % 65536 :=
            Int32.toInt_ofInt_of_le (by omega) (by omega)
          refine .char ?_ ?_ <;> rw [Exact.toUInt16_toInt32, hword] <;> omega
      | long _ | float _ | double _ | string _ => cases h
  | i2s =>
      cases before with
      | int value =>
          cases h
          have hlow := value.toInt16.le_toInt
          have hhigh := value.toInt16.toInt_lt
          refine .short ?_ ?_ <;> rw [Int16.toInt_toInt32] <;> omega
      | long _ | float _ | double _ | string _ => cases h
  | _ => exact absurd hnarrow (by decide)

end Constant

namespace StackValue

theorem consistent_typed (signature : String) : (typed signature).Consistent where
  constant := nofun
  null := nofun

theorem consistent_null : null.Consistent where
  constant := nofun
  null := fun _ => ⟨rfl, rfl⟩

theorem consistent_known {signature : String} {constant : Constant}
    (h : constant.Belongs signature) : (known signature constant).Consistent where
  constant := by
    intro other hother
    cases hother
    exact h
  null := nofun

/-- A folded constant only has to be looked at if it is pushed. -/
theorem consistent_ofFolded {signature : String} {folded : Option Constant}
    (h : ∀ constant, folded = some constant → constant.fits signature = true →
      constant.Belongs signature) : (ofFolded signature folded).Consistent := by
  cases folded with
  | none => exact consistent_typed signature
  | some constant =>
      rw [ofFolded, Option.bind_some, withConstant?]
      split
      · next hfits => exact consistent_known (h constant rfl hfits)
      · exact consistent_typed signature

theorem consistent_result (kind : Kind) (folded : Option Constant) :
    (ofFolded kind.signature folded).Consistent := by
  refine consistent_ofFolded fun constant _ hfits => ?_
  refine Constant.belongs_of_fits hfits ?_
  cases kind <;> decide

theorem consistent_converted (conversion : Conversion) (value : StackValue) :
    (ofFolded conversion.signature
      (value.constant?.bind (Folding.convert conversion))).Consistent := by
  refine consistent_ofFolded fun constant hfolded hfits => ?_
  by_cases hnarrow : conversion.signature ∈ ["B", "C", "S", "Z"]
  · obtain ⟨before, _, hconvert⟩ := Option.bind_eq_some_iff.1 hfolded
    exact Constant.belongs_of_narrowing hnarrow hconvert
  · exact Constant.belongs_of_fits hfits hnarrow

end StackValue

theorem likeness_consistent : Likeness fun v w => v.Consistent ∧ v = w :=
  likeness_of_pushed StackValue.consistent_typed
    (fun constant => StackValue.consistent_known constant.belongs_signature)
    StackValue.consistent_null StackValue.consistent_result
    StackValue.consistent_converted

/-! ## Runs -/

/-- What a walk can tell its stack to do. -/
inductive StackCommand
  | process (i : Instruction) (pool : ConstantPool) (locals : LocalVariables)
  | reset
  | enterHandler (catchType : Option String)

namespace OperandStack

/-- The stack after a command. -/
def obey (stack : OperandStack) : StackCommand → OperandStack
  | .process i pool locals => (stack.step i pool locals).1
  | .reset => .fresh
  | .enterHandler catchType => .caught catchType

variable {stack : OperandStack}

theorem obey_consistent (h : ∀ value ∈ stack.values, value.Consistent)
    (command : StackCommand) :
    ∀ value ∈ (stack.obey command).values, value.Consistent := by
  cases command with
  | process i pool locals => exact step_keeps likeness_consistent i pool locals h
  | reset => exact nofun
  | enterHandler catchType =>
      intro value hmem
      rw [List.mem_singleton.1 hmem]
      exact StackValue.consistent_typed _

theorem obeyAll_consistent (h : ∀ value ∈ stack.values, value.Consistent)
    (commands : List StackCommand) :
    ∀ value ∈ (commands.foldl obey stack).values, value.Consistent := by
  induction commands generalizing stack with
  | nil => exact h
  | cons command commands ih => exact ih (obey_consistent h command)

end OperandStack

/-- Whatever a new stack is told to do, with any instructions, pools and declared
local variables, every value that it ever shows is consistent. -/
theorem stack_values_consistent (commands : List StackCommand) :
    ∀ value ∈ (commands.foldl OperandStack.obey .fresh).values, value.Consistent := by
  refine OperandStack.obeyAll_consistent ?_ commands
  intro value hmem
  cases hmem

/-- In a handler, 300 is narrowed to a byte and put below null. -/
def narrowingCommands : List StackCommand :=
  [ .process ⟨0, .pop, .none⟩ .empty []
  , .enterHandler (some "java/io/IOException")
  , .process ⟨1, .sipush, .literal 300⟩ .empty []
  , .process ⟨4, .convert .i2b, .none⟩ .empty []
  , .process ⟨5, .aconstNull, .none⟩ .empty [] ]

/-- The byte that is left of 300. -/
theorem stack_values_consistent_narrowed :
    (narrowingCommands.foldl OperandStack.obey .fresh).values =
      [.null, .known "B" (.int 44), .typed "Ljava/io/IOException;"] ∧
    (StackValue.known "B" (.int 44)).Consistent := by
  have hvalues : (narrowingCommands.foldl OperandStack.obey .fresh).values =
      [.null, .known "B" (.int 44), .typed "Ljava/io/IOException;"] := by
    decide +kernel
  refine ⟨hvalues, stack_values_consistent narrowingCommands _ ?_⟩
  rw [hvalues]
  simp

end ClassAudit
