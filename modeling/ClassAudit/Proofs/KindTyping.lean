import ClassAudit.Proofs.Machine
import Mathlib.Algebra.GroupWithZero.Nat

/-!
# Kind typing

The manual of the machine has a line for each instruction that says what it takes
off the operand stack and what it leaves there. Over kinds instead of values, these
lines are a type system for code without joins: an instruction has a type
`operands → results`, both with the top first, and a sequence is accepted if every
instruction finds its operands on top of what the ones before it left.

For most instructions the opcode alone decides, and `Opcode.stackRule?` is the
table of these, one row for each line of the manual. The instructions that move
values around without looking at them are told by the slots that they move: a
`long` and a `double` fill two, so `dup2` copies one of those or two others, and
the forms of the manual are all the ways to make up the number. The rest read
their operands or the constant pool, and `Typed` has a rule for each. A call of a
subroutine has none, because the address that it leaves is of no kind.

After a return or a throw nothing is left of the stack, and what stands behind is
reached from elsewhere if at all. It may expect any stack.
-/

namespace ClassAudit

open Machine

namespace Kind

/-- How many machine slots values of these kinds fill. -/
def slots (kinds : List Kind) : Nat :=
  (kinds.map fun
    | int | float | reference => 1
    | long | double => 2).sum

theorem slots_cons (kind : Kind) (kinds : List Kind) :
    slots (kind :: kinds) = (if kind.isWide then 2 else 1) + slots kinds := by
  cases kind <;> rfl

theorem slots_eq_zero {kinds : List Kind} (h : slots kinds = 0) : kinds = [] := by
  cases kinds with
  | nil => rfl
  | cons kind kinds =>
      rw [slots_cons] at h
      split at h <;> omega

theorem slots_eq_one {kinds : List Kind} (h : slots kinds = 1) :
    ∃ kind, kinds = [kind] := by
  cases kinds with
  | nil => cases h
  | cons kind kinds =>
      rw [slots_cons] at h
      have hrest : slots kinds = 0 := by split at h <;> omega
      exact ⟨kind, by rw [slots_eq_zero hrest]⟩

/-- Two slots are filled by one wide value or by two others. -/
theorem length_of_slots_two {kinds : List Kind} (h : slots kinds = 2) :
    ∃ first more, kinds = first :: more ∧
      (first :: more).length = if first.isWide then 1 else 2 := by
  cases kinds with
  | nil => cases h
  | cons first more =>
      refine ⟨first, more, rfl, ?_⟩
      rw [slots_cons] at h
      split at h
      · next hwide =>
          rw [if_pos hwide, slots_eq_zero (by omega : slots more = 0)]
          rfl
      · next hnarrow =>
          obtain ⟨second, rfl⟩ := slots_eq_one (by omega : slots more = 1)
          rw [if_neg hnarrow]
          rfl

end Kind

namespace Opcode

/-- What an instruction takes off the stack and what it leaves, where the opcode
alone decides. -/
def stackRule? : Opcode → Option (List Kind × List Kind)
  | nop | iinc | goto | gotoW | ret => some ([], [])
  | aconstNull => some ([], [.reference])
  | iconst _ => some ([], [.int])
  | lconst _ => some ([], [.long])
  | fconst _ => some ([], [.float])
  | dconst _ => some ([], [.double])
  | loadFrom kind _ => some ([], [kind])
  | store kind | storeTo kind _ => some ([kind], [])
  -- The index is above the array, and a value to be stored above both.
  | arrayLoad .int | arrayLoad .byte | arrayLoad .char | arrayLoad .short =>
    some ([.int, .reference], [.int])
  | arrayLoad .long => some ([.int, .reference], [.long])
  | arrayLoad .float => some ([.int, .reference], [.float])
  | arrayLoad .double => some ([.int, .reference], [.double])
  | arrayLoad .reference => some ([.int, .reference], [.reference])
  | arrayStore .int | arrayStore .byte | arrayStore .char | arrayStore .short =>
    some ([.int, .int, .reference], [])
  | arrayStore .long => some ([.long, .int, .reference], [])
  | arrayStore .float => some ([.float, .int, .reference], [])
  | arrayStore .double => some ([.double, .int, .reference], [])
  | arrayStore .reference => some ([.reference, .int, .reference], [])
  | arithmetic _ .int | bitwise _ .int => some ([.int, .int], [.int])
  | arithmetic _ .long => some ([.long, .long], [.long])
  | arithmetic _ .float => some ([.float, .float], [.float])
  | arithmetic _ .double => some ([.double, .double], [.double])
  -- The distance of a shift is an `int`, whatever is shifted.
  | bitwise .shl .long | bitwise .shr .long | bitwise .ushr .long =>
    some ([.int, .long], [.long])
  | bitwise .and .long | bitwise .or .long | bitwise .xor .long =>
    some ([.long, .long], [.long])
  | negate .int => some ([.int], [.int])
  | negate .long => some ([.long], [.long])
  | negate .float => some ([.float], [.float])
  | negate .double => some ([.double], [.double])
  | convert .i2b | convert .i2c | convert .i2s => some ([.int], [.int])
  | convert .i2l => some ([.int], [.long])
  | convert .i2f => some ([.int], [.float])
  | convert .i2d => some ([.int], [.double])
  | convert .l2i => some ([.long], [.int])
  | convert .l2f => some ([.long], [.float])
  | convert .l2d => some ([.long], [.double])
  | convert .f2i => some ([.float], [.int])
  | convert .f2l => some ([.float], [.long])
  | convert .f2d => some ([.float], [.double])
  | convert .d2i => some ([.double], [.int])
  | convert .d2l => some ([.double], [.long])
  | convert .d2f => some ([.double], [.float])
  | compare .lcmp => some ([.long, .long], [.int])
  | compare .fcmpl | compare .fcmpg => some ([.float, .float], [.int])
  | compare .dcmpl | compare .dcmpg => some ([.double, .double], [.int])
  | ifZero _ | tableswitch | lookupswitch => some ([.int], [])
  | ifInt _ => some ([.int, .int], [])
  | ifSame _ => some ([.reference, .reference], [])
  | ifNull _ | monitorenter | monitorexit => some ([.reference], [])
  | arraylength => some ([.reference], [.int])
  | _ => none

/-- How many slots an instruction copies from the top, and how many it skips to
put the copies below them. -/
def copies? : Opcode → Option (Nat × Nat)
  | dup => some (1, 0)
  | dupX1 => some (1, 1)
  | dupX2 => some (1, 2)
  | dup2 => some (2, 0)
  | dup2X1 => some (2, 1)
  | dup2X2 => some (2, 2)
  | _ => none

/-- What an instruction takes that returns or throws. -/
def exit? : Opcode → Option (List Kind)
  | valueReturn kind => some [kind]
  | voidReturn => some []
  | athrow => some [.reference]
  | _ => none

/-- The opcodes whose effect is followed: all but the calls of subroutines, the
creation of arrays of arrays, the prefix `wide` by itself, and the codes that no
method may hold. -/
def isSupported : Opcode → Bool
  | jsr | jsrW | multianewarray | wide | breakpoint | unassigned _ | impdep1
  | impdep2 => false
  | _ => true

end Opcode

/-- What a call finds below its arguments. -/
def Invocation.receiver : Invocation → List Kind
  | virtual | special | interface => [.reference]
  | static | dynamic => []

/-- An instruction takes the first list of kinds off the stack and leaves the
second. Both have the top first. -/
inductive Typed (pool : ConstantPool) (i : Instruction) :
    List Kind → List Kind → Prop
  | plain {operands results : List Kind}
    (h : i.opcode.stackRule? = some (operands, results)) :
    Typed pool i operands results
  | literal {value : Int32} (h : i.opcode ∈ [.bipush, .sipush])
    (ho : i.operands = .literal value) : Typed pool i [] [.int]
  | load {kind : Kind} {index : UInt16} (h : i.opcode = .load kind)
    (ho : i.operands = .slot index) : Typed pool i [] [kind]
  | ldc {index : UInt16} {loadable : Loadable} {v : Value} {kind : Kind}
    (h : i.opcode ∈ [.ldc, .ldcW] ∧ Kind.slots [kind] = 1 ∨
      i.opcode = .ldc2W ∧ Kind.slots [kind] = 2)
    (ho : i.operands = .pool index)
    (hentry : pool.loadable? index = some loadable) (hv : Loads loadable v)
    (hkind : v.kind? = some kind) : Typed pool i [] [kind]
  | drop {dropped : List Kind} (h : i.opcode = .pop ∧ Kind.slots dropped = 1 ∨
      i.opcode = .pop2 ∧ Kind.slots dropped = 2) : Typed pool i dropped []
  | copy {copied skipped : List Kind}
    (h : i.opcode.copies? = some (Kind.slots copied, Kind.slots skipped)) :
    Typed pool i (copied ++ skipped) (copied ++ skipped ++ copied)
  | swap {first second : Kind} (h : i.opcode = .swap)
    (hfirst : Kind.slots [first] = 1) (hsecond : Kind.slots [second] = 1) :
    Typed pool i [first, second] [second, first]
  | getstatic {type : JavaType} {kind : Kind} (h : i.opcode = .getstatic)
    (hfield : FieldOf pool i type) (hkind : type.kind? = some kind) :
    Typed pool i [] [kind]
  | putstatic {type : JavaType} {kind : Kind} (h : i.opcode = .putstatic)
    (hfield : FieldOf pool i type) (hkind : type.kind? = some kind) :
    Typed pool i [kind] []
  | getfield {type : JavaType} {kind : Kind} (h : i.opcode = .getfield)
    (hfield : FieldOf pool i type) (hkind : type.kind? = some kind) :
    Typed pool i [.reference] [kind]
  | putfield {type : JavaType} {kind : Kind} (h : i.opcode = .putfield)
    (hfield : FieldOf pool i type) (hkind : type.kind? = some kind) :
    Typed pool i [kind, .reference] []
  | invoke {invocation : Invocation} {type : MethodType}
    {arguments results : List Kind} (h : i.opcode = .invoke invocation)
    (hcallee : CalleeOf pool i invocation type) (hparen : ')' ∉ type.resultText)
    (harguments : arguments.map some = type.parameters.map JavaType.kind?)
    (hresults : results.map some = type.result.toList.map JavaType.kind?) :
    Typed pool i (arguments.reverse ++ invocation.receiver) results
  | new (h : i.opcode = .new) (hclass : NamesClass pool i) :
    Typed pool i [] [.reference]
  | newarray {code : UInt8} (h : i.opcode = .newarray)
    (ho : i.operands = .elementType code)
    (hcode : 4 ≤ code.toNat ∧ code.toNat ≤ 11) : Typed pool i [.int] [.reference]
  | anewarray (h : i.opcode = .anewarray) (hclass : NamesClass pool i) :
    Typed pool i [.int] [.reference]
  | multianewarray {index : UInt16} {dimensions : UInt8}
    (h : i.opcode = .multianewarray)
    (ho : i.operands = .multiArray index dimensions)
    (hclass : (pool.className? index).isSome) (hpos : 0 < dimensions.toNat) :
    Typed pool i (List.replicate dimensions.toNat .int) [.reference]
  | checkcast (h : i.opcode = .checkcast) (hclass : NamesClass pool i) :
    Typed pool i [.reference] [.reference]
  | instanceof (h : i.opcode = .instanceof) (hclass : NamesClass pool i) :
    Typed pool i [.reference] [.int]

/-- A sequence of instructions leads from a stack of the first kinds to one of the
second. -/
inductive Accepts (pool : ConstantPool) :
    List Instruction → List Kind → List Kind → Prop
  | nil (kinds : List Kind) : Accepts pool [] kinds kinds
  | next {i : Instruction} {code : List Instruction}
    {operands results below last : List Kind} (h : Typed pool i operands results)
    (hrest : Accepts pool code (results ++ below) last) :
    Accepts pool (i :: code) (operands ++ below) last
  | exit {i : Instruction} {code : List Instruction}
    {operands below other last : List Kind} (h : i.opcode.exit? = some operands)
    (hrest : Accepts pool code other last) :
    Accepts pool (i :: code) (operands ++ below) last

theorem Accepts.append {pool : ConstantPool} {before after : List Instruction}
    {kinds mid last : List Kind} (h : Accepts pool before kinds mid)
    (h' : Accepts pool after mid last) :
    Accepts pool (before ++ after) kinds last := by
  induction h with
  | nil kinds => exact h'
  | next htyped _ ih => exact .next htyped (ih h')
  | exit hexit _ ih => exact .exit hexit (ih h')

/-- What is accepted is accepted in two parts, with the same stack between them,
unless the first ends before. -/
theorem Accepts.split {pool : ConstantPool} {before after : List Instruction}
    {kinds last : List Kind} (h : Accepts pool (before ++ after) kinds last)
    (hstays : ∀ i ∈ before, i.opcode.exit? = none) :
    ∃ mid, Accepts pool before kinds mid ∧ Accepts pool after mid last := by
  induction before generalizing kinds with
  | nil => exact ⟨kinds, .nil kinds, h⟩
  | cons i before ih =>
      rw [List.forall_mem_cons] at hstays
      rw [List.cons_append] at h
      cases h with
      | next htyped hrest =>
          obtain ⟨mid, hbefore, hafter⟩ := ih hrest hstays.2
          exact ⟨mid, .next htyped hbefore, hafter⟩
      | exit hexit _ =>
          rw [hexit] at hstays
          cases hstays.1

end ClassAudit
