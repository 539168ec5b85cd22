import ClassAudit.OperandStack.Step
import ClassAudit.Proofs.Machine
import Mathlib.Data.List.Forall2

/-!
# Values shown and values there

A shown value describes a concrete one if both have the same kind, a constant
that is shown is the one that is there, and what is shown as null is null. A
shown stack covers a concrete one if its values describe the top of it, entry by
entry: below them there may be more, of which nothing is known.

`Tracks` carries that through a computation on shown values, in the form of a
Hoare triple: whenever the values before cover a given stack and the computation
succeeds, the values after cover a stack of which the postcondition holds. A
computation that faults tracks anything, since the stack that a fault leaves
shows nothing. There is one lemma for each operation of `StackM`, and each says
what that operation does to the concrete stack underneath.
-/

namespace ClassAudit

open Machine

/-- What is shown of a value is true of it. -/
structure StackValue.Describes (shown : StackValue) (v : Value) : Prop where
  kind : ∃ kind, shown.kind? = some kind ∧ v.kind? = some kind
  constant : ∀ constant, shown.constant? = some constant → v = constant.value
  null : shown.isNull = true → v = .reference .null

theorem Kind.ofSignature?_signature (kind : Kind) :
    Kind.ofSignature? kind.signature = some kind := by
  cases kind <;> rfl

theorem Constant.kind_signature (constant : Constant) :
    ∃ kind, Kind.ofSignature? constant.signature = some kind ∧
      constant.value.kind? = some kind := by
  cases constant with
  | int _ => exact ⟨.int, Kind.ofSignature?_signature .int, rfl⟩
  | long _ => exact ⟨.long, Kind.ofSignature?_signature .long, rfl⟩
  | float _ => exact ⟨.float, Kind.ofSignature?_signature .float, rfl⟩
  | double _ => exact ⟨.double, Kind.ofSignature?_signature .double, rfl⟩
  | string _ =>
      have hstring : Kind.ofSignature? "Ljava/lang/String;" =
          some .reference := by decide
      exact ⟨.reference, hstring, rfl⟩

namespace StackValue

theorem describes_typed {signature : String} {kind : Kind} {v : Value}
    (hsig : Kind.ofSignature? signature = some kind) (hv : v.kind? = some kind) :
    Describes (.typed signature) v where
  kind := ⟨kind, hsig, hv⟩
  constant := fun _ h => nomatch h
  null := fun h => nomatch h

theorem describes_null : Describes .null (.reference .null) where
  kind := ⟨.reference, rfl, rfl⟩
  constant := fun _ h => nomatch h
  null := fun _ => rfl

theorem describes_known {signature : String} {constant : Constant} {kind : Kind}
    (hsig : Kind.ofSignature? signature = some kind)
    (hv : constant.value.kind? = some kind) :
    Describes (.known signature constant) constant.value where
  kind := ⟨kind, hsig, hv⟩
  constant := fun other h => by
    injection h with h
    rw [h]
  null := fun h => nomatch h

theorem describes_ofConstant (constant : Constant) :
    Describes (.ofConstant constant) constant.value := by
  obtain ⟨kind, hsig, hv⟩ := constant.kind_signature
  exact describes_known hsig hv

/-- A constant that was found for a value is shown under any signature of its
kind, or nothing but the signature is. -/
theorem describes_folded {signature : String} {folded : Option Constant}
    {kind : Kind} {v : Value} (hsig : Kind.ofSignature? signature = some kind)
    (hv : v.kind? = some kind)
    (hfolded : ∀ constant, folded = some constant → constant.value = v) :
    Describes ((folded.bind (withConstant? signature)).getD (.typed signature))
      v := by
  cases folded with
  | none => exact describes_typed hsig hv
  | some constant =>
      have hvalue := hfolded constant rfl
      subst hvalue
      rw [Option.bind_some, withConstant?]
      split
      · exact describes_known hsig hv
      · exact describes_typed hsig hv

theorem Describes.isWide {shown : StackValue} {v : Value}
    (h : shown.Describes v) : shown.isWide = v.isWide := by
  obtain ⟨kind, hshown, hv⟩ := h.kind
  rw [StackValue.isWide, Value.isWide, hshown, hv]

end StackValue

/-- The values shown describe the top of a stack, entry by entry. -/
def Covers (values : List StackValue) (stack : List Value) : Prop :=
  ∃ top rest, stack = top ++ rest ∧ List.Forall₂ StackValue.Describes values top

namespace Covers

theorem nil (stack : List Value) : Covers [] stack := ⟨[], stack, rfl, .nil⟩

theorem cons {shown : StackValue} {v : Value} {values : List StackValue}
    {stack : List Value} (hv : shown.Describes v) (h : Covers values stack) :
    Covers (shown :: values) (v :: stack) := by
  obtain ⟨top, rest, rfl, hall⟩ := h
  exact ⟨v :: top, rest, rfl, .cons hv hall⟩

theorem uncons {shown : StackValue} {v : Value} {values : List StackValue}
    {stack : List Value} (h : Covers (shown :: values) (v :: stack)) :
    shown.Describes v ∧ Covers values stack := by
  obtain ⟨top, rest, hstack, hall⟩ := h
  cases hall with
  | cons hv hall =>
      obtain ⟨rfl, rfl⟩ := List.cons.inj hstack
      exact ⟨hv, _, rest, rfl, hall⟩

theorem length_le {values : List StackValue} {stack : List Value}
    (h : Covers values stack) : values.length ≤ stack.length := by
  obtain ⟨top, rest, rfl, hall⟩ := h
  rw [hall.length_eq, List.length_append]
  omega

theorem getElem? {values : List StackValue} {stack : List Value}
    (h : Covers values stack) {depth : Nat} {shown : StackValue}
    (hshown : values[depth]? = some shown) :
    ∃ v, stack[depth]? = some v ∧ shown.Describes v := by
  obtain ⟨top, rest, rfl, hall⟩ := h
  induction hall generalizing depth with
  | nil => simp at hshown
  | @cons _ v _ _ hv _ ih =>
      cases depth with
      | zero =>
          rw [List.getElem?_cons_zero] at hshown
          cases hshown
          exact ⟨v, rfl, hv⟩
      | succ depth =>
          rw [List.getElem?_cons_succ] at hshown
          obtain ⟨w, hw, hdescribes⟩ := ih hshown
          exact ⟨w, by simpa using hw, hdescribes⟩

theorem drop {values : List StackValue} {stack : List Value}
    (h : Covers values stack) (count : Nat) :
    Covers (values.drop count) (stack.drop count) := by
  induction count generalizing values stack with
  | zero => exact h
  | succ n ih =>
      cases values with
      | nil => exact nil _
      | cons shown values =>
          cases stack with
          | nil => exact absurd h.length_le (by simp)
          | cons v stack => exact ih h.uncons.2

/-- The top of a covered stack can be put on any other that is covered, as long
as all of it is shown. -/
theorem take_append {values values' : List StackValue}
    {stack stack' : List Value} (h : Covers values stack)
    (h' : Covers values' stack') (count : Nat) (hcount : count ≤ values.length) :
    Covers (values.take count ++ values') (stack.take count ++ stack') := by
  induction count generalizing values stack with
  | zero => exact h'
  | succ n ih =>
      cases values with
      | nil => exact absurd hcount (by simp)
      | cons shown values =>
          cases stack with
          | nil => exact absurd h.length_le (by simp)
          | cons v stack =>
              obtain ⟨hv, hrest⟩ := h.uncons
              rw [List.length_cons] at hcount
              exact cons hv (ih hrest (by omega))

end Covers

namespace StackM

theorem bind_apply {α β : Type} (m : StackM α) (f : α → StackM β)
    (values : List StackValue) :
    (m >>= f) values = (m values >>= fun result => f result.1 result.2) := rfl

theorem pairAt_eq (depth : Nat) (values : List StackValue) :
    pairAt depth values =
      if values.length < depth + 1 then
        .error (.underflow (depth + 1) values.length)
      else .ok (if (values[depth]?).any StackValue.isWide then 1 else 2,
        values) := by
  by_cases hlen : values.length < depth + 1
  · simp [pairAt, wideAt, require, hlen, Bind.bind, StateT.bind, Except.bind]
  · simp only [pairAt, wideAt, require, hlen, Bind.bind, StateT.bind,
      Except.bind, if_false]
    rfl

theorem duplicate_eq (copied skipped : Nat) (values : List StackValue) :
    duplicate copied skipped values =
      if values.length < copied + skipped then
        .error (.underflow (copied + skipped) values.length)
      else .ok ((), values.take (copied + skipped)
        ++ (values.take copied ++ values.drop (copied + skipped))) := by
  by_cases hlen : values.length < copied + skipped
  · simp [duplicate, require, hlen, Bind.bind, StateT.bind, Except.bind]
  · simp [duplicate, require, hlen, Bind.bind, StateT.bind, Except.bind,
      modify, modifyGet, MonadStateOf.modifyGet, StateT.modifyGet, Pure.pure,
      Except.pure]

end StackM

/-- Whatever a computation makes of values that cover a stack covers a stack of
which the postcondition holds. -/
def Tracks {α : Type} (m : StackM α) (stack : List Value)
    (post : α → List Value → Prop) : Prop :=
  ∀ values, Covers values stack → ∀ a values', m values = .ok (a, values') →
    ∃ stack', Covers values' stack' ∧ post a stack'

namespace Tracks

variable {α β : Type}

theorem pure {stack : List Value} {post : α → List Value → Prop} {a : α}
    (h : post a stack) : Tracks (Pure.pure a) stack post := by
  intro values hcovers b values' heq
  cases heq
  exact ⟨stack, hcovers, h⟩

theorem throw {stack : List Value} {post : α → List Value → Prop}
    (fault : Fault) : Tracks (MonadExcept.throw fault : StackM α) stack post := by
  intro values hcovers b values' heq
  cases heq

theorem bind {m : StackM α} {f : α → StackM β} {stack : List Value}
    {mid : α → List Value → Prop} {post : β → List Value → Prop}
    (hm : Tracks m stack mid)
    (hf : ∀ a stack', mid a stack' → Tracks (f a) stack' post) :
    Tracks (m >>= f) stack post := by
  intro values hcovers b values'' heq
  rw [StackM.bind_apply] at heq
  cases hfirst : m values with
  | error fault =>
      rw [hfirst] at heq
      cases heq
  | ok result =>
      rw [hfirst] at heq
      obtain ⟨stack', hcovers', hmid⟩ := hm values hcovers _ _ hfirst
      exact hf _ _ hmid _ hcovers' _ _ heq

theorem require {needed : Nat} {stack : List Value} :
    Tracks (StackM.require needed) stack fun _ stack' => stack' = stack := by
  intro values hcovers a values' heq
  unfold StackM.require at heq
  split at heq
  · cases heq
  · cases heq
    exact ⟨stack, hcovers, rfl⟩

theorem push {shown : StackValue} {v : Value} {stack : List Value}
    (h : shown.Describes v) :
    Tracks (StackM.push shown) stack fun _ stack' => stack' = v :: stack := by
  intro values hcovers a values' heq
  cases heq
  exact ⟨v :: stack, hcovers.cons h, rfl⟩

theorem pushFolded {signature : String} {folded : Option Constant} {kind : Kind}
    {v : Value} {stack : List Value}
    (hsig : Kind.ofSignature? signature = some kind) (hv : v.kind? = some kind)
    (hfolded : ∀ constant, folded = some constant → constant.value = v) :
    Tracks (StackM.pushFolded signature folded) stack
      fun _ stack' => stack' = v :: stack :=
  push (StackValue.describes_folded hsig hv hfolded)

theorem pop {v : Value} {stack : List Value} :
    Tracks StackM.pop (v :: stack)
      fun shown stack' => shown.Describes v ∧ stack' = stack := by
  intro values hcovers a values' heq
  cases values with
  | nil => cases heq
  | cons shown values =>
      cases heq
      obtain ⟨hv, hrest⟩ := hcovers.uncons
      exact ⟨stack, hrest, hv, rfl⟩

theorem popKind {kind : Kind} {v : Value} {stack : List Value} :
    Tracks (StackM.popKind kind) (v :: stack)
      fun shown stack' => shown.Describes v ∧ stack' = stack := by
  refine pop.bind fun shown stack' hshown => ?_
  split
  · exact pure hshown
  · exact throw _

/-- What follows a pop goes on from a value that describes the one removed. -/
theorem popKind_bind {kind : Kind} {f : StackValue → StackM β} {v : Value}
    {stack : List Value} {post : β → List Value → Prop}
    (h : ∀ shown : StackValue, shown.Describes v → Tracks (f shown) stack post) :
    Tracks (StackM.popKind kind >>= f) (v :: stack) post := by
  refine popKind.bind fun shown stack' hshown => ?_
  obtain ⟨hdescribes, rfl⟩ := hshown
  exact h shown hdescribes

theorem drop {top rest : List Value} :
    Tracks (StackM.drop top.length) (top ++ rest)
      fun _ stack' => stack' = rest := by
  refine require.bind fun _ stack' hstack => ?_
  subst hstack
  intro values hcovers a values' heq
  cases heq
  refine ⟨rest, ?_, rfl⟩
  have hdrop := hcovers.drop top.length
  rwa [List.drop_left] at hdrop

/-- What fills two slots is counted right, however far down it begins. -/
theorem pairAt (above : List Value) {pair rest : List Value}
    (hpair : Pair pair) :
    Tracks (StackM.pairAt above.length) (above ++ (pair ++ rest))
      fun count stack' =>
        count = pair.length ∧ stack' = above ++ (pair ++ rest) := by
  intro values hcovers a values' heq
  rw [StackM.pairAt_eq] at heq
  split at heq
  · cases heq
  · next hlen =>
      injection heq with heq
      injection heq with hcount hvalues
      subst hvalues
      refine ⟨_, hcovers, ?_, rfl⟩
      have hlt : above.length < values.length := by omega
      obtain ⟨v, hv, hdescribes⟩ :=
        hcovers.getElem? (List.getElem?_eq_getElem hlt)
      rw [← hcount, List.getElem?_eq_getElem hlt, Option.any_some,
        hdescribes.isWide]
      cases hpair with
      | wide hwide =>
          simp at hv
          rw [← hv, hwide]
          rfl
      | narrow hnarrow _ =>
          simp at hv
          rw [← hv, hnarrow]
          rfl

theorem pairAt_bind (above : List Value) {pair rest : List Value}
    {f : Nat → StackM β} {post : β → List Value → Prop} (hpair : Pair pair)
    (h : Tracks (f pair.length) (above ++ (pair ++ rest)) post) :
    Tracks (StackM.pairAt above.length >>= f) (above ++ (pair ++ rest)) post := by
  refine (pairAt above hpair).bind fun count stack' hcount => ?_
  obtain ⟨rfl, rfl⟩ := hcount
  exact h

theorem duplicate (copied skipped : List Value) {rest : List Value} :
    Tracks (StackM.duplicate copied.length skipped.length)
      (copied ++ skipped ++ rest)
      fun _ stack' => stack' = copied ++ skipped ++ copied ++ rest := by
  intro values hcovers a values' heq
  rw [StackM.duplicate_eq] at heq
  split at heq
  · cases heq
  · next hlen =>
      cases heq
      refine ⟨_, ?_, rfl⟩
      have hlow := hcovers.drop (copied.length + skipped.length)
      have hmid := hcovers.take_append hlow copied.length (by omega)
      have hall := hcovers.take_append hmid
        (copied.length + skipped.length) (by omega)
      have hlength : copied.length + skipped.length =
          (copied ++ skipped).length := by rw [List.length_append]
      rw [hlength, List.take_left, List.drop_left] at hall
      simpa [List.append_assoc, List.take_left'] using hall

theorem exchange {v w : Value} {rest : List Value} :
    Tracks StackM.exchange (v :: w :: rest)
      fun _ stack' => stack' = w :: v :: rest := by
  intro values hcovers a values' heq
  match values with
  | [] | [_] => cases heq
  | first :: second :: values =>
      cases heq
      refine ⟨_, ?_, rfl⟩
      obtain ⟨hv, hrest⟩ := hcovers.uncons
      obtain ⟨hw, hrest⟩ := hrest.uncons
      exact (hrest.cons hv).cons hw

end Tracks

end ClassAudit
