import ClassAudit.Walk
import ClassAudit.Proofs.TypedExecution

/-!
# A walk is local to blocks

A walk carries one stack through a whole body, and a fault marks that stack until
something clears the mark. Still, what is shown at an instruction depends on little.
Where a walk starts afresh it drops whatever it brought along, mark and values alike;
so the last such place before an instruction cuts off all that came earlier, and what
is shown there is what the instructions since then make of a new stack
(`walk_block_local`).

The argument has two halves. From any place on, a walk is a walk with some stack
brought along (`visitsFrom_drop`). And as long as it does not start afresh, it only
runs the instructions one after the other (`visitsFrom_run`). The order of offsets
plays no part in either, so the body may be one that nothing could have decoded:
offsets may repeat, and zero may stand anywhere.
-/

namespace ClassAudit

namespace Method

/-! ## Where a walk starts afresh -/

/-- Whether a walk starts afresh at an offset: a handler begins there, or a block does
that is not the first. -/
def Restarts (method : Method) (offset : Nat) : Prop :=
  ((handlerEntries method.handlers)[offset]?).isSome ∨
    offset ≠ 0 ∧ offset ∈ blockLeaders method.body

/-- The new stack with which a walk starts afresh at an offset. -/
def opening (method : Method) (offset : Nat) : OperandStack :=
  match (handlerEntries method.handlers)[offset]? with
  | some catchType => .caught catchType
  | none => .fresh

/-- Whether a walk starts afresh at the instruction with this index. -/
def RestartsAt (method : Method) (index : Nat) : Prop :=
  ∃ i, method.body[index]? = some i ∧ method.Restarts i.offset

/-- The last index up to a given one at which a walk starts afresh, or the first index
of all if it does so nowhere. -/
structure LastStart (method : Method) (index start : Nat) : Prop where
  le : start ≤ index
  starts : start = 0 ∨ method.RestartsAt start
  last : ∀ k, start < k → k ≤ index → ¬ method.RestartsAt k

variable {method : Method}

theorem exists_lastStart (method : Method) (index : Nat) :
    ∃ start, method.LastStart index start := by
  induction index with
  | zero => exact ⟨0, Nat.le_refl 0, .inl rfl, fun k hlt hle => by omega⟩
  | succ index ih =>
      by_cases hnext : method.RestartsAt (index + 1)
      · exact ⟨index + 1, Nat.le_refl _, .inr hnext, fun k hlt hle => by omega⟩
      · obtain ⟨start, hstart⟩ := ih
        refine ⟨start, Nat.le_succ_of_le hstart.le, hstart.starts, ?_⟩
        intro k hlt hle
        by_cases hk : k = index + 1
        · rw [hk]
          exact hnext
        · exact hstart.last k hlt (by omega)

theorem LastStart.le_of_lastStart {index start start' : Nat}
    (h : method.LastStart index start) (h' : method.LastStart index start') :
    start' ≤ start := by
  by_contra hlt
  rcases h'.starts with hzero | hrestarts
  · omega
  · exact h.last start' (by omega) h'.le hrestarts

theorem existsUnique_lastStart (method : Method) (index : Nat) :
    ∃! start, method.LastStart index start := by
  obtain ⟨start, hstart⟩ := exists_lastStart method index
  refine ⟨start, hstart, fun start' hstart' => ?_⟩
  exact Nat.le_antisymm (hstart.le_of_lastStart hstart')
    (hstart'.le_of_lastStart hstart)

/-! ## Arriving -/

/-- The stack with which the walk of a method arrives at an offset. -/
abbrev arriveAt (method : Method) (brought : OperandStack) (offset : Nat) :
    OperandStack :=
  arrive (blockLeaders method.body) (handlerEntries method.handlers) brought offset

/-- The stops of the walk of a method over some instructions. -/
abbrev visitsOver (method : Method) (pool : ConstantPool) (brought : OperandStack)
    (code : List Instruction) : List Visit :=
  visitsFrom (blockLeaders method.body) (handlerEntries method.handlers) pool
    method.locals brought code

theorem arriveAt_of_restarts {offset : Nat} (h : method.Restarts offset)
    (brought : OperandStack) :
    method.arriveAt brought offset = method.opening offset := by
  unfold arriveAt arrive opening
  cases hentry : (handlerEntries method.handlers)[offset]? with
  | some catchType => rfl
  | none =>
      have hleader : offset ≠ 0 ∧ offset ∈ blockLeaders method.body := by
        refine h.resolve_left ?_
        rw [hentry]
        exact Bool.false_ne_true
      simp only [if_pos hleader]

theorem entry_eq_none {offset : Nat} (h : ¬ method.Restarts offset) :
    (handlerEntries method.handlers)[offset]? = none := by
  rw [← Option.not_isSome_iff_eq_none]
  exact fun hsome => h (.inl hsome)

theorem arriveAt_of_not_restarts {offset : Nat} (h : ¬ method.Restarts offset)
    (brought : OperandStack) : method.arriveAt brought offset = brought := by
  have hleader : ¬ (offset ≠ 0 ∧ offset ∈ blockLeaders method.body) :=
    fun hleader => h (.inr hleader)
  simp only [arriveAt, arrive, entry_eq_none h, if_neg hleader]

/-- A new stack that is brought along makes no difference to starting afresh. -/
theorem arriveAt_fresh (offset : Nat) :
    method.arriveAt .fresh offset = method.opening offset := by
  by_cases h : method.Restarts offset
  · exact arriveAt_of_restarts h .fresh
  · rw [arriveAt_of_not_restarts h, opening, entry_eq_none h]

/-! ## Walking -/

variable (pool : ConstantPool)

/-- From any index on a walk is one with some stack brought along. -/
theorem visitsFrom_drop (brought : OperandStack) (code : List Instruction)
    (index : Nat) :
    ∃ later, (method.visitsOver pool brought code).drop index =
        method.visitsOver pool later (code.drop index) ∧
      (index = 0 → later = brought) := by
  induction index generalizing brought code with
  | zero => exact ⟨brought, rfl, fun _ => rfl⟩
  | succ index ih =>
      cases code with
      | nil => exact ⟨brought, rfl, fun _ => rfl⟩
      | cons i rest =>
          obtain ⟨later, hdrop, _⟩ :=
            ih ((method.arriveAt brought i.offset).step i pool method.locals).1 rest
          exact ⟨later, hdrop, fun h => absurd h (Nat.succ_ne_zero index)⟩

/-- Up to an index before which a walk does not start afresh, but perhaps at the very
first instruction, it runs the instructions. -/
theorem visitsFrom_run (brought : OperandStack) {first : Instruction}
    {rest : List Instruction} {index : Nat} {i : Instruction}
    (hindex : (first :: rest)[index]? = some i)
    (hstays : ∀ k j, 0 < k → k ≤ index → (first :: rest)[k]? = some j →
      ¬ method.Restarts j.offset) :
    ∃ visit, (method.visitsOver pool brought (first :: rest))[index]? = some visit ∧
      visit.instruction = i ∧
      visit.stack = (method.arriveAt brought first.offset).run
        ((first :: rest).take index) pool method.locals := by
  induction index generalizing brought first rest with
  | zero =>
      cases hindex
      exact ⟨_, rfl, rfl, rfl⟩
  | succ index ih =>
      cases rest with
      | nil => cases hindex
      | cons second rest =>
          have hsecond : ¬ method.Restarts second.offset :=
            hstays 1 second Nat.one_pos (by omega) rfl
          obtain ⟨visit, hvisit, hinstruction, hstack⟩ :=
            ih ((method.arriveAt brought first.offset).step first pool method.locals).1
              hindex fun k j hpos hle hj => hstays (k + 1) j (by omega) (by omega) hj
          refine ⟨visit, hvisit, hinstruction, ?_⟩
          rw [hstack, arriveAt_of_not_restarts hsecond]
          rfl

/-- The state that is shown at an instruction is made by the block it stands in. -/
theorem visit_of_lastStart {index start : Nat} {i : Instruction}
    (hstart : method.LastStart index start) (hi : method.body[index]? = some i) :
    ∃ visit first, (method.visits pool)[index]? = some visit ∧ visit.instruction = i ∧
      method.body[start]? = some first ∧
      visit.stack = (method.opening first.offset).run
        ((method.body.drop start).take (index - start)) pool method.locals := by
  obtain ⟨brought, hdrop, hfresh⟩ : ∃ later, (method.visits pool).drop start =
      method.visitsOver pool later (method.body.drop start) ∧
        (start = 0 → later = .fresh) :=
    visitsFrom_drop pool .fresh method.body start
  have hle := hstart.le
  have hindex : (method.body.drop start)[index - start]? = some i := by
    rw [List.getElem?_drop, Nat.add_sub_cancel' hle, hi]
  cases hcode : method.body.drop start with
  | nil =>
      rw [hcode] at hindex
      cases hindex
  | cons first rest =>
      have hfirst : method.body[start]? = some first := by
        have hhead : (method.body.drop start)[0]? = some first := by rw [hcode]; rfl
        rw [List.getElem?_drop, Nat.add_zero] at hhead
        exact hhead
      have hstays : ∀ k j, 0 < k → k ≤ index - start → (first :: rest)[k]? = some j →
          ¬ method.Restarts j.offset := by
        intro k j hpos hk hj hrestarts
        rw [← hcode, List.getElem?_drop] at hj
        exact hstart.last (start + k) (by omega) (by omega) ⟨j, hj, hrestarts⟩
      rw [hcode] at hindex hdrop
      obtain ⟨visit, hvisit, hinstruction, hstack⟩ :=
        visitsFrom_run pool brought hindex hstays
      refine ⟨visit, first, ?_, hinstruction, hfirst, ?_⟩
      · rw [← hdrop, List.getElem?_drop, Nat.add_sub_cancel' hle] at hvisit
        exact hvisit
      · -- What was brought along is dropped, or it was the stack of a new walk.
        rw [hstack]
        congr 1
        rcases hstart.starts with hzero | ⟨j, hj, hrestarts⟩
        · rw [hfresh hzero]
          exact arriveAt_fresh first.offset
        · rw [hfirst] at hj
          cases hj
          exact arriveAt_of_restarts hrestarts brought

end Method

/-! ## Methods that share a block -/

/-- Declared variables matter to an instruction only where it stands. -/
theorem Instruction.effect_locals {i : Instruction} {locals locals' : LocalVariables}
    (h : ∀ slot,
      locals.signatureAt? slot i.offset = locals'.signatureAt? slot i.offset)
    (pool : ConstantPool) : i.effect pool locals = i.effect pool locals' := by
  unfold effect localValue
  simp only [h]

theorem OperandStack.run_locals {code : List Instruction}
    {locals locals' : LocalVariables}
    (h : ∀ i ∈ code, ∀ slot,
      locals.signatureAt? slot i.offset = locals'.signatureAt? slot i.offset)
    (stack : OperandStack) (pool : ConstantPool) :
    stack.run code pool locals = stack.run code pool locals' := by
  induction code generalizing stack with
  | nil => rfl
  | cons i rest ih =>
      have hstep : stack.step i pool locals = stack.step i pool locals' := by
        unfold step
        rw [i.effect_locals (h i List.mem_cons_self) pool]
      show (stack.step i pool locals).1.run rest pool locals =
        (stack.step i pool locals').1.run rest pool locals'
      rw [hstep]
      exact ih (fun j hj => h j (List.mem_cons_of_mem i hj)) _

namespace Method

/-- Two methods have the same instructions from one index up to another, start afresh
at the same ones of them and in the same way, and declare the same local variables
where they run. -/
structure AgreeOn (method other : Method) (start index : Nat) : Prop where
  body : ∀ k, start ≤ k → k ≤ index → method.body[k]? = other.body[k]?
  leaders : ∀ k i, start ≤ k → k ≤ index → method.body[k]? = some i →
    (i.offset ∈ blockLeaders method.body ↔ i.offset ∈ blockLeaders other.body)
  entries : ∀ k i, start ≤ k → k ≤ index → method.body[k]? = some i →
    (handlerEntries method.handlers)[i.offset]? =
      (handlerEntries other.handlers)[i.offset]?
  locals : ∀ k i, start ≤ k → k < index → method.body[k]? = some i → ∀ slot,
    method.locals.signatureAt? slot i.offset = other.locals.signatureAt? slot i.offset

variable {method other : Method} {start index : Nat}

theorem AgreeOn.restartsAt_iff (h : method.AgreeOn other start index) {k : Nat}
    (hstart : start ≤ k) (hindex : k ≤ index) :
    method.RestartsAt k ↔ other.RestartsAt k := by
  unfold RestartsAt Restarts
  rw [← h.body k hstart hindex]
  refine exists_congr fun i => and_congr_right fun hi => ?_
  rw [h.entries k i hstart hindex hi, h.leaders k i hstart hindex hi]

theorem AgreeOn.lastStart (h : method.AgreeOn other start index)
    (hstart : method.LastStart index start) : other.LastStart index start where
  le := hstart.le
  starts := hstart.starts.imp_right (h.restartsAt_iff (Nat.le_refl start) hstart.le).1
  last := by
    intro k hlt hle
    rw [← h.restartsAt_iff (Nat.le_of_lt hlt) hle]
    exact hstart.last k hlt hle

/-- The instructions of the block, up to the index. -/
theorem AgreeOn.block (h : method.AgreeOn other start index) :
    (method.body.drop start).take (index - start) =
      (other.body.drop start).take (index - start) := by
  refine List.ext_getElem? fun k => ?_
  rw [List.getElem?_take, List.getElem?_take]
  by_cases hk : k < index - start
  · rw [if_pos hk, if_pos hk, List.getElem?_drop, List.getElem?_drop]
    exact h.body (start + k) (by omega) (by omega)
  · rw [if_neg hk, if_neg hk]

theorem AgreeOn.block_locals (h : method.AgreeOn other start index) {i : Instruction}
    (hi : i ∈ (method.body.drop start).take (index - start)) (slot : UInt16) :
    method.locals.signatureAt? slot i.offset =
      other.locals.signatureAt? slot i.offset := by
  obtain ⟨k, hk⟩ := List.mem_iff_getElem?.1 hi
  rw [List.getElem?_take] at hk
  split at hk
  · next hlt =>
      rw [List.getElem?_drop] at hk
      exact h.locals (start + k) i (by omega) (by omega) hk slot
  · cases hk

/-- What a walk shows at an instruction is decided by the block around it. There is
one last place up to it at which the walk starts afresh, and the stack shown, with its
mark, is what the instructions from there on make of a new one, or of the caught
exception where a handler begins. So another method that agrees from there on shows the
same, whatever it did before. -/
theorem walk_block_local (method : Method) (pool : ConstantPool) {index : Nat}
    {i : Instruction} (hi : method.body[index]? = some i) :
    ∃ start first visit, method.LastStart index start ∧
      (∀ start', method.LastStart index start' → start' = start) ∧
      method.body[start]? = some first ∧
      (method.visits pool)[index]? = some visit ∧ visit.instruction = i ∧
      visit.stack = (method.opening first.offset).run
        ((method.body.drop start).take (index - start)) pool method.locals ∧
      ∀ other, method.AgreeOn other start index →
        ∃ shown, (other.visits pool)[index]? = some shown ∧ shown.instruction = i ∧
          shown.stack = visit.stack := by
  obtain ⟨start, hstart, hunique⟩ := existsUnique_lastStart method index
  obtain ⟨visit, first, hvisit, hinstruction, hfirst, hstack⟩ :=
    visit_of_lastStart pool hstart hi
  refine ⟨start, first, visit, hstart, hunique, hfirst, hvisit, hinstruction, hstack,
    fun other hagree => ?_⟩
  have hle := hstart.le
  have hi' : other.body[index]? = some i := by
    rw [← hagree.body index hle (Nat.le_refl index), hi]
  obtain ⟨shown, first', hshown, hinstruction', hfirst', hstack'⟩ :=
    visit_of_lastStart pool (hagree.lastStart hstart) hi'
  refine ⟨shown, hshown, hinstruction', ?_⟩
  have hsame : first' = first := by
    rw [← hagree.body start (Nat.le_refl start) hle, hfirst] at hfirst'
    exact (Option.some.inj hfirst').symm
  have hopening : other.opening first.offset = method.opening first.offset := by
    unfold opening
    rw [hagree.entries start first (Nat.le_refl start) hle hfirst]
  rw [hstack', hstack, hsame, hopening, ← hagree.block]
  exact (OperandStack.run_locals (fun j hj => hagree.block_locals hj) _ pool).symm

instance (method : Method) (offset : Nat) : Decidable (method.Restarts offset) :=
  inferInstanceAs (Decidable (_ ∨ _))

end Method

/-- Faults at once. The handler begins at an offset that stands twice, and behind it
comes offset zero again. -/
def rethrowing : Method where
  name := "f"
  descriptor := "()V"
  body := [⟨0, .pop, .none⟩, ⟨1, .goto, .branch 5⟩, ⟨5, .athrow, .none⟩,
    ⟨5, .dup, .none⟩, ⟨0, .aconstNull, .none⟩, ⟨6, .dup, .none⟩]
  handlers := [⟨0, 1, 5, some "java/io/IOException"⟩]
  locals := []

/-- Goes to the handler without a fault. -/
def rethrowingValue : Method :=
  { rethrowing with
    body := ⟨0, .aconstNull, .none⟩ :: rethrowing.body.drop 1 }

theorem rethrowing_lastStart : rethrowing.LastStart 5 3 := by
  refine ⟨by decide, .inr ⟨_, rfl, by decide +kernel⟩, ?_⟩
  intro k hlt hle hrestarts
  obtain ⟨i, hi, hrestarts⟩ := hrestarts
  obtain rfl | rfl : k = 4 ∨ k = 5 := by omega
  · cases hi
    revert hrestarts
    decide +kernel
  · cases hi
    revert hrestarts
    decide +kernel

theorem rethrowing_agreeOn : rethrowing.AgreeOn rethrowingValue 3 5 where
  body := by
    intro k hstart hindex
    obtain rfl | rfl | rfl : k = 3 ∨ k = 4 ∨ k = 5 := by omega
    · rfl
    · rfl
    · rfl
  leaders := fun _ _ _ _ _ => Iff.rfl
  entries := fun _ _ _ _ _ => rfl
  locals := fun _ _ _ _ _ _ => rfl

/-- Behind the handler the exception stands twice, below null. That is so in both
methods, though only one of them has faulted before. -/
theorem walk_block_local_rethrowing :
    rethrowing.body[5]? = some ⟨6, .dup, .none⟩ ∧
    ∃ faulted visit shown,
      (rethrowing.visits .empty)[1]? = some faulted ∧ faulted.stack.valid = false ∧
      (rethrowing.visits .empty)[5]? = some visit ∧
      (rethrowingValue.visits .empty)[5]? = some shown ∧
      shown.stack = visit.stack ∧ visit.stack.valid = true ∧
      visit.stack.values.map StackValue.signature =
        ["Ljava/lang/Object;", "Ljava/io/IOException;", "Ljava/io/IOException;"] := by
  have hdup : rethrowing.body[5]? = some ⟨6, .dup, .none⟩ := rfl
  obtain ⟨start, first, visit, _, hunique, hfirst, hvisit, _, hstack, hothers⟩ :=
    Method.walk_block_local rethrowing .empty hdup
  obtain rfl := hunique 3 rethrowing_lastStart
  obtain ⟨shown, hshown, _, hsame⟩ := hothers rethrowingValue rethrowing_agreeOn
  cases hfirst
  refine ⟨hdup, _, visit, shown, rfl, by decide +kernel, hvisit, hshown, hsame, ?_, ?_⟩
  · rw [hstack]
    decide +kernel
  · rw [hstack]
    decide +kernel

end ClassAudit
