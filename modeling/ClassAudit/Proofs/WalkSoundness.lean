import ClassAudit.Proofs.BasicBlocks
import ClassAudit.Proofs.EffectTracking
import ClassAudit.Proofs.SharedHandlers
import Mathlib.Data.List.Nodup

/-!
# A walk shows what is there

Whenever a run of a method stands at an instruction, what the walk shows before
that instruction is true: the stack shown is no deeper than the one there, and
entry by entry, from the top, a shown value has the kind of the concrete one, a
shown constant is its value, and what is shown as null is null.

The invariant is `Shown`: every stop at the offset of a state covers its stack.
A run can come to an offset in four ways. To a handler it comes with one
reference, which is what the stop there shows. To the start of a block it may
come from anywhere, and nothing is shown. At offset zero stands the first
instruction and no other, and nothing is shown either. Anywhere else it can only
come from the instruction before (`Goes.leader_or_follows`), and then the walk
did the same: its stop there is the one before it, one effect later.
-/

namespace ClassAudit

open Machine

/-! ## Stops of a walk -/

namespace Method

section Stops

variable {leaders : Std.TreeSet Nat}
  {entries : Std.TreeMap Nat (Option String)} {pool : ConstantPool}
  {locals : LocalVariables}

theorem visitsFrom_instructions (stack : OperandStack)
    (body : List Instruction) :
    (visitsFrom leaders entries pool locals stack body).map Visit.instruction =
      body := by
  induction body generalizing stack with
  | nil => rfl
  | cons i rest ih => rw [visitsFrom, List.map_cons, ih]

/-- Two stops in a row: the walk arrives at the second with what the first
instruction left. -/
theorem visitsFrom_follows (stack : OperandStack) {body : List Instruction}
    {i j : Instruction} (hj : Follows body i j) :
    ∃ v ∈ visitsFrom leaders entries pool locals stack body,
      ∃ w ∈ visitsFrom leaders entries pool locals stack body,
        v.instruction = i ∧ w.instruction = j ∧
        w.stack = arrive leaders entries (v.stack.step i pool locals).1
          j.offset := by
  obtain ⟨before, after, rfl⟩ := hj
  induction before generalizing stack with
  | nil =>
      refine ⟨_, List.mem_cons_self, _,
        List.mem_cons_of_mem _ List.mem_cons_self, rfl, rfl, rfl⟩
  | cons first before ih =>
      obtain ⟨v, hv, w, hw, hrest⟩ := ih
        ((arrive leaders entries stack first.offset).step first pool locals).1
      exact ⟨v, List.mem_cons_of_mem _ hv, w, List.mem_cons_of_mem _ hw, hrest⟩

end Stops

variable {method : Method} {pool : ConstantPool}

/-- A walk stops once at each instruction. -/
theorem visits_instructions (method : Method) (pool : ConstantPool) :
    (method.visits pool).map Visit.instruction = method.body :=
  visitsFrom_instructions _ _

theorem visits_follows (pool : ConstantPool) {i j : Instruction}
    (hj : Follows method.body i j) :
    ∃ v ∈ method.visits pool, ∃ w ∈ method.visits pool,
      v.instruction = i ∧ w.instruction = j ∧
      w.stack = arrive (blockLeaders method.body)
        (handlerEntries method.handlers)
        (v.stack.step i pool method.locals).1 j.offset :=
  visitsFrom_follows .fresh hj

theorem exists_visit (pool : ConstantPool) {i : Instruction} (hi : i ∈ method.body) :
    ∃ visit ∈ method.visits pool, visit.instruction = i := by
  rw [← visits_instructions method pool] at hi
  exact List.mem_map.1 hi

/-- An offset names at most one stop. -/
theorem visit_unique {code : List UInt8} (hcode : decode code = .ok method.body)
    {v w : Visit} (hv : v ∈ method.visits pool) (hw : w ∈ method.visits pool)
    (h : v.instruction.offset = w.instruction.offset) : v = w := by
  have hnodup := decode_offsets_nodup hcode
  rw [← visits_instructions method pool, List.map_map] at hnodup
  exact List.inj_on_of_nodup_map hnodup hv hw h

/-- The stack at a stop is what the walk arrives with, whichever it brought. -/
theorem visitsFrom_arrive {leaders : Std.TreeSet Nat}
    {entries : Std.TreeMap Nat (Option String)} {locals : LocalVariables}
    {stack : OperandStack} {body : List Instruction} {visit : Visit}
    (hv : visit ∈ visitsFrom leaders entries pool locals stack body) :
    ∃ brought, visit.stack =
      arrive leaders entries brought visit.instruction.offset := by
  induction body generalizing stack with
  | nil => cases hv
  | cons i rest ih =>
      rcases List.mem_cons.1 hv with rfl | hv
      · exact ⟨stack, rfl⟩
      · exact ih hv

end Method

theorem caught_covers (catchType : Option String) (r : Reference) :
    Covers (OperandStack.caught catchType).values [.reference r] := by
  refine .cons (StackValue.describes_typed
    (?_ : Kind.ofSignature? _ = some .reference) rfl) (.nil [])
  cases catchType with
  | none => decide
  | some name => exact ofSignature?_signatureOfName name

/-- An instruction that completes leaves a stack that the next stop may show. -/
theorem step_covers {pool : ConstantPool} (hpool : pool.WellFormed)
    (locals : LocalVariables) {i : Instruction}
    {operands results rest : List Value} (hy : Yields pool i operands results)
    {stack : OperandStack} (h : Covers stack.values (operands ++ rest)) :
    Covers (stack.step i pool locals).1.values (results ++ rest) := by
  unfold OperandStack.step
  split
  · next values heffect =>
      obtain ⟨stack', hcovers, rfl⟩ :=
        effect_tracks hpool locals hy rest _ h _ _ heffect
      exact hcovers
  · exact .nil _

/-! ## Runs -/

/-- A run that falls through an instruction. -/
theorem Machine.Reaches.fall {pool : ConstantPool} {method : Method}
    {i j : Instruction} {operands results : List Value} (rest : List Value)
    (hrun : Reaches pool method ⟨i.offset, operands ++ rest⟩)
    (hy : Yields pool i operands results) (hf : fallsThrough i.opcode = true)
    (hj : Follows method.body i j)
    (halone : EntersAlone method ⟨j.offset, results ++ rest⟩) :
    Reaches pool method ⟨j.offset, results ++ rest⟩ :=
  .step hrun (.complete hj.mem hy ⟨.next, .next hf hj⟩) halone

/-- What the walk shows at a state is true of it. -/
def Shown (pool : ConstantPool) (method : Method) (state : State) : Prop :=
  ∀ visit ∈ method.visits pool, visit.instruction.offset = state.offset →
    Covers visit.stack.values state.stack

section Runs

variable {pool : ConstantPool} {method : Method} {state : State}

theorem shown_handler (halone : EntersAlone method state)
    (hentry : ∃ handler ∈ method.handlers, handler.entry = state.offset) :
    Shown pool method state := by
  intro visit hvisit hat
  obtain ⟨handler, hhandler, hoffset⟩ := hentry
  obtain ⟨r, hr⟩ := halone handler hhandler hoffset
  obtain ⟨brought, hstack⟩ := Method.visitsFrom_arrive hvisit
  have hsome : ((handlerEntries method.handlers)[state.offset]?).isSome :=
    handlerEntries_isSome_iff.2 ⟨handler, hhandler, hoffset⟩
  obtain ⟨catchType, hcatch⟩ := Option.isSome_iff_exists.1 hsome
  rw [hstack, hat, Method.arrive, hcatch, hr]
  exact caught_covers catchType r

theorem handlerEntries_eq_none {offset : Nat}
    (h : ¬ ∃ handler ∈ method.handlers, handler.entry = offset) :
    (handlerEntries method.handlers)[offset]? = none := by
  rw [← Option.not_isSome_iff_eq_none, handlerEntries_isSome_iff]
  exact h

theorem shown_leader
    (hentry : ¬ ∃ handler ∈ method.handlers, handler.entry = state.offset)
    (hzero : state.offset ≠ 0)
    (hleader : state.offset ∈ blockLeaders method.body) :
    Shown pool method state := by
  intro visit hvisit hat
  obtain ⟨brought, hstack⟩ := Method.visitsFrom_arrive hvisit
  rw [hstack, hat, Method.arrive, handlerEntries_eq_none hentry]
  simp only [if_pos (And.intro hzero hleader)]
  exact .nil _

theorem shown_zero {code : List UInt8} (hcode : decode code = .ok method.body)
    (hentry : ¬ ∃ handler ∈ method.handlers, handler.entry = state.offset)
    (hzero : state.offset = 0) : Shown pool method state := by
  intro visit hvisit hat
  cases hbody : method.body with
  | nil =>
      rw [Method.visits, hbody] at hvisit
      cases hvisit
  | cons first rest =>
      rw [hbody] at hcode
      have hfirst := decode_head hcode
      have hmem : ∃ v ∈ method.visits pool, v.instruction = first ∧
          v.stack = Method.arrive (blockLeaders method.body)
            (handlerEntries method.handlers) .fresh first.offset := by
        rw [Method.visits, hbody]
        exact ⟨_, List.mem_cons_self, rfl, rfl⟩
      obtain ⟨v, hv, hinstruction, hstack⟩ := hmem
      rw [← hbody] at hcode
      have hsame : visit = v := by
        refine Method.visit_unique hcode hvisit hv ?_
        rw [hinstruction, hfirst, hat, hzero]
      rw [hsame, hstack, hfirst, Method.arrive, ← hzero,
        handlerEntries_eq_none hentry]
      simp only [hzero, ne_eq, not_true_eq_false, false_and, if_false]
      exact .nil _

/-- Between two offsets with no block starting at the second, the walk went the
same way as the run. -/
theorem shown_next {code : List UInt8} (hcode : decode code = .ok method.body)
    (hpool : pool.WellFormed) {i j : Instruction}
    {operands results rest : List Value}
    (hbefore : Shown pool method ⟨i.offset, operands ++ rest⟩)
    (hy : Yields pool i operands results) (hj : Follows method.body i j)
    (hentry : ¬ ∃ handler ∈ method.handlers, handler.entry = j.offset)
    (hleader : j.offset ∉ blockLeaders method.body) :
    Shown pool method ⟨j.offset, results ++ rest⟩ := by
  intro visit hvisit hat
  obtain ⟨v, hv, w, hw, hi, hinstruction, hstack⟩ :=
    Method.visits_follows pool hj
  have hsame : visit = w := by
    refine Method.visit_unique hcode hvisit hw ?_
    rw [hinstruction, hat]
  have harrive : w.stack = (v.stack.step i pool method.locals).1 := by
    rw [hstack, Method.arrive, handlerEntries_eq_none hentry]
    simp only [hleader, and_false, if_false]
  rw [hsame, harrive]
  exact step_covers hpool method.locals hy (hbefore v hv (by rw [hi]))

/-- One step keeps what is shown true. -/
theorem shown_step {code : List UInt8} (hcode : decode code = .ok method.body)
    (hpool : pool.WellFormed) {state' : State}
    (hbefore : Shown pool method state) (hstep : Step pool method state state')
    (halone : EntersAlone method state') : Shown pool method state' := by
  by_cases hentry : ∃ handler ∈ method.handlers,
      handler.entry = state'.offset
  · exact shown_handler halone hentry
  · cases hstep with
    | raise _ hhandler => exact absurd ⟨_, hhandler, rfl⟩ hentry
    | @complete i operands results rest offset hi hy hg =>
        by_cases hzero : offset = 0
        · exact shown_zero hcode hentry hzero
        · by_cases hleader : offset ∈ blockLeaders method.body
          · exact shown_leader hentry hzero hleader
          · rcases hg.leader_or_follows hcode with h | ⟨j, hj, rfl⟩
            · exact absurd h hleader
            · exact shown_next hcode hpool hbefore hy hj hentry hleader

/-- Whatever a run comes to, what is shown there is true. -/
theorem reaches_shown {code : List UInt8} (hcode : decode code = .ok method.body)
    (hpool : pool.WellFormed) (hrun : Reaches pool method state) :
    Shown pool method state := by
  induction hrun with
  | start halone =>
      refine shown_zero hcode ?_ rfl
      rintro ⟨handler, hhandler, hoffset⟩
      obtain ⟨r, hr⟩ := halone handler hhandler hoffset
      cases hr
  | step _ hstep halone ih => exact shown_step hcode hpool ih hstep halone

/-- The stack that a walk shows before an instruction describes the one with
which any run stands there. -/
theorem walk_describes_runs {code : List UInt8} {i : Instruction}
    (hcode : decode code = .ok method.body) (hpool : pool.WellFormed)
    (hrun : Reaches pool method state) (hi : i ∈ method.body)
    (hat : i.offset = state.offset) :
    ∃ visit ∈ method.visits pool, visit.instruction = i ∧
      (∀ other ∈ method.visits pool,
        other.instruction.offset = state.offset → other = visit) ∧
      visit.stack.depth ≤ state.stack.length ∧
      ∀ depth shown, visit.stack.itemAt? depth = some shown →
        ∃ v, state.stack[depth]? = some v ∧ shown.Describes v := by
  obtain ⟨visit, hvisit, rfl⟩ := Method.exists_visit pool hi
  have hcovers := reaches_shown hcode hpool hrun visit hvisit hat
  refine ⟨visit, hvisit, rfl, fun other hother hoffset => ?_,
    hcovers.length_le, fun depth shown hshown => hcovers.getElem? hshown⟩
  exact Method.visit_unique hcode hother hvisit (by rw [hoffset, hat])

end Runs

/-- Divides one by zero, with null below. -/
def dividing : Method where
  name := "f"
  descriptor := "()V"
  body := [⟨0, .aconstNull, .none⟩, ⟨1, .iconst ⟨2, by decide⟩, .none⟩,
    ⟨2, .iconst ⟨1, by decide⟩, .none⟩, ⟨3, .arithmetic .div .int, .none⟩,
    ⟨4, .voidReturn, .none⟩]
  handlers := [⟨0, 4, 4, some "java/lang/Error"⟩]
  locals := []

theorem dividing_decoded :
    decode [0x01, 0x04, 0x03, 0x6c, 0xb1] = .ok dividing.body :=
  decode_of_toOption (by decide +kernel)

theorem dividing_reaches (pool : ConstantPool) :
    Reaches pool dividing ⟨3, [.int 0, .int 1, .reference .null]⟩ := by
  have halone : ∀ (offset : Nat) (stack : List Value), offset ≠ 4 →
      EntersAlone dividing ⟨offset, stack⟩ := by
    intro offset stack hne handler hhandler hentry
    rw [List.mem_singleton.1 hhandler] at hentry
    exact absurd hentry.symm hne
  have h0 : Reaches pool dividing ⟨0, []⟩ := .start (halone _ _ (by decide))
  have h1 := h0.fall (i := ⟨0, .aconstNull, .none⟩) [] (.null rfl) rfl
    ⟨[], _, rfl⟩ (halone 1 _ (by decide))
  have h2 := h1.fall (i := ⟨1, .iconst ⟨2, by decide⟩, .none⟩)
    [.reference .null] (.iconst rfl) rfl ⟨[_], _, rfl⟩
    (halone 2 _ (by decide))
  exact h2.fall (i := ⟨2, .iconst ⟨1, by decide⟩, .none⟩)
    [.int 1, .reference .null] (.iconst rfl) rfl ⟨[_, _], _, rfl⟩
    (halone 3 _ (by decide))

theorem ConstantPool.empty_wellFormed : ConstantPool.empty.WellFormed where
  member := fun _ _ h => nomatch h
  invokeDynamic := fun _ _ h => nomatch h
  dynamic := fun _ _ h => nomatch h

/-- Before it divides, the walk shows all three values. -/
theorem walk_describes_dividing :
    Reaches .empty dividing ⟨3, [.int 0, .int 1, .reference .null]⟩ ∧
      ∃ visit ∈ dividing.visits .empty,
        visit.instruction = ⟨3, .arithmetic .div .int, .none⟩ ∧
        (∀ other ∈ dividing.visits .empty,
          other.instruction.offset = 3 → other = visit) ∧
        visit.stack.depth ≤ 3 ∧
        ∀ depth shown, visit.stack.itemAt? depth = some shown →
          ∃ v, [Value.int 0, .int 1, .reference .null][depth]? = some v ∧
            shown.Describes v :=
  ⟨dividing_reaches .empty,
    walk_describes_runs dividing_decoded ConstantPool.empty_wellFormed
      (dividing_reaches .empty) (by decide) rfl⟩

end ClassAudit
