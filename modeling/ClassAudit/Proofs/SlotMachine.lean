import ClassAudit.Proofs.KindTyping
import ClassAudit.Proofs.ParallelRuns

/-!
# Stack instructions on machine slots

The manual describes `pop2`, `dup2_x1` and the like by slots: a `long` or a
`double` fills two, any other value one, and an instruction moves one or two slots
past none, one or two others. The operand stack here has values instead, so the
same instruction moves one value or two, and has to look at their kinds to know
how many.

`expand` writes a stack out as slots and `SlotMove` is what the manual says of
them. A move makes sense only if it tears no value apart. If it does not, and there
are enough slots, then the groups of slots that it moves are groups of values
(`exists_groups`), the counts that the effect finds are their sizes
(`groupAt_group`), and moving the values moves the slots.
-/

namespace ClassAudit

/-- One machine slot: all of a value, or one half of a wide one. The upper half is
nearer to the top. -/
inductive Slot
  | whole (value : StackValue)
  | upper (value : StackValue)
  | lower (value : StackValue)
  deriving DecidableEq

def Slot.isLower : Slot → Bool
  | lower _ => true
  | _ => false

/-- The slots of a value: two if the manual gives two to its kind. -/
def StackValue.slots (value : StackValue) : List Slot :=
  if Kind.slots value.kind?.toList = 2 then [.upper value, .lower value]
  else [.whole value]

/-- The slots that values fill, the top first. -/
def expand (values : List StackValue) : List Slot :=
  values.flatMap StackValue.slots

/-- What an instruction does to slots without looking at them. -/
inductive SlotMove
  /-- Drops slots from the top. -/
  | drop (count : Nat)
  /-- Copies slots from the top to below the ones that are skipped. -/
  | copy (copied skipped : Nat)
  /-- Moves the top slot below the next. -/
  | exchange
  deriving DecidableEq

namespace SlotMove

/-- The sizes of the groups of slots that a move keeps together, from the top
down. -/
def groups : SlotMove → List Nat
  | drop count => [count]
  | copy copied skipped => [copied, skipped]
  | exchange => [1, 1]

/-- The slots after a move, unless there are too few. -/
def perform? : SlotMove → List Slot → Option (List Slot)
  | drop count, slots =>
    if slots.length < count then none else some (slots.drop count)
  | copy copied skipped, slots =>
    if slots.length < copied + skipped then none
    else
      some (slots.take copied ++ (slots.drop copied).take skipped ++
        slots.take copied ++ slots.drop (copied + skipped))
  | exchange, first :: second :: rest => some (second :: first :: rest)
  | exchange, _ => none

theorem enough_of_perform? {move : SlotMove} {slots after : List Slot}
    (h : move.perform? slots = some after) : move.groups.sum ≤ slots.length := by
  cases move with
  | drop count | copy copied skipped =>
      rw [perform?] at h
      split at h
      · cases h
      · simp only [groups, List.sum_cons, List.sum_nil]
        omega
  | exchange =>
      match slots, h with
      | first :: second :: rest, _ => simp [groups]

end SlotMove

/-- Whether one of these groups, taken off the slots one after the other, leaves
the lower half of a value behind. -/
def splitsValue : List Nat → List Slot → Bool
  | [], _ => false
  | count :: groups, slots =>
    (slots[count]?).any Slot.isLower || splitsValue groups (slots.drop count)

/-- The move that an instruction makes. -/
def Opcode.slotMove? : Opcode → Option SlotMove
  | pop => some (.drop 1)
  | pop2 => some (.drop 2)
  | swap => some .exchange
  | opcode => opcode.copies?.map fun (copied, skipped) => .copy copied skipped

/-! ## Groups of slots and groups of values -/

theorem expand_cons (v : StackValue) (values : List StackValue) :
    expand (v :: values) = v.slots ++ expand values :=
  List.flatMap_cons

theorem expand_append (values values' : List StackValue) :
    expand (values ++ values') = expand values ++ expand values' :=
  List.flatMap_append

/-- The values that instructions take for wide are those that fill two slots. -/
theorem StackValue.isWide_iff (v : StackValue) :
    v.isWide = true ↔ Kind.slots v.kind?.toList = 2 := by
  rw [isWide]
  cases v.kind? with
  | none => decide
  | some kind => cases kind <;> decide

theorem StackValue.length_slots (v : StackValue) :
    v.slots.length = if v.isWide then 2 else 1 := by
  simp only [slots, v.isWide_iff]
  split <;> rfl

/-- Where no value is torn apart, a cut through the slots is a cut through the
values. -/
theorem exists_group {values : List StackValue} {count : Nat}
    (henough : count ≤ (expand values).length)
    (hwhole : ((expand values)[count]?).any Slot.isLower = false) :
    ∃ top rest, values = top ++ rest ∧ (expand top).length = count := by
  induction values generalizing count with
  | nil =>
      have hzero : count = 0 := Nat.le_zero.1 henough
      exact ⟨[], [], rfl, hzero.symm⟩
  | cons v values ih =>
      by_cases hzero : count = 0
      · exact ⟨[], v :: values, rfl, hzero.symm⟩
      rw [expand_cons] at henough hwhole
      -- A wide value is not cut in the middle, so the cut is behind all of it.
      have hbehind : v.slots.length ≤ count := by
        rw [StackValue.length_slots]
        split
        · next hwide =>
            by_contra hinside
            have hone : count = 1 := by omega
            rw [hone, StackValue.slots, if_pos (v.isWide_iff.1 hwide)] at hwhole
            cases hwhole
        · omega
      rw [List.length_append] at henough
      rw [List.getElem?_append_right hbehind] at hwhole
      obtain ⟨top, rest, rfl, hlength⟩ := ih (by omega) hwhole
      refine ⟨v :: top, rest, rfl, ?_⟩
      rw [expand_cons, List.length_append, hlength]
      omega

theorem exists_groups {groups : List Nat} {values : List StackValue}
    (henough : groups.sum ≤ (expand values).length)
    (hwhole : splitsValue groups (expand values) = false) :
    ∃ (tops : List (List StackValue)) (rest : List StackValue),
      values = tops.flatten ++ rest ∧
        tops.map (fun top => (expand top).length) = groups := by
  induction groups generalizing values with
  | nil => exact ⟨[], values, rfl, rfl⟩
  | cons count groups ih =>
      rw [List.sum_cons] at henough
      rw [splitsValue, Bool.or_eq_false_iff] at hwhole
      obtain ⟨top, rest, rfl, hlength⟩ := exists_group (by omega) hwhole.1
      have hdrop : (expand (top ++ rest)).drop count = expand rest := by
        rw [expand_append, ← hlength, List.drop_left]
      rw [expand_append, List.length_append] at henough
      rw [hdrop] at hwhole
      obtain ⟨tops, rest, rfl, hlengths⟩ := ih (by omega) hwhole.2
      refine ⟨top :: tops, rest, ?_, ?_⟩
      · rw [List.flatten_cons, List.append_assoc]
      · rw [List.map_cons, hlength, hlengths]

theorem StackValue.isWide_getD (v : StackValue) :
    (v.kind?.getD .int).isWide = v.isWide := by
  rw [isWide]
  cases v.kind? <;> rfl

/-- Values fill as many slots as any kinds of the same width. -/
theorem length_expand (values : List StackValue) :
    (expand values).length =
      Kind.slots (values.map fun v => v.kind?.getD .int) := by
  induction values with
  | nil => rfl
  | cons v values ih =>
      rw [expand_cons, List.length_append, StackValue.length_slots, ih,
        List.map_cons, Kind.slots_cons, v.isWide_getD]

theorem eq_nil_of_length_expand {values : List StackValue}
    (h : (expand values).length = 0) : values = [] := by
  rw [length_expand] at h
  exact List.map_eq_nil_iff.1 (Kind.slots_eq_zero h)

theorem exists_of_length_expand {values : List StackValue}
    (h : (expand values).length = 1) : ∃ v, values = [v] := by
  rw [length_expand] at h
  obtain ⟨kind, hkind⟩ := Kind.slots_eq_one h
  obtain ⟨v, hv, _⟩ := List.map_eq_singleton_iff.1 hkind
  exact ⟨v, hv⟩

/-! ## Counting values by slots -/

namespace StackM

/-- How many values fill this many slots, at most two, this far below the top. -/
def groupAt : Nat → Nat → StackM Nat
  | 2, depth => pairAt depth
  | count, _ => return count

theorem groupAt_group (above : List StackValue) {group rest : List StackValue}
    (hgroup : (expand group).length ≤ 2) :
    groupAt (expand group).length above.length (above ++ (group ++ rest)) =
      .ok (group.length, above ++ (group ++ rest)) := by
  match hcount : (expand group).length, hgroup with
  | 0, _ =>
      rw [eq_nil_of_length_expand hcount]
      rfl
  | 1, _ =>
      obtain ⟨v, rfl⟩ := exists_of_length_expand hcount
      rfl
  | 2, _ =>
      rw [length_expand] at hcount
      obtain ⟨kind, kinds, hkinds, hlength⟩ := Kind.length_of_slots_two hcount
      obtain ⟨first, more, rfl, rfl, rfl⟩ := List.map_eq_cons_iff.1 hkinds
      rw [List.length_cons, List.length_map] at hlength
      have henough :
          ¬ (above ++ (first :: more ++ rest)).length < above.length + 1 := by
        simp
      have hfirst :
          (above ++ (first :: more ++ rest))[above.length]? = some first := by
        simp
      rw [groupAt, pairAt_eq, if_neg henough, hfirst, Option.any_some,
        List.length_cons, hlength, first.isWide_getD]

theorem duplicate_groups (copied skipped rest : List StackValue) :
    duplicate copied.length skipped.length (copied ++ (skipped ++ rest)) =
      .ok ((), copied ++ skipped ++ copied ++ rest) := by
  have henough : ¬ (copied ++ (skipped ++ rest)).length <
      copied.length + skipped.length := by
    rw [List.length_append, List.length_append]
    omega
  rw [duplicate_eq, if_neg henough, List.take_left, ← List.append_assoc copied,
    ← List.length_append, List.take_left, List.drop_left,
    List.append_assoc (copied ++ skipped)]

theorem drop_group (top rest : List StackValue) :
    drop top.length (top ++ rest) = .ok ((), rest) := by
  have henough : ¬ (top ++ rest).length < top.length := by
    rw [List.length_append]
    omega
  rw [drop_eq, if_neg henough, List.drop_left]

end StackM

/-! ## The instructions -/

section Instructions

variable {pool : ConstantPool} {locals : LocalVariables} {i : Instruction}

/-- An instruction that drops slots finds out how many values they are. -/
theorem effect_of_drop {count : Nat}
    (h : i.opcode.slotMove? = some (.drop count)) :
    count ≤ 2 ∧
      i.effect pool locals = StackM.groupAt count 0 >>= StackM.drop := by
  cases hop : i.opcode with
  | pop =>
      rw [hop] at h
      cases h
      simp only [Instruction.effect, hop]
      refine ⟨by omega, ?_⟩
      funext values
      cases values <;> rfl
  | pop2 =>
      rw [hop] at h
      cases h
      simp only [Instruction.effect, hop]
      exact ⟨by omega, rfl⟩
  | _ =>
      rw [hop] at h
      cases h

/-- An instruction that copies slots finds out how many values are copied, then
how many are skipped. -/
theorem effect_of_copy {copied skipped : Nat}
    (h : i.opcode.slotMove? = some (.copy copied skipped)) :
    copied ≤ 2 ∧ skipped ≤ 2 ∧ i.effect pool locals =
      StackM.groupAt copied 0 >>= fun count =>
        StackM.groupAt skipped count >>= fun below =>
          StackM.duplicate count below := by
  cases hop : i.opcode with
  | dup | dupX1 | dupX2 | dup2 | dup2X1 | dup2X2 =>
      rw [hop] at h
      cases h
      simp only [Instruction.effect, hop]
      exact ⟨by omega, by omega, rfl⟩
  | _ =>
      rw [hop] at h
      cases h

theorem effect_drop_group {top rest : List StackValue}
    (h : i.opcode.slotMove? = some (.drop (expand top).length)) :
    i.effect pool locals (top ++ rest) = .ok ((), rest) := by
  obtain ⟨hsmall, heffect⟩ := effect_of_drop h
  rw [heffect, StackM.bind_apply]
  rw [show StackM.groupAt (expand top).length 0 (top ++ rest) =
      .ok (top.length, top ++ rest) from StackM.groupAt_group [] hsmall]
  exact StackM.drop_group top rest

theorem effect_copy_groups {copied skipped rest : List StackValue}
    (h : i.opcode.slotMove? =
      some (.copy (expand copied).length (expand skipped).length)) :
    i.effect pool locals (copied ++ (skipped ++ rest)) =
      .ok ((), copied ++ skipped ++ copied ++ rest) := by
  obtain ⟨hcopied, hskipped, heffect⟩ := effect_of_copy h
  rw [heffect, StackM.bind_apply]
  rw [show StackM.groupAt (expand copied).length 0 (copied ++ (skipped ++ rest)) =
      .ok (copied.length, copied ++ (skipped ++ rest)) from
    StackM.groupAt_group [] hcopied]
  show (StackM.groupAt (expand skipped).length copied.length >>= fun below =>
    StackM.duplicate copied.length below) (copied ++ (skipped ++ rest)) = _
  rw [StackM.bind_apply, StackM.groupAt_group copied hskipped]
  exact StackM.duplicate_groups copied skipped rest

theorem effect_exchange {v w : StackValue} {rest : List StackValue}
    (h : i.opcode.slotMove? = some .exchange) :
    i.effect pool locals (v :: w :: rest) = .ok ((), w :: v :: rest) := by
  cases hop : i.opcode with
  | swap =>
      simp only [Instruction.effect, hop]
      rfl
  | _ =>
      rw [hop] at h
      cases h

/-- On whole groups the effect is the move. -/
theorem effect_refines_move (pool : ConstantPool) (locals : LocalVariables)
    {move : SlotMove} (hmove : i.opcode.slotMove? = some move)
    {values : List StackValue} {slots : List Slot}
    (happly : move.perform? (expand values) = some slots)
    (hwhole : splitsValue move.groups (expand values) = false) :
    ∃ values', i.effect pool locals values = .ok ((), values') ∧
      expand values' = slots := by
  obtain ⟨tops, rest, rfl, hlengths⟩ :=
    exists_groups (SlotMove.enough_of_perform? happly) hwhole
  cases move with
  | drop count =>
      obtain ⟨top, rfl, rfl⟩ := List.map_eq_singleton_iff.1 hlengths
      rw [SlotMove.perform?] at happly
      split at happly
      · cases happly
      · cases happly
        rw [List.flatten_singleton]
        refine ⟨rest, effect_drop_group hmove, ?_⟩
        rw [expand_append, List.drop_left]
  | copy copied skipped =>
      obtain ⟨top, tops, rfl, rfl, htops⟩ := List.map_eq_cons_iff.1 hlengths
      obtain ⟨next, rfl, rfl⟩ := List.map_eq_singleton_iff.1 htops
      rw [SlotMove.perform?] at happly
      split at happly
      · cases happly
      · cases happly
        rw [List.flatten_cons, List.flatten_singleton, List.append_assoc]
        refine ⟨_, effect_copy_groups hmove, ?_⟩
        rw [expand_append top, expand_append next, List.take_left, List.drop_left,
          List.take_left, ← List.append_assoc, ← List.length_append, List.drop_left,
          expand_append, expand_append, expand_append]
  | exchange =>
      obtain ⟨top, tops, rfl, htop, htops⟩ := List.map_eq_cons_iff.1 hlengths
      obtain ⟨next, rfl, hnext⟩ := List.map_eq_singleton_iff.1 htops
      obtain ⟨v, rfl⟩ := exists_of_length_expand htop
      obtain ⟨w, rfl⟩ := exists_of_length_expand hnext
      obtain ⟨first, hfirst⟩ := List.length_eq_one_iff.1 htop
      obtain ⟨second, hsecond⟩ := List.length_eq_one_iff.1 hnext
      rw [List.flatten_cons, List.flatten_singleton, List.append_assoc,
        expand_append, expand_append, hfirst, hsecond] at happly
      cases happly
      refine ⟨[w] ++ ([v] ++ rest), effect_exchange hmove, ?_⟩
      rw [expand_append, expand_append, hfirst, hsecond]
      rfl

end Instructions

/-- If a stack has the slots that a move takes and none of the groups it moves
tears a value apart, the instruction raises no fault, and the slots of the stack
that it leaves are those that the move leaves. -/
theorem stack_moves_refine_slots (pool : ConstantPool) (locals : LocalVariables)
    {i : Instruction} {move : SlotMove} (hmove : i.opcode.slotMove? = some move)
    (stack : OperandStack) {slots : List Slot}
    (happly : move.perform? (expand stack.values) = some slots)
    (hwhole : splitsValue move.groups (expand stack.values) = false) :
    ∃ values, stack.step i pool locals = (⟨values, stack.valid⟩, none) ∧
      expand values = slots := by
  obtain ⟨values, heffect, hslots⟩ :=
    effect_refines_move pool locals hmove happly hwhole
  refine ⟨values, ?_, hslots⟩
  rw [OperandStack.step, heffect]

/-- `dup2_x2` with two narrow values to copy and a `double` to skip: four slots, but
three values. -/
theorem stack_moves_refine_slots_mixed :
    Opcode.dup2X2.slotMove? = some (.copy 2 2) ∧
    (SlotMove.copy 2 2).perform?
        (expand [.typed "I", .ofConstant (.int 7), .typed "D", .typed "J"]) =
      some (expand [.typed "I", .ofConstant (.int 7), .typed "D", .typed "I",
        .ofConstant (.int 7), .typed "J"]) ∧
    splitsValue (SlotMove.copy 2 2).groups
      (expand [.typed "I", .ofConstant (.int 7), .typed "D", .typed "J"]) = false ∧
    ∃ values, (OperandStack.mk
        [.typed "I", .ofConstant (.int 7), .typed "D", .typed "J"] true).step
          ⟨0, .dup2X2, .none⟩ .empty [] = (⟨values, true⟩, none) ∧
      expand values = expand [.typed "I", .ofConstant (.int 7), .typed "D",
        .typed "I", .ofConstant (.int 7), .typed "J"] := by
  have happly : (SlotMove.copy 2 2).perform?
      (expand [.typed "I", .ofConstant (.int 7), .typed "D", .typed "J"]) =
        some (expand [.typed "I", .ofConstant (.int 7), .typed "D", .typed "I",
          .ofConstant (.int 7), .typed "J"]) := by
    decide +kernel
  have hwhole : splitsValue (SlotMove.copy 2 2).groups
      (expand [.typed "I", .ofConstant (.int 7), .typed "D", .typed "J"]) = false := by
    decide +kernel
  exact ⟨rfl, happly, hwhole,
    stack_moves_refine_slots .empty [] rfl ⟨_, true⟩ happly hwhole⟩

end ClassAudit
