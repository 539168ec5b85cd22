import ClassAudit.Proofs.DecodeFaults
import ClassAudit.Proofs.LayoutDecoding
import ClassAudit.ControlFlow
import Mathlib.Data.List.Chain

/-!
# Instructions tile their code

What decoding accepts lies in the code without gaps and without overlaps, from its
first byte to its last. Offsets are therefore a matter of lengths, and the length of
an instruction is known from the format: its opcode tells, the number of targets and
the place of a switch, and whether there is a `wide` in front of it.

No instruction is spelled by the first bytes of another one, for a reader that has
found all it needs never looks whether there is more (`Encoded.prefix_unique`). So
code that is cut off at the end of an instruction is the code of those before it, and
cut off anywhere else it is no code at all.
-/

namespace ClassAudit

/-! ## Lengths -/

/-- The layout that the format gives to an opcode. -/
def Opcode.formatLayout (opcode : Opcode) : OperandLayout :=
  ((format? opcode.toNat).map Prod.snd).getD .empty

/-- How many bytes of operands follow an opcode at `offset`. For a switch they depend
on how many bytes align it, and on its targets, the default among them. -/
def OperandLayout.width (offset targets : Nat) : OperandLayout → Nat
  | .empty | .widened => 0
  | .literal8 | .pool8 | .slot8 | .elementType => 1
  | .literal16 | .pool16 | .increment8 | .branch16 => 2
  | .multiArray => 3
  | .poolPadded | .branch32 => 4
  | .tableswitch => (3 - offset % 4) + 8 + 4 * targets
  | .lookupswitch => (3 - offset % 4) + 8 * targets

/-- How many bytes of the code an instruction takes. That a `wide` stands in front of
it shows nowhere but in the code. -/
def Instruction.lengthIn (code : List UInt8) (i : Instruction) : Nat :=
  if code[i.offset]? = some Opcode.wide.toByte then
    if i.opcode.formatLayout = .increment8 then 6 else 4
  else 1 + i.opcode.formatLayout.width i.offset i.targets.length

theorem formatLayout_of_format {opcode : Opcode} {layout : OperandLayout}
    (h : format? opcode.toNat = some (opcode.mnemonic, layout)) :
    opcode.formatLayout = layout := by
  rw [Opcode.formatLayout, h]
  rfl

theorem Aligns.length_eq {offset : Nat} {pad : List UInt8} (h : Aligns offset pad) :
    pad.length = 3 - offset % 4 := by
  unfold Aligns at h
  omega

theorem Fields.length_eq {offset : Nat} {layout : OperandLayout} {opcode : Opcode}
    {operands : Operands} {fields : List UInt8}
    (h : Fields offset layout operands fields) :
    fields.length =
      layout.width offset (Instruction.mk offset opcode operands).targets.length := by
  cases h with
  | tableswitch aligns default low high cases range lands land =>
      have hland := land.length_eq
      rw [Decode.length_tableswitch, aligns.length_eq, OperandLayout.width,
        Instruction.targets, List.length_cons]
      omega
  | lookupswitch aligns default count cases counted lands land =>
      have hland := land.length_eq
      rw [Decode.length_lookupswitch, aligns.length_eq, OperandLayout.width,
        Instruction.targets, List.length_cons]
      omega
  | _ => rfl

theorem Lands.targets_lt {α : Type} {offset : Nat} {distance : α → Int}
    {cases : List α} {targets : List Nat}
    (h : cases.Forall₂ (fun case => Lands offset (distance case)) targets) :
    ∀ target ∈ targets, target < UInt32.size := by
  induction h with
  | nil => exact List.forall_mem_nil _
  | cons first _ ih => exact List.forall_mem_cons.2 ⟨first.2, ih⟩

theorem Fields.targets_lt {offset : Nat} {layout : OperandLayout}
    {opcode : Opcode} {operands : Operands} {fields : List UInt8}
    (h : Fields offset layout operands fields) :
    ∀ target ∈ (Instruction.mk offset opcode operands).targets,
      target < UInt32.size := by
  cases h with
  | branch16 _ lands | branch32 _ lands => exact List.forall_mem_singleton.2 lands.2
  | tableswitch _ _ _ _ _ _ lands land | lookupswitch _ _ _ _ _ lands land =>
      exact List.forall_mem_cons.2 ⟨lands.2, Lands.targets_lt land⟩
  | _ => exact List.forall_mem_nil _

theorem Opcode.toByte_injective : Function.Injective Opcode.toByte := by
  intro a b h
  rw [← Opcode.ofByte_toByte a, h, Opcode.ofByte_toByte]

namespace Encoded

variable {offset : Nat} {i j : Instruction} {bytes bytes' : List UInt8}

theorem offset_eq (h : Encoded offset i bytes) : i.offset = offset := by
  cases h <;> rfl

theorem opcode_ne_wide (h : Encoded offset i bytes) : i.opcode ≠ .wide := by
  intro hwide
  cases h with
  | @plain opcode layout operands fields format spelled =>
      obtain rfl : opcode = .wide := hwide
      rw [← Decode.layout_of_format format] at spelled
      cases spelled
  | @wideSlot opcode format index =>
      obtain rfl : opcode = .wide := hwide
      cases Decode.layout_of_format format
  | @wideIncrement opcode format index delta =>
      obtain rfl : opcode = .wide := hwide
      cases Decode.layout_of_format format

theorem length_pos (h : Encoded offset i bytes) : 0 < bytes.length := by
  cases h <;> simp

theorem append_ne_nil (h : Encoded offset i bytes) (more : List UInt8) :
    bytes ++ more ≠ [] := by
  intro hnil
  have hpos := h.length_pos
  rw [(List.append_eq_nil_iff.1 hnil).1] at hpos
  exact absurd hpos (Nat.lt_irrefl 0)

/-- An instruction is as long as the bytes that spell it. -/
theorem length_eq {front : List UInt8} (h : Encoded front.length i bytes)
    (more : List UInt8) : i.lengthIn (front ++ (bytes ++ more)) = bytes.length := by
  have hne := h.opcode_ne_wide
  cases h with
  | @plain opcode layout operands fields format spelled =>
      have hbyte : (front ++ (opcode.toByte :: fields ++ more))[front.length]? =
          some opcode.toByte := by simp
      have hwide : opcode.toByte ≠ Opcode.wide.toByte :=
        fun h => hne (Opcode.toByte_injective h)
      rw [Instruction.lengthIn, hbyte, if_neg (by simpa using hwide),
        formatLayout_of_format format, ← spelled.length_eq, List.length_cons]
      omega
  | @wideSlot opcode format index =>
      rw [Instruction.lengthIn, if_pos (by simp), formatLayout_of_format format]
      rfl
  | @wideIncrement opcode format index delta =>
      rw [Instruction.lengthIn, if_pos (by simp), formatLayout_of_format format]
      rfl

theorem targets_lt (h : Encoded offset i bytes) :
    ∀ target ∈ i.targets, target < UInt32.size := by
  cases h with
  | plain _ spelled => exact spelled.targets_lt
  | wideSlot | wideIncrement => exact List.forall_mem_nil _

/-- Of two instructions that stand in one place, none begins the other. Both are read
there, so the reader finds them to be one. -/
theorem prefix_unique (h : Encoded offset i bytes) (h' : Encoded offset j bytes')
    {more more' : List UInt8} (heq : bytes ++ more = bytes' ++ more') :
    i = j ∧ bytes = bytes' := by
  obtain ⟨byte, behind, rfl, hread⟩ := Decode.instruction_eq h more
  obtain ⟨byte', behind', rfl, hread'⟩ := Decode.instruction_eq h' more'
  rw [List.cons_append, List.cons_append] at heq
  obtain ⟨rfl, hbehind⟩ := List.cons.inj heq
  rw [hbehind, hread', Except.ok.injEq, Prod.mk.injEq] at hread
  obtain ⟨rfl, hlength⟩ := hread
  exact ⟨rfl, by rw [List.append_inj_left hbehind hlength.symm]⟩

end Encoded

/-! ## Bodies -/

namespace LaidOut

variable {offset k : Nat} {i : Instruction} {body before : List Instruction}
  {bytes more code : List UInt8}

theorem nil_iff : LaidOut offset body [] ↔ body = [] := by
  constructor
  · intro h
    generalize hcode : ([] : List UInt8) = code at h
    cases h with
    | nil => rfl
    | cons first _ => exact absurd hcode.symm (first.append_ne_nil _)
  · rintro rfl
    exact .nil

/-- What starts with an instruction is laid out as that instruction and what is laid
out behind it. -/
theorem append_iff (hi : Encoded offset i bytes) :
    LaidOut offset body (bytes ++ more) ↔
      ∃ rest, body = i :: rest ∧ LaidOut (offset + bytes.length) rest more := by
  constructor
  · intro h
    generalize hcode : bytes ++ more = code at h
    cases h with
    | nil => exact absurd hcode (hi.append_ne_nil more)
    | @cons _ j bytes' more' rest first hrest =>
        obtain ⟨rfl, rfl⟩ := hi.prefix_unique first hcode
        rw [List.append_cancel_left hcode]
        exact ⟨rest, rfl, hrest⟩
  · rintro ⟨rest, rfl, hrest⟩
    exact .cons hi hrest

/-- Nothing is laid out in the first bytes of an instruction. -/
theorem not_take (hi : Encoded offset i bytes) (hpos : 0 < k)
    (hk : k < bytes.length) : ¬ LaidOut offset before (bytes.take k) := by
  intro h
  have hlength : (bytes.take k).length = k := by
    rw [List.length_take]
    omega
  generalize hcode : bytes.take k = code at h
  cases h with
  | nil =>
      rw [hcode, List.length_nil] at hlength
      omega
  | @cons _ j bytes' more' rest first _ =>
      have hwhole : bytes ++ [] = bytes' ++ (more' ++ bytes.drop k) := by
        rw [List.append_nil, ← List.append_assoc, ← hcode, List.take_append_drop]
      obtain ⟨_, rfl⟩ := hi.prefix_unique first hwhole
      rw [hcode, List.length_append] at hlength
      omega

theorem le_offset (h : LaidOut offset body code) (hi : i ∈ body) :
    offset ≤ i.offset := by
  induction h with
  | nil => cases hi
  | cons first _ ih =>
      rcases List.mem_cons.1 hi with rfl | hi
      · exact Nat.le_of_eq first.offset_eq.symm
      · have := ih hi
        omega

/-- Every instruction of a body is spelled where it stands. -/
theorem exists_encoded (h : LaidOut offset body code) (hi : i ∈ body) :
    ∃ front bytes more, code = front ++ (bytes ++ more) ∧
      i.offset = offset + front.length ∧ Encoded i.offset i bytes := by
  induction h with
  | nil => cases hi
  | @cons offset j bytes more body first _ ih =>
      rcases List.mem_cons.1 hi with rfl | hi
      · rw [first.offset_eq]
        exact ⟨[], bytes, more, rfl, rfl, first⟩
      · obtain ⟨front, bytes', more', rfl, hat, hi⟩ := ih hi
        refine ⟨bytes ++ front, bytes', more', ?_, ?_, hi⟩
        · rw [List.append_assoc]
        · rw [hat, List.length_append, Nat.add_assoc]

/-- A place where an instruction starts or the code ends. -/
def Boundary (offset : Nat) (body : List Instruction) (code : List UInt8)
    (place : Nat) : Prop :=
  (∃ i ∈ body, i.offset = place) ∨ place = offset + code.length

theorem Boundary.le {place : Nat} (h : LaidOut offset body code)
    (hplace : Boundary offset body code place) : offset ≤ place := by
  rcases hplace with ⟨i, hi, rfl⟩ | rfl
  · exact h.le_offset hi
  · omega

theorem boundary_cons {place : Nat} (hi : Encoded offset i bytes)
    (hplace : offset < place) :
    Boundary offset (i :: body) (bytes ++ more) place ↔
      Boundary (offset + bytes.length) body more place := by
  have hat := hi.offset_eq
  rw [Boundary, Boundary, List.length_append, ← Nat.add_assoc]
  refine or_congr_left ⟨?_, ?_⟩
  · rintro ⟨j, hj, hstart⟩
    rcases List.mem_cons.1 hj with rfl | hj
    · omega
    · exact ⟨j, hj, hstart⟩
  · rintro ⟨j, hj, hstart⟩
    exact ⟨j, List.mem_cons_of_mem i hj, hstart⟩

/-- Code that is cut off is laid out if the cut is at a boundary, and then as the
instructions before the cut. -/
theorem take_iff (h : LaidOut offset body code) (hk : k ≤ code.length)
    (before : List Instruction) :
    LaidOut offset before (code.take k) ↔
      Boundary offset body code (offset + k) ∧
        before = body.filter fun i => i.offset < offset + k := by
  induction h generalizing k before with
  | nil =>
      have hzero : k = 0 := by simpa using hk
      simp [nil_iff, hzero, Boundary]
  | @cons offset i bytes more body first hrest ih =>
      have hat := first.offset_eq
      have hpos := first.length_pos
      by_cases hzero : k = 0
      · subst hzero
        have hnone : (i :: body).filter (fun j => j.offset < offset + 0) = [] := by
          rw [List.filter_eq_nil_iff]
          intro j hj
          have hle := (cons first hrest).le_offset hj
          simpa using hle
        rw [List.take_zero, nil_iff, hnone]
        exact ⟨fun h => ⟨.inl ⟨i, List.mem_cons_self, hat⟩, h⟩, And.right⟩
      rw [boundary_cons first (by omega)]
      by_cases hinside : k < bytes.length
      · rw [List.take_append_of_le_length (by omega)]
        constructor
        · intro h
          exact absurd h (not_take first (by omega) hinside)
        · rintro ⟨hcut, _⟩
          have hle := hcut.le hrest
          omega
      · -- The first instruction is all there, and the cut is one of what follows it.
        obtain ⟨m, rfl⟩ : ∃ m, k = bytes.length + m := ⟨k - bytes.length, by omega⟩
        rw [List.length_append] at hk
        have hkept : (i :: body).filter
            (fun j => j.offset < offset + (bytes.length + m)) =
              i :: body.filter fun j => j.offset < offset + bytes.length + m := by
          rw [List.filter_cons_of_pos (by simp; omega), Nat.add_assoc]
        rw [List.take_length_add_append, append_iff first, hkept, ← Nat.add_assoc]
        constructor
        · rintro ⟨rest, rfl, hlaid⟩
          obtain ⟨hcut, rfl⟩ := (ih (by omega) rest).1 hlaid
          exact ⟨hcut, rfl⟩
        · rintro ⟨hcut, rfl⟩
          exact ⟨_, rfl, (ih (by omega) _).2 ⟨hcut, rfl⟩⟩

end LaidOut

/-! ## Decoding -/

/-- The instructions of a body lie in its code without gaps: the first one starts at
`offset`, each one starts where the one before it ends, and the last one ends where
the code ends. -/
structure Tiles (code : List UInt8) (offset : Nat) (body : List Instruction) :
    Prop where
  first : ∀ i, body.head? = some i → i.offset = offset
  next : body.IsChain fun i j => j.offset = i.offset + i.lengthIn code
  last : ∀ i, body.getLast? = some i → i.offset + i.lengthIn code = code.length
  length : ∀ i ∈ body, 1 ≤ i.lengthIn code

theorem LaidOut.tiles {offset : Nat} {body : List Instruction} {code : List UInt8}
    (h : LaidOut offset body code) (front : List UInt8)
    (hfront : front.length = offset) : Tiles (front ++ code) offset body := by
  induction h generalizing front with
  | nil =>
      exact ⟨fun _ h => (nomatch h), .nil, fun _ h => (nomatch h),
        fun _ h => (nomatch h)⟩
  | @cons offset i bytes more body first hrest ih =>
      subst hfront
      have hat := first.offset_eq
      have hlength := first.length_eq more
      have hpos := first.length_pos
      have htiles : Tiles (front ++ (bytes ++ more)) (front.length + bytes.length)
          body := by
        have hbehind := ih (front ++ bytes) List.length_append
        rwa [List.append_assoc] at hbehind
      constructor
      case first =>
        intro j hj
        cases hj
        exact hat
      case next =>
        refine List.isChain_cons.2 ⟨fun j hj => ?_, htiles.next⟩
        rw [htiles.first j hj, hat, hlength]
      case last =>
        intro j hj
        cases body with
        | nil =>
            obtain rfl : i = j := by simpa using hj
            cases hrest
            rw [hat, hlength]
            simp
        | cons k body => exact htiles.last j (by simpa using hj)
      case length =>
        intro j hj
        rcases List.mem_cons.1 hj with rfl | hj
        · omega
        · exact htiles.length j hj

theorem LaidOut.opcode_ne_wide {offset : Nat} {body : List Instruction}
    {code : List UInt8} (h : LaidOut offset body code) :
    ∀ i ∈ body, i.opcode ≠ .wide := by
  induction h with
  | nil => exact List.forall_mem_nil _
  | cons first _ ih => exact List.forall_mem_cons.2 ⟨first.opcode_ne_wide, ih⟩

/-- Decoding ends for every code. If the code is refused, then at an opcode that is
there and for a reason that is so; in particular nothing is asked for that starts
four bytes behind the end or more. Otherwise the instructions tile the code, there
are none only if there is no code, and none of them is a `wide`. -/
theorem decoded_instructions_tile (code : List UInt8) :
    (∃ error, decode code = .error error ∧ error.offset < code.length ∧
      error.fault.Justified code error.offset) ∨
    ∃ body, decode code = .ok body ∧ Tiles code 0 body ∧
      (body = [] ↔ code = []) ∧ ∀ i ∈ body, i.opcode ≠ .wide := by
  cases hdecode : decode code with
  | error error => exact .inl ⟨error, rfl, decode_eq_error hdecode⟩
  | ok body =>
      have hlaid := Decode.laidOut_of_tile hdecode
      refine .inr ⟨body, rfl, hlaid.tiles [] rfl, ⟨?_, ?_⟩, hlaid.opcode_ne_wide⟩
      · rintro rfl
        cases hlaid
        rfl
      · rintro rfl
        exact LaidOut.nil_iff.1 hlaid

/-- A table of two entries, a byte of padding in front of it. -/
def switchingCode : List UInt8 :=
  [ 0x10, 1, 0xaa, 0, 0, 0, 0, 22, 0, 0, 0, 0, 0, 0, 0, 1
  , 0, 0, 0, 22, 0, 0, 0, 22, 0xb1 ]

def switchingBody : List Instruction :=
  [⟨0, .bipush, .literal 1⟩, ⟨2, .tableswitch, .switch [24, 24, 24]⟩,
    ⟨24, .voidReturn, .none⟩]

/-- The code of a table is tiled by the three instructions in it. A `wide` in front of
an instruction without a local variable is refused, and both are where the fault
says. -/
theorem decoded_instructions_tile_switching :
    Tiles switchingCode 0 switchingBody ∧ switchingBody ≠ [] ∧
    decode [0xc4, 0] = .error ⟨0, .notWidenable .nop⟩ ∧
    DecodeFault.Justified [0xc4, 0] 0 (.notWidenable .nop) := by
  have hdecode : decode switchingCode = .ok switchingBody :=
    decode_of_toOption (by decide +kernel)
  have hrefused : decode [0xc4, 0] = .error ⟨0, .notWidenable .nop⟩ := by
    decide +kernel
  refine ⟨?_, by decide, hrefused, ?_⟩
  · obtain ⟨error, h, _⟩ | ⟨body, h, htiles, _⟩ :=
      decoded_instructions_tile switchingCode
    · rw [hdecode] at h
      cases h
    · rw [hdecode] at h
      cases h
      exact htiles
  · obtain ⟨error, h, _, hjustified⟩ | ⟨body, h, _⟩ :=
      decoded_instructions_tile [0xc4, 0]
    · rw [hrefused] at h
      cases h
      exact hjustified
    · rw [hrefused] at h
      cases h

/-- Offsets and targets have 32 bits, if the bytes of the code can be counted with as
many. -/
theorem decode_fits {code : List UInt8} {body : List Instruction}
    (h : decode code = .ok body) (hlength : code.length ≤ UInt32.size)
    {i : Instruction} (hi : i ∈ body) :
    i.offset < UInt32.size ∧ ∀ target ∈ i.targets, target < UInt32.size := by
  obtain ⟨front, bytes, more, rfl, hat, hencoded⟩ :=
    (Decode.laidOut_of_tile h).exists_encoded hi
  have hpos := hencoded.length_pos
  rw [List.length_append, List.length_append] at hlength
  exact ⟨by omega, hencoded.targets_lt⟩

/-- A cut through accepted code is noticed. Its first bytes are accepted exactly if
they end where an instruction starts, or are all there are, and then they are decoded
into the instructions before the cut. -/
theorem truncation_detected {code : List UInt8} {body : List Instruction}
    (h : decode code = .ok body) {k : Nat} (hk : k ≤ code.length) :
    ((∃ before, decode (code.take k) = .ok before) ↔
      (∃ i ∈ body, i.offset = k) ∨ k = code.length) ∧
    ∀ before, decode (code.take k) = .ok before →
      before = body.filter fun i => i.offset < k := by
  have hcut : ∀ before, decode (code.take k) = .ok before ↔
      ((∃ i ∈ body, i.offset = k) ∨ k = code.length) ∧
        before = body.filter fun i => i.offset < k := by
    intro before
    have htake := (Decode.laidOut_of_tile h).take_iff hk before
    rw [LaidOut.Boundary, Nat.zero_add, Nat.zero_add] at htake
    rw [← htake]
    exact ⟨Decode.laidOut_of_tile, Decode.tile_laidOut⟩
  refine ⟨⟨?_, ?_⟩, fun before hbefore => ((hcut before).1 hbefore).2⟩
  · rintro ⟨before, hbefore⟩
    exact ((hcut before).1 hbefore).1
  · intro hplace
    exact ⟨_, (hcut _).2 ⟨hplace, rfl⟩⟩

/-- The code can be cut behind the table, and not in the padding. -/
theorem truncation_detected_switching :
    decode switchingCode = .ok switchingBody ∧
      decode (switchingCode.take 24) = .ok (switchingBody.take 2) ∧
      ¬ ∃ before, decode (switchingCode.take 3) = .ok before := by
  have hdecode : decode switchingCode = .ok switchingBody :=
    decode_of_toOption (by decide +kernel)
  obtain ⟨hbehind, hbefore⟩ := truncation_detected hdecode (k := 24) (by decide)
  obtain ⟨hinside, _⟩ := truncation_detected hdecode (k := 3) (by decide)
  refine ⟨hdecode, ?_, ?_⟩
  · obtain ⟨before, h⟩ := hbehind.2 (by decide)
    rw [h, hbefore before h]
    rfl
  · rw [hinside]
    decide

end ClassAudit
