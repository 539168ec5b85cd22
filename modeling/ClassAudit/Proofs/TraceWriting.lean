import ClassAudit.Proofs.MethodType
import ClassAudit.Proofs.WalkSoundness
import ClassAudit.Trace

/-!
# What a trace leaves behind

The full trace of the methods with a name is a text (`Program.fullTrace`): a line for
each instruction, in the order of classes, methods and instructions, with the stack
that a walk shows before it. It is written here field by field, without the documents
that the trace is made from.

A trace hands this text to a writer in pieces, and a writer may refuse any of them. It
may also have taken the first bytes of a piece before it refuses the rest. What follows
is about the sequence of pieces alone: they are all accepted, or the last one that was
handed over is the first that was refused (`Writer.StopsAt`). As the state of a writer
can be anything, say a list of what it was ever asked for, to know the state in which a
trace leaves it is to know that nothing was asked for afterwards.
-/

namespace ClassAudit

open Text

/-! ## The text of a line -/

/-- An object on one line, by the names of its fields and what is written for them. -/
def objectText (fields : List (String × String)) : String :=
  "\x7b" ++ ",".intercalate (fields.map fun field =>
    Json.stringLiteral field.1 ++ ":" ++ field.2) ++ "\x7d"

/-- An array on one line, by what is written for its items. -/
def arrayText (items : List String) : String := "[" ++ ",".intercalate items ++ "]"

def boolText (value : Bool) : String := if value then "true" else "false"

/-- A constant on one line, with its kind in front. -/
def Constant.lineText : Constant → String
  | .int value => objectText
    [("kind", Json.stringLiteral "int"), ("value", toString value.toInt)]
  | .long value => objectText
    [("kind", Json.stringLiteral "long"), ("value", toString value.toInt)]
  | .float value => objectText
    [("kind", Json.stringLiteral "float"),
      ("value", (jsonStyle (-6) 12).write32 value)]
  | .double value => objectText
    [("kind", Json.stringLiteral "double"),
      ("value", (jsonStyle (-5) 15).write64 value)]
  | .string value => objectText
    [("kind", Json.stringLiteral "string"), ("value", Json.stringLiteral value)]

/-- A value of the stack on one line. The constant is only there if it is known. -/
def StackValue.lineText (value : StackValue) : String := objectText
  ([("signature", Json.stringLiteral value.signature)] ++
    (value.constant?.map fun constant => ("constant", constant.lineText)).toList ++
    [("is_null", boolText value.isNull)])

/-- The line of an instruction with the stack before it, the bottom of the stack
first. -/
def traceLine (model : ClassModel) (method : Method) (i : Instruction)
    (stack : OperandStack) : String := objectText
  [ ("class", Json.stringLiteral model.name)
  , ("method", Json.stringLiteral (method.name ++ method.descriptor))
  , ("offset", toString i.offset)
  , ("opcode", Json.stringLiteral i.opcode.mnemonic)
  , ("valid", boolText stack.valid)
  , ("stack", arrayText (stack.values.reverse.map StackValue.lineText)) ]

/-- The lines of a full trace. -/
def Program.fullTrace (program : Program) (name : String) : List String :=
  program.classes.flatMap fun model =>
    (model.methods.filter (·.name = name)).flatMap fun method =>
      (method.visits model.pool).map fun visit =>
        traceLine model method visit.instruction visit.stack

namespace Text.Json

@[simp] theorem compact_bool (value : Bool) :
    (Json.bool value).compact = boolText value := by
  cases value <;> rfl

@[simp] theorem compact_string (value : String) :
    (Json.string value).compact = stringLiteral value := by
  simp [compact, fragments]

@[simp] theorem compact_number (text : String) :
    (Json.number text).compact = text := by
  simp [compact, fragments]

/-- Items with a comma in front of all but the first. -/
theorem intercalate_comma (first : String) (rest : List String) :
    ",".intercalate (first :: rest) = first ++ String.join (rest.map ("," ++ ·)) := by
  induction rest generalizing first with
  | nil => simp
  | cons second rest ih => simp [String.intercalate_cons_cons, ih, String.append_assoc]

theorem join_itemFragments (items : List Json) :
    String.join (itemFragments false items) =
      String.join ((items.map compact).map ("," ++ ·)) := by
  induction items with
  | nil => rfl
  | cons item rest ih => simp [itemFragments, compact, ih, String.append_assoc]

@[simp] theorem compact_array (items : List Json) :
    (Json.array items).compact = arrayText (items.map compact) := by
  cases items with
  | nil => rfl
  | cons item rest =>
      rw [arrayText, List.map_cons, intercalate_comma, ← join_itemFragments]
      simp [compact, fragments, itemFragments, String.append_assoc]

theorem join_fieldFragments (fields : List (String × Json)) :
    String.join (fieldFragments false fields) =
      String.join ((fields.map fun field =>
        stringLiteral field.1 ++ ":" ++ field.2.compact).map ("," ++ ·)) := by
  induction fields with
  | nil => rfl
  | cons field rest ih => simp [fieldFragments, compact, ih, String.append_assoc]

@[simp] theorem compact_object (fields : List (String × Json)) :
    (Json.object fields).compact =
      objectText (fields.map fun field => (field.1, field.2.compact)) := by
  cases fields with
  | nil => rfl
  | cons field rest =>
      rw [objectText, List.map_map, List.map_cons, intercalate_comma]
      have hrest := join_fieldFragments rest
      simp only [Function.comp_def]
      rw [← hrest]
      simp [compact, fragments, fieldFragments, String.append_assoc]

end Text.Json

theorem Constant.compact_toJson (constant : Constant) :
    constant.toJson.compact = constant.lineText := by
  cases constant <;> simp [toJson, lineText, Json.int]

theorem StackValue.compact_toJson (value : StackValue) :
    value.toJson.compact = value.lineText := by
  rw [toJson, lineText, Json.compact_object]
  cases value.constant? with
  | none => simp
  | some constant => simp [constant.compact_toJson]

theorem Visit.compact_toJson (visit : Visit) (model : ClassModel) (method : Method) :
    (visit.toJson model method).compact =
      traceLine model method visit.instruction visit.stack := by
  have hvalues : ∀ values : List StackValue,
      (values.map StackValue.toJson).map Json.compact =
        values.map StackValue.lineText := by
    intro values
    rw [List.map_map]
    exact List.map_congr_left fun value _ => value.compact_toJson
  rw [toJson, traceLine, Json.compact_object]
  simp only [List.map_cons, List.map_nil, Json.compact_string, Json.compact_bool,
    Json.compact_array, hvalues, Json.int, Json.compact_number]
  rfl

/-! ## Lines have no line breaks -/

/-- Text without a line break. -/
def OneLine (text : String) : Prop := '\n' ∉ text.toList

instance (text : String) : Decidable (OneLine text) :=
  inferInstanceAs (Decidable ('\n' ∉ text.toList))

namespace OneLine

theorem append {s t : String} (hs : OneLine s) (ht : OneLine t) :
    OneLine (s ++ t) := by
  rw [OneLine, String.toList_append, List.mem_append]
  exact not_or.2 ⟨hs, ht⟩

theorem join {texts : List String} (h : ∀ text ∈ texts, OneLine text) :
    OneLine (String.join texts) := by
  rw [OneLine, String.toList_join, List.mem_flatMap]
  rintro ⟨text, htext, hbreak⟩
  exact h text htext hbreak

theorem intercalate {texts : List String} (h : ∀ text ∈ texts, OneLine text) :
    OneLine (",".intercalate texts) := by
  cases texts with
  | nil => decide
  | cons first rest =>
      rw [Json.intercalate_comma]
      refine (h first List.mem_cons_self).append (join ?_)
      intro text htext
      obtain ⟨item, hitem, rfl⟩ := List.mem_map.1 htext
      exact append (by decide) (h item (List.mem_cons_of_mem first hitem))

theorem ofList {chars : List Char} (h : '\n' ∉ chars) :
    OneLine (String.ofList chars) := by
  rwa [OneLine, String.toList_ofList]

theorem pushn {text : String} (h : OneLine text) (n : Nat) :
    OneLine (text.pushn '0' n) := by
  rw [OneLine, JavaType.toList_pushn, List.mem_append]
  exact not_or.2 ⟨h, fun hmem => absurd (List.eq_of_mem_replicate hmem) (by decide)⟩

theorem ite {p : Prop} [Decidable p] {s t : String} (hs : OneLine s) (ht : OneLine t) :
    OneLine (if p then s else t) := by
  split
  · exact hs
  · exact ht

/-! Numbers are made of digits. -/

theorem not_mem_toDigits (n : Nat) : '\n' ∉ Nat.toDigits 10 n := by
  intro h
  have hdigit : Char.isDigit '\n' = true :=
    Nat.isDigit_of_mem_toDigits (by decide) (by decide) h
  exact absurd hdigit (by decide)

theorem toString_nat (n : Nat) : OneLine (toString n) := by
  have hdigits : toString n = String.ofList (Nat.toDigits 10 n) :=
    Nat.repr_eq_ofList_toDigits
  rw [hdigits]
  exact ofList (not_mem_toDigits n)

theorem toString_int (n : Int) : OneLine (toString n) := by
  cases n with
  | ofNat m => exact toString_nat m
  | negSucc m => exact append (by decide : OneLine "-") (toString_nat (m + 1))

end OneLine

namespace Floating

theorem Decimal.not_mem_ofGrid (point : Nat) (k : Int) :
    '\n' ∉ (Decimal.ofGrid point k).digits := by
  intro h
  have hmem := List.dropWhile_sublist _ |>.mem (List.mem_reverse.1 h)
  exact OneLine.not_mem_toDigits point (List.mem_reverse.1 hmem)

theorem not_mem_shortestFrom (m : Nat) (q e : Int) (powerOfTwo : Bool) (tie : TieRule)
    (length fuel : Nat) :
    '\n' ∉ (shortestFrom m q e powerOfTwo tie length fuel).digits := by
  induction fuel generalizing length with
  | zero => exact Decimal.not_mem_ofGrid _ _
  | succ fuel ih =>
      rw [shortestFrom]
      split
      · exact Decimal.not_mem_ofGrid _ _
      · exact ih (length + 1)

theorem Format.not_mem_shortest (format : Format) (m : Nat) (q : Int) (tie : TieRule) :
    '\n' ∉ (format.shortest m q tie).digits := by
  rw [Format.shortest]
  split
  · decide
  · exact not_mem_shortestFrom m q _ _ tie 1 20

namespace DecimalStyle

variable {style : DecimalStyle} {decimal : Decimal}

theorem oneLine_writePositional (h : '\n' ∉ decimal.digits) :
    OneLine (style.writePositional decimal) := by
  have htake : ∀ n, '\n' ∉ decimal.digits.take n :=
    fun n hmem => h (List.mem_of_mem_take hmem)
  have hdrop : ∀ n, '\n' ∉ decimal.digits.drop n :=
    fun n hmem => h (List.mem_of_mem_drop hmem)
  have hpoint : OneLine "." := by decide
  have hhead := (OneLine.ofList (htake (decimal.exponent.toNat + 1))).pushn
    (decimal.exponent.toNat + 1 - decimal.digits.length)
  rw [writePositional]
  refine .ite ?_ (.ite (.ite ?_ hhead) ?_)
  · exact (OneLine.append (by decide) (.pushn (by decide) _)).append
      (.ofList h)
  · exact hhead.append (by decide)
  · exact (hhead.append hpoint).append (.ofList (hdrop _))

theorem oneLine_writeScientific (h : '\n' ∉ decimal.digits) :
    OneLine (style.writeScientific decimal) := by
  have htake : '\n' ∉ decimal.digits.take 1 :=
    fun hmem => h (List.mem_of_mem_take hmem)
  have hdrop : '\n' ∉ decimal.digits.drop 1 :=
    fun hmem => h (List.mem_of_mem_drop hmem)
  have hpoint : OneLine "." := by decide
  rw [writeScientific]
  refine (OneLine.append (.append (.ite (.ofList htake) ?_) (by decide)) ?_).append
    (.toString_int _)
  · exact ((OneLine.ofList htake).append hpoint).append (.ofList hdrop)
  · exact .ite (by decide) (by decide)

theorem oneLine_write (hnan : OneLine style.nan) (hinfinity : OneLine style.infinity)
    (hminus : OneLine style.minusInfinity) (format : Format) (datum : Datum) :
    OneLine (style.write format datum) := by
  cases datum with
  | nan => exact hnan
  | infinite negative => exact .ite hminus hinfinity
  | finite negative m q =>
      have hdigits := format.not_mem_shortest m q style.tie
      rw [write]
      exact .append (.ite (by decide) (by decide))
        (.ite (oneLine_writePositional hdigits) (oneLine_writeScientific hdigits))

end DecimalStyle

end Floating

/-- Nothing is left of a line break inside a string: it is escaped, and no other
character is escaped into one. -/
theorem OneLine.escapeChar (c : Char) : OneLine (Json.escapeChar c) := by
  have hhex : ∀ n < 32, OneLine (hexPadded 4 n) := by decide
  rw [Json.escapeChar.eq_def]
  split
  · decide
  · decide
  · decide
  · decide
  · decide
  · next hbreak _ _ =>
      split
      · decide
      · split
        · decide
        · split
          · next hlow => exact append (by decide) (hhex c.toNat hlow)
          · rw [OneLine, String.toList_singleton, List.mem_singleton]
            exact fun h => hbreak h.symm

theorem OneLine.stringLiteral (text : String) : OneLine (Json.stringLiteral text) := by
  have hquote : OneLine "\"" := by decide
  refine (hquote.append (join ?_)).append hquote
  intro piece hpiece
  obtain ⟨c, _, rfl⟩ := List.mem_map.1 hpiece
  exact escapeChar c

theorem OneLine.objectText {fields : List (String × String)}
    (h : ∀ field ∈ fields, OneLine field.2) : OneLine (objectText fields) := by
  have hcolon : OneLine ":" := by decide
  refine (append (by decide) (intercalate ?_)).append (by decide)
  intro text htext
  obtain ⟨field, hfield, rfl⟩ := List.mem_map.1 htext
  exact ((stringLiteral field.1).append hcolon).append (h field hfield)

theorem OneLine.boolText (value : Bool) : OneLine (boolText value) := by
  cases value <;> decide

theorem Constant.oneLine_lineText (constant : Constant) :
    OneLine constant.lineText := by
  have hnull : OneLine "null" := by decide
  have hfields : ∀ (kind : String) {text : String}, OneLine text →
      OneLine (objectText [("kind", Json.stringLiteral kind), ("value", text)]) := by
    intro kind text htext
    exact .objectText (by simp [OneLine.stringLiteral, htext])
  cases constant with
  | int value => exact hfields _ (.toString_int _)
  | long value => exact hfields _ (.toString_int _)
  | float value =>
      exact hfields _ ((jsonStyle (-6) 12).oneLine_write hnull hnull hnull _ _)
  | double value =>
      exact hfields _ ((jsonStyle (-5) 15).oneLine_write hnull hnull hnull _ _)
  | string value => exact hfields _ (.stringLiteral value)

theorem StackValue.oneLine_lineText (value : StackValue) : OneLine value.lineText := by
  refine .objectText ?_
  cases value.constant? with
  | none => simp [OneLine.stringLiteral, OneLine.boolText]
  | some constant =>
      simp [OneLine.stringLiteral, OneLine.boolText, constant.oneLine_lineText]

theorem oneLine_traceLine (model : ClassModel) (method : Method) (i : Instruction)
    (stack : OperandStack) : OneLine (traceLine model method i stack) := by
  have hstack :
      OneLine (arrayText (stack.values.reverse.map StackValue.lineText)) := by
    refine (OneLine.append (by decide) (.intercalate ?_)).append (by decide)
    intro text htext
    obtain ⟨value, _, rfl⟩ := List.mem_map.1 htext
    exact value.oneLine_lineText
  refine .objectText ?_
  simp only [List.forall_mem_cons]
  exact ⟨.stringLiteral _, .stringLiteral _, .toString_nat _, .stringLiteral _,
    .boolText _, hstack, List.forall_mem_nil _⟩

/-! ## Handing over pieces -/

namespace Writer

variable {σ : Type} {writer : Writer σ} {s s₁ s₂ : σ} {pieces more : List String}

/-- Pieces that are handed over one after the other and all accepted. -/
inductive Accepts (writer : Writer σ) : σ → List String → σ → Prop
  | nil (s : σ) : Accepts writer s [] s
  | cons {s s₁ s₂ : σ} {piece : String} {rest : List String}
    (first : writer.write s piece = (true, s₁)) (others : Accepts writer s₁ rest s₂) :
    Accepts writer s (piece :: rest) s₂

/-- Pieces that are handed over up to the first one that is refused. The state is the
one that the refusal leaves behind. -/
def StopsAt (writer : Writer σ) (s : σ) (pieces : List String) (s₂ : σ) : Prop :=
  ∃ done piece rest s₁, pieces = done ++ piece :: rest ∧ writer.Accepts s done s₁ ∧
    writer.write s₁ piece = (false, s₂)

/-- What becomes of pieces: all of them are accepted, or one is refused. -/
def Takes (writer : Writer σ) (s : σ) (pieces : List String) (all : Bool) (s₂ : σ) :
    Prop :=
  if all then writer.Accepts s pieces s₂ else writer.StopsAt s pieces s₂

theorem Accepts.append (h : writer.Accepts s pieces s₁)
    (hmore : writer.Accepts s₁ more s₂) : writer.Accepts s (pieces ++ more) s₂ := by
  induction h with
  | nil s => exact hmore
  | cons first _ ih => exact .cons first (ih hmore)

theorem takes_nil (writer : Writer σ) (s : σ) : writer.Takes s [] true s := .nil s

/-- Nothing follows a piece that is refused. -/
theorem StopsAt.append (h : writer.StopsAt s pieces s₁) (more : List String) :
    writer.StopsAt s (pieces ++ more) s₁ := by
  obtain ⟨done, piece, rest, s', rfl, hdone, hpiece⟩ := h
  exact ⟨done, piece, rest ++ more, s', by simp, hdone, hpiece⟩

/-- Pieces that follow accepted ones fare as they do by themselves. -/
theorem Accepts.takes (h : writer.Accepts s pieces s₁) {all : Bool}
    (hmore : writer.Takes s₁ more all s₂) :
    writer.Takes s (pieces ++ more) all s₂ := by
  cases all with
  | true => exact h.append hmore
  | false =>
      obtain ⟨done, piece, rest, s', rfl, hdone, hpiece⟩ := hmore
      exact ⟨pieces ++ done, piece, rest, s', by simp, h.append hdone, hpiece⟩

theorem takes_write (writer : Writer σ) (s : σ) (piece : String) :
    writer.Takes s [piece] (writer.write s piece).1 (writer.write s piece).2 := by
  cases hwrite : writer.write s piece with
  | mk accepted s₁ =>
      cases accepted with
      | true => exact .cons hwrite (.nil s₁)
      | false => exact ⟨[], piece, [], s, rfl, .nil s, hwrite⟩

theorem takes_writeAll (writer : Writer σ) (s : σ) (pieces : List String) :
    writer.Takes s pieces (writer.writeAll s pieces).1
      (writer.writeAll s pieces).2 := by
  induction pieces generalizing s with
  | nil => exact writer.takes_nil s
  | cons piece rest ih =>
      have hfirst := writer.takes_write s piece
      rw [writeAll]
      split
      · next s₁ hwrite =>
          rw [hwrite] at hfirst
          exact Accepts.takes hfirst (ih s₁)
      · next s₁ hwrite =>
          rw [hwrite] at hfirst
          exact StopsAt.append hfirst rest

/-- The pieces of a line. -/
def linePieces (document : Json) : List String := document.fragments ++ ["\n"]

theorem takes_writeLine (writer : Writer σ) (s : σ) (document : Json) :
    writer.Takes s (linePieces document) (writer.writeLine s document).1.isOk
      (writer.writeLine s document).2 := by
  have hdocument := writer.takes_writeAll s document.fragments
  rw [writeLine]
  split
  · next s₁ hall =>
      rw [hall] at hdocument
      exact StopsAt.append hdocument _
  · next s₁ hall =>
      rw [hall] at hdocument
      have hbreak := writer.takes_write s₁ "\n"
      split
      · next s₂ hwrite =>
          rw [hwrite] at hbreak
          exact Accepts.takes hdocument hbreak
      · next s₂ hwrite =>
          rw [hwrite] at hbreak
          exact Accepts.takes hdocument hbreak

/-- After a refusal visits come and go, and nothing is handed over. -/
theorem foldl_visitLine_error (writer : Writer σ) (error : TraceError) (s : σ)
    (documents : List Json) :
    documents.foldl writer.visitLine (.error error, s) = (.error error, s) := by
  induction documents with
  | nil => rfl
  | cons document rest ih => exact ih

theorem takes_writeLines (writer : Writer σ) (s : σ) (documents : List Json) :
    writer.Takes s (documents.flatMap linePieces)
      (writer.writeLines s documents).1.isOk
      (writer.writeLines s documents).2 := by
  unfold writeLines
  induction documents generalizing s with
  | nil => exact writer.takes_nil s
  | cons document rest ih =>
      have hline := writer.takes_writeLine s document
      rw [List.foldl_cons, visitLine, List.flatMap_cons]
      cases hwrite : writer.writeLine s document with
      | mk outcome s₁ =>
          rw [hwrite] at hline
          cases outcome with
          | ok _ => exact Accepts.takes hline (ih s₁)
          | error error =>
              rw [foldl_visitLine_error]
              exact StopsAt.append hline _

/-! ## Bytes -/

/-- What has been written, as bytes: a piece that is accepted, and some first bytes of
a piece that is refused. -/
structure Appends (writer : Writer σ) (written : σ → List UInt8) : Prop where
  accepted : ∀ {s s₁ : σ} {piece : String}, writer.write s piece = (true, s₁) →
    written s₁ = written s ++ piece.toUTF8.data.toList
  refused : ∀ {s s₁ : σ} {piece : String}, writer.write s piece = (false, s₁) →
    ∃ part, part <+: piece.toUTF8.data.toList ∧ written s₁ = written s ++ part

theorem bytes_append (s t : String) :
    (s ++ t).toUTF8.data.toList = s.toUTF8.data.toList ++ t.toUTF8.data.toList := by
  simp

variable {written : σ → List UInt8} (hwritten : writer.Appends written)

include hwritten

theorem Accepts.written_eq (h : writer.Accepts s pieces s₁) :
    written s₁ = written s ++ (String.join pieces).toUTF8.data.toList := by
  induction h with
  | nil s => simp
  | cons first _ ih =>
      rw [ih, hwritten.accepted first, String.join_cons, bytes_append,
        List.append_assoc]

theorem StopsAt.written_eq (h : writer.StopsAt s pieces s₁) :
    ∃ part, part <+: (String.join pieces).toUTF8.data.toList ∧
      written s₁ = written s ++ part := by
  obtain ⟨done, piece, rest, s', rfl, hdone, hpiece⟩ := h
  obtain ⟨part, ⟨missing, hpart⟩, hwhole⟩ := hwritten.refused hpiece
  refine ⟨(String.join done).toUTF8.data.toList ++ part,
    ⟨missing ++ (String.join rest).toUTF8.data.toList, ?_⟩, ?_⟩
  · rw [String.join_append, String.join_cons, bytes_append, bytes_append, ← hpart]
    simp only [List.append_assoc]
  · rw [hwhole, hdone.written_eq hwritten, List.append_assoc]

end Writer

/-! ## Traces -/

namespace Program

/-- The pieces that a trace of some methods hands over. -/
def tracePieces (methods : List (ClassModel × Method)) : List String :=
  methods.flatMap fun traced =>
    (traceLines traced.1 traced.2).flatMap Writer.linePieces

theorem takes_traceMethods {σ : Type} (writer : Writer σ) (s : σ) (traced : Nat)
    (methods : List (ClassModel × Method)) :
    writer.Takes s (tracePieces methods) (traceMethods writer s traced methods).1.isOk
      (traceMethods writer s traced methods).2 := by
  induction methods generalizing s traced with
  | nil => exact writer.takes_nil s
  | cons first rest ih =>
      have hlines := writer.takes_writeLines s (traceLines first.1 first.2)
      rw [traceMethods, tracePieces, List.flatMap_cons]
      split
      · next s₁ hwrite =>
          rw [hwrite] at hlines
          exact Writer.Accepts.takes hlines (ih s₁ (traced + 1))
      · next error s₁ hwrite =>
          rw [hwrite] at hlines
          exact Writer.StopsAt.append hlines _

/-- Methods are counted as they are traced, and if none is refused then all are. -/
theorem traceMethods_count {σ : Type} {writer : Writer σ} {s s₁ : σ}
    {traced count : Nat} {methods : List (ClassModel × Method)}
    (h : traceMethods writer s traced methods = (.ok count, s₁)) :
    count = traced + methods.length := by
  induction methods generalizing s traced with
  | nil =>
      cases h
      rfl
  | cons first rest ih =>
      rw [traceMethods] at h
      split at h
      · rw [ih h, List.length_cons, Nat.add_assoc, Nat.add_comm 1]
      · cases h

theorem join_linePieces (documents : List Json) :
    String.join (documents.flatMap Writer.linePieces) =
      String.join ((documents.map Json.compact).map (· ++ "\n")) := by
  induction documents with
  | nil => rfl
  | cons document rest ih =>
      simp [Writer.linePieces, Json.compact, ih, String.append_assoc]

theorem traceLines_compact (model : ClassModel) (method : Method) :
    (traceLines model method).map Json.compact =
      (method.visits model.pool).map fun visit =>
        traceLine model method visit.instruction visit.stack := by
  simp only [traceLines, List.map_map, Function.comp_def, Visit.compact_toJson]

theorem fullTrace_eq (program : Program) (name : String) :
    program.fullTrace name = (program.methodsNamed name).flatMap fun traced =>
      (traceLines traced.1 traced.2).map Json.compact := by
  simp only [fullTrace, methodsNamed, List.flatMap_assoc, List.flatMap_map,
    traceLines_compact]
  rfl

/-- The pieces of a trace make up the full trace, with a line break behind each
line. -/
theorem join_tracePieces (program : Program) (name : String) :
    String.join (tracePieces (program.methodsNamed name)) =
      String.join ((program.fullTrace name).map (· ++ "\n")) := by
  rw [fullTrace_eq]
  generalize program.methodsNamed name = methods
  induction methods with
  | nil => rfl
  | cons traced rest ih =>
      rw [tracePieces] at ih ⊢
      rw [List.flatMap_cons, String.join_append, ih, join_linePieces,
        List.flatMap_cons, List.map_append, String.join_append]

end Program

/-- The methods of a program with a name, in order. -/
def Program.named (program : Program) (name : String) : List Method :=
  program.classes.flatMap fun model => model.methods.filter (·.name = name)

theorem Program.length_methodsNamed (program : Program) (name : String) :
    (program.methodsNamed name).length = (program.named name).length := by
  simp only [methodsNamed, named, List.length_flatMap, List.length_map]
  rfl

/-- There is a line for each instruction, and no line is two. -/
theorem Program.length_fullTrace (program : Program) (name : String) :
    (program.fullTrace name).length =
      ((program.named name).flatMap Method.body).length := by
  have hvisits : ∀ (method : Method) (pool : ConstantPool),
      (method.visits pool).length = method.body.length := by
    intro method pool
    rw [← method.visits_instructions pool, List.length_map]
  simp only [fullTrace, named, List.flatMap_assoc, List.length_flatMap,
    List.length_map, hvisits]

theorem Program.oneLine_fullTrace (program : Program) (name : String) :
    ∀ line ∈ program.fullTrace name, OneLine line := by
  intro line hline
  simp only [fullTrace, List.mem_flatMap, List.mem_map] at hline
  obtain ⟨model, _, method, _, visit, _, rfl⟩ := hline
  exact oneLine_traceLine model method visit.instruction visit.stack

/-- A trace is complete, or it ends with the first write that is refused. The full
trace has one line for each instruction of the methods with the name. It is handed over
in pieces. If all are accepted then it is all there, and the answer is the number of
methods; otherwise the first refused piece is the last, what was written is the
beginning of the full trace, and the answer is an error. -/
theorem trace_complete_or_stopped (program : Program) (name : String) {σ : Type}
    (writer : Writer σ) (s : σ) :
    (program.fullTrace name).length =
      ((program.named name).flatMap Method.body).length ∧
    (∀ line ∈ program.fullTrace name, OneLine line) ∧
    ∃ pieces full, full = String.join ((program.fullTrace name).map (· ++ "\n")) ∧
      String.join pieces = full ∧
      ((∃ s₁, writer.Accepts s pieces s₁ ∧
          program.trace name writer s = (.ok (program.named name).length, s₁) ∧
          ∀ written, writer.Appends written →
            written s₁ = written s ++ full.toUTF8.data.toList) ∨
        ∃ s₁ error, writer.StopsAt s pieces s₁ ∧
          program.trace name writer s = (.error error, s₁) ∧
          ∀ written, writer.Appends written → ∃ part,
            part <+: full.toUTF8.data.toList ∧ written s₁ = written s ++ part) := by
  refine ⟨program.length_fullTrace name, program.oneLine_fullTrace name,
    Program.tracePieces (program.methodsNamed name), _, rfl,
    program.join_tracePieces name, ?_⟩
  have htakes := Program.takes_traceMethods writer s 0 (program.methodsNamed name)
  rw [← program.join_tracePieces name, Program.trace]
  cases htrace : Program.traceMethods writer s 0 (program.methodsNamed name) with
  | mk outcome s₁ =>
      rw [htrace] at htakes
      cases outcome with
      | ok count =>
          have hcount : count = (program.named name).length := by
            rw [Program.traceMethods_count htrace, Nat.zero_add,
              program.length_methodsNamed]
          rw [hcount]
          exact .inl ⟨s₁, htakes, rfl, fun written h => htakes.written_eq h⟩
      | error error =>
          exact .inr ⟨s₁, error, htakes, rfl, fun written h => htakes.written_eq h⟩

/-- A writer that keeps what it accepts appends it, whether or not it has a limit. -/
theorem Writer.bounded_appends (limit : Option Nat) :
    (Writer.bounded limit).Appends fun text => text.toUTF8.data.toList where
  accepted := by
    intro s s₁ piece h
    simp only [bounded] at h
    split at h
    · cases h
    · cases h
      exact bytes_append s piece
  refused := by
    intro s s₁ piece h
    simp only [bounded] at h
    split at h
    · cases h
      exact ⟨[], List.nil_prefix, (List.append_nil _).symm⟩
    · cases h

/-- A class with a method that returns a constant. -/
def answering : Program :=
  ⟨[⟨"A", none, [], false, ⟨#[]⟩,
    [⟨"answer", "()I", [⟨0, .bipush, .literal 42⟩, ⟨2, .valueReturn .int, .none⟩],
      [], []⟩],
    0⟩], []⟩

/-- A limit of 100 bytes cuts the trace inside its second line. -/
theorem trace_complete_or_stopped_answering :
    ∃ error, (answering.trace "answer" (.bounded (some 100)) "").1 = .error error ∧
      (answering.trace "answer" (.bounded (some 100)) "").2.toUTF8.data.toList <+:
        (String.join
          ((answering.fullTrace "answer").map (· ++ "\n"))).toUTF8.data.toList := by
  have hstopped :
      (answering.trace "answer" (.bounded (some 100)) "").1.isOk = false := by
    decide +kernel
  obtain ⟨_, _, pieces, full, rfl, _,
    ⟨s₁, _, htrace, _⟩ | ⟨s₁, error, _, htrace, hwritten⟩⟩ :=
    trace_complete_or_stopped answering "answer" (.bounded (some 100)) ""
  · rw [htrace] at hstopped
    cases hstopped
  · rw [htrace]
    obtain ⟨part, hpart, hwhole⟩ := hwritten _ (Writer.bounded_appends (some 100))
    refine ⟨error, rfl, ?_⟩
    rw [hwhole]
    exact hpart

end ClassAudit
