import ClassAudit.Proofs.MethodType
import Mathlib.Data.List.Basic
import Mathlib.Data.List.TakeWhile

/-!
# Signatures spell types

A signature tells its type: the brackets in front are the dimensions, since no
element starts with one, and what stands behind them is a letter or a name
between `L` and `;`. So different types have different signatures, and a type
that was read from a signature has that signature.
-/

namespace ClassAudit

namespace BasicType

theorem ofCode?_code (type : BasicType) : ofCode? type.code = some type := by
  cases type <;> rfl

theorem code_of_ofCode? {c : Char} {type : BasicType}
    (h : ofCode? c = some type) : type.code = c := by
  unfold ofCode? at h
  split at h <;> cases h <;> rfl

theorem code_injective : Function.Injective code := by
  intro a b h
  have hsome : some a = some b := by rw [← ofCode?_code, h, ofCode?_code]
  exact Option.some.inj hsome

end BasicType

namespace ElementType

theorem signature_injective : Function.Injective signature := by
  intro a b h
  rw [← String.toList_inj] at h
  cases a with
  | basic type =>
      rw [JavaType.element_signature_basic] at h
      cases b with
      | basic type' =>
          rw [JavaType.element_signature_basic] at h
          rw [BasicType.code_injective (List.cons.inj h).1]
      | named name =>
          rw [JavaType.element_signature_named] at h
          simp at h
  | named name =>
      rw [JavaType.element_signature_named] at h
      cases b with
      | basic type =>
          rw [JavaType.element_signature_basic] at h
          simp at h
      | named name' =>
          rw [JavaType.element_signature_named] at h
          have hname := List.append_cancel_right (List.cons.inj h).2
          rw [String.toList_inj.1 hname]

/-- An element that was read is spelled by what it was read from. -/
theorem signature_of_ofChars? {chars : List Char} {element : ElementType}
    (h : ofChars? chars = some element) : element.signature.toList = chars := by
  unfold ofChars? at h
  split at h
  · next rest =>
      dsimp only at h
      split at h
      · next hname =>
          cases h
          rw [JavaType.element_signature_named, String.toList_ofList,
            List.dropLast_append_getLast? _ hname.1]
      · cases h
  · next letter _ =>
      obtain ⟨type, htype, rfl⟩ := Option.map_eq_some_iff.1 h
      obtain ⟨hcode, _⟩ := Option.filter_eq_some_iff.1 htype
      rw [JavaType.element_signature_basic, BasicType.code_of_ofCode? hcode]
  · cases h

/-- A signature begins with a character that is no dimension. -/
theorem signature_lead (element : ElementType) :
    ∃ lead more, element.signature.toList = lead :: more ∧ lead ≠ '[' := by
  cases element with
  | basic basic =>
      refine ⟨basic.code, [], JavaType.element_signature_basic basic, ?_⟩
      cases basic <;> decide
  | named name =>
      exact ⟨'L', _, JavaType.element_signature_named name, by decide⟩

end ElementType

namespace JavaType

theorem signature_array (dimensions : Nat) (type : JavaType) :
    (array dimensions type).signature =
      String.ofList (List.replicate dimensions '[') ++ type.signature := by
  rw [← String.toList_inj, String.toList_append, String.toList_ofList,
    signature_toList, signature_toList, ← List.append_assoc,
    List.replicate_append_replicate]
  rfl

theorem dimensionsOf_signature (type : JavaType) :
    dimensionsOf type.signature = type.dimensions := by
  obtain ⟨lead, more, helement, hlead⟩ := type.element.signature_lead
  rw [dimensionsOf, signature_toList, helement,
    DescriptorReader.takeWhile_replicate hlead]

theorem elementPart_signature (type : JavaType) :
    elementPart type.signature = type.element.signature.toList := by
  obtain ⟨lead, more, helement, hlead⟩ := type.element.signature_lead
  rw [elementPart, signature_toList, helement, List.dropWhile_append_of_pos]
  · rw [List.dropWhile_cons_of_neg]
    simpa using hlead
  · intro b hb
    rw [List.eq_of_mem_replicate hb]
    rfl

/-- Different types have different signatures. -/
theorem signature_injective : Function.Injective signature := by
  intro a b h
  obtain ⟨dimensions, element⟩ := a
  obtain ⟨dimensions', element'⟩ := b
  have hdimensions := congrArg dimensionsOf h
  have helement := congrArg elementPart h
  rw [dimensionsOf_signature, dimensionsOf_signature] at hdimensions
  rw [elementPart_signature, elementPart_signature, String.toList_inj] at helement
  dsimp only at hdimensions helement
  rw [hdimensions, ElementType.signature_injective helement]

theorem brackets_elementPart (text : String) :
    List.replicate (dimensionsOf text) '[' ++ elementPart text = text.toList := by
  have hbrackets : text.toList.takeWhile (· == '[') =
      List.replicate (dimensionsOf text) '[' := by
    rw [dimensionsOf, List.eq_replicate_iff]
    refine ⟨rfl, fun c hc => ?_⟩
    simpa using List.mem_takeWhile_imp hc
  rw [← hbrackets, elementPart, List.takeWhile_append_dropWhile]

/-- A type that was read from a text is spelled by it. -/
theorem signature_of_ofSignature {text : String} {type : JavaType}
    (h : ofSignature text = .ok type) : type.signature = text := by
  unfold ofSignature at h
  split at h
  · next hvoid =>
      cases h
      rw [hvoid]
      decide
  · split at h
    · next element helement =>
        cases h
        rw [← String.toList_inj, signature_toList,
          ElementType.signature_of_ofChars? helement,
          brackets_elementPart]
    · cases h

/-- A type has fewer dimensions than the text that it was read from has characters. -/
theorem dimensions_lt_length {text : String} {type : JavaType}
    (h : ofSignature text = .ok type) : type.dimensions < text.toList.length := by
  rw [← signature_of_ofSignature h, signature_toList, List.length_append,
    List.length_replicate]
  obtain ⟨lead, rest, helement, _⟩ := type.element.signature_lead
  rw [helement, List.length_cons]
  omega

theorem signature_of_ofArraySignature {text : String} {type : JavaType}
    (h : ofArraySignature text = .ok type) : type.signature = text := by
  unfold ofArraySignature at h
  split at h
  · cases h
  · exact signature_of_ofSignature h

theorem signature_of_ofBasicSignature {text : String} {type : JavaType}
    (h : ofBasicSignature text = .ok type) : type.signature = text := by
  unfold ofBasicSignature at h
  split at h
  · next letter hletter =>
      split at h
      · next basic hbasic =>
          cases h
          rw [← String.toList_inj, signature_toList, hletter,
            ← BasicType.code_of_ofCode? hbasic]
          exact element_signature_basic basic
      · cases h
  · cases h

end JavaType

end ClassAudit
