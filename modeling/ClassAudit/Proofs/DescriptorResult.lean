import ClassAudit.Proofs.MethodType

/-!
# Two readings of one descriptor

The parameters of a descriptor are read type by type, so a `)` in a class name is
part of that name. This much is asked of whoever reads them (`ReadsTypes`), and nothing
else. The result is not read so: it is the text behind the last `)`. The two readings
part exactly where the last `)` is not the one that closes the parameter list, that is,
where the class name of the result has one
(`JavaType.paren_mem_signature`). What is shown of the result then is what its
signature has behind that `)` (`MethodShape.shownResult_of_mem`), which is
never the signature.
-/

namespace ClassAudit

namespace JavaType

/-- A type has references for values if it is an array or a class. -/
theorem isReference_iff (type : JavaType) :
    type.isReference = true ↔
      type.dimensions ≠ 0 ∨ ∃ name, type.element = .named name := by
  obtain ⟨dimensions, element⟩ := type
  cases dimensions with
  | zero =>
      cases element with
      | basic basic => cases basic <;> simp [isReference, kind?, BasicType.kind?]
      | named name => simp [isReference, kind?]
  | succ n => simp [isReference, kind?]

/-- Only the name of a class can bring a `)` into a signature. -/
theorem paren_mem_signature (type : JavaType) :
    ')' ∈ type.signature.toList ↔
      ∃ name, type.element = .named name ∧ ')' ∈ name.toList := by
  obtain ⟨dimensions, element⟩ := type
  rw [signature_toList, List.mem_append]
  cases element with
  | basic basic =>
      rw [element_signature_basic]
      cases basic <;> simp [BasicType.code]
  | named name =>
      rw [element_signature_named]
      simp

/-- The signature of a class whose name has a `)`, cut at the last one. -/
theorem signature_split {type : JavaType} {name : String}
    (hname : type.element = .named name) (hparen : ')' ∈ name.toList) :
    ∃ front back, name.toList = front ++ ')' :: back ∧ ')' ∉ back ∧
      type.signature.toList =
        (List.replicate type.dimensions '[' ++ 'L' :: front) ++
          ')' :: (back ++ [';']) := by
  obtain ⟨back, front, hsplit, hback⟩ :=
    List.eq_append_cons_of_mem (List.mem_reverse.2 hparen)
  have hlist : name.toList = front.reverse ++ ')' :: back.reverse := by
    rw [← List.reverse_reverse name.toList, hsplit]
    simp
  refine ⟨front.reverse, back.reverse, hlist, by simpa using hback, ?_⟩
  rw [signature_toList, hname, element_signature_named, hlist]
  simp

end JavaType

namespace MethodType

theorem paren_mem_resultText (type : MethodType) :
    ')' ∈ type.resultText ↔
      ∃ result name, type.result = some result ∧ result.element = .named name ∧
        ')' ∈ name.toList := by
  unfold resultText
  cases type.result with
  | none => simp
  | some result => simp [result.paren_mem_signature]

end MethodType

namespace MethodShape

/-- If the class name of the result has a `)`, then the end of that name is shown, from
behind its last `)`, and the `;` that closes it. -/
theorem shownResult_of_mem {type : MethodType} {result : JavaType} {name : String}
    (hresult : type.result = some result) (hname : result.element = .named name)
    (hparen : ')' ∈ name.toList) :
    ∃ front back, name.toList = front ++ ')' :: back ∧ ')' ∉ back ∧
      shownResult type = some (String.ofList (back ++ [';'])) := by
  obtain ⟨front, back, hsplit, hback, hsignature⟩ :=
    JavaType.signature_split hname hparen
  refine ⟨front, back, hsplit, hback, ?_⟩
  -- The `)` of the name follows the one that closes the parameter list.
  have hlast : afterLastParen ('(' :: type.tail) = String.ofList (back ++ [';']) := by
    have htext : type.resultText = result.signature.toList := by
      rw [MethodType.resultText, hresult]
    rw [MethodType.tail, htext, hsignature, ← List.cons_append, ← List.cons_append,
      ← List.append_assoc]
    exact afterLastParen_append (by simpa using hback)
  have hvoid : String.ofList (back ++ [';']) ≠ "V" := by
    intro hvoid
    have hlist := congrArg (fun text => text.toList.getLast?) hvoid
    simp at hlist
  rw [shownResult, hlast, if_neg hvoid]

/-- The signature of the result is shown exactly if no `)` stands in it. -/
theorem shownResult_eq_iff {type : MethodType} (h : type.WellFormed) :
    shownResult type = resultSignature type ↔ ')' ∉ type.resultText := by
  refine ⟨?_, shownResult_eq h⟩
  intro hshown hmem
  obtain ⟨result, name, hresult, hname, hparen⟩ := type.paren_mem_resultText.1 hmem
  obtain ⟨front, back, _, hback, hlast⟩ := shownResult_of_mem hresult hname hparen
  rw [hlast, resultSignature, hresult, Option.map_some, Option.some_inj] at hshown
  have hmem := result.paren_mem_signature.2 ⟨name, hname, hparen⟩
  rw [← hshown, String.toList_ofList] at hmem
  exact hback (by simpa using hmem)

end MethodShape

/-- By a reader that takes type after type, every method type is read from its
descriptor, whatever stands in its class names: one parameter for each that is spelled,
and a reference for each array and each class.
The result that is shown is the spelled one exactly if its class name, if it has one,
has no `)`. Otherwise it is the end of that name, from behind its last `)`, and the
`;` that closes it. -/
theorem descriptor_reading_exact {reader : DescriptorReader}
    (hreader : reader.ReadsTypes) {type : MethodType} (h : type.WellFormed) :
    ∃ shape, MethodShape.ofDescriptorBy reader type.descriptor = .ok shape ∧
      shape.arity = type.parameters.length ∧
      (∀ (k : Nat) parameter, type.parameters[k]? = some parameter →
        (shape.references[k]? = some true ↔
          parameter.dimensions ≠ 0 ∨ ∃ name, parameter.element = .named name)) ∧
      (shape.result = type.result.map JavaType.signature ↔
        ∀ result name, type.result = some result → result.element = .named name →
          ')' ∉ name.toList) ∧
      ∀ result name, type.result = some result → result.element = .named name →
        ')' ∈ name.toList →
          ∃ front back, name.toList = front ++ ')' :: back ∧ ')' ∉ back ∧
            shape.result = some (String.ofList (back ++ [';'])) := by
  refine ⟨_, MethodShape.ofDescriptorBy_descriptor hreader h,
    List.length_map _, ?_, ?_, fun _ _ => MethodShape.shownResult_of_mem⟩
  · intro k parameter hparameter
    rw [List.getElem?_map, hparameter, Option.map_some, Option.some_inj]
    exact parameter.isReference_iff
  · refine (MethodShape.shownResult_eq_iff h).trans ?_
    rw [type.paren_mem_resultText]
    simp only [not_exists, not_and]

/-- A method whose class names hold every delimiter of descriptors: it takes an array,
two classes and a number, and its result is an array over the class `a)b)[c`. -/
def delimited : MethodType where
  parameters :=
    [⟨2, .basic .int⟩, .named ")(V", .basic .long, .named "[x)"]
  result := some ⟨1, .named "a)b)[c"⟩

theorem delimited_wellFormed : delimited.WellFormed := by
  constructor
  · simp [delimited, JavaType.IsField, JavaType.named, JavaType.basic]
  · simp [delimited, JavaType.IsField]

/-- The standard reader reads its parameters, and of its result the end of the class
name is shown. -/
theorem descriptor_reading_exact_delimited :
    DescriptorReader.standard.ReadsTypes ∧ delimited.WellFormed ∧
      delimited.descriptor = "([[IL)(V;JL[x);)[La)b)[c;" ∧
      ∃ shape, MethodShape.ofDescriptor "([[IL)(V;JL[x);)[La)b)[c;" = .ok shape ∧
        shape.arity = 4 ∧ shape.references[1]? = some true ∧
        shape.references[2]? ≠ some true ∧ shape.result ≠ some "[La)b)[c;" := by
  have hdescriptor : delimited.descriptor = "([[IL)(V;JL[x);)[La)b)[c;" := by
    decide +kernel
  obtain ⟨shape, hread, harity, hreferences, hresult, _⟩ :=
    descriptor_reading_exact DescriptorReader.standard_readsTypes delimited_wellFormed
  refine ⟨DescriptorReader.standard_readsTypes, delimited_wellFormed,
    hdescriptor, shape, hdescriptor ▸ hread, harity, ?_, ?_, ?_⟩
  · exact (hreferences 1 (.named ")(V") rfl).2 (.inr ⟨_, rfl⟩)
  · intro hlong
    obtain hdimensions | ⟨name, hname⟩ := (hreferences 2 (.basic .long) rfl).1 hlong
    · exact hdimensions rfl
    · cases hname
  · have hsignature : delimited.result.map JavaType.signature = some "[La)b)[c;" := by
      decide +kernel
    rw [← hsignature]
    intro hshown
    exact hresult.1 hshown ⟨1, .named "a)b)[c"⟩ "a)b)[c" rfl rfl (by decide)

end ClassAudit
