import ClassAudit.Types.JavaType

/-!
# Method types and the descriptors that spell them

A method descriptor is text, and `MethodShape.ofDescriptor` reads from it only
what the operand stack needs. This file has the other side: a `MethodType` is a
list of parameter types and a result, and `MethodType.descriptor` spells it.

What is asked of a reader is a grammar (`DescriptorReader.ReadsTypes`). It takes
one type off the front of the text at a time, and the spelling of a type fixes
where that type ends: a letter ends at once, a class name at its first `;`, an
array where its element does. The standard reader does so
(`standard_readsTypes`). And in this grammar a spelled parameter list ends with
the `)` that closes it even if class names hold more of them
(`parametersAt_spelled`), and the text left over is the result. That last remark
is also why a descriptor spells at most one parameter list and one result
(`MethodType.shape_of_descriptor`).

The signature of the result is not taken from a reader but from behind the last
`)` of the whole text. It is the spelled result exactly if no `)` stands inside
it, and that is the one condition `ofDescriptor_spelled` has.
-/

namespace ClassAudit

/-- The kind of a basic type; `void` has no values. -/
def BasicType.kind? : BasicType → Option Kind
  | boolean | byte | char | short | int => some .int
  | long => some .long
  | float => some .float
  | double => some .double
  | void => none

namespace JavaType

/-- The kind of the values of a type. -/
def kind? (type : JavaType) : Option Kind :=
  match type.dimensions, type.element with
  | 0, .basic basic => basic.kind?
  | _, _ => some .reference

def isReference (type : JavaType) : Bool := type.kind? == some .reference

/-- Whether a type can be the type of a field: it has values, at most 255
dimensions, and a class has a name that its signature can hold. -/
def IsField (type : JavaType) : Prop :=
  type.dimensions ≤ 255 ∧
    match type.element with
    | .basic basic => basic ≠ .void
    | .named name => name ≠ "" ∧ ';' ∉ name.toList

theorem toList_pushn (text : String) (c : Char) (n : Nat) :
    (text.pushn c n).toList = text.toList ++ List.replicate n c := by
  induction n with
  | zero => simp [String.pushn, Nat.repeat]
  | succ n ih =>
      have hpush : text.pushn c (n + 1) = (text.pushn c n).push c := rfl
      rw [hpush, String.toList_push, ih, List.append_assoc,
        List.replicate_succ']

theorem signature_toList (type : JavaType) :
    type.signature.toList =
      List.replicate type.dimensions '[' ++ type.element.signature.toList := by
  rw [signature, String.toList_append, toList_pushn]
  rfl

theorem element_signature_named (name : String) :
    (ElementType.named name).signature.toList =
      'L' :: (name.toList ++ [';']) := by
  simp [ElementType.signature]

theorem element_signature_basic (basic : BasicType) :
    (ElementType.basic basic).signature.toList = [basic.code] :=
  String.toList_singleton _

/-- A signature begins with the character that decides its kind. -/
theorem ofSignature?_signature (type : JavaType) :
    Kind.ofSignature? type.signature = type.kind? := by
  obtain ⟨dimensions, element⟩ := type
  rw [Kind.ofSignature?, signature_toList]
  cases dimensions with
  | zero =>
      cases element with
      | basic basic =>
          rw [element_signature_basic]
          cases basic <;> rfl
      | named name =>
          rw [element_signature_named]
          rfl
  | succ n => rfl

theorem IsField.kind?_isSome {type : JavaType} (h : type.IsField) :
    ∃ kind, type.kind? = some kind := by
  obtain ⟨dimensions, element⟩ := type
  cases dimensions with
  | zero =>
      cases element with
      | basic basic =>
          have hne : basic ≠ .void := h.2
          cases basic
          case void => exact absurd rfl hne
          all_goals exact ⟨_, rfl⟩
      | named name => exact ⟨.reference, rfl⟩
  | succ n => exact ⟨.reference, rfl⟩

end JavaType

/-- The types of a method's parameters and of its result, which a void method
does not have. -/
structure MethodType where
  parameters : List JavaType
  result : Option JavaType

namespace MethodType

/-- Whether all types of a method can be types of fields. -/
def WellFormed (type : MethodType) : Prop :=
  (∀ parameter ∈ type.parameters, parameter.IsField) ∧
    ∀ result, type.result = some result → result.IsField

/-- How a result is spelled. -/
def resultText (type : MethodType) : List Char :=
  match type.result with
  | some result => result.signature.toList
  | none => ['V']

/-- What follows the opening parenthesis of a descriptor. -/
def tail (type : MethodType) : List Char :=
  type.parameters.flatMap (fun parameter => parameter.signature.toList)
    ++ ')' :: type.resultText

/-- How a method type is spelled. -/
def descriptor (type : MethodType) : String := String.ofList ('(' :: type.tail)

end MethodType

/-! ## Reading type by type -/

namespace DescriptorReader

/-- A type stands at the front of a text, with something behind it: a letter, a class
with a name up to the next `;`, or an array over one of these. -/
inductive TypeAt : DescribedType → List Char → List Char → Prop
  | basic {basic : BasicType} (hvoid : basic ≠ .void) (behind : List Char) :
    TypeAt .primitive (basic.code :: behind) behind
  | named {name : List Char} (hname : ';' ∉ name) (behind : List Char) :
    TypeAt .object ('L' :: (name ++ ';' :: behind)) behind
  | array {dimensions : Nat} {element : DescribedType} {text behind : List Char}
    (hmost : dimensions + 1 ≤ 255) (hflat : element ≠ .array)
    (h : TypeAt element text behind) :
    TypeAt .array (List.replicate (dimensions + 1) '[' ++ text) behind

/-- Types stand one behind the other, up to a `)` where the next one should start. -/
inductive ParametersAt : List DescribedType → List Char → List Char → Prop
  | close (behind : List Char) : ParametersAt [] (')' :: behind) behind
  | cons {type : DescribedType} {types : List DescribedType}
    {text rest behind : List Char} (first : TypeAt type text rest)
    (more : ParametersAt types rest behind) :
    ParametersAt (type :: types) text behind

/-- One return type and nothing behind it. -/
inductive ResultAt : List Char → Prop
  | void : ResultAt ['V']
  | type {type : DescribedType} {text : List Char} (h : TypeAt type text []) :
    ResultAt text

/-- A reader that takes one type after the other until a `)` stands where a type should
start, and then one return type. -/
def ReadsTypes (reader : DescriptorReader) : Prop :=
  ∀ {types : List DescribedType} {text result : List Char},
    ParametersAt types text result → ResultAt result →
      reader.types ('(' :: text) = .ok types

variable {type : DescribedType} {types : List DescribedType} {text behind : List Char}

theorem takeWhile_name {name rest : List Char} (h : ';' ∉ name) :
    (name ++ ';' :: rest).takeWhile (· != ';') = name := by
  have hname : ∀ c ∈ name, (c != ';') = true := by
    intro c hc
    simp only [bne_iff_ne, ne_eq]
    rintro rfl
    exact h hc
  rw [List.takeWhile_append_of_pos hname]
  simp

/-- A class name is read up to its first `;`. -/
theorem scalar_named {name rest : List Char} (h : ';' ∉ name) :
    scalar 'L' (name ++ ';' :: rest) = .ok (.type .object, name.length + 1) := by
  unfold scalar
  simp only [takeWhile_name h]
  rw [if_pos]
  simp

theorem scalar_basic {basic : BasicType} (rest : List Char) :
    scalar basic.code rest = .ok (.type .primitive, 0) := by
  cases basic <;> rfl

theorem TypeAt.scalar_eq (h : TypeAt type text behind) (hflat : type ≠ .array) :
    ∃ lead rest used, text = lead :: rest ∧ lead ≠ '[' ∧
      scalar lead rest = .ok (.type type, used) ∧ rest.drop used = behind := by
  cases h with
  | @basic basic _ _ =>
      refine ⟨basic.code, behind, 0, rfl, ?_, scalar_basic behind, rfl⟩
      cases basic <;> decide
  | @named name hname _ =>
      refine ⟨'L', _, name.length + 1, rfl, by decide, scalar_named hname, ?_⟩
      rw [← List.drop_drop, List.drop_left]
      rfl
  | array => exact absurd rfl hflat

theorem takeWhile_replicate {n : Nat} {lead : Char} {rest : List Char}
    (h : lead ≠ '[') :
    ((List.replicate n '[' ++ lead :: rest).takeWhile (· == '[')).length = n := by
  rw [List.takeWhile_append_of_pos (by simp)]
  simp [h]

/-- A type at the front of a text is read whole, and nothing of what follows. -/
theorem TypeAt.token_eq (h : TypeAt type text behind) :
    ∃ lead rest used, text = lead :: rest ∧
      token lead rest = .ok (.type type, used) ∧ rest.drop used = behind := by
  by_cases harray : type = .array
  · cases h with
    | basic => cases harray
    | named => cases harray
    | @array n element text _ hmost hflat h =>
        obtain ⟨lead, rest, used, rfl, hlead, hscalar, hbehind⟩ := h.scalar_eq hflat
        refine ⟨'[', List.replicate n '[' ++ lead :: rest, n + 1 + used, rfl, ?_, ?_⟩
        · rw [token, if_pos rfl]
          simp only [takeWhile_replicate hlead]
          rw [if_neg (by omega), List.drop_left' (List.length_replicate ..)]
          simp only [hscalar]
        · rw [Nat.add_assoc, ← List.drop_drop,
            List.drop_left' (List.length_replicate ..), Nat.add_comm 1,
            List.drop_succ_cons, hbehind]
  · obtain ⟨lead, rest, used, htext, hlead, hscalar, hbehind⟩ := h.scalar_eq harray
    refine ⟨lead, rest, used, htext, ?_, hbehind⟩
    rw [token, if_neg hlead, hscalar]

/-- A parameter list is read up to the `)` that closes it. -/
theorem ParametersAt.parameters_eq (h : ParametersAt types text behind) :
    parameters text = .ok (types, behind) := by
  induction h with
  | close behind =>
      rw [parameters]
      rfl
  | cons first _ ih =>
      obtain ⟨lead, rest, used, rfl, htoken, rfl⟩ := first.token_eq
      rw [parameters, htoken]
      simp only [ih]

theorem ResultAt.checkResult_eq (h : ResultAt text) : checkResult text = .ok () := by
  cases h with
  | void => rfl
  | type h =>
      obtain ⟨lead, rest, used, rfl, htoken, _⟩ := h.token_eq
      rw [checkResult, htoken]

theorem standard_readsTypes : standard.ReadsTypes := by
  intro types text result hparameters hresult
  unfold standard
  simp only [hparameters.parameters_eq, bind, Except.bind, hresult.checkResult_eq]
  rfl

end DescriptorReader

/-! ## Reading a spelled descriptor -/

/-- What a type is to a reader of descriptors. -/
def JavaType.described (type : JavaType) : DescribedType :=
  match type.dimensions, type.element with
  | 0, .basic _ => .primitive
  | 0, .named _ => .object
  | _ + 1, _ => .array

theorem JavaType.isReference_described (type : JavaType) :
    type.described.isReference = type.isReference := by
  obtain ⟨dimensions, element⟩ := type
  cases dimensions with
  | zero =>
      cases element with
      | basic basic => cases basic <;> rfl
      | named name => rfl
  | succ n => rfl

namespace DescriptorReader

theorem typeAt_element {element : ElementType}
    (h : JavaType.IsField ⟨0, element⟩) (behind : List Char) :
    TypeAt (JavaType.described ⟨0, element⟩)
      (element.signature.toList ++ behind) behind := by
  cases element with
  | basic basic =>
      rw [JavaType.element_signature_basic]
      exact .basic h.2 behind
  | named name =>
      rw [JavaType.element_signature_named, List.cons_append, List.append_assoc]
      exact .named h.2.2 behind

theorem typeAt_signature {type : JavaType} (h : type.IsField) (behind : List Char) :
    TypeAt type.described (type.signature.toList ++ behind) behind := by
  obtain ⟨dimensions, element⟩ := type
  have helement : TypeAt (JavaType.described ⟨0, element⟩)
      (element.signature.toList ++ behind) behind :=
    typeAt_element ⟨Nat.zero_le _, h.2⟩ behind
  rw [JavaType.signature_toList, List.append_assoc]
  cases dimensions with
  | zero => exact helement
  | succ n =>
      refine .array h.1 ?_ helement
      cases element <;> exact DescribedType.noConfusion

/-- Whatever stands in class names, a spelled parameter list ends with the `)` that
closes it. -/
theorem parametersAt_spelled {types : List JavaType}
    (h : ∀ type ∈ types, type.IsField) (behind : List Char) :
    ParametersAt (types.map JavaType.described)
      (types.flatMap (fun type => type.signature.toList) ++ ')' :: behind) behind := by
  induction types with
  | nil => exact .close behind
  | cons type types ih =>
      rw [List.flatMap_cons, List.append_assoc]
      exact .cons (typeAt_signature (h type List.mem_cons_self) _)
        (ih fun type hmem => h type (List.mem_cons_of_mem _ hmem))

theorem resultAt_spelled {type : MethodType} (h : type.WellFormed) :
    ResultAt type.resultText := by
  unfold MethodType.resultText
  cases hresult : type.result with
  | none => exact .void
  | some result =>
      have htype := typeAt_signature (h.2 result hresult) []
      rw [List.append_nil] at htype
      exact .type htype

end DescriptorReader

namespace MethodShape

/-- The text behind the last `)` is what follows any `)` that no other
follows. -/
theorem afterLastParen_append {before text : List Char} (h : ')' ∉ text) :
    afterLastParen (before ++ ')' :: text) = String.ofList text := by
  have htext : ∀ c ∈ text.reverse, (c != ')') = true := by
    intro c hc
    simp only [bne_iff_ne, ne_eq]
    rintro rfl
    exact h (List.mem_reverse.mp hc)
  rw [afterLastParen, List.reverse_append, List.reverse_cons,
    List.append_assoc, List.takeWhile_append_of_pos htext]
  simp

/-- The signature of a result, as the operand stack shows it. -/
def resultSignature (type : MethodType) : Option String :=
  type.result.map JavaType.signature

theorem resultSignature_eq {type : MethodType} (h : type.WellFormed) :
    (if String.ofList type.resultText = "V" then none
      else some (String.ofList type.resultText)) = resultSignature type := by
  unfold MethodType.resultText resultSignature
  cases hresult : type.result with
  | none => rfl
  | some result =>
      simp only [String.ofList_toList, Option.map_some]
      rw [if_neg]
      intro hvoid
      have hkind := JavaType.ofSignature?_signature result
      rw [hvoid] at hkind
      obtain ⟨kind, hsome⟩ := (h.2 result hresult).kind?_isSome
      rw [hsome] at hkind
      cases hkind

/-- What the reader shows of a result. -/
def shownResult (type : MethodType) : Option String :=
  if afterLastParen ('(' :: type.tail) = "V" then none
  else some (afterLastParen ('(' :: type.tail))

/-- A spelled method type is read, whatever its class names hold and whoever reads its
types. -/
theorem ofDescriptorBy_descriptor {reader : DescriptorReader}
    (hreader : reader.ReadsTypes) {type : MethodType} (h : type.WellFormed) :
    ofDescriptorBy reader type.descriptor =
      .ok ⟨type.parameters.map JavaType.isReference, shownResult type⟩ := by
  have htypes : reader.types ('(' :: type.tail) =
      .ok (type.parameters.map JavaType.described) :=
    hreader (DescriptorReader.parametersAt_spelled h.1 type.resultText)
      (DescriptorReader.resultAt_spelled h)
  have hparen : ')' ∈ '(' :: type.tail := by simp [MethodType.tail]
  rw [ofDescriptorBy, MethodType.descriptor, String.toList_ofList, htypes]
  simp only [if_pos hparen, List.map_map, shownResult]
  congr 2
  exact List.map_congr_left fun type _ => type.isReference_described

theorem shownResult_eq {type : MethodType} (h : type.WellFormed)
    (hparen : ')' ∉ type.resultText) : shownResult type = resultSignature type := by
  have hlast : afterLastParen ('(' :: type.tail) =
      String.ofList type.resultText := by
    rw [MethodType.tail, ← List.cons_append]
    exact afterLastParen_append hparen
  rw [shownResult, hlast, resultSignature_eq h]

/-- A spelled method type is read as its shape, if its result holds no `)`. -/
theorem ofDescriptor_spelled {type : MethodType} (h : type.WellFormed)
    (hparen : ')' ∉ type.resultText) :
    ofDescriptor type.descriptor =
      .ok ⟨type.parameters.map JavaType.isReference,
        resultSignature type⟩ := by
  rw [ofDescriptor, ofDescriptorBy_descriptor DescriptorReader.standard_readsTypes h,
    shownResult_eq h hparen]

theorem arity_spelled {type : MethodType} (h : type.WellFormed)
    (hparen : ')' ∉ type.resultText) :
    (ofDescriptor type.descriptor).toOption.map arity =
      some type.parameters.length := by
  rw [ofDescriptor_spelled h hparen]
  exact congrArg some (List.length_map _)

end MethodShape

/-- A descriptor spells at most one parameter list and one result: both are what
the reader finds. -/
theorem MethodType.shape_of_descriptor {a b : MethodType}
    (ha : a.WellFormed) (hb : b.WellFormed)
    (h : a.descriptor = b.descriptor) :
    a.parameters.length = b.parameters.length ∧ a.resultText = b.resultText := by
  have htail : a.tail = b.tail := by
    have hlist := congrArg String.toList h
    rw [descriptor, descriptor, String.toList_ofList,
      String.toList_ofList] at hlist
    exact (List.cons.inj hlist).2
  have hread :=
    (DescriptorReader.parametersAt_spelled ha.1 a.resultText).parameters_eq
  rw [← tail, htail, tail,
    (DescriptorReader.parametersAt_spelled hb.1 b.resultText).parameters_eq] at hread
  injection hread with hread
  injection hread with hparameters hresult
  have hlength := congrArg List.length hparameters
  rw [List.length_map, List.length_map] at hlength
  exact ⟨hlength.symm, hresult.symm⟩

/-- The signature of a type does not start like a method descriptor. -/
theorem JavaType.signature_ne_paren (type : JavaType) (rest : List Char) :
    type.signature.toList ≠ '(' :: rest := by
  intro hlist
  obtain ⟨dimensions, element⟩ := type
  rw [JavaType.signature_toList] at hlist
  cases dimensions with
  | zero =>
      cases element with
      | basic basic =>
          rw [JavaType.element_signature_basic] at hlist
          have hcode : basic.code = '(' := (List.cons.inj hlist).1
          cases basic <;> exact absurd hcode (by decide)
      | named name =>
          rw [JavaType.element_signature_named] at hlist
          exact absurd (List.cons.inj hlist).1 (by decide)
  | succ n => exact absurd (List.cons.inj hlist).1 (by decide)

/-- No method descriptor is the signature of a type. -/
theorem MethodType.descriptor_ne_signature (method : MethodType)
    (type : JavaType) : method.descriptor ≠ type.signature := by
  intro h
  refine type.signature_ne_paren method.tail ?_
  rw [← h, descriptor, String.toList_ofList]

/-- The signature of a type is not read as a method descriptor. -/
theorem MethodShape.ofDescriptor_signature (type : JavaType) :
    (ofDescriptor type.signature).toOption = none := by
  have hunreadable : DescriptorReader.standard.types type.signature.toList =
      .error .noParameterList := by
    unfold DescriptorReader.standard
    dsimp only
    split
    · next rest hlist => exact absurd hlist (type.signature_ne_paren rest)
    · rfl
  rw [ofDescriptor, ofDescriptorBy, hunreadable]
  rfl

end ClassAudit
