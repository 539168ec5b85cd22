import ClassAudit.Proofs.Flyweight

/-!
# The grammar of signatures

A signature is `V`, or any number of brackets in front of a letter other than `V` or
of a name between `L` and `;`. `SignatureGrammar` says so, with the type that each
signature stands for. The reader takes a text apart from both ends instead: it looks
at the first character and the last, and drops all brackets at once. It accepts the
words of the grammar and nothing else (`JavaType.ofSignature_eq_ok`), and what it
shows of any other text is the text without its brackets.

A type is read to its end before anything is held, so a text that is no signature
leaves no trace. One that is gets the position of its type, where its signature leads
and every later request will (`TypeRepository.Flyweight`).
-/

namespace ClassAudit

/-! ## Reading -/

/-- The letters of the types that a field can have. -/
def fieldLetters : List (Char × BasicType) :=
  [ ('Z', .boolean), ('B', .byte), ('C', .char), ('S', .short), ('I', .int)
  , ('J', .long), ('F', .float), ('D', .double) ]

/-- The signatures of element types, and the types they stand for. -/
inductive ElementGrammar : List Char → ElementType → Prop
  | basic {letter : Char} {type : BasicType}
      (listed : (letter, type) ∈ fieldLetters) :
      ElementGrammar [letter] (.basic type)
  | named {name : List Char} (nonempty : name ≠ []) (unbroken : ';' ∉ name) :
      ElementGrammar ('L' :: (name ++ [';'])) (.named (String.ofList name))

/-- The signatures of types, and the types they stand for. There are no arrays of
`void`. -/
inductive SignatureGrammar : List Char → JavaType → Prop
  | void : SignatureGrammar ['V'] (.basic .void)
  | field (dimensions : Nat) {chars : List Char} {element : ElementType}
      (spelled : ElementGrammar chars element) :
      SignatureGrammar (List.replicate dimensions '[' ++ chars) ⟨dimensions, element⟩

/-- What is left of a text without the brackets in front of it. -/
def Unbracketed (text rest : String) : Prop :=
  ∃ brackets, text.toList = List.replicate brackets '[' ++ rest.toList ∧
    rest.toList.head? ≠ some '['

theorem BasicType.mem_fieldLetters {type : BasicType} (h : type ≠ .void) :
    (type.code, type) ∈ fieldLetters := by
  cases type
  case void => exact absurd rfl h
  all_goals decide

theorem ElementType.ofChars?_eq_some {chars : List Char} {element : ElementType} :
    ofChars? chars = some element ↔ ElementGrammar chars element := by
  constructor
  · intro h
    unfold ofChars? at h
    split at h
    · next rest =>
        dsimp only at h
        split at h
        · next hname =>
            obtain ⟨hlast, hnonempty, hunbroken⟩ := hname
            cases h
            have hword := ElementGrammar.named hnonempty hunbroken
            rwa [List.dropLast_append_getLast? _ hlast] at hword
        · cases h
    · next letter _ =>
        obtain ⟨type, htype, rfl⟩ := Option.map_eq_some_iff.1 h
        obtain ⟨hcode, hvoid⟩ := Option.filter_eq_some_iff.1 htype
        rw [← BasicType.code_of_ofCode? hcode]
        exact .basic (BasicType.mem_fieldLetters (by simpa using hvoid))
    · cases h
  · intro h
    cases h with
    | @basic letter type listed =>
        have hread : ∀ pair ∈ fieldLetters,
            ofChars? [pair.1] = some (.basic pair.2) := by decide
        exact hread (letter, type) listed
    | @named name nonempty unbroken =>
        rw [ofChars?]
        simp [nonempty, unbroken]

namespace JavaType

theorem ofSignature_signature {type : JavaType}
    (h : ElementGrammar type.element.signature.toList type.element) :
    ofSignature type.signature = .ok type := by
  have hread := ElementType.ofChars?_eq_some.2 h
  have hvoid : type.signature ≠ "V" := by
    intro hvoid
    rw [← elementPart_signature, hvoid] at hread
    have hnone : ElementType.ofChars? (elementPart "V") = none := by decide
    rw [hnone] at hread
    cases hread
  rw [ofSignature, if_neg hvoid, elementPart_signature, hread,
    dimensionsOf_signature]

/-- Reading a signature accepts the words of the grammar and nothing else. -/
theorem ofSignature_eq_ok {text : String} {type : JavaType} :
    ofSignature text = .ok type ↔ SignatureGrammar text.toList type := by
  constructor
  · intro h
    unfold ofSignature at h
    split at h
    · next hvoid =>
        cases h
        rw [hvoid]
        exact .void
    · split at h
      · next element helement =>
          cases h
          rw [← brackets_elementPart]
          exact .field _ (ElementType.ofChars?_eq_some.1 helement)
      · cases h
  · intro h
    generalize hchars : text.toList = chars at h
    cases h with
    | void =>
        obtain rfl : text = "V" := String.toList_inj.1 hchars
        rfl
    | @field dimensions chars element spelled =>
        have hspelled := ElementType.signature_of_ofChars?
          (ElementType.ofChars?_eq_some.2 spelled)
        obtain rfl : text = (JavaType.mk dimensions element).signature := by
          rw [← String.toList_inj, hchars, signature_toList, hspelled]
        refine ofSignature_signature ?_
        rw [hspelled]
        exact spelled

theorem ofSignature_eq_error {text : String} {error : SignatureError}
    (h : ofSignature text = .error error) : Unbracketed text error.signature := by
  unfold ofSignature at h
  split at h
  · cases h
  · split at h
    · cases h
    · cases h
      refine ⟨dimensionsOf text, ?_, ?_⟩
      · rw [String.toList_ofList, brackets_elementPart]
      · rw [String.toList_ofList]
        intro hhead
        have hfirst := List.head?_dropWhile_not (· == '[') text.toList
        rw [elementPart] at hhead
        rw [hhead] at hfirst
        simp at hfirst

end JavaType

/-! ## Holding -/

/-- The signature of the type at a position. -/
def TypeRepository.signature? (r : TypeRepository) (id : TypeId) : Option String :=
  (r.type? id).map JavaType.signature

namespace TypeContext

variable {σ : Type} {c c' : TypeContext σ} {text : String}

/-- A signature is granted if its text can be read, and the type is held as read. -/
theorem internSignature_eq_ok {id : TypeId}
    (h : c.internSignature text = (.ok id, c')) :
    ∃ type, SignatureGrammar text.toList type ∧
      c'.repository.type? id = some type := by
  unfold internSignature at h
  split at h
  · next type htype =>
      cases h
      exact ⟨type, JavaType.ofSignature_eq_ok.1 htype,
        TypeRepository.intern_type? c.repository type⟩
  · cases h

/-- A text that cannot be read leaves everything as it is. -/
theorem internSignature_eq_error {error : SignatureError}
    (h : c.internSignature text = (.error error, c')) :
    c' = c ∧ Unbracketed text error.signature := by
  unfold internSignature at h
  split at h
  · cases h
  · next herror =>
      cases h
      exact ⟨rfl, JavaType.ofSignature_eq_error herror⟩

theorem internSignature_isOk (c : TypeContext σ) (text : String) :
    (∃ id, (c.internSignature text).1 = .ok id) ↔
      ∃ type, SignatureGrammar text.toList type := by
  constructor
  · rintro ⟨id, hid⟩
    obtain ⟨type, hword, _⟩ := internSignature_eq_ok (Prod.ext hid rfl)
    exact ⟨type, hword⟩
  · rintro ⟨type, hword⟩
    refine ⟨(c.intern type).1, ?_⟩
    rw [internSignature, JavaType.ofSignature_eq_ok.2 hword]

end TypeContext

/-- In every run, a text is granted a position exactly if it is a signature. The type
there is the one that the grammar gives it, the text is its signature and leads there,
and all that was held before stays where it is. A text that is no signature changes
nothing, and is shown without the brackets in front of it. -/
theorem internSignature_exact {σ : Type} [ClassSource σ] {source : σ}
    {c : TypeContext σ} (hc : TypeContext.Run (.ofSource source) c) (text : String) :
    ((∃ id, (c.internSignature text).1 = .ok id) ↔
      ∃ type, SignatureGrammar text.toList type) ∧
    (∀ id c', c.internSignature text = (.ok id, c') →
      (∀ type, c'.repository.type? id = some type ↔
        SignatureGrammar text.toList type) ∧
      c'.repository.signature? id = some text ∧
      c'.repository.lookup? text = some id ∧
      ∀ j type, c.repository.type? j = some type →
        c'.repository.type? j = some type ∧
          c'.repository.signature? j = c.repository.signature? j) ∧
    ∀ error c', c.internSignature text = (.error error, c') →
      c' = c ∧ Unbracketed text error.signature := by
  refine ⟨c.internSignature_isOk text, ?_,
    fun _ _ => TypeContext.internSignature_eq_error⟩
  intro id c' h
  have hstep : c.Step c' := by
    have hstep : c.Step (c.internSignature text).2 :=
      .perform (.internSignature text) trivial
    rwa [h] at hstep
  obtain ⟨type, hword, hheld⟩ := TypeContext.internSignature_eq_ok h
  have hread := JavaType.ofSignature_eq_ok.2 hword
  have hsignature := JavaType.signature_of_ofSignature hread
  refine ⟨?_, ?_, ?_, ?_⟩
  · intro other
    rw [hheld, Option.some_inj, ← JavaType.ofSignature_eq_ok, hread, Except.ok.injEq]
  · rw [TypeRepository.signature?, hheld, Option.map_some, hsignature]
  · have hkept := TypeContext.Run.kept (hc.tail hstep)
    exact (hkept.lookup?_eq_some text id).2 ⟨type, hheld, hsignature⟩
  · intro j other hj
    have hlater := hstep.edits.types hj
    refine ⟨hlater, ?_⟩
    rw [TypeRepository.signature?, TypeRepository.signature?, hlater, hj]

/-- Where strings are held, arrays of arrays of them are granted, and an array of
`void` is not. -/
theorem internSignature_exact_strings :
    TypeContext.Run (.ofSource Classpath.core)
        ((TypeContext.ofSource Classpath.core).internSignature
          "Ljava/lang/String;").2 ∧
      SignatureGrammar "[[Ljava/lang/String;".toList
        ⟨2, .named "java/lang/String"⟩ ∧
      ¬ ∃ type, SignatureGrammar "[V".toList type := by
  have hrun : TypeContext.Run (.ofSource Classpath.core)
      ((TypeContext.ofSource Classpath.core).internSignature
        "Ljava/lang/String;").2 :=
    .single (.perform (.internSignature _) trivial)
  obtain ⟨_, hgranted, _⟩ := internSignature_exact hrun "[[Ljava/lang/String;"
  obtain ⟨hasked, _, _⟩ := internSignature_exact hrun "[V"
  refine ⟨hrun, ?_, ?_⟩
  · have hid : (((TypeContext.ofSource Classpath.core).internSignature
        "Ljava/lang/String;").2.internSignature
          "[[Ljava/lang/String;").1.toOption = some 2 := by decide +kernel
    exact ((hgranted 2 _ (Prod.ext (ok_of_toOption hid) rfl)).1 _).1
      (by decide +kernel)
  · rw [← hasked]
    rintro ⟨id, hid⟩
    have hnone : (((TypeContext.ofSource Classpath.core).internSignature
        "Ljava/lang/String;").2.internSignature "[V").1.toOption = none := by
      decide +kernel
    rw [hid] at hnone
    cases hnone

end ClassAudit
