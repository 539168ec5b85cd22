/-!
# Method descriptors

A method descriptor is `(`, the types of the parameters, `)` and the return type. The
types of the parameters are the business of a `DescriptorReader`. The standard one is
lenient: `V` passes as any type, a class name is whatever stands before the next `;`,
and text behind the return type is ignored. The signature of the result is not what a
reader found but the text behind the last `)`.
-/

namespace ClassAudit

/-- Why a method descriptor cannot be read. -/
inductive DescriptorFault
  | noParameterList
  | endOfInput
  | openClassName
  | tooManyDimensions
  | arrayOfNothing
  | unknownType
  | noReturnType
  deriving DecidableEq, Repr

namespace DescriptorFault

def message : DescriptorFault → String
  | noParameterList => "Invalid descriptor: Method descriptor must start with '('."
  | endOfInput => "Unexpected end of input."
  | openClassName => "Invalid descriptor: Missing semicolon in class name descriptor."
  | tooManyDimensions => "Array has too many dimensions."
  | arrayOfNothing => "Invalid descriptor: Invalid descriptor."
  | unknownType => "Invalid descriptor: Unrecognized type descriptor."
  | noReturnType => "Invalid descriptor: Missing return type."

end DescriptorFault

/-- A descriptor without a shape. Either it cannot be read, or it can be read and has
no `)` to find the result behind. -/
inductive DescriptorError
  | unreadable (descriptor : String) (fault : DescriptorFault)
  | noResult (descriptor : String)
  deriving DecidableEq, Repr

def DescriptorError.chain : DescriptorError → List String
  | unreadable descriptor fault =>
    ["parse method descriptor " ++ descriptor, fault.message]
  | noResult descriptor => ["missing return type in " ++ descriptor]

/-- What a type in a descriptor is. -/
inductive DescribedType
  | primitive
  | object
  | array
  deriving DecidableEq, Repr

def DescribedType.isReference : DescribedType → Bool
  | primitive => false
  | object | array => true

/-- Reads the text of a descriptor into the types of the parameters. -/
structure DescriptorReader where
  types : List Char → Except DescriptorFault (List DescribedType)

namespace DescriptorReader

/-- What can stand where a type is expected. -/
inductive Token
  | type (type : DescribedType)
  /-- The end of the parameter list. -/
  | close
  deriving DecidableEq, Repr

/-- The type that starts with a character other than `[`, and the number of characters
behind it that belong to it. -/
def scalar (lead : Char) (rest : List Char) : Except DescriptorFault (Token × Nat) :=
  match lead with
  | 'Z' | 'B' | 'C' | 'S' | 'I' | 'J' | 'F' | 'D' | 'V' => .ok (.type .primitive, 0)
  | 'L' =>
    let name := rest.takeWhile (· != ';')
    if name.length < rest.length then .ok (.type .object, name.length + 1)
    else .error .openClassName
  | ')' => .ok (.close, 0)
  | _ => .error .unknownType

/-- The type that starts with `lead`, and the number of characters behind it that
belong to it. An array has at most 255 dimensions. -/
def token (lead : Char) (rest : List Char) : Except DescriptorFault (Token × Nat) :=
  if lead = '[' then
    let more := (rest.takeWhile (· == '[')).length
    if 255 ≤ more then .error .tooManyDimensions
    else
      match rest.drop more with
      | [] => .error .endOfInput
      | element :: behind =>
        match scalar element behind with
        | .error fault => .error fault
        | .ok (.close, _) => .error .arrayOfNothing
        | .ok (.type _, used) => .ok (.type .array, more + 1 + used)
  else scalar lead rest

/-- The types of the parameters, and the text behind the parameter list. -/
def parameters : List Char → Except DescriptorFault (List DescribedType × List Char)
  | [] => .error .endOfInput
  | lead :: rest =>
    match token lead rest with
    | .error fault => .error fault
    | .ok (.close, _) => .ok ([], rest)
    | .ok (.type first, used) =>
      match parameters (rest.drop used) with
      | .error fault => .error fault
      | .ok (more, behind) => .ok (first :: more, behind)
termination_by text => text.length
decreasing_by simp only [List.length_drop, List.length_cons]; omega

/-- Checks that a return type stands at the start of the text. -/
def checkResult : List Char → Except DescriptorFault Unit
  | [] => .error .endOfInput
  | lead :: rest =>
    match token lead rest with
    | .error fault => .error fault
    | .ok (.close, _) => .error .noReturnType
    | .ok (.type _, _) => .ok ()

/-- Reads type by type. -/
def standard : DescriptorReader where
  types text := do
    match text with
    | '(' :: rest =>
      let (types, behind) ← parameters rest
      checkResult behind
      return types
    | _ => throw .noParameterList

end DescriptorReader

/-- What the operand stack needs to know of a method: which parameters are references,
and the signature of the result unless it is void. -/
structure MethodShape where
  references : List Bool
  result : Option String
  deriving DecidableEq, Repr

namespace MethodShape

/-- The number of parameters. -/
def arity (shape : MethodShape) : Nat := shape.references.length

/-- The text behind the last `)`. -/
def afterLastParen (text : List Char) : String :=
  String.ofList (text.reverse.takeWhile (· != ')')).reverse

/-- The shape of a method by its descriptor, the types of which are left to a
reader. -/
def ofDescriptorBy (reader : DescriptorReader) (descriptor : String) :
    Except DescriptorError MethodShape :=
  match reader.types descriptor.toList with
  | .error fault => .error (.unreadable descriptor fault)
  | .ok types =>
    if ')' ∈ descriptor.toList then
      let result := afterLastParen descriptor.toList
      .ok ⟨types.map DescribedType.isReference,
        if result = "V" then none else some result⟩
    else .error (.noResult descriptor)

/-- Reads a method descriptor. -/
def ofDescriptor (descriptor : String) : Except DescriptorError MethodShape :=
  ofDescriptorBy .standard descriptor

end MethodShape

/-- The signature of a class given by its name. Class constants name an array by its
signature and a class by its bare name. -/
def signatureOfName (name : String) : String :=
  if name.toList.head? = some '[' then name else "L" ++ name ++ ";"

end ClassAudit
