import ClassAudit.Analysis

/-!
# Traces

A trace shows the operand stack before every instruction of the methods with one name,
a JSON line for each. Lines go to a writer piece by piece, and a writer may refuse a
piece. The walk over the method then goes on to its end, but its further visits write
nothing, and no method is traced after it.
-/

namespace ClassAudit

open Text

/-- Somewhere to write to. A write says whether it was accepted, and what it left
behind. -/
structure Writer (σ : Type) where
  write : σ → String → Bool × σ

/-- Which part of a line was refused. -/
inductive TraceError
  | line
  | newline
  deriving DecidableEq, Repr

def TraceError.message : TraceError → String
  | line => "serialize trace line"
  | newline => "write trace line"

namespace Writer

variable {σ : Type}

/-- Writes pieces in order, up to the first that is refused. -/
def writeAll (writer : Writer σ) (state : σ) : List String → Bool × σ
  | [] => (true, state)
  | piece :: rest =>
    match writer.write state piece with
    | (true, state) => writer.writeAll state rest
    | (false, state) => (false, state)

/-- Writes a document and a line break. -/
def writeLine (writer : Writer σ) (state : σ) (document : Json) :
    Except TraceError Unit × σ :=
  match writer.writeAll state document.fragments with
  | (false, state) => (.error .line, state)
  | (true, state) =>
    match writer.write state "\n" with
    | (false, state) => (.error .newline, state)
    | (true, state) => (.ok (), state)

/-- What a visit writes: its line, unless something was refused before. -/
def visitLine (writer : Writer σ) :
    Except TraceError Unit × σ → Json → Except TraceError Unit × σ
  | (.ok (), state), document => writer.writeLine state document
  | (.error error, state), _ => (.error error, state)

/-- What a walk writes, by the documents of its visits. -/
def writeLines (writer : Writer σ) (state : σ) (documents : List Json) :
    Except TraceError Unit × σ :=
  documents.foldl writer.visitLine (.ok (), state)

/-- A writer that keeps what is written, and refuses to hold more than a number of
bytes if one is given. -/
def bounded (limit : Option Nat) : Writer String where
  write text piece :=
    if limit.any (· < (text ++ piece).utf8ByteSize) then (false, text)
    else (true, text ++ piece)

end Writer

/-- One line of a trace. -/
def Visit.toJson (visit : Visit) (model : ClassModel) (method : Method) : Json :=
  .object
    [ ("class", .string model.name)
    , ("method", .string (method.name ++ method.descriptor))
    , ("offset", .int visit.instruction.offset)
    , ("opcode", .string visit.instruction.opcode.mnemonic)
    , ("valid", .bool visit.stack.valid)
    , ("stack", .array (visit.stack.values.reverse.map StackValue.toJson)) ]

namespace Program

/-- The methods with a name, with their classes. -/
def methodsNamed (program : Program) (name : String) : List (ClassModel × Method) :=
  program.classes.flatMap fun model =>
    (model.methods.filter (·.name == name)).map fun method => (model, method)

/-- The lines of the trace of one method. -/
def traceLines (model : ClassModel) (method : Method) : List Json :=
  (method.visits model.pool).map (·.toJson model method)

/-- Traces methods one after the other, up to the first with a line that is refused,
and counts them. -/
def traceMethods {σ : Type} (writer : Writer σ) (state : σ) (traced : Nat) :
    List (ClassModel × Method) → Except TraceError Nat × σ
  | [] => (.ok traced, state)
  | (model, method) :: rest =>
    match writer.writeLines state (traceLines model method) with
    | (.ok (), state) => traceMethods writer state (traced + 1) rest
    | (.error error, state) => (.error error, state)

/-- Traces the methods with a name, and says how many there are. -/
def trace {σ : Type} (program : Program) (name : String) (writer : Writer σ)
    (state : σ) : Except TraceError Nat × σ :=
  traceMethods writer state 0 (program.methodsNamed name)

end Program

end ClassAudit
