/-!
# Command line options

Options are written `--name value` or `--name=value`. Arguments are read in order, and
the first one that does not fit, or that asks for something else than a run, decides.
-/

namespace ClassAudit

/-- What a run is asked to do. -/
structure Options where
  input : String
  classpath : List String
  output : Option String
  quiet : Bool
  timing : Bool
  rules : List String
  traceMethod : Option String
  deriving DecidableEq, Repr

/-- Why arguments ask for no run. -/
inductive NoRun
  | misused
  | help
  | version
  deriving DecidableEq, Repr

namespace Options

/-- The options read so far. -/
structure Draft where
  input : Option String := none
  classpath : List String := []
  output : Option String := none
  quiet : Bool := false
  timing : Bool := false
  rules : List String := []
  traceMethod : Option String := none

/-- A path, which is never empty. -/
def path (value : String) : Except NoRun String :=
  if value = "" then .error .misused else .ok value

/-- Sets something that may be set once. -/
def once {α : Type} (current : Option α) (value : α) : Except NoRun (Option α) :=
  if current.isSome then .error .misused else .ok (some value)

namespace Draft

/-- Sets an option with a value; there is nothing for a name that is none. -/
def set? (draft : Draft) (name value : String) : Option (Except NoRun Draft) :=
  match name with
  | "input" => some do
    let input ← once draft.input (← path value)
    return { draft with input }
  | "classpath" => some do
    let entry ← path value
    return { draft with classpath := draft.classpath ++ [entry] }
  | "output" => some do
    let output ← once draft.output (← path value)
    return { draft with output }
  | "rule" => some (.ok { draft with rules := draft.rules ++ [value] })
  | "trace-method" => some do
    let traceMethod ← once draft.traceMethod value
    return { draft with traceMethod }
  | _ => none

/-- Whether a name is that of an option with a value. -/
def takesValue (name : String) : Bool :=
  ["input", "classpath", "output", "rule", "trace-method"].contains name

/-- Sets a flag, which may be set once, or stops where something else is asked for. -/
def setFlag (draft : Draft) (name : String) : Except NoRun Draft :=
  match name with
  | "quiet" =>
    if draft.quiet then .error .misused else .ok { draft with quiet := true }
  | "timing" =>
    if draft.timing then .error .misused else .ok { draft with timing := true }
  | "version" => .error .version
  | "help" => .error .help
  | _ => .error .misused

end Draft

/-- Whether an argument looks like an option, so that it is no value. -/
def looksLikeOption (argument : String) : Bool :=
  argument.startsWith "-" && argument != "-"

/-- The parts of an option before and behind its first `=`. -/
def splitOption (argument : String) : String × Option String :=
  let body := argument.toList.drop 2
  let name := body.takeWhile (· != '=')
  let value := if name.length < body.length then
      some (String.ofList (body.drop (name.length + 1)))
    else none
  (String.ofList name, value)

/-- Reads arguments into a draft. -/
def read (draft : Draft) : List String → Except NoRun Draft
  | [] => .ok draft
  | "--" :: rest => if rest.isEmpty then .ok draft else .error .misused
  | argument :: rest =>
    if argument.startsWith "--" then
      match splitOption argument with
      | (name, some value) =>
        match draft.set? name value with
        | some (.ok draft) => read draft rest
        | some (.error stop) => .error stop
        | none => .error .misused
      | (name, none) =>
        if Draft.takesValue name then
          match rest with
          | [] => .error .misused
          | value :: rest =>
            if looksLikeOption value then .error .misused
            else
              match draft.set? name value with
              | some (.ok draft) => read draft rest
              | some (.error stop) => .error stop
              | none => .error .misused
        else
          match draft.setFlag name with
          | .ok draft => read draft rest
          | .error stop => .error stop
    else
      match argument.toList with
      | '-' :: 'V' :: _ => .error .version
      | '-' :: 'h' :: _ => .error .help
      | _ => .error .misused

/-- The options that arguments spell. An input has to be named. -/
def parse (arguments : List String) : Except NoRun Options := do
  let draft ← read {} arguments
  match draft.input with
  | none => throw .misused
  | some input =>
    return {
      input
      classpath := draft.classpath
      output := draft.output
      quiet := draft.quiet
      timing := draft.timing
      rules := draft.rules
      traceMethod := draft.traceMethod }

end Options

end ClassAudit
