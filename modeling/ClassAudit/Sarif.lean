import ClassAudit.Analysis
import ClassAudit.Scan

/-!
# SARIF reports

The results of a run in the static analysis interchange format: the artifacts looked
at, the command that was run, the findings, and the rules of the tool.
-/

namespace ClassAudit

open Text

/-- The name under which the tool reports and is run. -/
def toolName : String := "bytescope"

def toolVersion : String := "0.1.0"

namespace Sarif

/-- The version of the format that reports are written in. -/
def formatVersion : String := "2.1.0"

/-- Where a report says that the schema of its format is: a scheme, a host and a path
that ends with the version. -/
def schemaLocation : String :=
  "/".intercalate ["https:", "", "schemastore.azurewebsites.net", "schemas", "json",
    "sarif-" ++ formatVersion ++ ".json"]

def artifact (artifact : Artifact) : Json :=
  .object ([("length", .int artifact.length),
      ("location", .object [("uri", .string artifact.uri)])]
    ++ (artifact.parent.map fun parent => ("parentIndex", Json.int parent)).toList
    ++ (if artifact.isTarget then [("roles", .array [.string "analysisTarget"])]
      else []))

def result (finding : Finding) : Json :=
  let logical :=
    Json.object [("kind", .string "function"), ("name", .string finding.method)]
  let physical :=
    Json.object [("artifactLocation", .object [("index", .int finding.artifact)])]
  .object
    [ ("locations", .array
        [.object [("logicalLocations", .array [logical]),
          ("physicalLocation", physical)]])
    , ("message", .object [("text", .string finding.message)])
    , ("ruleId", .string finding.rule.id) ]

def rule (rule : Rule) : Json :=
  .object
    [ ("id", .string rule.id)
    , ("name", .string rule.name)
    , ("shortDescription", .object [("text", .string rule.description)]) ]

/-- The command that was run, by the arguments after the program name. -/
def invocation (arguments : List String) : Json :=
  let words := toolName :: arguments
  .object
    [ ("arguments", .array (words.map .string))
    , ("commandLine", .string (" ".intercalate words))
    , ("executionSuccessful", .bool true) ]

/-- The whole report. Artifacts are left out if there are none. -/
def report (artifacts : List Artifact) (arguments : List String) (rules : List Rule)
    (findings : List Finding) : Json :=
  let run := Json.object
    ((if artifacts.isEmpty then []
      else [("artifacts", .array (artifacts.map artifact))])
      ++ [ ("invocations", .array [invocation arguments])
         , ("results", .array (findings.map result))
         , ("tool", .object [("driver", .object
             [("name", .string toolName), ("rules", .array (rules.map rule))])]) ])
  .object
    [ ("$schema", .string schemaLocation)
    , ("runs", .array [run])
    , ("version", .string formatVersion) ]

end Sarif

end ClassAudit
