import ClassAudit.Command.Run

/-!
# The command

Loads what the arguments name into a file tree, runs the command on it, and carries out
what the outcome says: text for the standard streams, and a file to write. Paths that
lead out of the working directory are placed in the tree as if it were the root.
-/

namespace ClassAudit.Main

/-- The names under which a path is placed in a tree. -/
def namesOf (path : String) : List String :=
  (Path.parts path).foldl
    (fun names part =>
      if part = "." then names
      else if part = ".." then names.dropLast else names ++ [part]) []

/-- What stands at a path, with everything below it. -/
partial def load (path : String) : IO (Option FileTree) := do
  let disk := (← IO.currentDir) / path
  if ← disk.isDir then
    let entries ← (← disk.readDir).toList.filterMapM fun entry => do
      return (← load (Path.join path entry.fileName)).map fun tree =>
        (entry.fileName, tree)
    return some (.directory entries)
  else if ← disk.pathExists then
    return some (.file (← IO.FS.readBinFile disk))
  else return none

/-- Places what stands at a path in a tree. -/
def place (tree : FileTree) (path : String) : IO FileTree := do
  match ← load path with
  | some found => return FileTree.put found (namesOf path) (some tree)
  | none => return tree

/-- Places a file or a directory of which only the kind matters. -/
def placeKind (tree : FileTree) (path : String) : IO FileTree := do
  let names := namesOf path
  let disk := (← IO.currentDir) / path
  if (tree.at? names).isSome then return tree
  else if ← disk.isDir then return FileTree.put .empty names (some tree)
  else if ← disk.pathExists then return FileTree.put (.file .empty) names (some tree)
  else return tree

/-- Places what decides whether an output can be opened: what stands at each part of
its path. -/
def placeOutput (tree : FileTree) (path : String) : IO FileTree :=
  let pieces := path.splitOn "/"
  (List.range pieces.length).foldlM
    (fun tree count => placeKind tree ("/".intercalate (pieces.take (count + 1)))) tree

/-- Runs with options that have been read. -/
def runOptions (arguments : List String) (options : Options) : IO UInt32 := do
  let tree ← (options.input :: options.classpath).foldlM place .empty
  let started ← IO.monoMsNow
  match Command.prepare tree options with
  | .error failure =>
    (← IO.getStderr).putStr failure.render
    return 1
  | .ok prepared =>
    let scanned ← IO.monoMsNow
    let output := Command.Output.ofOptions options
    let tree ← match output with
      | .standard => pure tree
      | .file path => placeOutput tree path
    let outcome :=
      Command.finish tree output (Command.write prepared arguments options)
    (← IO.getStdout).putStr outcome.standardOutput
    (← IO.getStderr).putStr outcome.standardError
    if let .file path := output then
      if let .ok (.file content) := outcome.tree.get path then
        IO.FS.writeBinFile path content
    if let some counts := outcome.counts then
      let now ← IO.monoMsNow
      (← IO.getStderr).putStr (counts.timingLine (toString (now - started))
        (toString (scanned - started)) (toString (now - scanned)))
    return UInt32.ofNat outcome.code

end ClassAudit.Main

def main (arguments : List String) : IO UInt32 := do
  match ClassAudit.Options.parse arguments with
  | .ok options => ClassAudit.Main.runOptions arguments options
  | .error _ =>
    let outcome := ClassAudit.Command.run .empty arguments
    (← IO.getStdout).putStr outcome.standardOutput
    (← IO.getStderr).putStr outcome.standardError
    return UInt32.ofNat outcome.code
