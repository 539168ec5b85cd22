/-!
# Paths

A path is text with `/` between its parts. It is kept as written, because messages and
reports show it so; only looking something up takes it apart.
-/

namespace ClassAudit.Path

/-- What stands between the slashes of a path. Nothing does between two of them, or
before a leading one. -/
def pieces (path : String) : List String :=
  ((path.toList.splitOn '/').map String.ofList).filter (· != "")

/-- The parts of a path that name something. A slash at the end insists on a directory,
as `.` does. -/
def parts (path : String) : List String :=
  if path.toList.getLast? = some '/' then pieces path ++ ["."] else pieces path

/-- The parts of a path that count when two are compared: all but empty ones, and but a
`.` that is not at the start. -/
def comparable (path : String) : List String :=
  match pieces path with
  | [] => []
  | first :: rest => first :: rest.filter (· != ".")

/-- The last part of a path, unless it leads back or stays in place. -/
def fileName? (path : String) : Option String :=
  match (comparable path).getLast? with
  | some "." | some ".." => none
  | name => name

/-- The text behind the last dot of the file name. A name that starts with its only dot
has no extension. -/
def extension? (path : String) : Option String := do
  let name ← fileName? path
  let reversed := name.toList.reverse
  let extension := reversed.takeWhile (· != '.')
  let stem := reversed.drop (extension.length + 1)
  if stem.isEmpty then none else some (String.ofList extension.reverse)

/-- The path of an entry of a directory. -/
def join (directory entry : String) : String :=
  if directory.toList.getLast? = some '/' then directory ++ entry
  else directory ++ "/" ++ entry

end ClassAudit.Path
