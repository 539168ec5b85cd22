import ClassAudit.Files.Path

/-!
# File trees

A file tree is a directory as it stands at one moment: names, and below them files or
directories in some order. Paths are followed part by part from the top. The order in
which a directory lists its entries is never visible, because whoever goes through one
goes in the order of the paths.
-/

namespace ClassAudit

/-- A file or a directory. -/
inductive FileTree
  | file (content : ByteArray)
  | directory (entries : List (String × FileTree))

/-- Why a path leads nowhere useful. -/
inductive FileError
  | notFound
  | notDirectory
  | isDirectory
  | nameTooLong
  | zeroCharacter
  deriving DecidableEq, Repr

def FileError.message : FileError → String
  | notFound => "No such file or directory (os error 2)"
  | notDirectory => "Not a directory (os error 20)"
  | isDirectory => "Is a directory (os error 21)"
  | nameTooLong => "File name too long (os error 36)"
  | zeroCharacter => "file name contained an unexpected NUL byte"

namespace FileTree

def empty : FileTree := .directory []

/-- What stands below a list of names. -/
def at? : FileTree → List String → Option FileTree
  | tree, [] => some tree
  | .file _, _ :: _ => none
  | .directory entries, name :: rest =>
    match entries.lookup name with
    | some child => child.at? rest
    | none => none
termination_by structural _ names => names

/-- The number of bytes that a name can have. -/
def nameLimit : Nat := 255

/-- The number of bytes that a path can have. -/
def pathLimit : Nat := 4095

/-- Follows parts of a path from below the given names. -/
def follow (tree : FileTree) (names : List String) :
    List String → Except FileError (List String)
  | [] => .ok names
  | part :: rest =>
    match tree.at? names with
    | some (.directory entries) =>
      if part = "." then tree.follow names rest
      else if part = ".." then tree.follow names.dropLast rest
      else if nameLimit < part.utf8ByteSize then .error .nameTooLong
      else if (entries.lookup part).isSome then tree.follow (names ++ [part]) rest
      else .error .notFound
    | _ => .error .notDirectory

/-- Checks what can be said of a path without following it. -/
def checkPath (path : String) : Except FileError Unit :=
  if path.toList.contains (Char.ofNat 0) then .error .zeroCharacter
  else if path = "" then .error .notFound
  else if pathLimit < path.utf8ByteSize then .error .nameTooLong
  else .ok ()

/-- The names that a path leads to. -/
def locate (tree : FileTree) (path : String) : Except FileError (List String) := do
  checkPath path
  tree.follow [] (Path.parts path)

/-- What a path leads to. -/
def get (tree : FileTree) (path : String) : Except FileError FileTree := do
  match tree.at? (← tree.locate path) with
  | some found => return found
  | none => throw .notFound

/-- Whether a path leads to something. -/
def has (tree : FileTree) (path : String) : Bool := (tree.get path).toOption.isSome

/-- The entries of a directory with one changed, or added at the end. -/
def changeEntry (name : String) (change : Option FileTree → FileTree)
    (entries : List (String × FileTree)) : List (String × FileTree) :=
  if (entries.lookup name).isSome then
    entries.map fun (key, child) =>
      (key, if key = name then change (some child) else child)
  else entries ++ [(name, change none)]

/-- The tree with something put below a list of names. Directories on the way are made
as needed. -/
def put (content : FileTree) : List String → Option FileTree → FileTree
  | [], _ => content
  | name :: rest, some (.directory entries) =>
    .directory (changeEntry name (put content rest) entries)
  | name :: rest, _ => .directory (changeEntry name (put content rest) [])

/-- The tree with a file put at a path. -/
def putFile (tree : FileTree) (path : String) (content : ByteArray) : FileTree :=
  put (.file content) ((Path.parts path).filter (· != ".")) (some tree)

/-- The tree with a directory at a path. -/
def putDirectory (tree : FileTree) (path : String) : FileTree :=
  if tree.has path then tree
  else put empty ((Path.parts path).filter (· != ".")) (some tree)

/-- The names under which a file at a path would be written. Everything but the last
name has to lead to a directory. A file that is not there yet is made, but not under a
name with a slash behind it, which only a directory can have. -/
def writable (tree : FileTree) (path : String) : Except FileError (List String) := do
  checkPath path
  let pieces := Path.pieces path
  let names ← tree.follow [] pieces.dropLast
  match pieces.getLast?, tree.at? names with
  | some name, some (.directory entries) =>
    if name = "." ∨ name = ".." ∨ path.toList.getLast? = some '/' then
      throw .isDirectory
    else if nameLimit < name.utf8ByteSize then throw .nameTooLong
    else
      match entries.lookup name with
      | some (.directory _) => throw .isDirectory
      | _ => return names ++ [name]
  | some _, _ => throw .notDirectory
  | none, _ => throw .isDirectory

/-- The tree with a file written at a path. -/
def write (tree : FileTree) (path : String) (content : ByteArray) :
    Except FileError FileTree := do
  return put (.file content) (← tree.writable path) (some tree)

mutual

/-- All files of a tree that stands at a path, with their own paths, in the order of
the paths at each level. What has a path that is too long cannot be opened. -/
def leaves (path : String) : FileTree → List (String × Except FileError ByteArray)
  | .file content => [(path, .ok content)]
  | .directory entries =>
    ((entryLeaves path entries).mergeSort fun a b => decide (a.1 ≤ b.1)).flatMap
      Prod.snd

/-- The paths of the entries of a directory, with the files below each. -/
def entryLeaves (path : String) :
    List (String × FileTree) →
      List (String × List (String × Except FileError ByteArray))
  | [] => []
  | (name, tree) :: rest =>
    let place := Path.join path name
    (place, if pathLimit < place.utf8ByteSize then [(place, .error .nameTooLong)]
      else tree.leaves place) :: entryLeaves path rest

end

end FileTree

end ClassAudit
