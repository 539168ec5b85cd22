import ClassAudit.ClassFile.Parse
import ClassAudit.Event
import ClassAudit.Files.Archive
import ClassAudit.Files.FileTree

/-!
# Scanning for classes

A scan collects the classes below the input and below each entry of the class path. A
path is a class file, an archive of class files, or a directory that is searched for
both. Every file and archive entry that a class is read from is an artifact, and so is
every archive; a class remembers the position of its own. Files that are neither are
skipped in directories and refused when named directly.

Whatever order directories, archives and the class path come in, the scan goes through
them in the order of their names.
-/

namespace ClassAudit

/-- Something that classes were read from. -/
structure Artifact where
  uri : String
  length : Nat
  /-- The position of the archive that this is an entry of. -/
  parent : Option Nat
  /-- Whether this is the file that was named as input. -/
  isTarget : Bool
  deriving DecidableEq, Repr

/-- Why a scan fails. -/
inductive ScanError
  | unsupported (path : String)
  | unreadable (path : String) (cause : FileError)
  | unopened (path : String) (cause : FileError)
  | badArchive (path : String) (cause : ArchiveError)
  | badEntry (path name : String) (cause : ArchiveError)
  | badClass (place : String) (cause : ClassError)

/-- The messages of an error, outermost first. -/
def ScanError.chain : ScanError → List String
  | unsupported path => ["unsupported input file: " ++ path]
  | unreadable path cause => ["failed to read " ++ path, cause.message]
  | unopened path cause => ["failed to open " ++ path, cause.message]
  | badArchive path cause => ("failed to read " ++ path) :: cause.chain
  | badEntry path name cause =>
    ("failed to read " ++ path ++ ":" ++ name) :: cause.chain
  | badClass place cause => ("failed to parse " ++ place) :: cause.chain

/-- What a scan has collected. -/
structure Scan where
  artifacts : Array Artifact
  /-- The classes below the input. -/
  classes : Array ClassModel
  /-- The classes below the class path. -/
  libraries : Array ClassModel

/-- How the files that a scan comes across are read. -/
structure Formats where
  readClass : ByteArray → Except ClassError ClassModel
  /-- The entries of an archive. -/
  list : ByteArray → Except ArchiveError (List Archive.Entry)
  /-- Checks that an entry of an archive can be opened. -/
  openEntry : ByteArray → Archive.Entry → Except ArchiveError Unit
  /-- The content of an entry of an archive. -/
  content : ByteArray → Archive.Entry → Except ArchiveError ByteArray

namespace Formats

/-- Class files, and archives of files that are stored as they are. -/
def standard : Formats where
  readClass := ClassFile.parse
  list := Archive.list
  openEntry := Archive.openEntry
  content := Archive.content

/-- The entries of an archive, all of which have to open. -/
def entries (formats : Formats) (archive : ByteArray) :
    Except ArchiveError (List Archive.Entry) := do
  let entries ← formats.list archive
  entries.forM (formats.openEntry archive)
  return entries

end Formats

/-- Which of the two collections a scan adds to. -/
inductive ScanRole
  | input
  | library
  deriving DecidableEq, Repr

namespace Scan

def empty : Scan := ⟨#[], #[], #[]⟩

/-- The number of classes. -/
def classCount (scan : Scan) : Nat := scan.classes.size + scan.libraries.size

/-- Adds an artifact. It stands at the position that was the number of artifacts. -/
def addArtifact (scan : Scan) (artifact : Artifact) : Scan :=
  { scan with artifacts := scan.artifacts.push artifact }

/-- Adds a class. -/
def addClass (scan : Scan) (role : ScanRole) (model : ClassModel) : Scan :=
  match role with
  | .input => { scan with classes := scan.classes.push model }
  | .library => { scan with libraries := scan.libraries.push model }

section Reading

variable (formats : Formats)

/-- Adds an artifact and the class that its bytes hold. -/
def load (scan : Scan) (role : ScanRole) (artifact : Artifact) (place : String)
    (content : ByteArray) : Except ScanError Scan :=
  match formats.readClass content with
  | .error cause => .error (.badClass place cause)
  | .ok model =>
    .ok ((scan.addArtifact artifact).addClass role
      { model with artifact := scan.artifacts.size })

/-- Adds the class of a file. -/
def addClassFile (scan : Scan) (role : ScanRole) (isTarget : Bool) (path : String)
    (content : ByteArray) : Except ScanError Scan :=
  scan.load formats role ⟨path, content.size, none, isTarget⟩ path content

/-- Whether an archive entry holds a class to be read. -/
def isClassEntry (name : String) : Bool :=
  name.endsWith ".class" && !name.endsWith "module-info.class"

/-- The entries that hold classes, in the order of their names. -/
def classEntries (entries : List Archive.Entry) : List Archive.Entry :=
  (entries.filter fun entry => isClassEntry entry.name).mergeSort
    fun a b => decide (a.name ≤ b.name)

/-- Adds the class of an archive entry. -/
def addEntry (role : ScanRole) (path : String) (archive : ByteArray) (parent : Nat)
    (scan : Scan) (entry : Archive.Entry) : Except ScanError Scan := do
  let content ← (formats.content archive entry).mapError (.badEntry path entry.name)
  scan.load formats role
    ⟨"jar:" ++ path ++ "!/" ++ entry.name, entry.size, some parent, false⟩
    (path ++ ":" ++ entry.name) content

/-- Adds the classes of an archive. -/
def addArchive (scan : Scan) (role : ScanRole) (isTarget : Bool) (path : String)
    (content : ByteArray) : Except ScanError Scan := do
  let entries ← (formats.entries content).mapError (.badArchive path)
  let parent := scan.artifacts.size
  let scan := scan.addArtifact ⟨path, content.size, none, isTarget⟩
  (classEntries entries).foldlM (addEntry formats role path content parent) scan

/-- Adds what a file holds, if it can be opened. A file that was named directly has to
be of use. -/
def addFile (role : ScanRole) (direct : Bool) (scan : Scan)
    (file : String × Except FileError ByteArray) : Except ScanError Scan :=
  let (path, found) := file
  let isTarget := direct && role == .input
  match Path.extension? path, found with
  | some "class", .ok content => scan.addClassFile formats role isTarget path content
  | some "class", .error cause => .error (.unreadable path cause)
  | some "jar", .ok content => scan.addArchive formats role isTarget path content
  | some "jar", .error cause => .error (.unopened path cause)
  | _, _ => if direct then .error (.unsupported path) else .ok scan

/-- Adds what a path leads to. -/
def addPath (tree : FileTree) (role : ScanRole) (scan : Scan) (path : String) :
    Except ScanError Scan :=
  match tree.get path with
  | .ok (.file content) => addFile formats role true scan (path, .ok content)
  | .ok directory => (directory.leaves path).foldlM (addFile formats role false) scan
  | .error cause => addFile formats role true scan (path, .error cause)

/-- Scans an input and a class path. -/
def collect (tree : FileTree) (input : String) (classpath : List String) :
    Except ScanError Scan := do
  let scan ← addPath formats tree .input .empty input
  let sorted := classpath.mergeSort fun a b => decide (a ≤ b)
  sorted.foldlM (addPath formats tree .library) scan

end Reading

/-- Scans an input and a class path for the standard formats. -/
def ofPaths (tree : FileTree) (input : String) (classpath : List String) :
    Except ScanError Scan :=
  collect .standard tree input classpath

/-- The event of a finished scan. -/
def event (scan : Scan) : Event := .scanned scan.classes.size scan.libraries.size

end Scan

end ClassAudit
