import ClassAudit.Files.Archive.EndRecord
import ClassAudit.Files.Archive.Entry

/-!
# Archives

An archive holds files one behind the other, each under a header of its own, followed
by a directory of them all and a record that says where the directory is. Reading
starts from that record, at the end. Anything may follow an archive, and a comment may
look like a record, so a record that leads nowhere gives way to the one before it. The
content of a file comes with a checksum, which is compared when the content is read.
-/

namespace ClassAudit.Archive

/-- The files that a directory lists. -/
def listed (data : ByteArray) (record : EndRecord) (directory : Directory) :
    Except ArchiveError (List Entry) := do
  if record.disk ≠ record.directoryDisk then
    throw .severalDisks
  return (← Entry.readMany data directory.shift directory.count directory.start).foldl
    Entry.addTo []

/-- What went wrong with the records tried so far, in the records themselves and in the
directories they lead to. -/
structure Setbacks where
  record : Option ArchiveError := none
  directory : Option ArchiveError := none

namespace Setbacks

/-- A record could not be read. The first such error is kept. -/
def unreadable (setbacks : Setbacks) (error : ArchiveError) : Setbacks :=
  { setbacks with record := some (setbacks.record.getD error) }

/-- A record leads to no directory. -/
def astray (setbacks : Setbacks) (error : ArchiveError) : Setbacks :=
  { setbacks with record := some error }

/-- A record leads to a directory that could not be read. -/
def damaged (setbacks : Setbacks) (error : ArchiveError) : Setbacks :=
  { setbacks with directory := some error }

/-- The error to report. One in a directory weighs more than one in a record. -/
def error (setbacks : Setbacks) : ArchiveError :=
  (setbacks.directory <|> setbacks.record).getD .noEndRecord

end Setbacks

/-- The files that the first useful of some records leads to. -/
def listedFrom (data : ByteArray) (setbacks : Setbacks) :
    List Nat → Except ArchiveError (List Entry)
  | [] => .error setbacks.error
  | position :: earlier =>
    match EndRecord.read data position with
    | .error error => listedFrom data (setbacks.unreadable error) earlier
    | .ok record =>
      match record.locate data with
      | .error error => listedFrom data (setbacks.astray error) earlier
      | .ok directory =>
        match listed data record directory with
        | .error error => listedFrom data (setbacks.damaged error) earlier
        | .ok entries => .ok entries

/-- Where the content of an entry starts. -/
def contentStart (data : ByteArray) (entry : Entry) : Except ArchiveError Nat := do
  if entry.isEncrypted then
    throw .encrypted
  require data .fileHeader entry.header
  if entry.method ≠ 0 then
    throw .compressed
  return entry.header + Block.fileHeader.size + number data (entry.header + 26) 2
    + number data (entry.header + 28) 2

/-- The files of an archive. -/
def list (data : ByteArray) : Except ArchiveError (List Entry) :=
  listedFrom data {} (EndRecord.candidates data)

/-- Checks that a file can be opened. -/
def openEntry (data : ByteArray) (entry : Entry) : Except ArchiveError Unit := do
  let _ ← contentStart data entry
  return ()

/-- The content of a file. -/
def content (data : ByteArray) (entry : Entry) : Except ArchiveError ByteArray := do
  let start ← contentStart data entry
  let bytes := data.extract start (start + entry.stored)
  if Checksum.ofBytes bytes = UInt32.ofNat entry.sum then return bytes
  else throw .badChecksum

end ClassAudit.Archive
