import ClassAudit.Files.Archive.Basic

/-!
# The end of an archive

The last block of an archive says how many files there are and where their directory
starts, counted from the start of the archive. The archive need not start where the
data does: whatever stands in front of it shifts all positions, and the first directory
entry at or behind the position given tells by how much.
-/

namespace ClassAudit.Archive

/-- The last block of an archive. -/
structure EndRecord where
  position : Nat
  disk : Nat
  directoryDisk : Nat
  /-- The number of files on this disk. -/
  count : Nat
  /-- The number of files altogether. -/
  total : Nat
  /-- Where the directory starts, if nothing stands in front of the archive. -/
  directory : Nat
  deriving DecidableEq, Repr

/-- Where the directory of an archive really starts, how far everything is shifted, and
how many files are listed. -/
structure Directory where
  start : Nat
  shift : Nat
  count : Nat
  deriving DecidableEq, Repr

namespace EndRecord

/-- Reads the end record at a position. The comment behind it has to be there; more may
follow. -/
def read (data : ByteArray) (position : Nat) : Except ArchiveError EndRecord := do
  require data .endRecord position
  if data.size < position + Block.endRecord.size + number data (position + 20) 2 then
    throw .commentBeyondEnd
  return {
    position
    disk := number data (position + 4) 2
    directoryDisk := number data (position + 6) 2
    count := number data (position + 8) 2
    total := number data (position + 10) 2
    directory := number data (position + 16) 4 }

/-- Finds the directory. Without files it is empty and ends where the record starts. -/
def locate (record : EndRecord) (data : ByteArray) : Except ArchiveError Directory :=
  if record.total = 0 then
    let shift := record.position - record.directory
    .ok ⟨record.directory + shift, shift, record.count⟩
  else if record.position ≤ record.directory then .error .directoryBehindEnd
  else
    match (positions record.directory record.position).find?
        (isMarked data .directoryEntry) with
    | some start => .ok ⟨start, start - record.directory, record.count⟩
    | none => .error .noDirectory

/-- The positions at which end records might start, the last first. -/
def candidates (data : ByteArray) : List Nat :=
  ((positions 0 data.size).filter (isMarked data .endRecord)).reverse

end EndRecord

end ClassAudit.Archive
