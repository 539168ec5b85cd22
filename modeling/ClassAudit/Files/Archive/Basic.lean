/-!
# Blocks of an archive

An archive is made of blocks of a fixed size, each of which starts with a mark of its
own: one at its end, one for every file in its directory, and one in front of every
file. Numbers in them have their lowest byte first.
-/

namespace ClassAudit

namespace Archive

/-- The kinds of blocks. -/
inductive Block
  | endRecord
  | directoryEntry
  | fileHeader
  deriving DecidableEq, Repr

namespace Block

def size : Block → Nat
  | endRecord => 22
  | directoryEntry => 46
  | fileHeader => 30

/-- The number that a block starts with. -/
def mark : Block → Nat
  | endRecord => 0x06054b50
  | directoryEntry => 0x02014b50
  | fileHeader => 0x04034b50

/-- The name that messages give to a block. -/
def name : Block → String
  | endRecord => "zip::spec::Zip32CDEBlock"
  | directoryEntry => "zip::types::ZipCentralEntryBlock"
  | fileHeader => "zip::types::ZipLocalEntryBlock"

end Block

/-- What is wrong with the extra fields of a file. -/
inductive ExtraFault
  | cutHeader
  | cutContent
  | emptyTimestamp
  | timestampFlags
  | ntfsLength
  | ntfsTag
  | ntfsSize
  | unicodeTooSmall
  | unicodeChecksum
  | notUtf8
  deriving DecidableEq, Repr

end Archive

/-- Why an archive or a file in it cannot be read. -/
inductive ArchiveError
  | noEndRecord
  | cutBlock (block : Archive.Block)
  | wrongMark (block : Archive.Block)
  | commentBeyondEnd
  | directoryBehindEnd
  | noDirectory
  | severalDisks
  | fieldBeyondEnd
  | extraField (fault : Archive.ExtraFault)
  | cutShort
  | encrypted
  | compressed
  | badChecksum
  deriving DecidableEq, Repr

namespace Archive

/-- The message about an archive that breaks the rules. -/
def invalid (cause : String) : String := "invalid Zip archive: " ++ cause

/-- The message about an archive that uses more than is supported. -/
def unsupported (cause : String) : String := "unsupported Zip archive: " ++ cause

def Block.wrongMarkMessage : Block → String
  | endRecord => invalid "Invalid digital signature header"
  | directoryEntry => invalid "Invalid Central Directory header"
  | fileHeader => invalid "Invalid local file header"

def ExtraFault.message : ExtraFault → String
  | cutHeader => invalid "Extra field header truncated"
  | cutContent => invalid "Extra field content truncated"
  | emptyTimestamp => invalid "Extended timestamp field is empty"
  | timestampFlags =>
    unsupported "flags and len don't match in extended timestamp field"
  | ntfsLength => unsupported "NTFS extra field has an unsupported length"
  | ntfsTag => unsupported "NTFS extra field has an unsupported attribute tag"
  | ntfsSize => unsupported "NTFS extra field has an unsupported attribute size"
  | unicodeTooSmall => invalid "Unicode extra field is too small"
  | unicodeChecksum => invalid "CRC32 checksum failed on Unicode extra field"
  | notUtf8 => invalid "Invalid UTF-8"

end Archive

/-- The messages of an error, outermost first. -/
def ArchiveError.chain : ArchiveError → List String
  | noEndRecord => [Archive.invalid "Could not find EOCD"]
  | cutBlock block => [Archive.invalid ("Unexpected end of " ++ block.name)]
  | wrongMark block => [block.wrongMarkMessage]
  | commentBeyondEnd => [Archive.invalid "EOCD comment exceeds file boundary"]
  | directoryBehindEnd => [Archive.invalid "Invalid CDFH offset in EOCD"]
  | noDirectory => [Archive.invalid "No CDFH found"]
  | severalDisks =>
    [Archive.unsupported "Support for multi-disk files is not implemented"]
  | fieldBeyondEnd =>
    [Archive.invalid "Variable-length field extends beyond file boundary"]
  | extraField fault => [fault.message]
  | cutShort =>
    ["i/o error: failed to fill whole buffer", "failed to fill whole buffer"]
  | encrypted => [Archive.unsupported "Password required to decrypt file"]
  | compressed => [Archive.unsupported "Compression method not supported"]
  | badChecksum => ["Invalid checksum"]

namespace Archive

/-- The number that some bytes write, the lowest byte first. -/
def ofLittleEndian (bytes : List UInt8) : Nat :=
  bytes.foldr (fun byte n => n * 256 + byte.toNat) 0

/-- The number of some bytes at a position; bytes beyond the end add nothing. -/
def number (data : ByteArray) (position width : Nat) : Nat :=
  ofLittleEndian ((List.range' position width).filterMap (data[·]?))

/-- Whether a block of a kind starts at a position, going by its mark. -/
def isMarked (data : ByteArray) (block : Block) (position : Nat) : Bool :=
  number data position 4 == block.mark

/-- Checks that a whole block of a kind stands at a position. -/
def require (data : ByteArray) (block : Block) (position : Nat) :
    Except ArchiveError Unit :=
  if data.size < position + block.size then .error (.cutBlock block)
  else if isMarked data block position then .ok ()
  else .error (.wrongMark block)

/-- The positions from `start` on at which a mark fits in front of `stop`. -/
def positions (start stop : Nat) : List Nat := List.range' start (stop - 3 - start)

end Archive

end ClassAudit
