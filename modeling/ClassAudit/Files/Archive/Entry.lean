import ClassAudit.Files.Archive.Basic
import ClassAudit.Files.Checksum
import ClassAudit.Text.Utf8

/-!
# Files listed in an archive

The directory of an archive describes its files: how each is stored, where, and under
which name. A name is written in the old character set of the format, unless it is
marked as UTF-8. Behind the name stand extra fields, each a kind, a length and a
content. Only those that say more about the name or the comment matter here, but a few
others are checked as well, and a fault in any makes the whole directory unreadable.
-/

namespace ClassAudit.Archive

/-- The characters of names that are not marked as UTF-8, from 128 on. -/
def upperCharacters : List Char :=
  ("ÇüéâäàåçêëèïîìÄÅÉæÆôöòûùÿÖÜ¢£¥₧ƒáíóúñÑªº¿⌐¬½¼¡«»"
    ++ "░▒▓│┤╡╢╖╕╣║╗╝╜╛┐└┴┬├─┼╞╟╚╔╩╦╠═╬╧╨╤╥╙╘╒╓╫╪┘┌█▄▌▐▀"
    ++ "αßΓπΣσµτΦΘΩδ∞φε∩≡±≥≤⌠⌡÷≈°∙·√ⁿ²■\u00a0").toList

/-- Text that is not marked as UTF-8. -/
def plainText (bytes : ByteArray) : String :=
  String.ofList (bytes.toList.map fun byte =>
    if byte < 0x80 then Char.ofNat byte.toNat
    else (upperCharacters[byte.toNat - 0x80]?).getD '?')

/-- The name of a file as bytes and as text, and the comment on it. -/
structure Labels where
  bytes : ByteArray
  name : String
  comment : String

namespace ExtraField

/-- A second form of a text, in UTF-8, that an extra field holds together with the
checksum of the first form. The first byte is a version, which does not matter. -/
def unicodeText (first : ByteArray) (length : Nat) (content : List UInt8) :
    Except ArchiveError (ByteArray × String) := do
  if content.length < 5 then
    throw .cutShort
  if length < 5 then
    throw (.extraField .unicodeTooSmall)
  if content.length < length then
    throw .cutShort
  let bytes := ByteArray.mk ((content.take length).drop 5).toArray
  if (Checksum.ofBytes first).toNat ≠ ofLittleEndian ((content.drop 1).take 4) then
    throw (.extraField .unicodeChecksum)
  match String.fromUTF8? bytes with
  | some text => return (bytes, text)
  | none => throw (.extraField .notUtf8)

/-- How many bytes a field with timestamps takes. Its first byte has a bit for every
time; with five bytes there is one time, whatever the bits say. -/
def timestampSize (length : Nat) (content : List UInt8) : Except ArchiveError Nat :=
  match content with
  | [] => .error (.extraField .emptyTimestamp)
  | flags :: times =>
    let bits := flags.toNat
    let announced := ((List.range 8).filter bits.testBit).length
    let present :=
      if length = 5 then 1 else ((List.range 3).filter bits.testBit).length
    if length ≠ 5 ∧ length ≠ 1 + 4 * announced then
      .error (.extraField .timestampFlags)
    else if times.length < 4 * present then .error .cutShort
    else .ok (1 + 4 * present)

/-- Checks a field with the times of a file system, which has one attribute of three
times. -/
def checkNtfs (length : Nat) (content : List UInt8) : Except ArchiveError Unit := do
  if length ≠ 32 then
    throw (.extraField .ntfsLength)
  if content.length < 6 then
    throw .cutShort
  if ofLittleEndian ((content.drop 4).take 2) ≠ 1 then
    throw (.extraField .ntfsTag)
  if content.length < 8 then
    throw .cutShort
  if ofLittleEndian ((content.drop 6).take 2) ≠ 24 then
    throw (.extraField .ntfsSize)
  if content.length < 32 then
    throw .cutShort

/-- Reads one field, of which the kind and the length are known, from what stands
behind them. It yields the labels afterwards and how many bytes were used. -/
def read (labels : Labels) (kind length : Nat) (content : List UInt8) :
    Except ArchiveError (Labels × Nat) := do
  match kind with
  | 0x000a =>
    checkNtfs length content
    return (labels, 32)
  | 0x5455 => return (labels, ← timestampSize length content)
  | 0x6375 =>
    let (_, comment) ← unicodeText labels.comment.toUTF8 length content
    return ({ labels with comment }, length)
  | 0x7075 =>
    let (bytes, name) ← unicodeText labels.bytes length content
    return ({ labels with bytes, name }, length)
  | _ =>
    if content.length < length then
      throw (.extraField .cutContent)
    return (labels, length)

/-- Reads all fields. A single byte at the end is no field and does not matter. -/
def readAll (labels : Labels) : List UInt8 → Except ArchiveError Labels
  | [] => .ok labels
  | [_] => .ok labels
  | kindLow :: kindHigh :: lengthLow :: lengthHigh :: content =>
    match read labels (ofLittleEndian [kindLow, kindHigh])
        (ofLittleEndian [lengthLow, lengthHigh])
      content with
    | .error error => .error error
    | .ok (labels, used) => readAll labels (content.drop used)
  | _ => .error (.extraField .cutHeader)
termination_by bytes => bytes.length
decreasing_by simp only [List.length_drop, List.length_cons]; omega

end ExtraField

/-- A file in an archive, as the directory describes it. -/
structure Entry where
  name : String
  isEncrypted : Bool
  method : Nat
  sum : Nat
  /-- The number of bytes in the archive. -/
  stored : Nat
  /-- The number of bytes of the content. -/
  size : Nat
  /-- Where the header of the file starts. -/
  header : Nat

namespace Entry

/-- Reads the entry of the directory at a position, and yields the position behind
it. -/
def read (data : ByteArray) (shift position : Nat) :
    Except ArchiveError (Entry × Nat) := do
  require data .directoryEntry position
  let flags := number data (position + 8) 2
  let nameStart := position + Block.directoryEntry.size
  let extraStart := nameStart + number data (position + 28) 2
  let commentStart := extraStart + number data (position + 30) 2
  let stop := commentStart + number data (position + 32) 2
  if data.size < stop then
    throw .fieldBeyondEnd
  let text := if flags.testBit 11 then Text.Utf8.text else plainText
  let bytes := data.extract nameStart extraStart
  let labels ← ExtraField.readAll
    ⟨bytes, text bytes, text (data.extract commentStart stop)⟩
    (data.extract extraStart commentStart).toList
  return ({
    name := labels.name
    isEncrypted := flags.testBit 0
    method := number data (position + 10) 2
    sum := number data (position + 16) 4
    stored := number data (position + 20) 4
    size := number data (position + 24) 4
    header := shift + number data (position + 42) 4 }, stop)

/-- Reads this many entries, one behind the other. -/
def readMany (data : ByteArray) (shift : Nat) :
    Nat → Nat → Except ArchiveError (List Entry)
  | 0, _ => .ok []
  | count + 1, position => do
    let (entry, next) ← read data shift position
    return entry :: (← readMany data shift count next)

/-- Adds an entry to a list; one of the same name gives way to it. -/
def addTo (entries : List Entry) (entry : Entry) : List Entry :=
  if entries.any (·.name == entry.name) then
    entries.map fun other => if other.name == entry.name then entry else other
  else entries ++ [entry]

end Entry

end ClassAudit.Archive
