/-!
# UTF-8 with damage

Text that should be UTF-8 and is not still has to be shown. Every character that can be
read is kept, and each stretch of bytes that starts like a character and breaks off
stands for one replacement character. A byte that can start nothing is such a stretch
by itself, so nothing is ever skipped silently.
-/

namespace ClassAudit.Text.Utf8

/-- What shows that something could not be read. -/
def replacement : Char := Char.ofNat 0xfffd

/-- What the first byte of a sequence promises: how many bytes follow, the bounds of
the first of them, and the bits of the character that the first byte itself holds. -/
structure Lead where
  count : Nat
  low : UInt8
  high : UInt8
  bits : Nat
  deriving DecidableEq, Repr

/-- The promise of a byte that starts a sequence of several. The bounds keep out
characters that have a shorter form, surrogates, and numbers beyond the last
character. -/
def Lead.ofByte? (byte : UInt8) : Option Lead :=
  if byte < 0xc2 then none
  else if byte < 0xe0 then some ⟨1, 0x80, 0xbf, byte.toNat - 0xc0⟩
  else if byte < 0xf0 then
    some ⟨2, if byte = 0xe0 then 0xa0 else 0x80, if byte = 0xed then 0x9f else 0xbf,
      byte.toNat - 0xe0⟩
  else if byte < 0xf5 then
    some ⟨3, if byte = 0xf0 then 0x90 else 0x80, if byte = 0xf4 then 0x8f else 0xbf,
      byte.toNat - 0xf0⟩
  else none

/-- The bytes that keep the promise, up to the number promised. -/
def Lead.followers (lead : Lead) : List UInt8 → List UInt8
  | [] => []
  | byte :: rest =>
    if lead.low ≤ byte ∧ byte ≤ lead.high then
      byte :: (rest.take (lead.count - 1)).takeWhile fun next =>
        0x80 ≤ next && next < 0xc0
    else []

/-- The character at the front of some bytes, and how many bytes behind the first it
takes. -/
def first (byte : UInt8) (rest : List UInt8) : Char × Nat :=
  if byte < 0x80 then (Char.ofNat byte.toNat, 0)
  else
    match Lead.ofByte? byte with
    | none => (replacement, 0)
    | some lead =>
      let followers := lead.followers rest
      if followers.length = lead.count then
        (Char.ofNat
          (followers.foldl (fun bits next => bits * 64 + next.toNat % 64) lead.bits),
          followers.length)
      else (replacement, followers.length)

/-- The characters that bytes stand for, damage included. -/
def decode : List UInt8 → List Char
  | [] => []
  | byte :: rest =>
    let (character, used) := first byte rest
    character :: decode (rest.drop used)
termination_by bytes => bytes.length
decreasing_by simp only [List.length_drop, List.length_cons]; omega

/-- The text that bytes stand for, damage included. -/
def text (bytes : ByteArray) : String := String.ofList (decode bytes.toList)

end ClassAudit.Text.Utf8
