/-!
# Text in class files

Class files write text in a variant of UTF-8: a zero character takes two bytes, and a
character beyond the first 65536 is written as two surrogates of three bytes each. Many
writers use plain UTF-8 instead. Bytes that are plain UTF-8 are read as such, and only
others are read by the variant.
-/

namespace ClassAudit.ModifiedUtf8

/-- The six bits of a continuation byte. -/
def continuation? (byte : UInt8) : Option Nat :=
  if 0x80 ≤ byte ∧ byte < 0xc0 then some (byte.toNat - 0x80) else none

/-- The number that a two-byte sequence stands for. -/
def two? (a b : UInt8) : Option Nat := do
  let low ← continuation? b
  if a = 0xc0 ∧ b = 0x80 then some 0
  else if 0xc2 ≤ a ∧ a < 0xe0 then some ((a.toNat - 0xc0) * 64 + low)
  else none

/-- The number that a three-byte sequence stands for, surrogates included. -/
def three? (a b c : UInt8) : Option Nat := do
  if 0xe0 ≤ a ∧ a < 0xf0 then
    let value :=
      (a.toNat - 0xe0) * 4096 + (← continuation? b) * 64 + (← continuation? c)
    if 0x800 ≤ value then some value else none
  else none

def isHighSurrogate (value : Nat) : Bool := 0xd800 ≤ value && value < 0xdc00

def isSurrogate (value : Nat) : Bool := 0xd800 ≤ value && value < 0xe000

/-- The character that two surrogates stand for. -/
def joined (high low : Nat) : Char :=
  Char.ofNat (0x10000 + (high - 0xd800) * 1024 + (low - 0xdc00))

/-- Reads the variant. A bare zero byte, a surrogate that is alone, a sequence of four
bytes and anything cut short make it unreadable. -/
def decode : List UInt8 → Option (List Char)
  | [] => some []
  | a :: rest =>
    if a = 0 then none
    else if a < 0x80 then (decode rest).map (Char.ofNat a.toNat :: ·)
    else
      match rest with
      | b :: rest =>
        match two? a b with
        | some value => (decode rest).map (Char.ofNat value :: ·)
        | none =>
          match rest with
          | c :: rest =>
            match three? a b c with
            | none => none
            | some value =>
              if isHighSurrogate value then
                match rest with
                | d :: e :: f :: rest =>
                  match three? d e f with
                  | some low =>
                    if isSurrogate low && !isHighSurrogate low then
                      (decode rest).map (joined value low :: ·)
                    else none
                  | none => none
                | _ => none
              else if isSurrogate value then none
              else (decode rest).map (Char.ofNat value :: ·)
          | [] => none
      | [] => none

/-- The text that bytes stand for, if they stand for any. -/
def text? (bytes : ByteArray) : Option String :=
  match String.fromUTF8? bytes with
  | some text => some text
  | none => (decode bytes.toList).map String.ofList

end ClassAudit.ModifiedUtf8
