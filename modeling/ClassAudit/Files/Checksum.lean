/-!
# Checksums

The cyclic checksum of 32 bits with which archives protect what they hold.
-/

namespace ClassAudit.Checksum

/-- The remainder after some more bits. -/
def shiftBits : Nat → UInt32 → UInt32
  | 0, value => value
  | bits + 1, value =>
    let shifted := value >>> 1
    shiftBits bits (if value &&& 1 = 1 then shifted ^^^ 0xedb88320 else shifted)

/-- The checksum of some bytes. -/
def ofBytes (data : ByteArray) : UInt32 :=
  data.foldl (fun sum byte =>
    shiftBits 8 ((sum ^^^ byte.toUInt32) &&& 0xff) ^^^ (sum >>> 8))
    0xffffffff ^^^ 0xffffffff

end ClassAudit.Checksum
