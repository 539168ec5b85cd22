/-!
# Binary floating point formats

A floating point number of either width is a bit string with a sign, an exponent field
and a fraction. `Format.decode` reads it as an exact number `m * 2 ^ q`, and
`Format.encode` goes back. Everything that has to be exact (remainders, decimal text)
works on the decoded form, in integer arithmetic.
-/

namespace ClassAudit.Floating

/-- The shape of a binary format: how many bits a significand has, the leading one
included, and how many bits the exponent field has. -/
structure Format where
  precision : Nat
  exponentBits : Nat
  deriving DecidableEq, Repr

/-- The 32-bit format. -/
def single : Format := ⟨24, 8⟩

/-- The 64-bit format. -/
def double : Format := ⟨53, 11⟩

/-- What a bit string stands for. A finite number is `significand * 2 ^ exponent`, with
a sign that zero has too. -/
inductive Datum
  | nan
  | infinite (negative : Bool)
  | finite (negative : Bool) (significand : Nat) (exponent : Int)
  deriving DecidableEq, Repr

namespace Format

/-- The number of bits below the exponent field. -/
def fractionBits (format : Format) : Nat := format.precision - 1

/-- The largest value of the exponent field, which marks what is not finite. -/
def exponentLimit (format : Format) : Nat := Nat.pow 2 format.exponentBits - 1

/-- The exponent of the smallest positive number. -/
def leastExponent (format : Format) : Int :=
  2 - (Nat.pow 2 (format.exponentBits - 1) : Nat) - (format.fractionBits : Nat)

/-- Reads a bit string. -/
def decode (format : Format) (bits : Nat) : Datum :=
  let unit := Nat.pow 2 format.fractionBits
  let fraction := bits % unit
  let field := bits / unit % Nat.pow 2 format.exponentBits
  let negative := bits / unit / Nat.pow 2 format.exponentBits % 2 == 1
  if field = format.exponentLimit then
    if fraction = 0 then .infinite negative else .nan
  else if field = 0 then .finite negative fraction format.leastExponent
  else .finite negative (unit + fraction) (format.leastExponent + (field - 1))

/-- The bit string of a datum that the format can hold exactly. -/
def encode (format : Format) (datum : Datum) : Nat :=
  let unit := Nat.pow 2 format.fractionBits
  let signed (negative : Bool) (bits : Nat) : Nat :=
    (if negative then Nat.pow 2 format.exponentBits * unit else 0) + bits
  match datum with
  | .nan => format.exponentLimit * unit + unit / 2
  | .infinite negative => signed negative (format.exponentLimit * unit)
  | .finite negative 0 _ => signed negative 0
  | .finite negative significand exponent =>
    let length : Int := significand.log2 + 1
    let scale := max format.leastExponent (exponent + length - format.precision)
    let scaled :=
      if scale ≤ exponent then significand * Nat.pow 2 (exponent - scale).toNat
      else significand / Nat.pow 2 (scale - exponent).toNat
    if scaled < unit then signed negative scaled
    else signed negative ((scale - format.leastExponent).toNat * unit + scaled)

end Format

/-- The remainder of a division that truncates: it has the sign of the dividend, and
dividing by zero or dividing an infinity has none. -/
def Datum.rem : Datum → Datum → Datum
  | .finite negative m p, .finite _ n q =>
    if n = 0 then .nan
    else
      let scale := min p q
      let dividend := m * Nat.pow 2 (p - scale).toNat
      let divisor := n * Nat.pow 2 (q - scale).toNat
      .finite negative (dividend % divisor) scale
  | .finite negative m p, .infinite _ => .finite negative m p
  | _, _ => .nan

/-- The truncating remainder of two 32-bit numbers. -/
def rem32 (a b : Float32) : Float32 :=
  .ofBits (.ofNat (single.encode
    ((single.decode a.toBits.toNat).rem (single.decode b.toBits.toNat))))

/-- The truncating remainder of two 64-bit numbers. -/
def rem64 (a b : Float) : Float :=
  .ofBits (.ofNat (double.encode
    ((double.decode a.toBits.toNat).rem (double.decode b.toBits.toNat))))

end ClassAudit.Floating
