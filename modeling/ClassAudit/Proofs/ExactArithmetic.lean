import ClassAudit.Folding

/-!
# Integer arithmetic of the machine, from exact integers

The machine computes on 32-bit and 64-bit words, and its manual says what each
operation does by way of the integers: compute exactly, then reduce into the
range of the word. `Exact` is that reading. Nothing in it wraps; a result
becomes a word by `Int32.ofInt` or `Int64.ofInt`, which keep its value modulo
the size of the word.

`Folding` computes on words directly, with the operators of the word types, and
the lemmas below say that both are the same thing. The shifts are the only
place with an argument. A word operator takes its distance modulo the width,
once with a signed and once with an unsigned remainder, and both agree with the
remainder of the exact distance because the width divides the size of the word
(`toNat_umod_width`) and is small enough to be no negative number in it
(`toNat_smod_width`).
-/

namespace ClassAudit.Exact

/-- Arithmetic on integers. Division truncates, a remainder has the sign of the
dividend, and neither has a result when the divisor is zero. -/
def arithmetic (op : ArithmeticOp) (a b : Int) : Option Int :=
  match op with
  | .add => some (a + b)
  | .sub => some (a - b)
  | .mul => some (a * b)
  | .div => if b = 0 then none else some (a.tdiv b)
  | .rem => if b = 0 then none else some (a.tmod b)

/-- How far a shift goes: its distance modulo the width. -/
def distance (width : Nat) (b : Int) : Nat := (b % width).toNat

/-- The bits of an integer in a word of some width, as a number without sign. -/
def unsigned (width : Nat) (a : Int) : Nat := (a % (Nat.pow 2 width : Nat)).toNat

/-- Shifts and bitwise operations. A shift to the left multiplies, one to the
right rounds toward minus infinity, and the unsigned one reads its operand as a
number without sign. -/
def bitwise (width : Nat) (op : BitwiseOp) (a b : Int) : Int :=
  match op with
  | .shl => a * (Nat.pow 2 (distance width b) : Nat)
  | .shr => a / (Nat.pow 2 (distance width b) : Nat)
  | .ushr => (unsigned width a / Nat.pow 2 (distance width b) : Nat)
  | .and => (unsigned width a &&& unsigned width b : Nat)
  | .or => (unsigned width a ||| unsigned width b : Nat)
  | .xor => (unsigned width a ^^^ unsigned width b : Nat)

/-! ## Words as bit strings -/

section Words

variable {w : Nat}

theorem unsigned_toInt (x : BitVec w) : unsigned w x.toInt = x.toNat := by
  have hlt : x.toNat < Nat.pow 2 w := x.isLt
  rw [unsigned, BitVec.toInt_eq_toNat_bmod,
    show ((x.toNat : Int).bmod (2 ^ w)) % ((Nat.pow 2 w : Nat) : Int) =
      (x.toNat : Int) % ((Nat.pow 2 w : Nat) : Int) from Int.bmod_emod,
    ← Int.natCast_emod, Int.toNat_natCast, Nat.mod_eq_of_lt hlt]

theorem ofInt_natCast_of_lt {n : Nat} {x : BitVec w} (h : x.toNat = n) :
    BitVec.ofInt w (n : Int) = x := by
  subst h
  apply BitVec.eq_of_toNat_eq
  rw [BitVec.ofInt_natCast, BitVec.toNat_ofNat, Nat.mod_eq_of_lt x.isLt]

theorem shiftLeft_eq_exact (x : BitVec w) (n : Nat) :
    x <<< n = BitVec.ofInt w (x.toInt * (Nat.pow 2 n : Nat)) := by
  apply BitVec.eq_of_toInt_eq
  rw [BitVec.toInt_shiftLeft, BitVec.toInt_ofInt, BitVec.toInt_eq_toNat_bmod,
    Int.bmod_mul_bmod, Nat.shiftLeft_eq, Int.natCast_mul]
  rfl

theorem sshiftRight_eq_exact (x : BitVec w) (n : Nat) :
    x.sshiftRight n = BitVec.ofInt w (x.toInt / (Nat.pow 2 n : Nat)) := by
  apply BitVec.eq_of_toInt_eq
  have hself := congrArg BitVec.toInt
    (BitVec.ofInt_toInt (x := x.sshiftRight n))
  rw [BitVec.toInt_sshiftRight, Int.shiftRight_eq_div_pow] at hself
  rw [BitVec.toInt_sshiftRight, Int.shiftRight_eq_div_pow]
  exact hself.symm

theorem ushiftRight_eq_exact (x : BitVec w) (n : Nat) :
    x >>> n = BitVec.ofInt w (unsigned w x.toInt / Nat.pow 2 n : Nat) := by
  refine (ofInt_natCast_of_lt ?_).symm
  rw [BitVec.toNat_ushiftRight, Nat.shiftRight_eq_div_pow, unsigned_toInt]
  rfl

theorem and_eq_exact (x y : BitVec w) :
    x &&& y =
      BitVec.ofInt w (unsigned w x.toInt &&& unsigned w y.toInt : Nat) := by
  refine (ofInt_natCast_of_lt ?_).symm
  rw [BitVec.toNat_and, unsigned_toInt, unsigned_toInt]

theorem or_eq_exact (x y : BitVec w) :
    x ||| y =
      BitVec.ofInt w (unsigned w x.toInt ||| unsigned w y.toInt : Nat) := by
  refine (ofInt_natCast_of_lt ?_).symm
  rw [BitVec.toNat_or, unsigned_toInt, unsigned_toInt]

theorem xor_eq_exact (x y : BitVec w) :
    x ^^^ y =
      BitVec.ofInt w (unsigned w x.toInt ^^^ unsigned w y.toInt : Nat) := by
  refine (ofInt_natCast_of_lt ?_).symm
  rw [BitVec.toNat_xor, unsigned_toInt, unsigned_toInt]

/-- An unsigned remainder by a divisor of the word's size is that of the
integer. -/
theorem toNat_umod_width {k : Nat} (x : BitVec w) (hdvd : k ∣ Nat.pow 2 w)
    (hlt : k < Nat.pow 2 w) :
    (x % BitVec.ofNat w k).toNat = distance k x.toInt := by
  have hdvd' : (k : Int) ∣ ((2 ^ w : Nat) : Int) := Int.natCast_dvd_natCast.2 hdvd
  have hsmall : k % 2 ^ w = k := Nat.mod_eq_of_lt hlt
  rw [distance, BitVec.toNat_umod, BitVec.toNat_ofNat, hsmall,
    BitVec.toInt_eq_toNat_bmod, ← Int.emod_emod_of_dvd _ hdvd', Int.bmod_emod,
    Int.emod_emod_of_dvd _ hdvd', ← Int.natCast_emod, Int.toNat_natCast]

/-- A signed remainder by a number that is positive as a word is that of the
integer. -/
theorem toNat_smod_width {k : Nat} (x : BitVec w) (hpos : 0 < k)
    (hdouble : 2 * k < Nat.pow 2 w) :
    (x.smod (BitVec.ofNat w k)).toNat = distance k x.toInt := by
  have hlt : 2 * k < 2 ^ w := hdouble
  have hnat : (BitVec.ofNat w k).toNat = k := by
    rw [BitVec.toNat_ofNat, Nat.mod_eq_of_lt (by omega)]
  have hk : (BitVec.ofNat w k).toInt = k := by
    rw [BitVec.toInt_eq_toNat_of_lt (by rw [hnat]; exact hlt), hnat]
  have hmod := BitVec.toInt_smod (x := x) (y := BitVec.ofNat w k)
  rw [hk, Int.fmod_eq_emod_of_nonneg _ (by omega)] at hmod
  have hnonneg : 0 ≤ x.toInt % (k : Int) := Int.emod_nonneg _ (by omega)
  have hcond := BitVec.toInt_eq_toNat_cond (x.smod (BitVec.ofNat w k))
  rw [hmod] at hcond
  have hbound := (x.smod (BitVec.ofNat w k)).isLt
  rw [distance]
  split at hcond <;> omega

end Words

/-! ## Folding -/

theorem int32_toInt_eq_zero {b : Int32} : b.toInt = 0 ↔ b = 0 := by
  rw [← Int32.toInt_inj, Int32.toInt_zero]

theorem int64_toInt_eq_zero {b : Int64} : b.toInt = 0 ↔ b = 0 := by
  rw [← Int64.toInt_inj, Int64.toInt_zero]

theorem folding_int (op : ArithmeticOp) (a b : Int32) :
    Folding.int op a b = (arithmetic op a.toInt b.toInt).map Int32.ofInt := by
  cases op with
  | add => simp [Folding.int, arithmetic, Int32.ofInt_add]
  | sub => simp [Folding.int, arithmetic, Int32.ofInt_sub]
  | mul => simp [Folding.int, arithmetic, Int32.ofInt_mul]
  | div =>
      rw [Folding.int, arithmetic]
      by_cases h : b = 0
      · rw [if_pos h, if_pos (int32_toInt_eq_zero.2 h)]
        rfl
      · have hdiv : a / b = Int32.ofInt (a.toInt.tdiv b.toInt) :=
          Int32.toInt_inj.1 (by rw [Int32.toInt_ofInt, Int32.toInt_div])
        rw [if_neg h, if_neg (mt int32_toInt_eq_zero.1 h), Option.map_some, hdiv]
  | rem =>
      rw [Folding.int, arithmetic]
      by_cases h : b = 0
      · rw [if_pos h, if_pos (int32_toInt_eq_zero.2 h)]
        rfl
      · rw [if_neg h, if_neg (mt int32_toInt_eq_zero.1 h), Option.map_some,
          ← Int32.toInt_mod, Int32.ofInt_toInt]

theorem folding_long (op : ArithmeticOp) (a b : Int64) :
    Folding.long op a b = (arithmetic op a.toInt b.toInt).map Int64.ofInt := by
  cases op with
  | add => simp [Folding.long, arithmetic, Int64.ofInt_add]
  | sub => simp [Folding.long, arithmetic, Int64.ofInt_sub]
  | mul => simp [Folding.long, arithmetic, Int64.ofInt_mul]
  | div =>
      rw [Folding.long, arithmetic]
      by_cases h : b = 0
      · rw [if_pos h, if_pos (int64_toInt_eq_zero.2 h)]
        rfl
      · have hdiv : a / b = Int64.ofInt (a.toInt.tdiv b.toInt) :=
          Int64.toInt_inj.1 (by rw [Int64.toInt_ofInt, Int64.toInt_div])
        rw [if_neg h, if_neg (mt int64_toInt_eq_zero.1 h), Option.map_some, hdiv]
  | rem =>
      rw [Folding.long, arithmetic]
      by_cases h : b = 0
      · rw [if_pos h, if_pos (int64_toInt_eq_zero.2 h)]
        rfl
      · rw [if_neg h, if_neg (mt int64_toInt_eq_zero.1 h), Option.map_some,
          ← Int64.toInt_mod, Int64.ofInt_toInt]

theorem folding_intBits (op : BitwiseOp) (a b : Int32) :
    Folding.intBits op a b =
      Int32.ofInt (bitwise 32 op a.toInt b.toInt) := by
  rw [← Int32.toBitVec_inj, Int32.toBitVec_ofInt]
  cases op with
  | shl =>
      have hdist := toNat_smod_width (k := 32) b.toBitVec (by decide) (by decide)
      rw [Folding.intBits, Int32.toBitVec_shiftLeft, BitVec.shiftLeft_eq']
      exact hdist ▸ shiftLeft_eq_exact a.toBitVec _
  | shr =>
      have hdist := toNat_smod_width (k := 32) b.toBitVec (by decide) (by decide)
      rw [Folding.intBits, Int32.toBitVec_shiftRight, BitVec.sshiftRight_eq']
      exact hdist ▸ sshiftRight_eq_exact a.toBitVec _
  | ushr =>
      have hdist := toNat_umod_width (k := 32) b.toBitVec (by decide) (by decide)
      rw [Folding.intBits, UInt32.toBitVec_toInt32, UInt32.toBitVec_shiftRight,
        BitVec.ushiftRight_eq']
      exact hdist ▸ ushiftRight_eq_exact a.toBitVec _
  | and => exact and_eq_exact a.toBitVec b.toBitVec
  | or => exact or_eq_exact a.toBitVec b.toBitVec
  | xor => exact xor_eq_exact a.toBitVec b.toBitVec

theorem folding_longBits (op : BitwiseOp) (a b : Int64) :
    Folding.longBits op a b =
      Int64.ofInt (bitwise 64 op a.toInt b.toInt) := by
  rw [← Int64.toBitVec_inj, Int64.toBitVec_ofInt]
  cases op with
  | shl =>
      have hdist := toNat_smod_width (k := 64) b.toBitVec (by decide) (by decide)
      rw [Folding.longBits, Int64.toBitVec_shiftLeft, BitVec.shiftLeft_eq']
      exact hdist ▸ shiftLeft_eq_exact a.toBitVec _
  | shr =>
      have hdist := toNat_smod_width (k := 64) b.toBitVec (by decide) (by decide)
      rw [Folding.longBits, Int64.toBitVec_shiftRight, BitVec.sshiftRight_eq']
      exact hdist ▸ sshiftRight_eq_exact a.toBitVec _
  | ushr =>
      have hdist := toNat_umod_width (k := 64) b.toBitVec (by decide) (by decide)
      rw [Folding.longBits, UInt64.toBitVec_toInt64, UInt64.toBitVec_shiftRight,
        BitVec.ushiftRight_eq']
      exact hdist ▸ ushiftRight_eq_exact a.toBitVec _
  | and => exact and_eq_exact a.toBitVec b.toBitVec
  | or => exact or_eq_exact a.toBitVec b.toBitVec
  | xor => exact xor_eq_exact a.toBitVec b.toBitVec

/-! ## Narrowing and comparing -/

theorem toInt8_toInt32 (a : Int32) :
    a.toInt8.toInt32 = Int32.ofInt (a.toInt.bmod 256) := by
  rw [← Int32.toInt_toInt8, ← Int8.toInt_toInt32, Int32.ofInt_toInt]

theorem toInt16_toInt32 (a : Int32) :
    a.toInt16.toInt32 = Int32.ofInt (a.toInt.bmod 65536) := by
  rw [← Int32.toInt_toInt16, ← Int16.toInt_toInt32, Int32.ofInt_toInt]

theorem toUInt16_toInt32 (a : Int32) :
    a.toUInt32.toUInt16.toUInt32.toInt32 = Int32.ofInt (a.toInt % 65536) := by
  apply Int32.toBitVec_inj.1
  have hmod : a.toInt % 65536 = ((a.toBitVec.toNat % 65536 : Nat) : Int) := by
    have h := BitVec.toInt_eq_toNat_cond a.toBitVec
    rw [Int32.toInt_toBitVec] at h
    split at h <;> omega
  rw [hmod]
  exact (ofInt_natCast_of_lt (by simp)).symm

theorem signOf_long (a b : Int64) :
    Folding.signOf (a < b) (a == b) (b < a) 0 =
      Int32.ofInt (a.toInt - b.toInt).sign := by
  rw [Folding.signOf]
  rcases Int.lt_trichotomy a.toInt b.toInt with hlt | heq | hgt
  · rw [Int.sign_eq_neg_one_of_neg (by omega)]
    simp [Int64.lt_iff_toInt_lt, hlt]
  · rw [Int64.toInt_inj.1 heq]
    simp
  · have hne : ¬ a = b := fun h => by rw [h] at hgt; omega
    rw [Int.sign_eq_one_of_pos (by omega)]
    simp [Int64.lt_iff_toInt_lt, hgt, hne, Int.not_lt.2 (Int.le_of_lt hgt)]

end ClassAudit.Exact
