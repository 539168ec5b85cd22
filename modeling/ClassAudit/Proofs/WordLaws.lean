import ClassAudit.Proofs.ExactArithmetic

/-!
# What signed words hold

The manual of the machine describes integer arithmetic by what its results
satisfy: a sum is the exact sum modulo the size of the word, a quotient is
truncated toward zero, a remainder makes up for what the quotient leaves. These
laws are stated here for words of any width, without a word type and without
saying how a result is found.

Each of them allows exactly one result, and that is the exact one of
`Exact.arithmetic` or `Exact.bitwise`, put into range. For sums and products this
is what `Reduces` says. The exact quotient is out of range in a single case. For
remainders the law allows no second one because two of them would differ by a
multiple of the size, and both are smaller than the divisor.
-/

namespace ClassAudit.Exact

/-- Half the size of a signed word, which is one more than its largest number. -/
def half (width : Nat) : Nat := Nat.pow 2 (width - 1)

/-- The numbers that a signed word holds. -/
def InRange (width : Nat) (n : Int) : Prop :=
  -(half width : Int) ≤ n ∧ n < half width

/-- What is left of an exact result in a signed word: the number in its range that
differs by a multiple of its size. -/
def Reduces (width : Nat) (exact r : Int) : Prop :=
  InRange width r ∧ ((Nat.pow 2 width : Nat) : Int) ∣ r - exact

instance (width : Nat) (n : Int) : Decidable (InRange width n) :=
  inferInstanceAs (Decidable (_ ∧ _))

instance (width : Nat) (exact r : Int) : Decidable (Reduces width exact r) :=
  inferInstanceAs (Decidable (_ ∧ _))

/-- A quotient is truncated toward zero. Only the least number divided by -1 has none
in range, and is its own quotient. -/
def IsQuotient (width : Nat) (a b q : Int) : Prop :=
  if a = -(half width : Int) ∧ b = -1 then q = a else q = a.tdiv b

/-- A remainder makes up for what a quotient leaves, modulo the size of the word. It
has the sign of the dividend and is smaller than the divisor. -/
def IsRemainder (width : Nat) (a b r : Int) : Prop :=
  (∃ q, IsQuotient width a b q ∧
    ((Nat.pow 2 width : Nat) : Int) ∣ a - (q * b + r)) ∧
  (r = 0 ∨ r.sign = a.sign) ∧ r.natAbs < b.natAbs

/-- What an instruction for arithmetic has to leave. -/
def ArithmeticLaw (width : Nat) (op : ArithmeticOp) (a b r : Int) : Prop :=
  match op with
  | .add => Reduces width (a + b) r
  | .sub => Reduces width (a - b) r
  | .mul => Reduces width (a * b) r
  | .div => b ≠ 0 ∧ IsQuotient width a b r
  | .rem => b ≠ 0 ∧ IsRemainder width a b r

/-- What a shift or a bitwise instruction has to leave. -/
def BitwiseLaw (width : Nat) (op : BitwiseOp) (a b r : Int) : Prop :=
  match op with
  | .shr => r = a.fdiv (Nat.pow 2 (distance width b) : Nat)
  | op => Reduces width (bitwise width op a b) r

section Laws

variable {width : Nat} {a b r : Int}

theorem half_pos (width : Nat) : 0 < half width := Nat.pow_pos (by decide)

theorem pow_eq_half (hwidth : 0 < width) : Nat.pow 2 width = 2 * half width := by
  obtain ⟨w, rfl⟩ : ∃ w, width = w + 1 := ⟨width - 1, by omega⟩
  exact Nat.pow_succ'

theorem reduces_iff (hwidth : 0 < width) {exact : Int} :
    Reduces width exact r ↔ exact.bmod (Nat.pow 2 width) = r := by
  have hsize := pow_eq_half hwidth
  have hpos := half_pos width
  rw [Int.bmod_eq_iff (by omega), Reduces, InRange, hsize, and_assoc]
  have hlow : -(((2 * half width : Nat) : Int) / 2) = -(half width : Int) := by omega
  have hhigh : (((2 * half width : Nat) : Int) + 1) / 2 = (half width : Int) := by
    omega
  rw [hlow, hhigh]

theorem InRange.mono {width' : Nat} (h : InRange width r)
    (hle : width ≤ width') : InRange width' r := by
  have hhalf : half width ≤ half width' :=
    Nat.pow_le_pow_right (by decide) (by omega)
  obtain ⟨hlow, hhigh⟩ := h
  exact ⟨by omega, by omega⟩

theorem bmod_of_inRange (hwidth : 0 < width) (h : InRange width r) :
    r.bmod (Nat.pow 2 width) = r :=
  (reduces_iff hwidth).1 ⟨h, by simp⟩

/-- Truncated quotients are in range, but for one. -/
theorem inRange_tdiv (ha : InRange width a) (hb : b ≠ 0)
    (hleast : ¬ (a = -(half width : Int) ∧ b = -1)) : InRange width (a.tdiv b) := by
  obtain ⟨hlow, hhigh⟩ := ha
  have habs : (a.tdiv b).natAbs = a.natAbs / b.natAbs := Int.natAbs_tdiv a b
  by_cases hone : b = 1
  · rw [hone, Int.tdiv_one]
    exact ⟨hlow, hhigh⟩
  by_cases hminus : b = -1
  · rw [hminus, Int.tdiv_neg, Int.tdiv_one]
    have hne : a ≠ -(half width : Int) := fun h => hleast ⟨h, hminus⟩
    exact ⟨by omega, by omega⟩
  · have htwo : a.natAbs / b.natAbs ≤ a.natAbs / 2 :=
      Nat.div_le_div_left (by omega) (by decide)
    have hpos := half_pos width
    exact ⟨by omega, by omega⟩

theorem quotient_iff (hwidth : 0 < width) (ha : InRange width a) (hb : b ≠ 0) :
    IsQuotient width a b r ↔ (a.tdiv b).bmod (Nat.pow 2 width) = r := by
  rw [IsQuotient]
  split
  · next hleast =>
      obtain ⟨rfl, rfl⟩ := hleast
      have hpos := half_pos width
      have hwrap :
          (half width : Int).bmod (Nat.pow 2 width) = -(half width : Int) := by
        refine (reduces_iff hwidth).1 ⟨⟨by omega, by omega⟩, ⟨-1, ?_⟩⟩
        rw [pow_eq_half hwidth]
        omega
      rw [Int.tdiv_neg, Int.tdiv_one, Int.neg_neg, hwrap]
      exact eq_comm
  · next hleast =>
      rw [bmod_of_inRange hwidth (inRange_tdiv ha hb hleast)]
      exact eq_comm

theorem natAbs_tmod_lt (hb : b ≠ 0) : (a.tmod b).natAbs < b.natAbs := by
  have habs : (a.tmod b).natAbs = a.natAbs % b.natAbs := Int.natAbs_tmod a b
  rw [habs]
  exact Nat.mod_lt _ (by omega)

/-- Multiples of the size are far apart, so there is room for one remainder. -/
theorem remainder_unique (hwidth : 0 < width) (hb : InRange width b) {r' : Int}
    (h : IsRemainder width a b r) (h' : IsRemainder width a b r') : r = r' := by
  obtain ⟨⟨q, hq, hdvd⟩, _, hlt⟩ := h
  obtain ⟨⟨q', hq', hdvd'⟩, _, hlt'⟩ := h'
  have hsame : q = q' := by
    rw [IsQuotient] at hq hq'
    split at hq
    · next hleast => rw [if_pos hleast] at hq'; omega
    · next hleast => rw [if_neg hleast] at hq'; omega
  subst hsame
  have hsub := Int.dvd_sub hdvd' hdvd
  rw [show a - (q * b + r') - (a - (q * b + r)) = r - r' by omega] at hsub
  have hzero : r - r' = 0 := by
    refine Int.eq_zero_of_dvd_of_natAbs_lt_natAbs hsub ?_
    obtain ⟨hlow, hhigh⟩ := hb
    rw [Int.natAbs_natCast, pow_eq_half hwidth]
    omega
  omega

theorem isRemainder_tmod (hwidth : 0 < width) (hb : b ≠ 0) :
    IsRemainder width a b (a.tmod b) := by
  refine ⟨?_, ?_, natAbs_tmod_lt hb⟩
  · by_cases hleast : a = -(half width : Int) ∧ b = -1
    · obtain ⟨rfl, rfl⟩ := hleast
      refine ⟨-(half width : Int), by simp [IsQuotient], ⟨-1, ?_⟩⟩
      rw [Int.tmod_neg, Int.tmod_one, pow_eq_half hwidth]
      omega
    · refine ⟨a.tdiv b, by rw [IsQuotient, if_neg hleast], ?_⟩
      rw [Int.tdiv_mul_add_tmod, Int.sub_self]
      exact Int.dvd_zero _
  · rw [Int.sign_tmod]
    split
    · next hdvd => exact .inl (Int.tmod_eq_zero_of_dvd hdvd)
    · exact .inr rfl

theorem remainder_iff (hwidth : 0 < width) (hrange : InRange width b) (hb : b ≠ 0) :
    IsRemainder width a b r ↔ (a.tmod b).bmod (Nat.pow 2 width) = r := by
  have hmod := isRemainder_tmod (a := a) hwidth hb
  have hlt := natAbs_tmod_lt (a := a) hb
  have hin : InRange width (a.tmod b) := by
    obtain ⟨hlow, hhigh⟩ := hrange
    exact ⟨by omega, by omega⟩
  rw [bmod_of_inRange hwidth hin]
  constructor
  · exact remainder_unique hwidth hrange hmod
  · intro h
    exact h ▸ hmod

theorem arithmeticLaw_iff (hwidth : 0 < width) (op : ArithmeticOp)
    (ha : InRange width a) (hb : InRange width b) :
    ArithmeticLaw width op a b r ↔
      (arithmetic op a b).map (·.bmod (Nat.pow 2 width)) = some r := by
  cases op with
  | add | sub | mul =>
      simp only [ArithmeticLaw, arithmetic, Option.map_some, Option.some.injEq]
      exact reduces_iff hwidth
  | div =>
      simp only [ArithmeticLaw, arithmetic]
      by_cases hzero : b = 0
      · simp [hzero]
      · simp [hzero, quotient_iff hwidth ha hzero]
  | rem =>
      simp only [ArithmeticLaw, arithmetic]
      by_cases hzero : b = 0
      · simp [hzero]
      · simp [hzero, remainder_iff hwidth hb hzero]

/-- Rounding down keeps a number in range. -/
theorem inRange_ediv (ha : InRange width a) {k : Nat} (hk : 0 < k) :
    InRange width (a / k) := by
  obtain ⟨hlow, hhigh⟩ := ha
  have hgrow : (half width : Int) * 1 ≤ half width * k :=
    Int.mul_le_mul_of_nonneg_left (by omega) (by omega)
  constructor
  · rw [Int.le_ediv_iff_mul_le (by omega), Int.neg_mul]
    omega
  · rw [Int.ediv_lt_iff_lt_mul (by omega)]
    omega

theorem bitwiseLaw_iff (hwidth : 0 < width) (op : BitwiseOp) (ha : InRange width a) :
    BitwiseLaw width op a b r ↔
      (bitwise width op a b).bmod (Nat.pow 2 width) = r := by
  cases op with
  | shr =>
      have hpos : 0 < Nat.pow 2 (distance width b) := Nat.pow_pos (by decide)
      simp only [BitwiseLaw, bitwise]
      rw [bmod_of_inRange hwidth (inRange_ediv ha hpos),
        Int.fdiv_eq_ediv_of_nonneg _ (by omega)]
      exact eq_comm
  | shl | ushr | and | or | xor => exact reduces_iff hwidth

end Laws

end ClassAudit.Exact
