import Mathlib.Algebra.GroupWithZero.Nat
import Mathlib.Tactic.SplitIfs
import Phrasebook.Number.Binary64

/-! # The range of double precision

A whole number has a nearest number of double precision unless it is so large that it rounds to
`2 ^ 1024` (`ofInt?_eq_none_iff`): its 53 leading bits are all ones and half of the last of them
follows. -/

namespace Phrasebook.Binary64

/-- Half the distance between the greatest numbers. -/
def halfStep : Nat := 2 ^ (greatestExponent - 1).toNat

/-- The least whole number that is too large: half a step below `2 ^ 1024`. -/
def overflow : Nat := 2 ^ 54 * halfStep - halfStep

/-! ### Rounding -/

/-- A quotient rounds up to an even number only from half a step below it on. The half itself rounds
up because the number below is odd. -/
theorem roundDiv_eq_iff {num den k : Nat} (hden : 0 < den) (hk : k % 2 = 1)
    (h : num < (k + 1) * (2 * den)) :
    roundDiv num (2 * den) = k + 1 ↔ k * (2 * den) + den ≤ num := by
  have hpos : 0 < 2 * den := by omega
  have hquotient : num / (2 * den) ≤ k := Nat.lt_succ_iff.mp ((Nat.div_lt_iff_lt_mul hpos).mpr h)
  have hbelow : num / (2 * den) < k → num < k * (2 * den) := (Nat.div_lt_iff_lt_mul hpos).mp
  have hsplit := Nat.div_add_mod' num (2 * den)
  have hrest := Nat.mod_lt num hpos
  simp only [roundDiv]
  generalize num / (2 * den) = q at *
  generalize num % (2 * den) = r at *
  rcases Nat.lt_or_eq_of_le hquotient with hlt | rfl
  · have := hbelow hlt
    split_ifs <;> omega
  · split_ifs <;> omega

/-! ### Whole numbers -/

theorem powerOfTwo_succ (n : Nat) : powerOfTwo ((n + 1 : Nat) : Int) = (2 * 2 ^ n, 1) := by
  rw [powerOfTwo, if_pos (Int.natCast_nonneg _), Int.toNat_natCast, Nat.pow_eq, Nat.pow_succ']

/-- The exponent at which the leading bit of a whole number is the first of 53. -/
def leadingExponent (n : Nat) : Int := (n.log2 : Int) - 52

theorem mantissaBound_le_scaled {n : Nat} (hn : n ≠ 0) : mantissaBound ≤
    (scaled n 1 ((n.log2 : Int) - 53)).1 / (scaled n 1 ((n.log2 : Int) - 53)).2 := by
  have hlow : 2 ^ n.log2 ≤ n := Nat.log2_self_le hn
  unfold scaled powerOfTwo mantissaBound
  split_ifs with he
  · have hexponent : ((n.log2 : Int) - 53).toNat + 53 = n.log2 := by omega
    have hpos : 0 < 1 * Nat.pow 2 ((n.log2 : Int) - 53).toNat :=
      Nat.mul_pos Nat.one_pos (Nat.two_pow_pos _)
    rw [Nat.le_div_iff_mul_le hpos, Nat.one_mul, Nat.mul_one]
    calc 2 ^ 53 * 2 ^ ((n.log2 : Int) - 53).toNat = 2 ^ n.log2 := by
          rw [← Nat.pow_add, Nat.add_comm, hexponent]
      _ ≤ n := hlow
  · have hexponent : n.log2 + (-((n.log2 : Int) - 53)).toNat = 53 := by omega
    rw [Nat.one_mul, Nat.div_one]
    calc 2 ^ 53 = 2 ^ n.log2 * 2 ^ (-((n.log2 : Int) - 53)).toNat := by
          rw [← Nat.pow_add, hexponent]
      _ ≤ n * 2 ^ (-((n.log2 : Int) - 53)).toNat := Nat.mul_le_mul_right _ hlow

/-- The rounded leading bits of a whole number. -/
def leadingBits (n : Nat) : Nat :=
  roundDiv (scaled n 1 (leadingExponent n)).1 (scaled n 1 (leadingExponent n)).2

theorem ofQuotient_one_eq_infinite {negative : Bool} {n : Nat} (hn : n ≠ 0) :
    (∃ sign, ofQuotient negative n 1 = .infinite sign) ↔ greatestExponent <
      if leadingBits n = mantissaBound then leadingExponent n + 1 else leadingExponent n := by
  have hlow : max leastExponent ((n.log2 : Int) - ((1 : Nat).log2 : Int) - 53) =
      (n.log2 : Int) - 53 := by
    have hone : Nat.log2 1 = 0 := by decide
    rw [hone, leastExponent]
    omega
  have hexponent : (n.log2 : Int) - 53 + 1 = leadingExponent n := by
    rw [leadingExponent]
    omega
  unfold ofQuotient
  simp only [if_neg hn, hlow, if_pos (mantissaBound_le_scaled hn), hexponent]
  rw [← leadingBits]
  by_cases hm : leadingBits n = mantissaBound
  · simp only [if_pos hm]
    split_ifs <;> simp_all [zero]
  · simp only [if_neg hm]
    split_ifs <;> simp_all [zero]

theorem halfStep_pos : 0 < halfStep := Nat.two_pow_pos _

theorem log2_lt_iff {n : Nat} (hn : n ≠ 0) (k : Nat) : n.log2 < k + 970 ↔ n < 2 ^ k * halfStep := by
  have hexponent : (greatestExponent - 1).toNat = 970 := rfl
  rw [halfStep, ← Nat.pow_add, ← Nat.log2_lt hn, hexponent]

theorem leadingBits_eq_iff {n : Nat} (hn : n ≠ 0) (h : n.log2 = 1023) :
    leadingBits n = mantissaBound ↔ overflow ≤ n := by
  have hbound : n < (2 ^ 53 - 1 + 1) * (2 * halfStep) := by
    have hlt := (log2_lt_iff hn 54).mp (by omega)
    omega
  have hoverflow : overflow = (2 ^ 53 - 1) * (2 * halfStep) + halfStep := by
    rw [overflow]
    omega
  have hexponent : leadingExponent n = (((greatestExponent - 1).toNat + 1 : Nat) : Int) := by
    rw [leadingExponent, h]
    rfl
  have hscaled : scaled n 1 (((greatestExponent - 1).toNat + 1 : Nat) : Int) =
      (n, 2 * halfStep) := by
    rw [scaled, powerOfTwo_succ, ← halfStep, Nat.mul_one, Nat.one_mul]
  have hbits : mantissaBound = 2 ^ 53 - 1 + 1 := by decide
  rw [leadingBits, hexponent, hscaled, hbits, hoverflow]
  exact roundDiv_eq_iff halfStep_pos (by decide) hbound

/-- **A whole number has no number of double precision** exactly if it is too large. -/
theorem ofInt?_eq_none_iff (n : Int) : ofInt? n = none ↔ overflow ≤ n.natAbs := by
  have hofInt : ofInt? n = none ↔ ∃ sign, ofQuotient (n < 0) n.natAbs 1 = .infinite sign := by
    unfold ofInt?
    split <;> simp_all
  have hstep := halfStep_pos
  rw [hofInt]
  by_cases hn : n.natAbs = 0
  · rw [hn, overflow]
    simp only [ofQuotient, if_true, zero, reduceCtorEq, exists_false, false_iff]
    omega
  rw [ofQuotient_one_eq_infinite hn]
  generalize n.natAbs = m at *
  rcases Nat.lt_trichotomy m.log2 1023 with hlt | heq | hgt
  · have hm := (log2_lt_iff hn 53).mp hlt
    rw [leadingExponent, greatestExponent, overflow]
    split_ifs <;> omega
  · rw [← leadingBits_eq_iff hn heq, leadingExponent, greatestExponent, heq]
    split_ifs with hm
    · exact iff_of_true (by decide) hm
    · exact iff_of_false (by decide) hm
  · have hm := mt (log2_lt_iff hn 54).mpr (by omega)
    rw [leadingExponent, greatestExponent, overflow]
    split_ifs <;> omega

end Phrasebook.Binary64
