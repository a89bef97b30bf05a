import LocksetLang.Binary64.Rounding
import Mathlib.Tactic

/-! The rank nearest to a fraction. It depends on the value of the fraction only, and each magnitude
is nearest to itself. -/

namespace LocksetLang

theorem twoPow_eq (n : Nat) : twoPow n = 2 ^ n := rfl

theorem tenPow_eq (n : Nat) : tenPow n = 10 ^ n := rfl

theorem twoPow_add (m n : Nat) : twoPow (m + n) = twoPow m * twoPow n := Nat.pow_add 2 m n

theorem tenPow_add (m n : Nat) : tenPow (m + n) = tenPow m * tenPow n := Nat.pow_add 10 m n

theorem twoPow_le_twoPow {m n : Nat} (h : m ≤ n) : twoPow m ≤ twoPow n :=
  Nat.pow_le_pow_right (by decide) h

theorem tenPow_le_tenPow {m n : Nat} (h : m ≤ n) : tenPow m ≤ tenPow n :=
  Nat.pow_le_pow_right (by decide) h

theorem twoPow_mul (m n : Nat) : twoPow (m * n) = twoPow m ^ n := Nat.pow_mul 2 m n

theorem tenPow_mul (m n : Nat) : tenPow (m * n) = tenPow m ^ n := Nat.pow_mul 10 m n

theorem tenPow_eq_mul (n : Nat) : tenPow n = Nat.pow 5 n * twoPow n := Nat.mul_pow 5 2 n

theorem twoPow_pos (n : Nat) : 0 < twoPow n := Nat.two_pow_pos n

theorem tenPow_pos (n : Nat) : 0 < tenPow n := Nat.pow_pos (by decide)

theorem roundDiv_mul_right (num den : Nat) {k : Nat} (hk : 0 < k) :
    roundDiv (num * k) (den * k) = roundDiv num den := by
  have hlt : ∀ a b : Nat, a * k < b * k ↔ a < b := fun a b => Nat.mul_lt_mul_right hk
  simp only [roundDiv, Nat.mul_div_mul_right _ _ hk, Nat.mul_mod_mul_right, ← Nat.mul_assoc, hlt]

theorem roundDiv_one (n : Nat) : roundDiv n 1 = n := by
  simp [roundDiv, Nat.mod_one]

theorem div_le_roundDiv (num den : Nat) : num / den ≤ roundDiv num den := by
  simp only [roundDiv]
  split_ifs <;> omega

theorem roundDiv_eq_zero {num den : Nat} (h : 2 * num < den) : roundDiv num den = 0 := by
  have hd : num / den = 0 := Nat.div_eq_of_lt (by omega)
  have hm : num % den = num := Nat.mod_eq_of_lt (by omega)
  simp [roundDiv, hd, hm, h]

namespace Binary64

theorem nearestRank_mul_right (num den : Nat) {k : Nat} (hk : 0 < k) :
    nearestRank (num * k) (den * k) = nearestRank num den := by
  simp only [nearestRank]
  rw [Nat.mul_div_mul_right _ _ hk, Nat.mul_right_comm den k, roundDiv_mul_right _ _ hk]

theorem nearestRank_eq_of_cross {a b c d : Nat} (hb : 0 < b) (hd : 0 < d) (h : a * d = c * b) :
    nearestRank a b = nearestRank c d := by
  rw [← nearestRank_mul_right a b hd, h, Nat.mul_comm b d, nearestRank_mul_right c d hb]

theorem nearestRank_eq_zero {num den : Nat} (h : 2 * num < den) : nearestRank num den = 0 := by
  have hd : num / den = 0 := Nat.div_eq_of_lt (by omega)
  simp [nearestRank, hd, twoPow_eq, roundDiv_eq_zero h]

/-- A fraction of `2 ^ n` units or more has a rank past those of all smaller exponents. -/
theorem le_nearestRank {num den n : Nat} (hn : 52 ≤ n) (h : twoPow n ≤ num / den) :
    (n - 51) * twoPow 52 ≤ nearestRank num den := by
  have hq : num / den ≠ 0 := fun h0 => absurd (h0 ▸ h) (Nat.not_le.2 (twoPow_pos n))
  have hlog : n ≤ (num / den).log2 := (Nat.le_log2 hq).2 h
  -- the bits that remain after the shift are 53
  have hround : twoPow 52 ≤ roundDiv num (den * twoPow ((num / den).log2 - 52)) := by
    refine le_trans ?_ (div_le_roundDiv _ _)
    rw [← Nat.div_div_eq_div_mul, Nat.le_div_iff_mul_le (twoPow_pos _), twoPow_eq, twoPow_eq,
      ← Nat.pow_add, show 52 + ((num / den).log2 - 52) = (num / den).log2 by omega]
    exact Nat.log2_self_le hq
  have hshift : (n - 52) * twoPow 52 ≤ ((num / den).log2 - 52) * twoPow 52 :=
    Nat.mul_le_mul_right _ (by omega)
  calc (n - 51) * twoPow 52 = (n - 52) * twoPow 52 + twoPow 52 := by
        rw [← Nat.succ_mul, show (n - 52).succ = n - 51 by omega]
    _ ≤ nearestRank num den := Nat.add_le_add hshift hround

/-- A magnitude is a significand of 53 bits, shifted; the smaller ones are not shifted. -/
theorem units_eq_of_lt {rank : Nat} (h : rank < 2 * twoPow 52) : units rank = rank := by
  have hq : rank / twoPow 52 < 2 := (Nat.div_lt_iff_lt_mul (twoPow_pos 52)).2 h
  have hs : shiftOf rank = 0 := by
    unfold shiftOf
    omega
  simp [units, hs, twoPow_eq]

theorem nearestRank_units (rank : Nat) : nearestRank (units rank) 1 = rank := by
  by_cases h : rank < 2 * twoPow 52
  · have hlog : (rank / 1).log2 - 52 = 0 := by
      rw [Nat.div_one]
      by_cases h0 : rank = 0
      · simp [h0]
      · have : rank.log2 < 53 := (Nat.log2_lt h0).2 h
        omega
    rw [units_eq_of_lt h]
    simp only [nearestRank]
    rw [hlog, Nat.zero_mul, Nat.zero_add]
    exact roundDiv_one rank
  · have hdiv : 2 ≤ rank / twoPow 52 := (Nat.le_div_iff_mul_le (twoPow_pos 52)).2 (by omega)
    have hmod : rank % twoPow 52 < twoPow 52 := Nat.mod_lt _ (twoPow_pos 52)
    have hsplit := Nat.div_add_mod' rank (twoPow 52)
    generalize hs : shiftOf rank = s
    have hs1 : rank / twoPow 52 = s + 1 := by
      unfold shiftOf at hs
      omega
    rw [hs1, Nat.succ_mul] at hsplit
    generalize hm : rank - s * twoPow 52 = m
    have hm1 : twoPow 52 ≤ m := by omega
    have hm2 : m < twoPow 53 := by
      rw [show twoPow 53 = 2 * twoPow 52 from rfl]
      omega
    have hu : units rank = m * twoPow s := by rw [units, hs, hm]
    have hlog : (units rank / 1).log2 = s + 52 := by
      rw [Nat.div_one, hu, Nat.log2_eq_iff (Nat.mul_pos (by have := twoPow_pos 52; omega)
        (twoPow_pos s)).ne', twoPow_eq, Nat.pow_add, Nat.mul_comm (2 ^ s),
        show s + 52 + 1 = s + 53 by omega, Nat.pow_add, Nat.mul_comm (2 ^ s)]
      exact ⟨Nat.mul_le_mul_right _ hm1, Nat.mul_lt_mul_of_pos_right hm2 (Nat.two_pow_pos s)⟩
    simp only [nearestRank]
    rw [hlog, Nat.add_sub_cancel, hu, roundDiv_mul_right _ _ (twoPow_pos s), roundDiv_one]
    omega

end Binary64
end LocksetLang
