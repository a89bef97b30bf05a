import LocksetLang.Binary64.Shortest
import LocksetLang.Proofs.Binary64.Nearest

/-! Rounding a decimal. The two bounds that keep the powers of ten small change nothing, so a decimal
rounds as the fraction that it is, however it is scaled. The shortest decimal of a magnitude rounds
to it. -/

namespace LocksetLang

/-- The value of a decimal in units, as numerator and denominator. -/
def Decimal.ratio (d : Decimal) : Nat × Nat :=
  match d.exponent with
  | .ofNat e => (d.digits * tenPow e * Binary64.one, 1)
  | .negSucc e => (d.digits * Binary64.one, tenPow (e + 1))

namespace Binary64

variable {negative : Bool}

theorem ratio_snd_pos (d : Decimal) : 0 < d.ratio.2 := by
  unfold Decimal.ratio
  split
  · exact Nat.one_pos
  · exact tenPow_pos _

theorem ofUnits_eq_zero {num den : Nat} (h : 2 * num < den) :
    ofUnits negative num den = zero negative := by
  have hr : nearestRank num den = 0 := nearestRank_eq_zero h
  unfold ofUnits
  split
  · simp [zero, hr]
  · next hn => exact absurd (hr ▸ by decide) hn

/-- What is below half a unit is told by the bits of the digits. -/
theorem two_mul_lt_of_log2 {n e : Nat} (h : n.log2 + 1076 ≤ 3 * e) :
    2 * (n * one) < tenPow e := by
  have hlt : n < twoPow (n.log2 + 1) := Nat.lt_log2_self
  calc 2 * (n * one) = n * twoPow (1 + 1074) := by
        rw [twoPow_add, show twoPow 1 = 2 from rfl, one]
        ring
    _ < twoPow (n.log2 + 1) * twoPow (1 + 1074) := Nat.mul_lt_mul_of_pos_right hlt (twoPow_pos _)
    _ = twoPow (n.log2 + 1 + (1 + 1074)) := (twoPow_add _ _).symm
    _ ≤ twoPow (3 * e) := twoPow_le_twoPow (by omega)
    _ = 8 ^ e := Nat.pow_mul 2 3 e
    _ ≤ tenPow e := Nat.pow_le_pow_left (by decide) e

/-- From `10 ^ 310` on, no rank is left. -/
theorem rankCount_le_nearestRank {n e : Nat} (hn : n ≠ 0) (h : 309 < e) :
    rankCount ≤ nearestRank (n * tenPow e * one) 1 := by
  have hten : twoPow 1024 ≤ n * tenPow e :=
    calc twoPow 1024 ≤ twoPow (205 * 5) := twoPow_le_twoPow (by decide)
      _ = twoPow 205 ^ 5 := twoPow_mul 205 5
      _ ≤ tenPow 62 ^ 5 := Nat.pow_le_pow_left (by decide) 5
      _ = tenPow (62 * 5) := (tenPow_mul 62 5).symm
      _ ≤ tenPow e := tenPow_le_tenPow h
      _ ≤ n * tenPow e := Nat.le_mul_of_pos_left _ (Nat.pos_of_ne_zero hn)
  refine le_nearestRank (n := 2098) (by decide) ?_
  rw [Nat.div_one, show 2098 = 1024 + 1074 from rfl, twoPow_add]
  exact Nat.mul_le_mul_right _ hten

theorem ofDecimal_eq_ofUnits (negative : Bool) (d : Decimal) :
    ofDecimal negative d = ofUnits negative d.ratio.1 d.ratio.2 := by
  obtain ⟨n, e⟩ := d
  unfold ofDecimal
  split_ifs with hn
  · have hz : (Decimal.ratio ⟨n, e⟩).1 = 0 := by
      unfold Decimal.ratio
      split <;> simp_all
    rw [hz, ofUnits_eq_zero (by simpa using ratio_snd_pos ⟨n, e⟩)]
  · cases e with
    | ofNat e =>
      dsimp only [Decimal.ratio]
      split_ifs with he
      · unfold ofUnits
        rw [dif_neg (Nat.not_lt.2 (rankCount_le_nearestRank hn he))]
      · rfl
    | negSucc e =>
      dsimp only [Decimal.ratio]
      split_ifs with he
      · rw [ofUnits_eq_zero (two_mul_lt_of_log2 he)]
      · rfl

theorem ofUnits_eq_of_cross {a b c d : Nat} (hb : 0 < b) (hd : 0 < d) (h : a * d = c * b) :
    ofUnits negative a b = ofUnits negative c d := by
  unfold ofUnits
  simp only [nearestRank_eq_of_cross hb hd h]

theorem ofDecimal_eq_of_cross {d d' : Decimal} (h : d.ratio.1 * d'.ratio.2 = d'.ratio.1 * d.ratio.2) :
    ofDecimal negative d = ofDecimal negative d' := by
  rw [ofDecimal_eq_ofUnits, ofDecimal_eq_ofUnits,
    ofUnits_eq_of_cross (ratio_snd_pos d) (ratio_snd_pos d') h]

/-- Zeros at the end of the digits are as good as a higher exponent. -/
theorem ofDecimal_scale (n k : Nat) (e : Int) :
    ofDecimal negative ⟨n * tenPow k, e⟩ = ofDecimal negative ⟨n, e + k⟩ := by
  refine ofDecimal_eq_of_cross ?_
  cases e with
  | ofNat e =>
    rw [show Int.ofNat e + (k : Int) = Int.ofNat (k + e) by simp; omega]
    simp only [Decimal.ratio, tenPow_add]
    ring
  | negSucc e =>
    by_cases h : k ≤ e
    · rw [show Int.negSucc e + (k : Int) = Int.negSucc (e - k) by omega]
      obtain ⟨m, rfl⟩ := Nat.exists_eq_add_of_le h
      simp only [Decimal.ratio, Nat.add_sub_cancel_left, Nat.add_assoc, tenPow_add]
      ring
    · rw [show Int.negSucc e + (k : Int) = Int.ofNat (k - (e + 1)) by simp; omega]
      obtain ⟨m, rfl⟩ := Nat.exists_eq_add_of_le (Nat.lt_of_not_le h)
      simp only [Decimal.ratio, Nat.succ_eq_add_one, Nat.add_sub_cancel_left, tenPow_add]
      ring

theorem ofDecimal_natural (n : Nat) : ofDecimal negative ⟨n, 0⟩ = ofUnits negative (n * one) 1 := by
  rw [ofDecimal_eq_ofUnits, show Decimal.ratio ⟨n, 0⟩ = (n * tenPow 0 * one, 1) from rfl,
    show tenPow 0 = 1 from rfl, Nat.mul_one]

theorem reads_iff {rank : Nat} {d : Decimal} :
    reads rank d = true ↔ ∃ h, ofDecimal false d = .finite false rank h := by
  have hsign : ∀ num den, (∃ r h, ofUnits false num den = .finite false r h) ∨
      ofUnits false num den = .infinite false := by
    intro num den
    unfold ofUnits
    split
    · next h => exact .inl ⟨_, h, rfl⟩
    · exact .inr rfl
  unfold reads
  rw [ofDecimal_eq_ofUnits]
  rcases hsign d.ratio.1 d.ratio.2 with ⟨r, h, he⟩ | he
  · rw [he]
    simp only [beq_iff_eq, Binary64.finite.injEq, true_and]
    constructor
    · rintro rfl
      exact ⟨h, rfl⟩
    · exact fun ⟨_, hr⟩ => hr
  · simp [he]

theorem ofUnits_units {rank : Nat} (h : rank < rankCount) :
    ofUnits negative (units rank) 1 = .finite negative rank h := by
  unfold ofUnits
  simp only [nearestRank_units, h, dite_true]

/-- Five and two to the same power make a power of ten. -/
theorem ofDecimal_fives (n k : Nat) :
    ofDecimal negative ⟨n * Nat.pow 5 (k + 1), Int.negSucc k⟩ =
      ofUnits negative (n * one) (twoPow (k + 1)) := by
  rw [ofDecimal_eq_ofUnits]
  refine ofUnits_eq_of_cross (ratio_snd_pos _) (twoPow_pos _) ?_
  simp only [Decimal.ratio, tenPow_eq_mul]
  ring

theorem reads_exactDecimal {rank : Nat} (h : rank < rankCount) :
    reads rank (exactDecimal rank) = true := by
  refine reads_iff.2 ⟨h, ?_⟩
  rw [← ofUnits_units h, show ofDecimal false (exactDecimal rank) = _ from
    ofDecimal_fives (units rank) 1073]
  refine ofUnits_eq_of_cross (twoPow_pos _) Nat.one_pos ?_
  rw [Nat.mul_one, one]

theorem reads_of_neighbour? {rank : Nat} {e : Int} {d : Decimal} (h : neighbour? rank e = some d) :
    reads rank d = true := by
  unfold neighbour? at h
  dsimp only at h
  split at h
  · next hb ha =>
    obtain rfl := Option.some.inj h
    split_ifs
    · exact hb
    · exact ha
  · next hb _ =>
    obtain rfl := Option.some.inj h
    exact hb
  · next ha =>
    obtain rfl := Option.some.inj h
    exact ha
  · cases h

theorem reads_shortest {rank : Nat} (h : rank < rankCount) : reads rank (shortest rank) = true := by
  unfold shortest
  dsimp only
  generalize hf : List.findSome? _ (List.range 17) = found
  cases found with
  | none => exact reads_exactDecimal h
  | some d =>
    obtain ⟨n, -, hn⟩ := List.exists_of_findSome?_eq_some hf
    exact reads_of_neighbour? hn

end Binary64
end LocksetLang
