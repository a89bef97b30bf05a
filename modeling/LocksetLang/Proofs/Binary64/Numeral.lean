import LocksetLang.Binary64.Numeral
import LocksetLang.Binary64.Text
import LocksetLang.Proofs.Binary64.Decimal

/-! Numerals as programs have them: digits, and maybe a point with more digits. Reading one gives the
number nearest to its value, and every magnitude is written as one that reads back. -/

namespace LocksetLang

/-- Digits, and maybe a point with more digits. -/
structure Numeral where
  whole : List Char
  fraction : Option (List Char)
  whole_ne_nil : whole ≠ []
  digits : ∀ c ∈ whole ++ fraction.getD [], c.isDigit

namespace Numeral

def chars (n : Numeral) : List Char :=
  match n.fraction with
  | none => n.whole
  | some fraction => n.whole ++ '.' :: fraction

theorem chars_whole {ds : List Char} (hne : ds ≠ [])
    (hd : ∀ c ∈ ds ++ (none : Option (List Char)).getD [], c.isDigit) :
    chars ⟨ds, none, hne, hd⟩ = ds := rfl

theorem mem_chars {n : Numeral} {c : Char} (h : c ∈ n.chars) : c.isDigit ∨ c = '.' := by
  obtain ⟨whole, fraction, hne, hd⟩ := n
  cases fraction with
  | none => exact .inl (hd c (List.mem_append_left _ h))
  | some fraction =>
    rw [Numeral.chars, List.mem_append, List.mem_cons] at h
    rcases h with h | rfl | h
    · exact .inl (hd c (by simp [h]))
    · exact .inr rfl
    · exact .inl (hd c (by simp [h]))

def decimal (n : Numeral) : Decimal :=
  ⟨Nat.ofDigitChars 10 (n.whole ++ n.fraction.getD []) 0, -(n.fraction.getD []).length⟩

end Numeral

namespace Text

theorem toNat_of_isDigit {c : Char} (h : c.isDigit) : 48 ≤ c.toNat ∧ c.toNat ≤ 57 := by
  rwa [Char.isDigit, Bool.and_eq_true, decide_eq_true_eq, decide_eq_true_eq, ge_iff_le,
    UInt32.le_iff_toNat_le, UInt32.le_iff_toNat_le] at h

theorem digitValue?_of_isDigit {c : Char} (h : c.isDigit) :
    digitValue? c = some (c.toNat - '0'.toNat) := by
  have hlt : c.toNat < 0x80 := by
    have := (toNat_of_isDigit h).2
    omega
  rw [digitValue?, if_pos hlt, if_pos h]
  rfl

theorem not_isNumeralBlank_of_isDigit {c : Char} (h : c.isDigit) : isNumeralBlank c = false := by
  obtain ⟨h1, h2⟩ := toNat_of_isDigit h
  simp [isNumeralBlank, isBlank]
  omega

theorem digitRun_append {ds : List Char} (rest : List Char) (hd : ∀ c ∈ ds, c.isDigit)
    (hr : ∀ c ∈ rest.head?, digitValue? c = none ∧ c ≠ '_') :
    digitRun (ds ++ rest) = (ds.map fun c => c.toNat - '0'.toNat, rest) := by
  induction ds with
  | nil =>
    cases rest with
    | nil => rfl
    | cons c rest =>
      rw [List.nil_append, digitRun, (hr c rfl).1]
      rfl
  | cons d ds ih =>
    have ih := ih fun c hc => hd c (by simp [hc])
    rw [List.cons_append, digitRun, digitValue?_of_isDigit (hd d (by simp))]
    dsimp only
    split
    · next next tail he =>
      -- what follows a digit is no underscore
      cases ds with
      | nil => exact absurd rfl (hr '_' (by simpa using congrArg List.head? he)).2
      | cons e ds =>
        have : '_'.isDigit := (List.cons.inj he).1 ▸ hd e (by simp)
        exact absurd this (by decide)
    · rw [ih]
      rfl

theorem digitsValue_map (ds : List Char) :
    digitsValue (ds.map fun c => c.toNat - '0'.toNat) = Nat.ofDigitChars 10 ds 0 := by
  rw [digitsValue, List.foldl_map, Nat.ofDigitChars_eq_foldl]

theorem trim_eq_self {p : Char → Bool} {cs : List Char} (h : ∀ c ∈ cs, p c = false) :
    trim p cs = cs := by
  have hdrop : ∀ ds : List Char, (∀ c ∈ ds, p c = false) → ds.dropWhile p = ds := by
    intro ds hds
    cases ds with
    | nil => rfl
    | cons d ds => simp [hds d (by simp)]
  rw [trim, hdrop cs h, hdrop _ (by simpa using h), List.reverse_reverse]

end Text

namespace Binary64

open Text

/-- A numeral goes on with neither an exponent nor anything else that is not of it. -/
theorem decimal?_append (n : Numeral) {rest : List Char}
    (hr : ∀ c ∈ rest.head?, digitValue? c = none ∧ c ≠ '_' ∧ c ≠ '.') :
    decimal? (n.chars ++ rest) =
      (exponentPart? rest).map fun e => ⟨n.decimal.digits, e + n.decimal.exponent⟩ := by
  obtain ⟨whole, fraction, hne, hd⟩ := n
  have hw : ∀ c ∈ whole, c.isDigit := fun c hc => hd c (by simp [hc])
  have hmap : (whole.map fun c => c.toNat - '0'.toNat).isEmpty = false := by simpa using hne
  have hend : ∀ c ∈ rest.head?, digitValue? c = none ∧ c ≠ '_' := fun c hc => (hr c hc).imp_right And.left
  cases fraction with
  | none =>
    simp only [Numeral.chars, Numeral.decimal, decimal?, digitRun_append rest hw hend]
    split
    · next tail => exact absurd rfl (hr '.' rfl).2.2
    · simp only [hmap, Bool.false_and, Option.getD_none, List.append_nil, digitsValue_map]
      rfl
  | some fraction =>
    have hf : ∀ c ∈ fraction, c.isDigit := fun c hc => hd c (by simp [hc])
    have hrun := digitRun_append ('.' :: (fraction ++ rest)) hw (by simp; decide)
    simp only [Numeral.chars, Numeral.decimal, decimal?, List.append_assoc, List.cons_append, hrun,
      digitRun_append rest hf hend, hmap, Bool.false_and, Option.getD_some, ← List.map_append,
      digitsValue_map, List.length_map]
    rfl

theorem decimal?_chars (n : Numeral) : decimal? n.chars = some n.decimal := by
  have h : decimal? (n.chars ++ []) = _ := decimal?_append n (by simp)
  rw [List.append_nil, exponentPart?, Option.map_some, Int.zero_add] at h
  exact h

theorem chars_cons (n : Numeral) : ∃ c cs, n.chars = c :: cs ∧ c.isDigit := by
  obtain ⟨whole, fraction, hne, hd⟩ := n
  cases whole with
  | nil => exact absurd rfl hne
  | cons c whole =>
    refine ⟨c, whole ++ (fraction.map ('.' :: ·)).getD [], ?_, hd c (by simp)⟩
    cases fraction with
    | none => simp [Numeral.chars]
    | some fraction => simp [Numeral.chars]

theorem isNumeralBlank_chars (n : Numeral) : ∀ c ∈ n.chars, isNumeralBlank c = false := by
  intro c hc
  rcases n.mem_chars hc with hd | rfl
  · exact not_isNumeralBlank_of_isDigit hd
  · rfl

/-- A text that starts with a digit has no sign, and it is no word. -/
theorem ofText?_withSign (negative : Bool) {c : Char} {cs : List Char} (hc : c.isDigit)
    (hb : ∀ d ∈ c :: cs, isNumeralBlank d = false) :
    ofText? (withSign negative (c :: cs)) = (decimal? (c :: cs)).map (ofDecimal negative) := by
  obtain ⟨h1, h2⟩ := toNat_of_isDigit hc
  have hsign : signed (trim isNumeralBlank (withSign negative (c :: cs)).toList) =
      (negative, c :: cs) := by
    cases negative with
    | true =>
      have hb' : ∀ d ∈ '-' :: c :: cs, isNumeralBlank d = false := List.forall_mem_cons.2 ⟨rfl, hb⟩
      rw [withSign, if_pos rfl, String.toList_ofList, trim_eq_self hb', signed]
    | false =>
      rw [withSign, if_neg nofun, String.toList_ofList, trim_eq_self hb]
      unfold signed
      split
      · next he => obtain rfl := (List.cons.inj he).1; exact absurd hc (by decide)
      · next he => obtain rfl := (List.cons.inj he).1; exact absurd hc (by decide)
      · rfl
  have hlower : c.toLower = c := by
    unfold Char.toLower
    rw [dif_neg]
    rintro ⟨h, -⟩
    have : 65 ≤ c.toNat := h
    omega
  have hi : ('i' : Char) ≠ c := by rintro rfl; exact absurd hc (by decide)
  have hn : ('n' : Char) ≠ c := by rintro rfl; exact absurd hc (by decide)
  unfold ofText?
  rw [hsign]
  dsimp only
  rw [List.map_cons, hlower, if_neg (by simp [infinityWords, hi.symm]),
    if_neg (by simp [nanWord, hn.symm])]

theorem ofText?_chars (n : Numeral) :
    ofText? (String.ofList n.chars) = some (ofDecimal false n.decimal) := by
  obtain ⟨c, cs, he, hc⟩ := chars_cons n
  have h := ofText?_withSign false hc (he ▸ isNumeralBlank_chars n)
  rw [withSign, if_neg nofun, ← he, decimal?_chars] at h
  exact h

end Binary64

def Digits.decimal (d : Digits) : Decimal := ⟨Nat.ofDigitChars 10 d.digits 0, d.point - d.digits.length⟩

theorem ofDigitChars_zeros (ds : List Char) (k : Nat) :
    Nat.ofDigitChars 10 (ds ++ List.replicate k '0') 0 = Nat.ofDigitChars 10 ds 0 * tenPow k := by
  rw [Nat.ofDigitChars_append, Nat.ofDigitChars_replicate_zero, tenPow_eq, Nat.mul_comm]

theorem ofDigitChars_zeros_append (k : Nat) (ds : List Char) :
    Nat.ofDigitChars 10 (List.replicate k '0' ++ ds) 0 = Nat.ofDigitChars 10 ds 0 := by
  rw [Nat.ofDigitChars_append, Nat.ofDigitChars_replicate_zero, Nat.mul_zero]

/-- A numeral without zeros at its end, and how many there were. -/
theorem exists_eq_append_zeros (ds : List Char) :
    ∃ k, ds = (ds.reverse.dropWhile (· = '0')).reverse ++ List.replicate k '0' := by
  generalize hz : ds.reverse.takeWhile (· = '0') = zeros
  have hrep : zeros = List.replicate zeros.length '0' := by
    have hall : zeros.all (· = '0') = true := hz ▸ List.all_takeWhile
    exact List.eq_replicate_iff.2 ⟨rfl, by simpa using hall⟩
  refine ⟨zeros.length, ?_⟩
  calc ds = (zeros ++ ds.reverse.dropWhile (· = '0')).reverse := by
        rw [← hz, List.takeWhile_append_dropWhile, List.reverse_reverse]
    _ = (ds.reverse.dropWhile (· = '0')).reverse ++ zeros.reverse := List.reverse_append
    _ = _ := by rw [hrep, List.reverse_replicate, List.length_replicate]

namespace Binary64

theorem ofDecimal_toDigits (negative : Bool) (d : Decimal) :
    ofDecimal negative d.toDigits.decimal = ofDecimal negative d := by
  obtain ⟨k, hk⟩ := exists_eq_append_zeros (Nat.toDigits 10 d.digits)
  generalize hs : ((Nat.toDigits 10 d.digits).reverse.dropWhile (· = '0')).reverse = stripped at hk
  have hd : d = ⟨Nat.ofDigitChars 10 stripped 0 * tenPow k, d.exponent⟩ := by
    rw [← ofDigitChars_zeros, ← hk, Nat.ofDigitChars_ten_toDigits]
  have hp : d.toDigits.decimal = ⟨Nat.ofDigitChars 10 stripped 0, d.exponent + k⟩ := by
    simp only [Decimal.toDigits, Digits.decimal, hs]
    have hlen := congrArg List.length hk
    rw [List.length_append, List.length_replicate] at hlen
    congr 1
    omega
  rw [hp]
  conv_rhs => rw [hd]
  rw [ofDecimal_scale]

theorem isDigit_of_mem_toDigits {d : Decimal} : ∀ c ∈ d.toDigits.digits, c.isDigit := by
  intro c hc
  rw [Decimal.toDigits, List.mem_reverse] at hc
  have := List.mem_reverse.1 ((List.dropWhile_sublist _).mem hc)
  exact Nat.isDigit_of_mem_toDigits (by decide) (by decide) this

theorem isDigit_of_mem_replicate {k : Nat} {c : Char} (h : c ∈ List.replicate k '0') : c.isDigit := by
  rw [List.eq_of_mem_replicate h]
  decide

def Spells (n : Numeral) (d : Digits) : Prop :=
  d.positional = n.chars ∧ ofDecimal false n.decimal = ofDecimal false d.decimal

section
variable {ds : List Char} {p : Nat} (hd : ∀ c ∈ ds, c.isDigit)
include hd

theorem exists_numeral_below_one : ∃ n, Spells n ⟨ds, Int.negSucc p⟩ := by
  refine ⟨⟨['0'], some (List.replicate (p + 1) '0' ++ ds), by simp, fun c hc => ?_⟩, rfl, ?_⟩
  · rw [Option.getD_some, List.singleton_append, List.mem_cons, List.mem_append] at hc
    rcases hc with rfl | hc | hc
    · decide
    · exact isDigit_of_mem_replicate hc
    · exact hd c hc
  · simp only [Numeral.decimal, Digits.decimal, Option.getD_some]
    rw [← List.append_assoc, show ['0'] = List.replicate 1 '0' from rfl,
      List.replicate_append_replicate, ofDigitChars_zeros_append, List.length_append,
      List.length_replicate]
    congr 2
    omega

theorem exists_numeral_fraction (h : ds ≠ []) : ∃ n, Spells n ⟨ds, Int.ofNat 0⟩ := by
  refine ⟨⟨['0'], some ds, by simp, fun c hc => ?_⟩, ?_, ?_⟩
  · rw [Option.getD_some, List.singleton_append, List.mem_cons] at hc
    rcases hc with rfl | hc
    · decide
    · exact hd c hc
  · obtain ⟨c, cs, rfl⟩ := List.exists_cons_of_ne_nil h
    rfl
  · simp only [Numeral.decimal, Digits.decimal, Option.getD_some]
    rw [show ['0'] = List.replicate 1 '0' from rfl, ofDigitChars_zeros_append]
    congr 2
    simp

theorem exists_numeral_point (h0 : p ≠ 0) (h : p < ds.length) : ∃ n, Spells n ⟨ds, Int.ofNat p⟩ := by
  have hsplit : ds.take p ++ ds.drop p = ds := List.take_append_drop p ds
  refine ⟨⟨ds.take p, some (ds.drop p), ?_, by simpa [hsplit] using hd⟩, ?_, ?_⟩
  · rw [Ne, List.take_eq_nil_iff, not_or]
    exact ⟨h0, List.ne_nil_of_length_pos (by omega)⟩
  · have hzero : p - ds.length = 0 := by omega
    obtain ⟨c, cs, hc⟩ := List.exists_cons_of_ne_nil (show ds.drop p ≠ [] by simpa using h)
    simp [Digits.positional, Numeral.chars, h0, hzero, hc]
  · simp only [Numeral.decimal, Digits.decimal, Option.getD_some, hsplit, List.length_drop]
    congr 2
    simp
    omega

theorem exists_numeral_whole (h0 : p ≠ 0) (h : ds.length ≤ p) : ∃ n, Spells n ⟨ds, Int.ofNat p⟩ := by
  refine ⟨⟨ds ++ List.replicate (p - ds.length) '0', none, ?_, fun c hc => ?_⟩, ?_, ?_⟩
  · intro he
    have := congrArg List.length he
    rw [List.length_append, List.length_replicate, List.length_nil] at this
    omega
  · rw [Option.getD_none, List.append_nil, List.mem_append] at hc
    exact hc.elim (hd c) isDigit_of_mem_replicate
  · simp [Digits.positional, Numeral.chars, h0, List.drop_eq_nil_of_le h,
      List.take_of_length_le h]
  · simp only [Numeral.decimal, Digits.decimal, Option.getD_none, List.append_nil,
      ofDigitChars_zeros, ofDecimal_scale]
    congr 2
    simp
    omega

theorem exists_numeral_positional (hne : ds ≠ []) (point : Int) :
    ∃ n, Spells n ⟨ds, point⟩ := by
  cases point with
  | negSucc p => exact exists_numeral_below_one hd
  | ofNat p =>
    by_cases h0 : p = 0
    · subst h0
      exact exists_numeral_fraction hd hne
    · rcases Nat.lt_or_ge p ds.length with h | h
      · exact exists_numeral_point hd h0 h
      · exact exists_numeral_whole hd h0 h

end

theorem toDigits_shortest_ne_nil {rank : Nat} (h0 : rank ≠ 0) (h : rank < rankCount) :
    (shortest rank).toDigits.digits ≠ [] := by
  intro he
  obtain ⟨hr, hread⟩ := reads_iff.1 (reads_shortest h)
  rw [← ofDecimal_toDigits, ofDecimal, if_pos (by rw [Digits.decimal, he]; rfl)] at hread
  exact h0 (Binary64.finite.inj hread).2.symm

theorem digitsOf_ne_nil {rank : Nat} (h : rank < rankCount) : (digitsOf rank).digits ≠ [] := by
  unfold digitsOf
  split_ifs with h0
  · simp
  · exact toDigits_shortest_ne_nil h0 h

theorem isDigit_digitsOf (rank : Nat) : ∀ c ∈ (digitsOf rank).digits, c.isDigit := by
  unfold digitsOf
  split_ifs
  · simp
  · exact isDigit_of_mem_toDigits

theorem ofDecimal_digitsOf {rank : Nat} (h : rank < rankCount) :
    ofDecimal false (digitsOf rank).decimal = .finite false rank h := by
  unfold digitsOf
  split_ifs with h0
  · subst h0
    rfl
  · obtain ⟨_, hread⟩ := reads_iff.1 (reads_shortest h)
    rw [ofDecimal_toDigits, hread]

/-- The positional text of a magnitude is a numeral that reads back. -/
theorem exists_numeral_positionalText {rank : Nat} (h : rank < rankCount) :
    ∃ n : Numeral, positionalText rank = n.chars ∧
      ofText? (String.ofList n.chars) = some (.finite false rank h) := by
  unfold positionalText
  split_ifs with hw
  · refine ⟨⟨Nat.toDigits 10 (units rank / one), none, Nat.toDigits_ne_nil, fun c hc => ?_⟩,
      (Numeral.chars_whole _ _).symm, ?_⟩
    · rw [Option.getD_none, List.append_nil] at hc
      exact Nat.isDigit_of_mem_toDigits (by decide) (by decide) hc
    · rw [ofText?_chars, Numeral.decimal]
      simp only [Option.getD_none, List.append_nil, Nat.ofDigitChars_ten_toDigits, List.length_nil,
        Nat.cast_zero, neg_zero, ofDecimal_natural]
      rw [Nat.div_mul_cancel (Nat.dvd_of_mod_eq_zero hw), ofUnits_units h]
  · obtain ⟨n, hn, hval⟩ := exists_numeral_positional (isDigit_digitsOf rank) (digitsOf_ne_nil h)
      (digitsOf rank).point
    exact ⟨n, hn, by rw [ofText?_chars, hval, ofDecimal_digitsOf h]⟩

end Binary64
end LocksetLang
