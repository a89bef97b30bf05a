import LocksetLang.Proofs.Binary64.Numeral
import LocksetLang.Proofs.Token.Spelling

/-! Numbers as documents hold them. The text of a number, in positional notation or with an exponent,
reads back as the number itself, the sign of a zero included. -/

namespace LocksetLang

open Text

namespace Binary64

/-- The characters of numbers, with the letters of the words for what is not finite. -/
def textChars : List Char := "0123456789.e+-InfityNa".toList

theorem isNumeralBlank_textChars : ∀ c ∈ textChars, isNumeralBlank c = false :=
  List.forall_iff_forall_mem.1 (by decide)

theorem textChars_of_isDigit {c : Char} (h : c.isDigit) : c ∈ textChars := by
  have hall : ∀ c ∈ "0123456789".toList, c ∈ textChars := List.forall_iff_forall_mem.1 (by decide)
  exact hall c (mem_of_isDigit h)

theorem textChars_numeral (n : Numeral) : ∀ c ∈ n.chars, c ∈ textChars := by
  intro c hc
  rcases n.mem_chars hc with hd | rfl
  · exact textChars_of_isDigit hd
  · decide

/-- The text starts with a digit, and reads as a decimal of the same value. -/
structure ReadsAs (cs : List Char) (d : Decimal) : Prop where
  head : ∃ c rest, cs = c :: rest ∧ c.isDigit
  chars : ∀ c ∈ cs, c ∈ textChars
  value : ∃ x, decimal? cs = some x ∧ ofDecimal false x = ofDecimal false d

variable {d : Decimal}

theorem ReadsAs.of_exponent (n : Numeral) {rest : List Char} {e : Int}
    (he : exponentPart? rest = some e) (hc : ∀ c ∈ rest, c ∈ textChars)
    (hr : ∀ c ∈ rest.head?, digitValue? c = none ∧ c ≠ '_' ∧ c ≠ '.')
    (hv : ofDecimal false ⟨n.decimal.digits, e + n.decimal.exponent⟩ = ofDecimal false d) :
    ReadsAs (n.chars ++ rest) d := by
  obtain ⟨c, cs, hcs, hdigit⟩ := chars_cons n
  refine ⟨⟨c, cs ++ rest, by rw [hcs]; rfl, hdigit⟩, ?_, _, ?_, hv⟩
  · exact fun c h => (List.mem_append.1 h).elim (textChars_numeral n c) (hc c)
  · rw [decimal?_append n hr, he]
    rfl

theorem ReadsAs.of_numeral (n : Numeral) (hv : ofDecimal false n.decimal = ofDecimal false d) :
    ReadsAs n.chars d := by
  have h : ReadsAs (n.chars ++ []) d :=
    .of_exponent n rfl (List.forall_mem_nil _) (by simp) (by rw [Int.zero_add]; exact hv)
  rwa [List.append_nil] at h

/-- A sign before a text changes nothing but the sign of the number. -/
theorem ReadsAs.ofText? {cs : List Char} {rank : Nat} {hr : rank < rankCount} (h : ReadsAs cs d)
    (hd : ofDecimal false d = .finite false rank hr) (negative : Bool) :
    ofText? (withSign negative cs) = some (.finite negative rank hr) := by
  obtain ⟨⟨c, rest, rfl, hdigit⟩, hchars, x, hx, hv⟩ := h
  rw [ofText?_withSign negative hdigit fun c hc => isNumeralBlank_textChars c (hchars c hc), hx]
  refine congrArg some ?_
  rw [hd, ofDecimal_eq_ofUnits, ofUnits] at hv
  rw [ofDecimal_eq_ofUnits, ofUnits]
  split_ifs at hv with hlt
  obtain ⟨-, rfl⟩ := Binary64.finite.inj hv
  rw [dif_pos hlt]

end Binary64

namespace Digits

open Binary64

/-- The exponent of scientific notation, with its sign. -/
theorem exponentPart?_digits (e : Int) {ds : List Char} (hne : ds ≠ []) (hd : ∀ c ∈ ds, c.isDigit)
    (hv : Nat.ofDigitChars 10 ds 0 = e.natAbs) :
    exponentPart? ('e' :: (if e < 0 then '-' else '+') :: ds) = some e := by
  have hsign : signed ((if e < 0 then '-' else '+') :: ds) = (decide (e < 0), ds) := by
    split_ifs with h <;> simp [signed, h]
  have hrun := digitRun_append [] hd (by simp)
  obtain ⟨c, cs, rfl⟩ := List.exists_cons_of_ne_nil hne
  rw [List.append_nil] at hrun
  rw [← digitsValue_map, List.map_cons] at hv
  rw [exponentPart?, if_pos (by decide), hsign]
  dsimp only
  rw [hrun, List.map_cons]
  dsimp only
  rw [hv]
  split_ifs with h
  · rw [decide_eq_true_eq] at h
    exact congrArg some (by omega)
  · rw [decide_eq_true_eq] at h
    exact congrArg some (by omega)

/-- The digits of an exponent are two at least. -/
def sizeDigits (n : Nat) : List Char :=
  if (Nat.toDigits 10 n).length < 2 then '0' :: Nat.toDigits 10 n else Nat.toDigits 10 n

theorem sizeDigits_spec (n : Nat) : sizeDigits n ≠ [] ∧ (∀ c ∈ sizeDigits n, c.isDigit) ∧
    Nat.ofDigitChars 10 (sizeDigits n) 0 = n := by
  have hd : ∀ c ∈ Nat.toDigits 10 n, c.isDigit := fun c hc =>
    Nat.isDigit_of_mem_toDigits (by decide) (by decide) hc
  have hv : Nat.ofDigitChars 10 (Nat.toDigits 10 n) 0 = n := Nat.ofDigitChars_ten_toDigits
  unfold sizeDigits
  split_ifs
  · refine ⟨by simp, List.forall_mem_cons.2 ⟨by decide, hd⟩, ?_⟩
    have h := ofDigitChars_zeros_append 1 (Nat.toDigits 10 n)
    exact h.trans hv
  · exact ⟨Nat.toDigits_ne_nil, hd, hv⟩

variable {d : Digits} (hne : d.digits ≠ []) (hd : ∀ c ∈ d.digits, c.isDigit)
include hne hd

theorem exists_numeral_scientific : ∃ n : Numeral,
    d.scientific = n.chars ++
      'e' :: (if d.point - 1 < 0 then '-' else '+') :: sizeDigits (d.point - 1).natAbs ∧
    n.decimal.digits = d.decimal.digits ∧ d.point - 1 + n.decimal.exponent = d.decimal.exponent := by
  obtain ⟨digits, point⟩ := d
  obtain ⟨c, fraction, rfl⟩ := List.exists_cons_of_ne_nil hne
  cases fraction with
  | nil =>
    refine ⟨⟨[c], none, by simp, by simpa using hd⟩, rfl, rfl, ?_⟩
    simp [Numeral.decimal, Digits.decimal]
  | cons f fraction =>
    refine ⟨⟨[c], some (f :: fraction), by simp, by simpa using hd⟩, rfl, rfl, ?_⟩
    simp only [Numeral.decimal, Digits.decimal, Option.getD_some, List.length_cons]
    push_cast
    ring

theorem readsAs_scientific : ReadsAs d.scientific d.decimal := by
  obtain ⟨n, hn, hdigits, hexp⟩ := exists_numeral_scientific hne hd
  obtain ⟨hsne, hsd, hsv⟩ := sizeDigits_spec (d.point - 1).natAbs
  rw [hn]
  refine .of_exponent n (exponentPart?_digits _ hsne hsd hsv) (fun c hc => ?_) ?_ ?_
  · rcases List.mem_cons.1 hc with rfl | hc
    · decide
    rcases List.mem_cons.1 hc with rfl | hc
    · split_ifs <;> decide
    · exact textChars_of_isDigit (hsd c hc)
  · intro c hc
    obtain rfl := Option.some.inj hc
    decide
  · rw [hdigits, hexp]

theorem readsAs_whole (h : (d.digits.length : Int) ≤ d.point) :
    ReadsAs (d.positional ++ ['.', '0']) d.decimal := by
  obtain ⟨ds, point⟩ := d
  have hlen := List.length_pos_iff.2 hne
  dsimp only at h hlen
  obtain ⟨p, rfl⟩ : ∃ p : Nat, point = Int.ofNat p := ⟨point.toNat, by simp; omega⟩
  have hle : ds.length ≤ p := Int.ofNat_le.1 h
  have hpos : positional ⟨ds, Int.ofNat p⟩ = ds ++ List.replicate (p - ds.length) '0' := by
    have h0 : p ≠ 0 := by omega
    simp [positional, h0, List.drop_eq_nil_of_le hle, List.take_of_length_le hle]
  have hdigits : ∀ c ∈ ds ++ List.replicate (p - ds.length) '0' ++ ['0'], c.isDigit := by
    intro c hc
    rw [List.mem_append, List.mem_append] at hc
    rcases hc with (hc | hc) | hc
    · exact hd c hc
    · exact isDigit_of_mem_replicate hc
    · exact isDigit_of_mem_replicate (k := 1) hc
  rw [hpos]
  refine .of_numeral ⟨ds ++ List.replicate (p - ds.length) '0', some ['0'], by simp [hne],
    hdigits⟩ ?_
  simp only [Numeral.decimal, Digits.decimal, Option.getD_some]
  rw [List.append_assoc, show ['0'] = List.replicate 1 '0' from rfl,
    List.replicate_append_replicate, ofDigitChars_zeros, ofDecimal_scale]
  congr 2
  simp
  omega

theorem readsAs_plain : ReadsAs d.plain d.decimal := by
  unfold plain
  split_ifs with hp hw
  · exact readsAs_whole hne hd hw
  · obtain ⟨n, hn, hv⟩ := exists_numeral_positional hd hne d.point
    have hn : d.positional = n.chars := hn
    rw [List.append_nil, hn]
    exact .of_numeral n hv
  · exact readsAs_scientific hne hd

end Digits

namespace Binary64

theorem ofText?_text (x : Binary64) : ofText? (x.text longWords) = some x := by
  cases x with
  | nan => decide +kernel
  | infinite negative => cases negative <;> decide +kernel
  | finite negative rank h =>
    exact (Digits.readsAs_plain (digitsOf_ne_nil h) (isDigit_digitsOf rank)).ofText?
      (ofDecimal_digitsOf h) negative

theorem text_word (x : Binary64) :
    (x.text longWords).toList ≠ [] ∧ ∀ c ∈ (x.text longWords).toList, c ∈ textChars := by
  have hall : ∀ s ∈ [longWords.nan, withSign false longWords.infinity.toList,
      withSign true longWords.infinity.toList],
      s.toList ≠ [] ∧ s.toList.Forall (· ∈ textChars) := by decide
  simp only [List.forall_iff_forall_mem] at hall
  cases x with
  | nan => exact hall _ (by simp [text])
  | infinite negative => exact hall _ (by cases negative <;> simp [text])
  | finite negative rank h =>
    obtain ⟨⟨c, cs, he, -⟩, hc, -⟩ :=
      Digits.readsAs_plain (digitsOf_ne_nil h) (isDigit_digitsOf rank)
    rw [text, withSign, String.toList_ofList]
    split_ifs
    · exact ⟨by simp, List.forall_mem_cons.2 ⟨by decide, hc⟩⟩
    · exact ⟨by simp [he], hc⟩

end Binary64
end LocksetLang
