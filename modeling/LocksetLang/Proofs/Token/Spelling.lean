import LocksetLang.Proofs.Binary64.Numeral
import LocksetLang.Proofs.Grammar.Derivation
import LocksetLang.Proofs.Token.Quotation
import LocksetLang.Proofs.Token.Trivia
import LocksetLang.Token.Reading

/-! How lexemes are written. A lexeme is read off a text as it is written there, as long as the
character behind it does not go on with it. -/

namespace LocksetLang

open Lexeme

inductive Lexeme.SpeltBy : Lexeme → List Char → Prop where
  | word {c : Char} {cs : List Char} (hc : isWordStart c) (hcs : ∀ d ∈ cs, isWordPart d) :
    SpeltBy ⟨(keywords.lookup (String.ofList (c :: cs))).getD .identifier, String.ofList (c :: cs)⟩
      (c :: cs)
  | number (n : Numeral) : SpeltBy ⟨.number, String.ofList n.chars⟩ n.chars
  | string {quote : Char} {body : List Char} (hq : isQuote quote) (hb : isQuotable quote body) :
    SpeltBy ⟨.string, String.ofList body⟩ (quote :: (body ++ [quote]))
  | symbol {cs : List Char} {k : Kind} (hk : symbols.lookup (String.ofList cs) = some k) :
    SpeltBy ⟨k, String.ofList cs⟩ cs

/-- Whether a character right behind a lexeme of a kind would go on with it. -/
def Kind.goesOnWith (c : Char) : Kind → Bool
  | .identifier | .setWord | .lockWord | .funWord | .ifWord | .elseWord => isWordPart c
  | .number => c.isDigit || c = '.'
  | .equals => c = '='
  | _ => false

def Lexeme.StopsAt (t : Lexeme) (rest : List Char) : Prop :=
  ∀ c ∈ rest.head?, t.kind.goesOnWith c = false

def wordKinds : List Kind := .identifier :: keywords.map (·.2)

theorem goesOnWith_of_mem_wordKinds {k : Kind} {c : Char} (h : k ∈ wordKinds) :
    k.goesOnWith c = isWordPart c := by
  simp only [wordKinds, keywords, List.map_cons, List.map_nil, List.mem_cons, List.not_mem_nil,
    or_false] at h
  rcases h with rfl | rfl | rfl | rfl | rfl | rfl <;> rfl

theorem mem_of_lookup {table : List (String × Kind)} {s : String} {k : Kind}
    (h : table.lookup s = some k) : (s, k) ∈ table := by
  obtain ⟨l, m, rfl, -⟩ := List.lookup_eq_some_iff.1 h
  simp

theorem wordKind_mem (s : String) : (keywords.lookup s).getD .identifier ∈ wordKinds := by
  cases h : keywords.lookup s with
  | none => exact List.mem_cons_self
  | some k => exact List.mem_cons_of_mem _ (List.mem_map.2 ⟨(s, k), mem_of_lookup h, rfl⟩)

def symbolStarts : List Char := "{}()[].,:;=!+-*/%".toList

theorem symbol_cases {cs : List Char} {k : Kind} (h : symbols.lookup (String.ofList cs) = some k) :
    (∃ c, cs = [c] ∧ c ∈ symbolStarts ∧ c ≠ '!' ∧ (c = '=' → k = .equals)) ∨
      cs = ['=', '='] ∨ cs = ['!', '='] := by
  have hall : ∀ p ∈ symbols, symbolStarts.any (fun c => p.1.toList = [c] ∧ c ≠ '!' ∧
      (c = '=' → p.2 = .equals)) ∨ p.1.toList = ['=', '='] ∨ p.1.toList = ['!', '='] := by decide
  rcases hall _ (mem_of_lookup h) with hs | hs | hs
  · obtain ⟨c, hc, hs⟩ := List.any_eq_true.1 hs
    rw [decide_eq_true_eq, String.toList_ofList] at hs
    exact .inl ⟨c, hs.1, hc, hs.2⟩
  · rw [String.toList_ofList] at hs
    exact .inr (.inl hs)
  · rw [String.toList_ofList] at hs
    exact .inr (.inr hs)

theorem symbolStarts_spec : ∀ c ∈ symbolStarts,
    isSpace c = false ∧ c ≠ '#' ∧ isWordStart c = false ∧ c.isDigit = false ∧ isQuote c = false :=
  List.forall_iff_forall_mem.1 (by decide)

theorem mem_of_isDigit {c : Char} (h : c.isDigit) : c ∈ "0123456789".toList := by
  have hn := Text.toNat_of_isDigit h
  have hc : Char.ofNat c.toNat ∈ "0123456789".toList := by
    generalize c.toNat = n at hn
    obtain ⟨h1, h2⟩ := hn
    interval_cases n <;> decide
  rwa [Char.ofNat_toNat] at hc

theorem isDigit_spec {c : Char} (h : c.isDigit) :
    isSpace c = false ∧ c ≠ '#' ∧ isWordStart c = false := by
  have hall : ∀ c ∈ "0123456789".toList, isSpace c = false ∧ c ≠ '#' ∧ isWordStart c = false :=
    List.forall_iff_forall_mem.1 (by decide)
  exact hall c (mem_of_isDigit h)

theorem isWordStart_spec {c : Char} (h : isWordStart c) : isSpace c = false ∧ c ≠ '#' := by
  constructor
  · cases hs : isSpace c with
    | false => rfl
    | true =>
      simp only [isSpace, Bool.or_eq_true, decide_eq_true_eq] at hs
      rcases hs with ((rfl | rfl) | rfl) | rfl <;> exact absurd h (by decide)
  · rintro rfl
    exact absurd h (by decide)

theorem ne_of_isWordPart {c d : Char} (h : isWordPart c) (hd : isWordPart d = false) : c ≠ d := by
  rintro rfl
  rw [hd] at h
  cases h

theorem isQuote_spec {c : Char} (h : isQuote c) :
    isSpace c = false ∧ c ≠ '#' ∧ isWordStart c = false ∧ c.isDigit = false ∧ c ≠ '\\' := by
  simp only [isQuote, Bool.or_eq_true, decide_eq_true_eq] at h
  rcases h with rfl | rfl <;> decide

theorem Lexeme.SpeltBy.exists_cons {t : Lexeme} {cs : List Char} (h : t.SpeltBy cs) :
    ∃ c rest, cs = c :: rest ∧ isSpace c = false ∧ c ≠ '#' := by
  cases h with
  | word hc => exact ⟨_, _, rfl, isWordStart_spec hc⟩
  | number n =>
    obtain ⟨c, cs, he, hc⟩ := Binary64.chars_cons n
    obtain ⟨hs, hh, -⟩ := isDigit_spec hc
    exact ⟨c, cs, he, hs, hh⟩
  | string hq =>
    obtain ⟨hs, hh, -⟩ := isQuote_spec hq
    exact ⟨_, _, rfl, hs, hh⟩
  | symbol hk =>
    rcases symbol_cases hk with ⟨c, rfl, hc, -⟩ | rfl | rfl
    · obtain ⟨hs, hh, -⟩ := symbolStarts_spec c hc
      exact ⟨c, [], rfl, hs, hh⟩
    · exact ⟨_, _, rfl, by decide, by decide⟩
    · exact ⟨_, _, rfl, by decide, by decide⟩

theorem startsTrivia_eq_false {c : Char} (hs : isSpace c = false) (hh : c ≠ '#') :
    startsTrivia c = false := by
  simp [startsTrivia, hs, hh]

/-- A character that starts neither trivia nor a lexeme of another class. -/
structure IsStray (c : Char) : Prop where
  trivia : startsTrivia c = false
  word : isWordStart c = false
  digit : c.isDigit = false
  quote : isQuote c = false
  symbol : symbols.lookup (String.ofList [c]) = none

inductive Lexeme.ReadOff : Lexeme → List Char → Prop where
  | spelt {t : Lexeme} {cs : List Char} (h : t.SpeltBy cs) : ReadOff t cs
  | stray {c : Char} (h : IsStray c) : ReadOff ⟨.unknown, String.ofList [c]⟩ [c]

theorem Lexeme.ReadOff.exists_cons {t : Lexeme} {cs : List Char} (h : t.ReadOff cs) :
    ∃ c rest, cs = c :: rest ∧ startsTrivia c = false := by
  cases h with
  | spelt h =>
    obtain ⟨c, rest, rfl, hs, hh⟩ := h.exists_cons
    exact ⟨c, rest, rfl, startsTrivia_eq_false hs hh⟩
  | stray h => exact ⟨_, _, rfl, h.trivia⟩

theorem Lexeme.StopsAt.trivia {t : Lexeme} {rest : List Char}
    (h : ∀ c ∈ rest.head?, startsTrivia c) : t.StopsAt rest := by
  intro c hc
  have hall : ∀ c ∈ " \t\r\n#".toList,
      isWordPart c = false ∧ c.isDigit = false ∧ c ≠ '.' ∧ c ≠ '=' :=
    List.forall_iff_forall_mem.1 (by decide)
  have hmem : c ∈ " \t\r\n#".toList := by
    have hs := h c hc
    simp only [startsTrivia, isSpace, Bool.or_eq_true, decide_eq_true_eq] at hs
    rcases hs with (((rfl | rfl) | rfl) | rfl) | rfl <;> decide
  obtain ⟨hw, hd, hp, he⟩ := hall c hmem
  cases hk : t.kind <;> simp [Kind.goesOnWith, hw, hd, hp, he]

/-- A lexeme is written on the characters, and those behind them do not go on with it. -/
inductive Lexeme.EndsBefore (rest : List Char) : Lexeme → List Char → Prop where
  | spelt {t : Lexeme} {cs : List Char} (h : t.SpeltBy cs) (hs : t.StopsAt rest) : EndsBefore rest t cs
  | stray {c : Char} (h : IsStray c) (hs : c = '!' → ∀ d ∈ rest.head?, d ≠ '=') :
    EndsBefore rest ⟨.unknown, String.ofList [c]⟩ [c]

theorem Lexeme.EndsBefore.readOff {t : Lexeme} {cs rest : List Char} (h : t.EndsBefore rest cs) :
    t.ReadOff cs := by
  cases h with
  | spelt h => exact .spelt h
  | stray h => exact .stray h

/-- Before trivia, or at the end of a text, all lexemes end. -/
theorem Lexeme.ReadOff.endsBefore {t : Lexeme} {cs rest : List Char} (h : t.ReadOff cs)
    (hr : ∀ c ∈ rest.head?, startsTrivia c) : t.EndsBefore rest cs := by
  cases h with
  | spelt h => exact .spelt h (.trivia hr)
  | stray h =>
    refine .stray h fun _ c hc he => ?_
    obtain rfl := he
    exact absurd (hr _ hc) (by decide)

/-- Only the next character matters, and where there is none, trivia may come. -/
theorem Lexeme.EndsBefore.append {t : Lexeme} {cs rest more : List Char} (h : t.EndsBefore rest cs)
    (hm : ∀ c ∈ more.head?, startsTrivia c) : t.EndsBefore (rest ++ more) cs := by
  cases rest with
  | nil => exact h.readOff.endsBefore hm
  | cons c rest =>
    cases h with
    | spelt h hs => exact .spelt h hs
    | stray h hs => exact .stray h hs

end LocksetLang
