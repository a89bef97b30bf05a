import LocksetLang.Proofs.Token.Tokens

/-! All tokens of a text. Reading gives the lexemes that the text is made up of, and no others. Texts
that are made up of lexemes are put together by a newline. -/

namespace LocksetLang

open Lexeme

/-- The text is made up of the lexemes with trivia between them. Each of them ends where it is not
gone on with. -/
inductive Scans : List Char → List Lexeme → Prop where
  | last {gap : List Char} (hg : IsTrivia true gap) : Scans gap []
  | more {t : Lexeme} {gap cs rest : List Char} {ls : List Lexeme} (hg : IsTrivia false gap)
    (ht : t.EndsBefore rest cs) (h : Scans rest ls) : Scans (gap ++ (cs ++ rest)) (t :: ls)

variable {text as bs : List Char} {ls ms : List Lexeme} {ts : List Token} {source : String}

theorem tokens_of_scans (h : Scans text ls) {c : Cursor} (hf : c.Faces text) :
    ∃ ts place, c.tokens = .ok (ts ++ [Cursor.endToken place]) ∧ ts.map Token.lexeme = ls := by
  induction h generalizing c with
  | last hg =>
    exact ⟨[], _, Cursor.tokens_of_end (Cursor.nextToken_of_end hf hg) rfl, rfl⟩
  | @more t gap cs rest ls hg ht _ ih =>
    have hn := Cursor.nextToken_of_endsBefore hf hg ht
    have hf' : (c.past (gap ++ cs)).Faces rest := by
      rw [← Cursor.past_append]
      exact hf.past.past
    obtain ⟨ts, place, hts, hls⟩ := ih hf'
    refine ⟨⟨t.kind, t.value, c.place.after gap⟩ :: ts, place, ?_, by rw [List.map_cons, hls]; rfl⟩
    rw [Cursor.tokens_of_more hn ht.readOff.isWritten.kind_ne_end, hts]
    rfl

theorem tokenize_of_scans (h : Scans source.toList ls) :
    ∃ ts place, tokenize source = .ok (ts ++ [Cursor.endToken place]) ∧
      ts.map Token.lexeme = ls :=
  tokens_of_scans h ⟨Int.le_refl 0, rfl⟩

theorem scans_of_tokens {c : Cursor} (hf : c.Faces text) (h : c.tokens = .ok ts) :
    ∃ body place, ts = body ++ [Cursor.endToken place] ∧ Scans text (body.map Token.lexeme) := by
  have hy := Cursor.yields_of_tokens hf h
  clear h hf
  induction hy with
  | last hg => exact ⟨[], _, rfl, .last hg⟩
  | @more _ _ _ _ t _ hg ht _ ih =>
    obtain ⟨body, place, rfl, hbody⟩ := ih
    exact ⟨t :: body, place, rfl, .more hg ht.endsBefore hbody⟩

theorem scans_of_tokenize (h : tokenize source = .ok ts) :
    ∃ body place, ts = body ++ [Cursor.endToken place] ∧
      Scans source.toList (body.map Token.lexeme) :=
  scans_of_tokens ⟨Int.le_refl 0, rfl⟩ h

theorem IsTrivia.append {atEnd : Bool} (ha : IsTrivia false as) (hb : IsTrivia atEnd bs) :
    IsTrivia atEnd (as ++ bs) := by
  induction ha with
  | nil => exact hb
  | space hc _ ih => exact .space hc ih
  | comment hn _ ih =>
    rw [List.cons_append, List.append_assoc, List.cons_append]
    exact .comment hn ih
  | lastComment he => cases he

/-- A newline also ends the last comment of a text. -/
theorem IsTrivia.newline (h : IsTrivia true as) : IsTrivia false (as ++ ['\n']) := by
  induction h with
  | nil => exact .space rfl .nil
  | space hc _ ih => exact .space hc ih
  | comment hn _ ih =>
    rw [List.cons_append, List.append_assoc, List.cons_append]
    exact .comment hn ih
  | lastComment _ hn => exact .comment hn .nil

theorem Scans.behind {gap : List Char} (hg : IsTrivia false gap) (h : Scans bs ls) :
    Scans (gap ++ bs) ls := by
  cases h with
  | last hg' => exact .last (hg.append hg')
  | more hg' ht h =>
    rw [← List.append_assoc]
    exact .more (hg.append hg') ht h

theorem Scans.append (ha : Scans as ls) (hb : Scans bs ms) : Scans (as ++ '\n' :: bs) (ls ++ ms) := by
  induction ha with
  | last hg =>
    rw [List.append_cons]
    exact hb.behind hg.newline
  | more hg ht _ ih =>
    rw [List.append_assoc, List.append_assoc, List.cons_append]
    refine .more hg (ht.append fun c hc => ?_) ih
    obtain rfl := Option.some.inj hc
    rfl

def isLayout (c : Char) : Bool := c = ' ' || c = '\n'

theorem isSpace_of_isLayout {c : Char} (h : isLayout c) : isSpace c := by
  rw [isLayout, Bool.or_eq_true, decide_eq_true_eq, decide_eq_true_eq] at h
  rcases h with rfl | rfl <;> rfl

/-- The lexemes `ls` are written one behind the other, with nothing but layout between them. -/
inductive Spells : List Char → List Lexeme → Prop where
  | nil : Spells [] []
  | cons {t : Lexeme} {cs gap rest : List Char} {ls : List Lexeme} (ht : t.SpeltBy cs)
    (hg : ∀ c ∈ gap, isLayout c) (hs : t.StopsAt (gap ++ rest)) (hn : ls = [] → gap = [])
    (h : Spells rest ls) : Spells (cs ++ (gap ++ rest)) (t :: ls)

theorem Spells.scans {cs gap : List Char} (h : Spells cs ls) (hg : ∀ d ∈ gap, isLayout d) :
    Scans (gap ++ cs) ls := by
  have htrivia : ∀ {atEnd gap}, (∀ d ∈ gap, isLayout d) → IsTrivia atEnd gap := fun hg =>
    .of_spaces fun d hd => isSpace_of_isLayout (hg d hd)
  induction h generalizing gap with
  | nil =>
    rw [List.append_nil]
    exact .last (htrivia hg)
  | cons ht hg' hs _ _ ih => exact .more (htrivia hg) (.spelt ht hs) (ih hg')

theorem tokenize_of_spells (h : Spells source.toList ls) :
    ∃ ts place, tokenize source = .ok (ts ++ [Cursor.endToken place]) ∧
      ts.map Token.lexeme = ls :=
  tokenize_of_scans (h.scans (List.forall_mem_nil _))

end LocksetLang
