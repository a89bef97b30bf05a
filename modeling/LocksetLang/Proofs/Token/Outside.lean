import LocksetLang.Proofs.Token.LongestMatch
import LocksetLang.Proofs.Token.Stripping

/-! Texts character by character, in strings and outside of them. The text of an expression has
neither comments nor semicolons outside strings, and there no dot behind a space, whatever
parentheses stand between the two. As parentheses are not looked at, this stays so when some are
taken away, and it is enough to know how many the lexemes of the text open and that no number among
them stands before a dot. -/

namespace LocksetLang

open Lexeme

def openings (ls : List Lexeme) : Nat := ls.countP (·.kind = .leftParen)

/-- The second lexeme is no dot behind a number. -/
def Unpointed (t u : Lexeme) : Prop := t.kind = .number → u.kind ≠ .dot

/-- The context of the characters that follow: outside strings, with only spaces and parentheses
since the last space or not, in a string, behind a backslash there, or astray, where no expression
goes on. -/
inductive Context where
  | outside (spaced : Bool)
  | quoted (quote : Char)
  | escaped (quote : Char)
  | astray
  deriving DecidableEq

namespace Context

def next : Context → Char → Context
  | outside spaced, c =>
    if isQuote c then quoted c
    else if isSpace c then outside true
    else if c = '(' ∨ c = ')' then outside spaced
    else if c = '#' ∨ c = ';' ∨ (c = '.' ∧ spaced) then astray
    else outside false
  | quoted quote, c =>
    if c = quote then outside false else if c = '\\' then escaped quote else quoted quote
  | escaped quote, _ => quoted quote
  | astray, _ => astray

def isOutside : Context → Bool
  | outside _ => true
  | _ => false

def after (s : Context) (cs : List Char) : Context := cs.foldl next s

/-- How many parentheses a text opens outside strings. -/
def opened : Context → List Char → Nat
  | _, [] => 0
  | s, c :: cs => (if s.isOutside ∧ c = '(' then 1 else 0) + (s.next c).opened cs

variable {s : Context} {b : Bool} {c quote : Char} {as bs cs : List Char}

@[simp] theorem after_nil : s.after [] = s := rfl

@[simp] theorem after_cons : s.after (c :: cs) = (s.next c).after cs := rfl

@[simp] theorem after_append : s.after (as ++ bs) = (s.after as).after bs := List.foldl_append

@[simp] theorem after_astray : astray.after cs = astray := by
  induction cs with
  | nil => rfl
  | cons c cs ih => exact ih

@[simp] theorem opened_nil : s.opened [] = 0 := rfl

theorem opened_cons :
    s.opened (c :: cs) = (if s.isOutside ∧ c = '(' then 1 else 0) + (s.next c).opened cs := rfl

@[simp] theorem opened_append : s.opened (as ++ bs) = s.opened as + (s.after as).opened bs := by
  induction as generalizing s with
  | nil => simp
  | cons c as ih => simp [opened_cons, ih, Nat.add_assoc]

@[simp] theorem next_parenthesis : (outside b).next '(' = outside b ∧ (outside b).next ')' = outside b :=
  ⟨rfl, rfl⟩

/-- Characters that lead on behind no space. -/
theorem after_of_forall (h : ∀ c ∈ cs, (outside false).next c = outside false ∧ c ≠ '(') :
    (outside false).after cs = outside false ∧ (outside false).opened cs = 0 := by
  induction cs with
  | nil => exact ⟨rfl, rfl⟩
  | cons c cs ih =>
    rw [List.forall_mem_cons] at h
    obtain ⟨⟨hnext, hne⟩, hcs⟩ := h
    obtain ⟨ha, ho⟩ := ih hcs
    rw [after_cons, opened_cons, hnext, if_neg fun h => hne h.2]
    exact ⟨ha, by rw [ho]⟩

theorem after_spaces (h : ∀ c ∈ cs, isSpace c) :
    (outside b).after cs = outside (b || !cs.isEmpty) ∧ (outside b).opened cs = 0 := by
  induction cs generalizing b with
  | nil => simp
  | cons c cs ih =>
    rw [List.forall_mem_cons] at h
    have hq : isQuote c = false := Bool.eq_false_iff.2 fun hq => by
      simp [(isQuote_spec hq).1] at h
    have hne : c ≠ '(' := by
      rintro rfl
      exact absurd h.1 (by decide)
    have hnext : (outside b).next c = outside true := by simp [next, hq, h.1]
    obtain ⟨ha, ho⟩ := @ih true h.2
    rw [after_cons, opened_cons, hnext, if_neg fun h => hne h.2, ha, ho]
    simp

theorem next_of_isWordPart (h : isWordPart c) : (outside b).next c = outside false ∧ c ≠ '(' := by
  have hq : isQuote c = false := Bool.eq_false_iff.2 fun hq => by
    obtain ⟨-, -, hw, hd, -⟩ := isQuote_spec hq
    simp [isWordPart, hw, hd] at h
  have hs : isSpace c = false := by
    rw [isWordPart, Bool.or_eq_true] at h
    exact h.elim (fun h => (isWordStart_spec h).1) fun h => (isDigit_spec h).1
  have hall : ∀ d ∈ "()#;.".toList, isWordPart d = false :=
    List.forall_iff_forall_mem.1 (by decide)
  have hne : ∀ d ∈ "()#;.".toList, c ≠ d := fun d hd he => by
    rw [he, hall d hd] at h
    cases h
  obtain ⟨ho, hc, hhash, hsemi, hdot⟩ : c ≠ '(' ∧ c ≠ ')' ∧ c ≠ '#' ∧ c ≠ ';' ∧ c ≠ '.' := by
    simpa using hne
  exact ⟨by simp [next, hq, hs, ho, hc, hhash, hsemi, hdot], ho⟩

theorem after_quoted (hq : quote ≠ '\\') : ∀ {body : List Char}, isQuotable quote body →
    (quoted quote).after (body ++ [quote]) = outside false ∧
      (quoted quote).opened (body ++ [quote]) = 0
  | [], _ => by simp [next, opened_cons, isOutside]
  | [c], h => by
    by_cases hc : c = '\\'
    · rw [hc, not_isQuotable_backslash] at h
      cases h
    · rw [isQuotable_cons hc, Bool.and_eq_true, decide_eq_true_eq] at h
      simp [next, opened_cons, isOutside, h.1, hc]
  | c :: d :: body, h => by
    by_cases hc : c = '\\'
    · rw [hc, isQuotable_escape] at h
      have ih := after_quoted hq h
      simpa [next, opened_cons, isOutside, hc, hq.symm] using ih
    · rw [isQuotable_cons hc, Bool.and_eq_true, decide_eq_true_eq] at h
      have ih := after_quoted hq h.2
      simpa [next, opened_cons, isOutside, hc, h.1] using ih

end Context

open Context

variable {b : Bool} {t u : Lexeme} {ls ms : List Lexeme} {as bs cs gap rest text : List Char}

/-- What starts as a word or a number and has no parenthesis. -/
theorem after_solid {c : Char} (hc : isWordPart c)
    (hcs : ∀ d ∈ cs, (outside false).next d = outside false ∧ d ≠ '(') :
    (outside b).after (c :: cs) = outside false ∧ (outside b).opened (c :: cs) = 0 := by
  obtain ⟨hnext, hne⟩ := @next_of_isWordPart b c hc
  obtain ⟨ha, ho⟩ := after_of_forall hcs
  rw [after_cons, opened_cons, hnext, if_neg fun h => hne h.2, ha, ho]
  exact ⟨rfl, rfl⟩

theorem after_word {c : Char} (hc : isWordPart c) (hcs : ∀ d ∈ cs, isWordPart d) :
    (outside b).after (c :: cs) = outside false ∧ (outside b).opened (c :: cs) = 0 :=
  after_solid hc fun d hd => next_of_isWordPart (hcs d hd)

theorem after_numeral (n : Numeral) :
    (outside b).after n.chars = outside false ∧ (outside b).opened n.chars = 0 := by
  obtain ⟨c, cs, hn, hc⟩ := Binary64.chars_cons n
  rw [hn]
  refine after_solid (by simp [isWordPart, hc]) fun d hd => ?_
  have hmem : d ∈ n.chars := hn ▸ List.mem_cons_of_mem c hd
  rcases n.mem_chars hmem with hd | rfl
  · exact next_of_isWordPart (by simp [isWordPart, hd])
  · exact ⟨rfl, by decide⟩

theorem after_string {quote : Char} {body : List Char} (hq : isQuote quote)
    (hb : isQuotable quote body) :
    (outside b).after (quote :: (body ++ [quote])) = outside false ∧
      (outside b).opened (quote :: (body ++ [quote])) = 0 := by
  have hnext : (outside b).next quote = quoted quote := by simp [next, hq]
  have hne : quote ≠ '(' := by
    rintro rfl
    exact absurd hq (by decide)
  obtain ⟨ha, ho⟩ := after_quoted (isQuote_spec hq).2.2.2.2 hb
  rw [after_cons, opened_cons, hnext, if_neg fun h => hne h.2, ha, ho]
  exact ⟨rfl, rfl⟩

/-- What a lexeme does that does not lead astray. -/
structure Passes (b : Bool) (t : Lexeme) (cs : List Char) : Prop where
  after_eq : ∃ b', (outside b).after cs = outside b'
  opened_eq : (outside b).opened cs = if t.kind = .leftParen then 1 else 0
  ne_semicolon : t.kind ≠ .semicolon
  dot : t.kind = .dot → b = false ∧ cs = ['.']

theorem passes_symbol {k : Kind} (hk : symbols.lookup (String.ofList cs) = some k)
    (hs : (outside b).after cs ≠ astray) : Passes b ⟨k, String.ofList cs⟩ cs := by
  have hall : ∀ p ∈ symbols, ∀ b, (outside b).after p.1.toList = astray ∨
      ((outside b).after p.1.toList).isOutside ∧
        (outside b).opened p.1.toList = (if p.2 = .leftParen then 1 else 0) ∧ p.2 ≠ .semicolon ∧
        (p.2 = .dot → b = false ∧ p.1.toList = ['.']) := by
    decide
  have h := hall _ (mem_of_lookup hk) b
  simp only [String.toList_ofList] at h
  obtain ⟨ha, ho, hsemi, hdot⟩ := h.resolve_left hs
  refine ⟨?_, ho, hsemi, hdot⟩
  cases h' : (outside b).after cs with
  | outside b' => exact ⟨b', rfl⟩
  | _ => rw [h'] at ha; cases ha

theorem Lexeme.ReadOff.passes (h : t.ReadOff cs) (hs : (outside b).after cs ≠ astray) :
    Passes b t cs := by
  rcases h with ⟨@⟨c, cs, hc, hcs⟩ | n | @⟨quote, body, hq, hb⟩ | hk⟩ | @⟨c, hc⟩
  · obtain ⟨ha, ho⟩ := @after_word b cs c (by simp [isWordPart, hc]) hcs
    have hkinds : ∀ k ∈ wordKinds, k ≠ .leftParen ∧ k ≠ .semicolon ∧ k ≠ .dot := by decide
    obtain ⟨hparen, hsemi, hdot⟩ := hkinds _ (wordKind_mem (String.ofList (c :: cs)))
    exact ⟨⟨_, ha⟩, ho.trans (if_neg hparen).symm, hsemi, fun h => absurd h hdot⟩
  · obtain ⟨ha, ho⟩ := @after_numeral b n
    exact ⟨⟨_, ha⟩, ho, by simp, by simp⟩
  · obtain ⟨ha, ho⟩ := @after_string b quote body hq hb
    exact ⟨⟨_, ha⟩, ho, by simp, by simp⟩
  · exact passes_symbol hk hs
  · have hne : ∀ d ∈ "();.".toList, c ≠ d := by
      have hall : ∀ d ∈ "();.".toList, symbols.lookup (String.ofList [d]) ≠ none :=
        List.forall_iff_forall_mem.1 (by decide)
      rintro d hd rfl
      exact hall _ hd hc.symbol
    obtain ⟨ho, hclose, hsemi, hdot⟩ : c ≠ '(' ∧ c ≠ ')' ∧ c ≠ ';' ∧ c ≠ '.' := by simpa using hne
    have htrivia := hc.trivia
    rw [startsTrivia, Bool.or_eq_false_iff, decide_eq_false_iff_not] at htrivia
    have hnext : (outside b).next c = outside false := by
      simp [next, hc.quote, htrivia, ho, hclose, hsemi, hdot]
    exact ⟨⟨_, hnext⟩, by simp [opened_cons, ho], by simp, by simp⟩

/-- Where nothing leads astray there are no comments. -/
theorem IsTrivia.spaces_of_after {atEnd : Bool} (h : IsTrivia atEnd gap)
    (hs : (outside b).after gap ≠ astray) : ∀ c ∈ gap, isSpace c := by
  induction h generalizing b with
  | nil => exact List.forall_mem_nil _
  | @space c cs hc _ ih =>
    refine List.forall_mem_cons.2 ⟨hc, ih (b := true) ?_⟩
    have hnext := (@after_spaces b [c] (by simpa using hc)).1
    rw [← List.singleton_append, after_append, hnext] at hs
    simpa using hs
  | comment | lastComment => exact absurd after_astray hs

theorem ne_astray_left (h : (outside b).after (as ++ bs) ≠ astray) : (outside b).after as ≠ astray := by
  intro ha
  rw [after_append, ha, after_astray] at h
  exact h rfl

/-- The gap before a lexeme and the lexeme itself, on a way that does not lead astray. -/
theorem passes_behind {atEnd : Bool} (hg : IsTrivia atEnd gap) (ht : t.ReadOff cs)
    (hs : (outside b).after (gap ++ (cs ++ rest)) ≠ astray) :
    (outside b).after gap = outside (b || !gap.isEmpty) ∧ (outside b).opened gap = 0 ∧
      Passes (b || !gap.isEmpty) t cs := by
  obtain ⟨ha, ho⟩ := after_spaces (hg.spaces_of_after (ne_astray_left hs))
  rw [after_append, ha] at hs
  exact ⟨ha, ho, ht.passes (ne_astray_left hs)⟩

/-- What is known of the lexemes of a text that does not lead astray. -/
structure Tame (text : List Char) (b : Bool) (ls : List Lexeme) : Prop where
  opened_eq : (outside b).opened text = openings ls
  ne_semicolon : ∀ t ∈ ls, t.kind ≠ .semicolon
  unpointed : ls.IsChain Unpointed
  dot : ∀ t ∈ ls.head?, t.kind = .dot → text.head? = some '.'

theorem Scans.tame (h : Scans text ls) (hs : (outside b).after text ≠ astray) : Tame text b ls := by
  induction h generalizing b with
  | last hg =>
    obtain ⟨-, ho⟩ := @after_spaces b _ (hg.spaces_of_after hs)
    exact ⟨ho, List.forall_mem_nil _, .nil, by simp⟩
  | @more t gap cs rest ls hg ht _ ih =>
    obtain ⟨hgap, hopen, hpass⟩ := passes_behind hg ht.readOff hs
    obtain ⟨b', hb'⟩ := hpass.after_eq
    have htame := ih (b := b') (by
      rw [after_append, hgap, after_append, hb'] at hs
      exact hs)
    refine ⟨?_, List.forall_mem_cons.2 ⟨hpass.ne_semicolon, htame.ne_semicolon⟩, ?_, ?_⟩
    · rw [opened_append, hopen, hgap, opened_append, hb', hpass.opened_eq, htame.opened_eq]
      simp [openings, List.countP_cons]
      omega
    · refine List.isChain_cons.2 ⟨fun u hu hnumber hdot => ?_, htame.unpointed⟩
      -- the point would be one of the number
      have hhead := htame.dot u hu hdot
      cases ht with
      | spelt ht hstop =>
        have := hstop '.' hhead
        rw [hnumber] at this
        cases this
      | stray => cases hnumber
    · intro u hu hdot
      obtain rfl := Option.some.inj hu
      obtain ⟨hb, rfl⟩ := hpass.dot hdot
      rw [Bool.or_eq_false_iff, Bool.not_eq_false', List.isEmpty_iff] at hb
      rw [hb.2]
      rfl

theorem Covers.exists_start {before : List Char} {lexemes : List (List Char)} {ts : List Token}
    (h : Covers ReadOff before text lexemes ts) (hs : (outside b).after text ≠ astray) :
    ∀ t ∈ ts, ∃ as bs b', text = as ++ bs ∧ t.place = Place.behind (before ++ as) ∧
      (outside b).after as = outside b' := by
  induction h generalizing b with
  | last hg =>
    intro t ht
    obtain rfl := List.mem_singleton.1 ht
    exact ⟨_, [], _, (List.append_nil _).symm, rfl, (after_spaces (hg.spaces_of_after hs)).1⟩
  | @more before gap cs rest lexemes t ts hg ht _ hp _ ih =>
    obtain ⟨hgap, -, hpass⟩ := passes_behind hg ht hs
    obtain ⟨b', hb'⟩ := hpass.after_eq
    intro u hu
    rcases List.mem_cons.1 hu with rfl | hu
    · exact ⟨gap, cs ++ rest, _, rfl, hp, hgap⟩
    · have hrest : (outside b').after rest ≠ astray := by
        rw [after_append, hgap, after_append, hb'] at hs
        exact hs
      obtain ⟨as, bs, b'', rfl, hplace, hb''⟩ := ih hrest u hu
      refine ⟨gap ++ (cs ++ as), bs, b'', by simp, by simpa using hplace, ?_⟩
      rw [after_append, hgap, after_append, hb', hb'']

theorem Covers.outside_of_place {lexemes : List (List Char)} {ts : List Token}
    (h : Covers ReadOff [] text lexemes ts) (hs : (outside b).after text ≠ astray)
    (htext : text = as ++ bs) {u : Token} (hu : u ∈ ts) (hp : u.place = Place.behind as) :
    ∃ b', (outside b).after as = outside b' := by
  obtain ⟨as', bs', b', htext', hplace, hb'⟩ := h.exists_start hs u hu
  rw [htext] at htext'
  have hplaces : Place.behind ([] ++ as) = Place.behind ([] ++ as') := hp.symm.trans hplace
  obtain rfl := Place.eq_of_behind_eq htext' hplaces
  exact ⟨b', hb'⟩

/-! ### Texts at the ends -/

theorem Scans.exists_first (h : Scans (gap ++ (cs ++ rest)) ls) (hg : IsTrivia false gap)
    (ht : t.EndsBefore rest cs) : ∃ ms, ls = t :: ms ∧ Scans rest ms := by
  have hhead : ∀ {t : Lexeme} {cs rest : List Char}, t.ReadOff cs →
      ∀ c ∈ (cs ++ rest).head?, startsTrivia c = false := by
    intro t cs rest ht c hc
    obtain ⟨d, ds, rfl, hd⟩ := ht.exists_cons
    obtain rfl := Option.some.inj hc
    exact hd
  have htrivia : trivia (gap ++ (cs ++ rest)) = gap := trivia_append hg nofun (hhead ht.readOff)
  generalize htext : gap ++ (cs ++ rest) = text at h htrivia
  cases h with
  | last hg' =>
    have hall : trivia (text ++ []) = text := trivia_append hg' (fun _ => rfl) (by simp)
    rw [List.append_nil, htrivia] at hall
    obtain ⟨d, ds, rfl, -⟩ := ht.readOff.exists_cons
    rw [hall] at htext
    simp at htext
  | @more t' gap' cs' rest' ms hg' ht' h =>
    obtain rfl : gap = gap' := by
      rw [← htrivia]
      exact trivia_append hg' nofun (hhead ht'.readOff)
    have hrest := List.append_cancel_left htext
    obtain ⟨rfl, rfl⟩ := ht.unique ht' hrest
    obtain rfl := List.append_cancel_left hrest
    exact ⟨ms, rfl, h⟩

theorem not_isTrivia_semicolon {atEnd b' : Bool} (hs : (outside b).after as = outside b') :
    ¬ IsTrivia atEnd (as ++ [';']) := by
  induction as generalizing b with
  | nil =>
    intro h
    cases h with
    | space hc => exact absurd hc (by decide)
  | cons c as ih =>
    intro h
    rw [List.cons_append] at h
    generalize hrest : as ++ [';'] = rest at h
    cases h with
    | space hc h =>
      subst hrest
      rw [after_cons, ← after_nil (s := (outside b).next c), ← after_cons,
        (@after_spaces b [c] (by simpa using hc)).1] at hs
      exact ih hs h
    | comment | lastComment => cases after_astray.symm.trans hs

/-- Of all lexemes only a semicolon ends with one. -/
theorem Lexeme.ReadOff.eq_semicolon (h : t.ReadOff (cs ++ [';'])) :
    t = ⟨.semicolon, ";"⟩ ∧ cs = [] := by
  generalize htext : cs ++ [';'] = text at h
  have hmem : ';' ∈ text := by simp [← htext]
  have hlast : text.getLast? = some ';' := by simp [← htext]
  rcases h with ⟨@⟨c, cs', hc, hcs⟩ | n | @⟨quote, body, hq, hb⟩ | @⟨_, k, hk⟩⟩ | @⟨c, hc⟩
  · have hpart : isWordPart ';' := by
      rcases List.mem_cons.1 hmem with rfl | hmem
      · simp [isWordPart, hc]
      · exact hcs _ hmem
    exact absurd hpart (by decide)
  · rcases n.mem_chars hmem with hd | hd
    · exact absurd hd (by decide)
    · exact absurd hd (by decide)
  · obtain rfl : quote = ';' := by simpa [List.getLast?_cons] using hlast
    exact absurd hq (by decide)
  · have hall : ∀ p ∈ symbols, p.1.toList.getLast? = some ';' → p = (";", .semicolon) := by decide
    obtain ⟨hs, rfl⟩ := Prod.mk.inj (hall _ (mem_of_lookup hk) (by simpa using hlast))
    obtain rfl : text = [';'] := String.ofList_injective hs
    exact ⟨rfl, by simpa using htext⟩
  · obtain rfl : c = ';' := by simpa using hlast
    exact absurd hc.symbol (by decide)

theorem Scans.eq_nil (h : Scans [] ls) : ls = [] := by
  generalize htext : ([] : List Char) = text at h
  cases h with
  | last => rfl
  | more _ ht =>
    obtain ⟨c, cs, rfl, -⟩ := ht.readOff.exists_cons
    simp at htext

theorem Lexeme.EndsBefore.of_concat {c : Char} (h : t.EndsBefore (rest ++ [c]) cs) :
    t.EndsBefore rest cs := by
  cases rest with
  | nil => exact h.readOff.endsBefore (by simp)
  | cons d rest => exact h.of_head rfl

/-- Lexemes before a semicolon that ends the text. -/
theorem Scans.before_semicolon {b' : Bool} (h : Scans text ls) (ht : text = as ++ [';'])
    (hs : (outside b).after as = outside b') :
    ∃ ms, ls = ms ++ [⟨.semicolon, ";"⟩] ∧ Scans as ms := by
  induction h generalizing as b with
  | last hg => exact absurd (ht ▸ hg) (not_isTrivia_semicolon hs)
  | @more t gap cs rest ls hg hread hrest ih =>
    rcases List.eq_nil_or_concat' rest with rfl | ⟨rest, c, rfl⟩
    · obtain rfl := hrest.eq_nil
      rw [List.append_nil] at ht
      rcases List.eq_nil_or_concat' cs with rfl | ⟨init, c, rfl⟩
      · obtain ⟨c, cs, hcs, -⟩ := hread.readOff.exists_cons
        cases hcs
      · obtain ⟨rfl, rfl⟩ : gap ++ init = as ∧ c = ';' := by
          rw [← List.append_assoc] at ht
          simpa using List.append_inj' ht rfl
        obtain ⟨rfl, rfl⟩ := hread.readOff.eq_semicolon
        exact ⟨[], rfl, .last (hg.append .nil)⟩
    · obtain ⟨rfl, rfl⟩ : gap ++ (cs ++ rest) = as ∧ c = ';' := by
        rw [← List.append_assoc, ← List.append_assoc, List.append_assoc gap] at ht
        simpa using List.append_inj' ht rfl
      have hne : (outside b).after (gap ++ (cs ++ rest)) ≠ astray := by simp [hs]
      obtain ⟨hgap, -, hpass⟩ := passes_behind hg hread.readOff hne
      obtain ⟨b'', hb''⟩ := hpass.after_eq
      rw [after_append, hgap, after_append, hb''] at hs
      obtain ⟨ms, rfl, hms⟩ := ih rfl hs
      exact ⟨t :: ms, rfl, .more hg hread.of_concat hms⟩

end LocksetLang
