import LocksetLang.Proofs.Outcome
import LocksetLang.Proofs.Source.Printing
import LocksetLang.Rendering

/-! Statements are written as their lexemes, on lines of their own. Whatever the margin is, it only
adds spaces between two lexemes. -/

namespace LocksetLang

open Lexeme

/-- Lines that start with a margin and hold the lexemes `ls`, each behind its line break. -/
def Lines (margin cs : List Char) (ls : List Lexeme) : Prop :=
  (cs = [] ∧ ls = []) ∨ (ls ≠ [] ∧ ∃ body, cs = '\n' :: (margin ++ body) ∧ Spells body ls)

variable {as bs cs margin : List Char} {ls ms ks : List Lexeme}

theorem Spells.lines (ha : Spells as ls) (hl : ls ≠ []) (hm : ∀ c ∈ margin, isLayout c)
    (hb : Lines margin bs ms) : Spells (as ++ bs) (ls ++ ms) := by
  rcases hb with ⟨rfl, rfl⟩ | ⟨hne, body, rfl, hb⟩
  · simpa using ha
  · refine ha.append ('\n' :: margin) hb ?_ hl hne fun _ _ => .separator (by decide)
    intro c hc
    rcases List.mem_cons.1 hc with rfl | hc
    · decide
    · exact hm c hc

theorem Lines.append {margin' : List Char} (ha : Lines margin as ls) (hl : ls ≠ [])
    (hm : ∀ c ∈ margin', isLayout c) (hb : Lines margin' bs ms) : Lines margin (as ++ bs) (ls ++ ms) := by
  rcases ha with ⟨-, rfl⟩ | ⟨-, body, rfl, ha⟩
  · exact absurd rfl hl
  · exact .inr ⟨by simp [hl], body ++ bs, by simp, ha.lines hl hm hb⟩

theorem Lines.concat (ha : Lines margin as ls) (hm : ∀ c ∈ margin, isLayout c)
    (hb : Lines margin bs ms) : Lines margin (as ++ bs) (ls ++ ms) := by
  by_cases hl : ls = []
  · rcases ha with ⟨rfl, rfl⟩ | ⟨hne, -⟩
    · exact hb
    · exact absurd hl hne
  · exact ha.append hl hm hb

namespace Page

theorem isLayout_margin (p : Page) : ∀ c ∈ p.margin.toList, isLayout c := by
  intro c hc
  rw [margin, String.toList_ofList] at hc
  rw [List.eq_of_mem_replicate hc]
  decide

end Page

namespace Writing

open Source

variable {α β : Type} {w : Writing α} {f : α → Writing β} {a : α} {p q : Page}

/-- What comes of a writing where there can be a margin. -/
def run (w : Writing α) (p : Page) : Except PrintFault α × Page := w true p

theorem run_bind (h : w.run p = (.ok a, q)) : (w >>= f).run p = (f a).run q :=
  Outcome.run_bind (f := fun a => f a true) h

theorem run_line (text : String) (p : Page) :
    (line text).run p = (.ok (), ⟨p.lines.push (p.margin ++ text), p.indent⟩) := rfl

theorem run_shift (levels : Int) (p : Page) :
    (shift levels).run p = (.ok (), ⟨p.lines, p.indent + levels⟩) := rfl

theorem expression_bind {node : Node} {text : String} {f : String → Writing β}
    (h : Source.expression 0 node = .ok text) : (expression node >>= f) = f text := by
  funext fits p
  change ((fun _ => ExceptT.mk (pure (Source.expression 0 node)) : Writing String) >>= f) fits p = _
  rw [h]
  rfl

theorem expressionLine_eq {node : Node} {text : String}
    (h : Source.expression 0 node = .ok text) : expressionLine node = line text := by
  simp only [expressionLine, expression_bind h]
  rfl

/-- On any page, the lexemes `ls` are written on lines behind those that are there. -/
def Writes (w : Writing Unit) (ls : List Lexeme) : Prop :=
  ∀ p : Page, ∃ texts : List String,
    w.run p = (.ok (), ⟨p.lines ++ texts.toArray, p.indent⟩) ∧
    Lines p.margin.toList (texts.flatMap fun text => '\n' :: text.toList) ls

theorem writes_line {text : String} (h : Spells text.toList ls) (hl : ls ≠ []) :
    Writes (line text) ls := by
  intro p
  refine ⟨[p.margin ++ text], by rw [run_line]; simp, .inr ⟨hl, text.toList, by simp, h⟩⟩

theorem writes_nothing : Writes (return) [] := by
  intro p
  exact ⟨[], by simp; rfl, .inl ⟨rfl, rfl⟩⟩

theorem Writes.seq {v w : Writing Unit} (hv : Writes v ls) (hw : Writes w ms) :
    Writes (do v; w) (ls ++ ms) := by
  intro p
  obtain ⟨texts, hp, hl⟩ := hv p
  obtain ⟨texts', hq, hm⟩ := hw ⟨p.lines ++ texts.toArray, p.indent⟩
  refine ⟨texts ++ texts', ?_, ?_⟩
  · rw [run_bind hp, hq]
    simp
  · rw [List.flatMap_append]
    exact hl.concat p.isLayout_margin hm

theorem Writes.nested {u v w : Writing Unit} (hu : Writes u ls) (hl : ls ≠ []) (hv : Writes v ms)
    (hw : Writes w ks) :
    Writes (do u; shift 1; v; shift (-1); w) (ls ++ (ms ++ ks)) := by
  intro p
  obtain ⟨texts, hp, hls⟩ := hu p
  obtain ⟨texts', hq, hms⟩ := hv ⟨p.lines ++ texts.toArray, p.indent + 1⟩
  obtain ⟨texts'', hr, hks⟩ := hw ⟨p.lines ++ texts.toArray ++ texts'.toArray, p.indent⟩
  refine ⟨texts ++ (texts' ++ texts''), ?_, ?_⟩
  · rw [run_bind hp, run_bind (run_shift 1 _), run_bind hq, run_bind (run_shift (-1) _)]
    dsimp only
    rw [Int.add_neg_cancel_right, hr]
    simp
  · rw [List.flatMap_append, List.flatMap_append]
    rcases hms with ⟨hnil, rfl⟩ | hms
    · rw [hnil]
      exact hls.append hl p.isLayout_margin hks
    · exact hls.append hl (Page.isLayout_margin _)
        (Lines.append (.inr hms) hms.1 p.isLayout_margin hks)

theorem spells_keyword {s : String} {k : Kind} (h : keywords.lookup s = some k) :
    Spells s.toList [word s] := by
  have hall : ∀ p ∈ keywords, isWord p.1.toList := by decide
  exact spells_word (hall _ (mem_of_lookup h))

section
variable {e : Node} {n : String} {body : List Node}

theorem writes_expressionLine (he : e.IsExpression) : Writes (expressionLine e) (lexemes 0 e) := by
  obtain ⟨text, ht, hs⟩ := prints_of_isExpression he 0
  rw [expressionLine_eq ht]
  exact writes_line hs (lexemes_ne_nil he 0)

theorem writes_expression (he : e.IsExpression) (lead : String) :
    Writes (statement lead e) (statementLexemes e) := by
  have hw := writes_expressionLine he
  cases he <;> exact hw

theorem writes_declaration {constant : Bool} {value : Option Node} (hn : isName n)
    (hv : ∀ e ∈ value, e.IsExpression) (lead : String) :
    Writes (statement lead (.declaration n constant value))
      (statementLexemes (.declaration n constant value)) := by
  have hword : Spells (if constant then "lock" else "set").toList
      [word (if constant then "lock" else "set")] := by
    cases constant with
    | true => exact spells_keyword rfl
    | false => exact spells_keyword rfl
  have hdeclared := hword.spaced (spells_name hn) (by simp) (by simp)
  have hlead : (if constant then "lock " else "set ") = (if constant then "lock" else "set") ++ " " := by
    cases constant <;> rfl
  have hend : Spells [';'] [sign ";"] := spells_sign (s := ";") rfl
  cases value with
  | none =>
    refine writes_line ?_ (by simp [statementLexemes])
    rw [hlead]
    simpa [statementLexemes] using hdeclared.separated hend (by decide) (by simp) (by simp)
  | some e =>
    have he := hv e rfl
    obtain ⟨text, ht, hs⟩ := prints_of_isExpression he 0
    rw [statement, declaration, expression_bind ht, hlead]
    refine writes_line ?_ (by simp [statementLexemes])
    have hassigned := hdeclared.infixed (s := "=") rfl
      (hs.separated hend (by decide) (lexemes_ne_nil he 0) (by simp)) (by simp) (by simp)
    simpa [statementLexemes] using hassigned

theorem spells_parameters {ps : List String} (hp : ∀ p ∈ ps, isName p) :
    Spells (", ".intercalate ps).toList (commaSeparated (ps.map fun p => [word p])) := by
  refine (spells_commaSeparated ?_).1
  rw [List.forall₂_map_right_iff, List.forall₂_same]
  exact fun p h => ⟨spells_name (hp p h), by simp⟩

theorem writes_function {ps : List String} (hn : isName n) (hp : ∀ p ∈ ps, isName p)
    (hb : Writes (statements body) (statementsLexemes body)) (lead : String) :
    Writes (statement lead (.function n ps body)) (statementLexemes (.function n ps body)) := by
  have hbrace : Spells ['{'] [sign r"{"] := spells_sign (s := r"{") rfl
  have hparams := (spells_parameters hp).enclosed (.inl rfl) (c := ')') (by decide) rfl
  have hhead : Spells ("fun " ++ n ++ "(" ++ ", ".intercalate ps ++ r") {").toList
      (word "fun" :: word n :: sign "(" ::
        (commaSeparated (ps.map fun p => [word p]) ++ [sign ")", sign r"{"])) := by
    have hname := (spells_keyword (s := "fun") rfl).spaced (spells_name hn) (by simp) (by simp)
    have := hname.separated (hparams.spaced hbrace (by simp) (by simp)) (by decide) (by simp) (by simp)
    simpa using this
  have hclose : Writes (line r"}") [sign r"}"] := writes_line (spells_sign rfl) (by simp)
  have := (writes_line hhead (by simp)).nested (by simp) hb hclose
  rw [statement]
  simpa [statementLexemes] using this

def IsLead (lead : String) (ls : List Lexeme) : Prop :=
  (lead = "" ∧ ls = []) ∨ (lead = r"} else " ∧ ls = [sign r"}", word "else"])

theorem IsLead.spells {lead : String} (h : IsLead lead ls) (hm : Spells cs ms) (hne : ms ≠ []) :
    Spells (lead.toList ++ cs) (ls ++ ms) := by
  rcases h with ⟨rfl, rfl⟩ | ⟨rfl, rfl⟩
  · exact hm
  · have helse := (spells_sign (s := r"}") rfl).spaced
      (spells_keyword (s := "else") rfl) (by simp) (by simp)
    exact helse.spaced hm (by simp) hne

theorem writes_conditional {lead : String} {alternate : Option (List Node)} (hlead : IsLead lead ls)
    (he : e.IsExpression) (hb : Writes (statements body) (statementsLexemes body))
    (ha : Writes (branch alternate) (sign r"}" :: alternateLexemes alternate)) :
    Writes (statement lead (.conditional e body alternate))
      (ls ++ statementLexemes (.conditional e body alternate)) := by
  obtain ⟨text, ht, hs⟩ := prints_of_isExpression he 0
  rw [statement, expression_bind ht]
  have hbrace : Spells ['{'] [sign r"{"] := spells_sign (s := r"{") rfl
  have hif := (spells_keyword (s := "if") rfl).spaced
    (hs.spaced hbrace (lexemes_ne_nil he 0) (by simp)) (by simp) (by simp)
  have hhead : Spells (lead ++ "if " ++ text ++ r" {").toList
      (ls ++ word "if" :: (lexemes 0 e ++ [sign r"{"])) := by
    simpa using hlead.spells hif (by simp)
  have := (writes_line hhead (by simp)).nested (by simp) hb ha
  simpa [statementLexemes] using this

theorem writes_statements (h : ∀ s ∈ body, Writes (statement "" s) (statementLexemes s)) :
    Writes (statements body) (statementsLexemes body) := by
  induction body with
  | nil => exact writes_nothing
  | cons s body ih =>
    rw [statements, statementsLexemes]
    exact (h s (by simp)).seq (ih fun t ht => h t (by simp [ht]))

theorem writes_otherwise {w : Writing Unit} (hw : Writes w ls) :
    Writes (do line r"} else {"; shift 1; w; shift (-1); line r"}")
      (sign r"}" :: word "else" :: sign r"{" :: (ls ++ [sign r"}"])) := by
  have hbrace : Spells ['{'] [sign r"{"] := spells_sign (s := r"{") rfl
  have hhead : Spells r"} else {".toList [sign r"}", word "else", sign r"{"] :=
    (spells_sign (s := r"}") rfl).spaced
      ((spells_keyword (s := "else") rfl).spaced hbrace (by simp) (by simp)) (by simp) (by simp)
  have hclose : Writes (line r"}") [sign r"}"] := writes_line (spells_sign rfl) (by simp)
  exact (writes_line hhead (by simp)).nested (by simp) hw hclose

end

theorem writes_branch {alternate : Option (List Node)}
    (h : ∀ ss ∈ alternate, ∀ s ∈ ss, Writes (statement "" s) (statementLexemes s))
    (hlead : ∀ s, alternate = some [s] → s.isConditional →
      Writes (statement r"} else " s) ([sign r"}", word "else"] ++ statementLexemes s)) :
    Writes (branch alternate) (sign r"}" :: alternateLexemes alternate) := by
  cases alternate with
  | none => exact writes_line (spells_sign rfl) (by simp)
  | some ss =>
    have hss := writes_statements (h ss rfl)
    rcases ss with - | ⟨s, - | ⟨t, ss⟩⟩
    · exact writes_otherwise hss
    · rw [branch, alternateLexemes]
      split_ifs with hc
      · exact hlead s rfl hc
      · exact writes_otherwise (h [s] rfl s (by simp))
    · exact writes_otherwise hss

/-- Every statement can be written, and its lines have its lexemes. A conditional can also go on in
the line of a closing brace. -/
theorem writes_statement {s : Node} (h : s.IsStatement) :
    ∀ lead ls, IsLead lead ls → (ls ≠ [] → s.isConditional) →
      Writes (statement lead s) (ls ++ statementLexemes s) := by
  induction h with
  | declaration hn hv hc =>
    intro lead ls hlead hcond
    obtain rfl : ls = [] := by_contra fun h => by cases hcond h
    exact writes_declaration hn hv lead
  | function hn hp _ ih =>
    intro lead ls hlead hcond
    obtain rfl : ls = [] := by_contra fun h => by cases hcond h
    exact writes_function hn hp
      (writes_statements fun s hs => ih s hs "" [] (.inl ⟨rfl, rfl⟩) (absurd rfl)) lead
  | conditional hc _ _ iht iha =>
    intro lead ls hlead _
    refine writes_conditional hlead hc
      (writes_statements fun s hs => iht s hs "" [] (.inl ⟨rfl, rfl⟩) (absurd rfl)) ?_
    refine writes_branch (fun ss hss s hs => iha ss hss s hs "" [] (.inl ⟨rfl, rfl⟩) (absurd rfl)) ?_
    rintro s rfl hs
    exact iha [s] rfl s (by simp) _ _ (.inr ⟨rfl, rfl⟩) fun _ => hs
  | expression he =>
    intro lead ls hlead hcond
    obtain rfl : ls = [] := by_contra fun h => by
      have := hcond h
      cases he <;> cases this
    exact writes_expression he lead

end Writing
end LocksetLang
