import LocksetLang.Proofs.Source.Pages

/-! Whole programs are written as the lexemes of their statements. -/

namespace LocksetLang

open Source

theorem ofTarget?_source :
    Renderer.ofTarget? "source" none = .ok ⟨"source", none, .source Page.blank⟩ := by
  have h : Text.lowercase "source" = "source" := by decide +kernel
  simp [Renderer.ofTarget?, h, targetNames, Renderer.blankSheet]

theorem Page.write_eq_run {α : Type} {p : Page} (h : isIndex p.indent) (w : Writing α) :
    p.write w = w.run p := by
  rw [write, h, Writing.run]

theorem isIndex_blank : isIndex Page.blank.indent := by decide

/-- The statements of a program are written on a blank page. -/
theorem formatSource_eq (body : List Node) :
    formatSource (.program body) = ((Writing.statements body).run Page.blank).1.map
      fun _ => ((Writing.statements body).run Page.blank).2.text := by
  have hw : Page.blank.write (Writing.statement "" (.program body)) =
      (Writing.statements body).run Page.blank := by
    rw [Page.write_eq_run isIndex_blank, Writing.statement]
  unfold formatSource render
  rw [ofTarget?_source]
  change (Renderer.render _ _).1 = _
  simp [Renderer.render, Node.isProgram, Renderer.visit, Renderer.blankSheet, hw, Sheet.text]

theorem formatSource_of_run {body : List Node} {p : Page}
    (h : (Writing.statements body).run Page.blank = (.ok (), p)) :
    formatSource (.program body) = .ok p.text := by
  rw [formatSource_eq, h]
  rfl

theorem flatMap_lines {texts : List String} (h : texts ≠ []) :
    (texts.flatMap fun text => '\n' :: text.toList) = '\n' :: ("\n".intercalate texts).toList := by
  induction texts with
  | nil => exact absurd rfl h
  | cons text texts ih =>
    cases texts with
    | nil => simp
    | cons text' texts =>
      rw [List.flatMap_cons, ih (by simp), String.intercalate_cons_cons]
      simp

theorem formatSource_spells {body : List Node} (h : ∀ s ∈ body, s.IsStatement) :
    ∃ text, formatSource (.program body) = .ok text ∧ Spells text.toList (statementsLexemes body) := by
  have hw := Writing.writes_statements fun s hs => by
    simpa using Writing.writes_statement (h s hs) "" [] (.inl ⟨rfl, rfl⟩) (absurd rfl)
  obtain ⟨texts, hrun, hlines⟩ := hw Page.blank
  refine ⟨_, formatSource_of_run hrun, ?_⟩
  have htext : (Page.mk (Page.blank.lines ++ texts.toArray) Page.blank.indent).text =
      "\n".intercalate texts := by
    simp [Page.text, Page.blank]
  rw [htext]
  by_cases ht : texts = []
  · subst ht
    rcases hlines with ⟨-, hnil⟩ | ⟨-, lines, he, -⟩
    · rw [hnil]
      exact .nil
    · cases he
  · rw [flatMap_lines ht] at hlines
    rcases hlines with ⟨he, -⟩ | ⟨-, lines, he, hs⟩
    · cases he
    · rw [show (Page.blank.margin).toList = [] from rfl] at he
      rwa [(List.cons.inj he).2]

end LocksetLang
