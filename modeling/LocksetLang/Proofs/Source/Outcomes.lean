import LocksetLang.Proofs.Grammar.EarliestFault
import LocksetLang.Proofs.Source.Formatting
import LocksetLang.Proofs.Source.Parsed

/-! What can come of a text. Reading it never goes past its ends, every number in it is a numeral, and
there is depth enough, so a text is refused for what is wrong with it, or else it is a well-formed
program. Such a program can be rendered for every target. -/

namespace LocksetLang

open Lexeme Grammar LocksetLang.Parser

namespace Cursor

variable {c d : Cursor} {f : LexicalFault}

theorem nextToken_fault (h : c.nextToken = (.error f, d)) : f.faultClass.isMalformed := by
  unfold nextToken at h
  dsimp only at h
  split at h
  · cases h
  next ch rest hrest =>
    split_ifs at h with hw hd hq
    · cases h
    · simp only [readNumber] at h
      split_ifs at h
      · obtain ⟨rfl, -⟩ := (Prod.mk.inj h).imp_left Except.error.inj
        rfl
      · cases h
    · simp only [readString, hrest] at h
      split at h
      · cases h
      · obtain ⟨rfl, -⟩ := (Prod.mk.inj h).imp_left Except.error.inj
        rfl
    · split at h <;> cases h

theorem tokens_fault (h : c.tokens = .error f) : f.faultClass.isMalformed := by
  induction c using Cursor.tokens.induct with
  | case1 c fault d hn =>
    rw [Cursor.tokens] at h
    split at h
    · next h' =>
      obtain rfl := Except.error.inj h
      exact nextToken_fault h'
    · next h' => rw [hn] at h'; cases h'
  | case2 c t d hn ht =>
    rw [tokens_of_end hn ht] at h
    cases h
  | case3 c t d hn ht ih =>
    rw [tokens_of_more hn ht] at h
    cases hd : d.tokens with
    | error g =>
      rw [hd] at h
      obtain rfl := Except.error.inj h
      exact ih hd
    | ok ts => rw [hd] at h; cases h

end Cursor

variable {source : String} {ts : List Token} {program : Node}

theorem parseTokens_fault {f : ParseFault} (ht : tokenize source = .ok ts)
    (h : parseTokens ts = .error f) : f.faultClass.isMalformed ∧ f.token?.isSome := by
  obtain ⟨body, last, rfl, hlast, hbody⟩ := tokens_written ht
  have hl : last.kind = .endOfInput := congrArg Lexeme.kind hlast
  obtain ⟨left, hp⟩ := program_fault_of_parseTokens hl h
  obtain ⟨used, rest, rfl, ha, -⟩ := (program_halts hl).fault hp
  cases f with
  | unexpected | constantWithoutValue | parameterNotName | numberTooLarge => exact ⟨rfl, rfl⟩
  | numberMisspelt t =>
    obtain ⟨hmem, hk, hx⟩ := ha
    obtain ⟨n, hn⟩ := (hbody t (List.mem_append_left _ hmem)).classed.numeral hk
    rw [show t.value = String.ofList n.chars from hn, Binary64.ofText?_chars] at hx
    cases hx
  | noEnd | noToken | noIndex | endless => exact ha.elim

theorem parse_fault {fault : SourceFault} (h : parse source = .error fault) :
    fault.faultClass.isMalformed := by
  rw [parse] at h
  cases ht : tokenize source with
  | error f =>
    rw [ht] at h
    obtain rfl := Except.error.inj h
    exact Cursor.tokens_fault ht
  | ok ts =>
    rw [ht] at h
    dsimp only at h
    cases hp : parseTokens ts with
    | ok p => rw [hp] at h; cases h
    | error f =>
      rw [hp] at h
      obtain rfl := Except.error.inj h
      exact (parseTokens_fault ht hp).1

theorem isIndex_iff {n : Int} :
    isIndex n ↔ -0x8000000000000000 ≤ n ∧ n < 0x8000000000000000 := by
  rw [isIndex, Bool.and_eq_true, decide_eq_true_eq, decide_eq_true_eq]

theorem render_of_contains {name : String} (h : targetNames.contains (Text.lowercase name))
    (indent : Option Int) (program : Node) :
    render name indent program =
      (Renderer.render ⟨Text.lowercase name, indent, Renderer.blankSheet (Text.lowercase name)⟩
        program).1 := by
  simp only [render, Renderer.ofTarget?, h, if_true]
  rfl

/-- Of the name of a target it only matters whether it means source text or JSON. -/
theorem render_target {name : String} (h : targetNames.contains (Text.lowercase name))
    (indent : Option Int) (body : List Node) :
    render name indent (.program body) =
      if Text.lowercase name = "json" then jsonText indent (.program body)
      else formatSource (.program body) := by
  have hsource : Text.lowercase "source" = "source" := by decide +kernel
  rw [formatSource, render_of_contains h, render_of_contains (by rw [hsource]; decide), hsource]
  split_ifs with hj
  · cases hjson : jsonText indent (.program body) with
    | error fault | ok text =>
      simp [hj, Renderer.blankSheet, Renderer.render, Node.isProgram, Renderer.visit, hjson,
        Except.map, Sheet.text]
  · simp [hj, Renderer.blankSheet, Renderer.render, Node.isProgram, Renderer.visit]

theorem render_source (indent : Option Int) (body : List Node) :
    render "source" indent (.program body) = formatSource (.program body) := by
  have h : Text.lowercase "source" = "source" := by decide +kernel
  rw [render_target (by rw [h]; decide), h, if_neg (by decide)]

theorem render_json_eq (indent : Option Int) (body : List Node) :
    render "json" indent (.program body) = jsonText indent (.program body) := by
  have h : Text.lowercase "json" = "json" := by decide +kernel
  rw [render_target (by rw [h]; decide), if_pos h]

theorem render_json_document {indent : Option Int} (hi : ∀ n ∈ indent, isIndex n)
    (body : List Node) :
    render "json" indent (.program body) = .ok ((Node.program body).document.json indent) := by
  rw [render_json_eq, jsonText, if_pos ((Option.all_eq_true _ _).2 hi)]

theorem document_of_render_json {indent : Option Int} {body : List Node} {text : String}
    (h : render "json" indent (.program body) = .ok text) :
    text = (Node.program body).document.json indent := by
  rw [render_json_eq, jsonText] at h
  split_ifs at h
  exact (Except.ok.inj h).symm

/-- The program of a text can be rendered for every target that there is. -/
theorem renders_of_parse {name : String} {indent : Option Int} {body : List Node}
    (h : parse source = .ok (.program body)) (hn : targetNames.contains (Text.lowercase name))
    (hi : ∀ n ∈ indent, isIndex n) : ∃ text, render name indent (.program body) = .ok text := by
  rw [render_target hn]
  split_ifs
  · rw [← render_json_eq]
    exact ⟨_, render_json_document hi body⟩
  · obtain ⟨text, htext, -⟩ := formatSource_spells fun s hs => (isPlainStatement_of_parse h s hs).1
    exact ⟨text, htext⟩

/-- A text is refused for what is wrong with it, or holds a program that can be rendered, as source
text and as JSON with any indentation that is an index. -/
theorem parse_renders (source : String) :
    (∃ fault, parse source = .error fault ∧ fault.faultClass.isMalformed) ∨
      ∃ program, parse source = .ok program ∧ program.WellFormed ∧
        (∀ indent, ∃ text, render "source" indent program = .ok text) ∧
        ∀ indent : Option Int, (∀ n ∈ indent, -0x8000000000000000 ≤ n ∧ n < 0x8000000000000000) →
          ∃ text, render "json" indent program = .ok text := by
  cases h : parse source with
  | error fault => exact .inl ⟨fault, rfl, parse_fault h⟩
  | ok program =>
    right
    obtain ⟨-, -, ss, -, -, -, rfl, -⟩ := derives_of_parse h
    have hs : ∀ s ∈ ss, s.IsStatement := fun s hs => (isPlainStatement_of_parse h s hs).1
    obtain ⟨text, htext, -⟩ := formatSource_spells hs
    exact ⟨.program ss, rfl, hs, fun indent => ⟨text, (render_source indent ss).trans htext⟩,
      fun indent hi => ⟨_, render_json_document (fun n hn => isIndex_iff.2 (hi n hn)) ss⟩⟩

/-- An indentation that is no index is refused. -/
theorem huge_indent_refused :
    parse "" = .ok (.program []) ∧
      ¬ ∃ text, render "json" (some (-0x8000000000000001)) (.program []) = .ok text := by
  have hempty : tokenize "" = .ok [Cursor.endToken Place.start] := by decide +kernel
  refine ⟨by rw [parse, hempty]; rfl, fun ⟨text, htext⟩ => ?_⟩
  rw [render_json_eq] at htext
  cases htext

end LocksetLang
