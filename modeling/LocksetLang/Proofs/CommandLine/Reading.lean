import LocksetLang.Proofs.CommandLine.Outcomes
import LocksetLang.Proofs.Source.RoundTrip
import LocksetLang.Proofs.Source.Strings

/-! Files that are written and read back. A reader takes every carriage return for the end of a line,
and a writer leaves them as they are. In the text of a program they can only stand in strings, and
these are not the same when they come back. -/

namespace LocksetLang

open Lexeme Source

section
variable {source text : String} {ss : List Node} {ts : List Token}

/-- A text as it comes back from the file that it was written to as a line. -/
def comingBack (text : String) : String := String.ofList (Text.unifyNewlines (text ++ "\n").toList)

theorem not_mem_comingBack (text : String) : '\r' ∉ (comingBack text).toList := by
  rw [comingBack, String.toList_ofList]
  exact Text.not_mem_unifyNewlines _

theorem comingBack_eq (h : '\r' ∉ text.toList) : comingBack text = text ++ "\n" := by
  rw [comingBack, Text.unifyNewlines_of_not_mem, String.ofList_toList]
  simpa using h

theorem parse_line {program : Node} (h : parse text = .ok program) :
    parse (text ++ "\n") = .ok program := by
  obtain ⟨body, place, ss, -, hscans, -, rfl, hd⟩ := scans_of_parse h
  have hline : Scans (text ++ "\n").toList (body.map Token.lexeme) := by
    simpa using hscans.append (.last .nil)
  exact (parse_iff_of_scans hline).2 ⟨ss, rfl, hd⟩

/-- The layout of a program comes back as a text with the same layout if, and only if, no string of it
has a carriage return. -/
theorem comingBack_iff (hp : parse source = .ok (.program ss))
    (hf : formatSource (.program ss) = .ok text) (hq : parse text = .ok (.program ss))
    (ht : tokenize source = .ok ts) :
    (∃ p, parse (comingBack text) = .ok p ∧ formatSource p = .ok text) ↔
      ∀ t ∈ ts, t.kind = .string → '\r' ∉ t.value.toList := by
  have hspells := spells_of_formatSource hp hf
  constructor
  · rintro ⟨p, hback, hlayout⟩ t hmem hk
    obtain ⟨body, place, ss', htback, hscans, -, rfl, -⟩ := scans_of_parse hback
    -- the layouts of both programs are one text, so they have the same strings
    have hlexemes : statementsLexemes ss = statementsLexemes ss' :=
      hspells.unique (spells_of_formatSource hback hlayout)
    obtain ⟨u, hu, huk, huv⟩ := (exists_string_iff hp ht t.value).1 ⟨t, hmem, hk, rfl⟩
    rw [hlexemes] at hu
    obtain ⟨v, hv, hvk, hvv⟩ := (exists_string_iff hback htback _).2 ⟨u, hu, huk, huv⟩
    rw [← hvv]
    exact fun hreturn => not_mem_comingBack text (value_subset_of_tokenize htback hv hvk hreturn)
  · intro hstrings
    have hreturn : '\r' ∉ text.toList := by
      refine hspells.not_mem_return fun u hu huk => ?_
      obtain ⟨t, ht', hk, hv⟩ := (exists_string_iff hp ht u.value).2 ⟨u, hu, huk, rfl⟩
      rw [← hv]
      exact hstrings t ht' hk
    rw [comingBack_eq hreturn]
    exact ⟨_, parse_line hq, hf⟩

end

namespace CommandLine
namespace Job

/-- A job that writes the layout of a text to a file. -/
def toFile (source path : String) : Job := ⟨source, true, some "source", some path, some 2⟩

def ofFile (path : String) : Job := ⟨path, false, some "source", none, some 2⟩

variable {job : Job} {source text path name : String} {program : Node} {site : Site} {w : World}

theorem rendered_eq_ok_iff (hf : job.format = some "source") :
    job.rendered source = .ok text ↔ ∃ p, parse source = .ok p ∧ formatSource p = .ok text := by
  unfold rendered
  cases hp : parse source with
  | error fault =>
    refine iff_of_false nofun ?_
    rintro ⟨p, h, -⟩
    cases h
  | ok program =>
    obtain ⟨body, place, ss, -, -, -, rfl, -⟩ := scans_of_parse hp
    have hrender : renderFor job.format job.indent (.program ss) = formatSource (.program ss) := by
      rw [hf, renderFor, render_source]
    dsimp only [bind, Except.bind, Except.mapError]
    rw [hrender]
    cases hl : formatSource (.program ss) with
    | error fault => simp [hl]
    | ok layout => simp [hl]

theorem textIn_eq_ok_iff (hf : job.format = some "source") (hs : job.sourceIn site w = .ok source) :
    job.textIn site w = .ok text ↔ ∃ p, parse source = .ok p ∧ formatSource p = .ok text := by
  rw [textIn_eq, hs]
  exact rendered_eq_ok_iff hf

/-- What is shown of a file is the layout of the text as it comes back. -/
theorem outcome_ofFile (hext : extension.toList.isSuffixOf path.toList)
    (hn : site.locate .reading path = .ok name)
    (hc : w.files name = some (written text).toUTF8) {layout : String} :
    ((ofFile path).outcome site w).1 = .ok layout ↔
      (∃ p, parse (comingBack text) = .ok p ∧ formatSource p = .ok layout) ∧
        (site.strict → Text.Encodable site.standIns (written layout)) := by
  have hcontent : site.contentAt w path = .ok (written text).toUTF8 := by
    rw [Site.contentAt, hn]
    dsimp only [bind, Except.bind]
    rw [hc]
    rfl
  have hsource : (ofFile path).sourceIn site w = .ok (comingBack text) :=
    sourceIn_of_file (path?_of_file rfl hext) hcontent
  have htext : (ofFile path).textIn site w = .ok layout ↔ _ := textIn_eq_ok_iff rfl hsource
  have hdest : (ofFile path).destination? = none := rfl
  rw [outcome_eq_ok_iff, htext, hdest]

end Job

/-- A layout that is written to a file is the layout of the file if, and only if, no string of the
text has a carriage return. Both commands need a text that has bytes. -/
theorem read_back_iff {source text name : String} {program q : Node} {ts : List Token}
    (hp : parse source = .ok program) (hf : formatSource program = .ok text)
    (hq : parse text = .ok q) (hsame : q.same program) (ht : tokenize source = .ok ts)
    {site : Site} (hwriting : site.locate .writing "f.lks" = .ok name)
    (hreading : site.locate .reading "f.lks" = .ok name) (w : World) :
    let first := (Job.toFile source "f.lks").outcome site w
    let second := (Job.ofFile "f.lks").outcome site first.2
    (first.1 = .ok text ↔ Text.Encodable site.standIns (text ++ "\n")) ∧
      (first.1 = .ok text → (second.1 = .ok text ↔
        ∀ t ∈ ts, t.kind = .string → '\r' ∉ t.value.toList)) := by
  obtain ⟨body, place, ss, -, -, -, rfl, -⟩ := scans_of_parse hp
  have hplain := isPlainStatement_of_parse hp
  have hself : q = .program ss := by
    have hsame := (parse_same_iff (fun s hs => (hplain s hs).1) (spells_of_formatSource hp hf)).1
      ⟨hq, hsame⟩
    rw [hsame.1, Node.plainAll_eq_self fun s hs => (hplain s hs).2]
  subst hself
  intro first second
  have htext : (Job.toFile source "f.lks").textIn site w = .ok text :=
    (Job.textIn_eq_ok_iff rfl (Job.sourceIn_of_text rfl)).2 ⟨_, hp, hf⟩
  have hdest : (Job.toFile source "f.lks").destination? = some "f.lks" :=
    Job.destination?_of_out rfl (by decide)
  have hfirst : first.1 = .ok text ↔ Text.Encodable site.standIns (text ++ "\n") := by
    rw [Job.outcome_eq_ok_iff, hdest]
    simp [htext, hwriting, Job.written]
  refine ⟨hfirst, fun hok => ?_⟩
  have hencodable : Text.Encodable site.standIns (Job.written text) := hfirst.1 hok
  have hwritten : first.2.files name = some (Job.written text).toUTF8 := by
    rw [show first = _ from Job.outcome_written htext hdest hwriting hencodable]
    exact World.put_self
  rw [show second.1 = .ok text ↔ _ from Job.outcome_ofFile (by decide) hreading hwritten,
    and_iff_left fun _ => hencodable]
  exact comingBack_iff hp hf hq ht

/-- A string with a newline in it comes back as it was. -/
theorem newline_read_back :
    let site := Site.flat fun _ => none
    let first := (Job.toFile "'\n'" "f.lks").outcome site .blank
    let second := (Job.ofFile "f.lks").outcome site first.2
    parse "'\n'" = .ok (.program [.string "\n"]) ∧
      formatSource (.program [.string "\n"]) = .ok "\"\n\"" ∧
      parse "\"\n\"" = .ok (.program [.string "\n"]) ∧
      (Node.program [.string "\n"]).same (.program [.string "\n"]) ∧
      first.1 = .ok "\"\n\"" ∧ second.1 = .ok "\"\n\"" := by
  intro site first second
  have ht : tokenize "'\n'" = .ok [⟨.string, "\n", ⟨1, 1⟩⟩, Cursor.endToken ⟨2, 2⟩] := by
    decide +kernel
  have htext : tokenize "\"\n\"" = .ok [⟨.string, "\n", ⟨1, 1⟩⟩, Cursor.endToken ⟨2, 2⟩] := by
    decide +kernel
  have hp : parse "'\n'" = .ok (.program [.string "\n"]) := by
    rw [parse, ht]
    rfl
  have hq : parse "\"\n\"" = .ok (.program [.string "\n"]) := by
    rw [parse, htext]
    rfl
  have hf : formatSource (.program [.string "\n"]) = .ok "\"\n\"" := rfl
  have hsame : (Node.program [.string "\n"]).same (.program [.string "\n"]) := by decide +kernel
  have hplace : ∀ access, site.locate access "f.lks" = .ok "f.lks" := fun _ => rfl
  obtain ⟨hfirst, hsecond⟩ :=
    read_back_iff hp hf hq hsame ht (hplace .writing) (hplace .reading) .blank
  have hok := hfirst.2 fun _ _ => rfl
  exact ⟨hp, hf, hq, hsame, hok, (hsecond hok).2 (by decide)⟩

/-- A string with a carriage return in it comes back with a newline. -/
theorem carriage_return_not_read_back :
    let site := Site.flat fun _ => none
    let first := (Job.toFile "\"a\rb\"" "f.lks").outcome site .blank
    let second := (Job.ofFile "f.lks").outcome site first.2
    ∃ program text, parse "\"a\rb\"" = .ok program ∧ formatSource program = .ok text ∧
      parse text = .ok program ∧ program.same program ∧
      first.1 = .ok text ∧ second.1 = .ok "\"a\nb\"" ∧ text ≠ "\"a\nb\"" := by
  intro site first second
  have ht : tokenize "\"a\rb\"" = .ok [⟨.string, "a\rb", ⟨1, 1⟩⟩, Cursor.endToken ⟨1, 6⟩] := by
    decide +kernel
  have hp : parse "\"a\rb\"" = .ok (.program [.string "a\rb"]) := by
    rw [parse, ht]
    rfl
  have hf : formatSource (.program [.string "a\rb"]) = .ok "\"a\rb\"" := rfl
  have hback : comingBack "\"a\rb\"" = "\"a\nb\"\n" := by decide +kernel
  have htback : tokenize "\"a\nb\"\n" =
      .ok [⟨.string, "a\nb", ⟨1, 1⟩⟩, Cursor.endToken ⟨3, 1⟩] := by decide +kernel
  have hpback : parse (comingBack "\"a\rb\"") = .ok (.program [.string "a\nb"]) := by
    rw [hback, parse, htback]
    rfl
  have hfirst : first = (.ok "\"a\rb\"", World.blank.put "f.lks" (Job.written "\"a\rb\"").toUTF8) :=
    Job.outcome_written ((Job.textIn_eq_ok_iff rfl (Job.sourceIn_of_text rfl)).2 ⟨_, hp, hf⟩)
      (Job.destination?_of_out rfl (by decide)) rfl fun _ _ => rfl
  have hwritten : first.2.files "f.lks" = some (Job.written "\"a\rb\"").toUTF8 := by
    rw [hfirst]
    exact World.put_self
  exact ⟨_, _, hp, hf, hp, by decide +kernel, congrArg Prod.fst hfirst,
    (Job.outcome_ofFile (by decide) rfl hwritten).2 ⟨⟨_, hpback, rfl⟩, fun _ _ _ => rfl⟩, by decide⟩

end CommandLine
end LocksetLang
