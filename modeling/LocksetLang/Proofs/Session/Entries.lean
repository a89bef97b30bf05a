import LocksetLang.Proofs.Session.Separation
import LocksetLang.Proofs.Source.Outcomes
import LocksetLang.Proofs.Token.Stripping

/-! Programs that are typed as one entry. The parser sees an entry without the blanks around it, which
makes no difference to it, but an entry that starts with a hash does not get that far: it passes for
a comment, though only its first line is one. -/

namespace LocksetLang

/-- A text is the same program without the blanks around it. -/
theorem parse_strip {source : String} {program : Node} (h : parse source = .ok program) :
    parse (Text.strip source) = .ok program := by
  obtain ⟨body, place, ss, -, hscans, -, rfl, hd⟩ := scans_of_parse h
  exact (parse_iff_of_scans (hscans.strip hd.kind_ne_unknown)).2 ⟨ss, rfl, hd⟩

namespace Session

variable {frames : Frames} {target : Option String} {s : State} {p : Pending}
  {lines : List String} {entry : String}

/-- Lines are added to a pending entry one by one, each as long as more are asked for, and the last of
them leads to `r`. -/
inductive Pending.Takes : Pending → List String → Progress → Prop where
  | last {p : Pending} {line : String} {r : Progress} (h : p.add line = r) : Takes p [line] r
  | more {p q : Pending} {line : String} {lines : List String} {r : Progress}
    (h : p.add line = .more q) (ht : Takes q lines r) : Takes p (line :: lines) r

theorem Pending.add_more {q : Pending} {line : String} (h : p.add line = .more q) :
    q.lines = p.lines ++ [line] := by
  unfold Pending.add at h
  dsimp only at h
  split_ifs at h
  obtain rfl := Progress.more.inj h
  rfl

theorem Pending.add_entry {line : String} (h : p.add line = .entry entry) :
    entry = Text.strip ("\n".intercalate (p.lines ++ [line])) := by
  unfold Pending.add at h
  dsimp only at h
  split_ifs at h
  exact (Progress.entry.inj h).symm

/-- An entry is made of its lines. -/
theorem Pending.Takes.entry_eq (h : p.Takes lines (.entry entry)) :
    entry = Text.strip ("\n".intercalate (p.lines ++ lines)) := by
  generalize hr : Progress.entry entry = r at h
  induction h with
  | last h =>
    subst hr
    exact Pending.add_entry h
  | more h _ ih => rw [ih hr, Pending.add_more h, List.append_assoc, List.singleton_append]

def Pending.prompts (p : Pending) (lines : List String) : String :=
  p.prompt ++ String.join (List.replicate (lines.length - 1) "... ")

/-- The lines of an entry show what the entry shows, behind a prompt for each of them. -/
theorem runThrough_of_takes (h : s.pending.Takes lines (.entry entry)) :
    runThrough frames target s (lines.map .line) =
      (s.pending.prompts lines ++ (answer frames target { s with pending := .empty } entry).1,
        (answer frames target { s with pending := .empty } entry).2) := by
  generalize hp : s.pending = p at h
  generalize hr : Progress.entry entry = r at h
  induction h generalizing s with
  | @last p line r h =>
    subst hp hr
    have hstep : step frames target s (.line line) =
        answer frames target { s with pending := .empty } entry := by
      rw [step, h]
    rw [List.map_singleton, runThrough, hstep]
    cases answer frames target { s with pending := .empty } entry with
    | mk shown next => cases next <;> simp [runThrough, Pending.prompts]
  | @more p q line lines r h ht ih =>
    subst hp
    have hstep : step frames target s (.line line) = ("", some { s with pending := q }) := by
      rw [step, h]
    have hq : q.prompt = "... " := by simp [Pending.prompt, Pending.add_more h]
    obtain ⟨n, hn⟩ : ∃ n, lines.length = n + 1 := by cases ht <;> exact ⟨_, rfl⟩
    rw [List.map_cons, runThrough, hstep]
    dsimp only
    rw [ih rfl hr]
    simp [Pending.prompts, hq, hn, List.replicate_succ, String.append_assoc]

/-- The text of a program as a session shows it. -/
def echo (verbose : Bool) (program : Node) (text : String) : String :=
  text ++ "\n" ++ if verbose then "[ast] >>>\n" ++ program.document.json (some 2) ++ "\n" else ""

theorem echo_ne_empty (verbose : Bool) (program : Node) (text : String) :
    echo verbose program text ≠ "" := by
  intro h
  simpa [echo] using congrArg String.length h

theorem replyTo_program {fmt text : String} {body : List Node}
    (h : render fmt (some 2) (.program body) = .ok text) (hb : body ≠ []) (s : State) :
    replyTo frames (some fmt) s (.ok (.program body)) =
      (echo s.verbose (.program body) text, some s) := by
  obtain ⟨first, rest, rfl⟩ := List.exists_cons_of_ne_nil hb
  rw [replyTo, shown, renderFor, h]
  · rfl
  · rintro ⟨⟩

/-- A program that is typed as one entry is shown, and the session goes on as before, if, and only if,
the entry neither starts with a hash nor changes the mode. -/
theorem program_shown_iff (frames : Frames) {fmt : String} {body : List Node}
    (hf : targetNames.contains (Text.lowercase fmt)) (hs : s.pending = .empty)
    (ht : Pending.empty.Takes lines (.entry entry))
    (hp : parse ("\n".intercalate lines) = .ok (.program body)) (hb : body ≠ []) :
    ∃ text, render fmt (some 2) (.program body) = .ok text ∧
      ((∃ t : State, t.Alike s ∧ runThrough frames (some fmt) s (lines.map .line) =
          (Pending.empty.prompts lines ++ echo s.verbose (.program body) text, some t)) ↔
        entry.toList.head? ≠ some '#' ∧ changesMode entry = false) := by
  have hindent : ∀ n ∈ some (2 : Int), isIndex n := by decide
  obtain ⟨text, htext⟩ := renders_of_parse hp hf hindent
  have hentry : entry = Text.strip ("\n".intercalate lines) := ht.entry_eq
  have hparse : parse entry = .ok (.program body) := hentry ▸ parse_strip hp
  have hne : entry.isEmpty = false := by
    rw [← Bool.not_eq_true, String.isEmpty_iff]
    rintro rfl
    have hempty : tokenize "" = .ok [Cursor.endToken Place.start] := by decide +kernel
    rw [parse, hempty] at hparse
    exact hb (Node.program.inj (Except.ok.inj hparse)).symm
  refine ⟨text, htext, ?_⟩
  rw [runThrough_of_takes (hs ▸ ht), hs, answer_eq]
  by_cases hash : entry.toList.head? = some '#'
  · rw [if_pos (by simp [hash])]
    refine iff_of_false ?_ fun h => h.1 hash
    rintro ⟨t, -, h⟩
    rw [Prod.mk.injEq, String.append_right_inj] at h
    exact echo_ne_empty _ _ _ h.1.symm
  rw [if_neg (by simp [hne, hash])]
  cases hmode : changesMode entry with
  | true =>
    rw [if_pos rfl]
    refine iff_of_false ?_ fun h => absurd h.2 (by decide)
    rintro ⟨t, halike, h⟩
    obtain rfl := Option.some.inj (Prod.mk.inj h).2
    exact Bool.not_ne_self _ halike.verbose_eq
  | false =>
    rw [if_neg Bool.false_ne_true, hparse, replyTo_program htext hb]
    have halike : State.Alike ⟨s.verbose, .empty, (s.parser.parse entry).2⟩ s := ⟨rfl, hs.symm⟩
    exact iff_of_true ⟨_, halike, rfl⟩ ⟨hash, rfl⟩

theorem object_shown :
    let frames : Frames := fun faultClass _ => "  " ++ faultClass ++ "\n"
    let lines := [r"a = {", r" } # b "]
    let entry := "\n".intercalate [r"a = {", r" } # b"]
    let program : Node := .program [.assignment (.identifier "a") (.object [])]
    targetNames.contains (Text.lowercase "JSON") ∧ Pending.empty.Takes lines (.entry entry) ∧
      parse ("\n".intercalate lines) = .ok program ∧ entry.toList.head? ≠ some '#' ∧
      changesMode entry = false ∧
      ∃ text, render "JSON" (some 2) program = .ok text ∧ ∃ t : State, t.Alike (start true) ∧
        runThrough frames (some "JSON") (start true) (lines.map .line) =
          (Pending.empty.prompts lines ++ echo true program text, some t) := by
  intro frames lines entry program
  have hf : targetNames.contains (Text.lowercase "JSON") := by decide +kernel
  have ht : Pending.empty.Takes lines (.entry entry) :=
    .more (Eq.refl (Progress.more ⟨[r"a = {"], 1⟩)) (.last rfl)
  have hp : parse ("\n".intercalate lines) = .ok program := by
    have h : tokenize ("\n".intercalate lines) = .ok [⟨.identifier, "a", ⟨1, 1⟩⟩,
        ⟨.equals, "=", ⟨1, 3⟩⟩, ⟨.leftBrace, r"{", ⟨1, 5⟩⟩, ⟨.rightBrace, r"}", ⟨2, 2⟩⟩,
        Cursor.endToken ⟨2, 8⟩] := by decide +kernel
    rw [parse, h]
    rfl
  have hplain : entry.toList.head? ≠ some '#' ∧ changesMode entry = false := by decide +kernel
  obtain ⟨text, htext, hiff⟩ :=
    program_shown_iff frames hf (Eq.refl (start true).pending) ht hp (List.cons_ne_nil _ _)
  exact ⟨hf, ht, hp, hplain.1, hplain.2, text, htext, hiff.2 hplain⟩

/-- A comment with a brace in it, and a program behind it. -/
theorem program_behind_comment_not_shown :
    let frames : Frames := fun faultClass _ => "  " ++ faultClass ++ "\n"
    let lines := [r"#{", r"x#}"]
    let entry := "\n".intercalate lines
    Pending.empty.Takes lines (.entry entry) ∧ changesMode entry = false ∧
      parse entry = .ok (.program [.identifier "x"]) ∧
      render "source" (some 2) (.program [.identifier "x"]) = .ok "x" ∧
      (runThrough frames (some "source") (start false) (lines.map .line)).1 ≠
        Pending.empty.prompts lines ++ echo false (.program [.identifier "x"]) "x" := by
  intro frames lines entry
  have h : tokenize entry = .ok [⟨.identifier, "x", ⟨2, 1⟩⟩, Cursor.endToken ⟨2, 4⟩] := by
    decide +kernel
  have ht : Pending.empty.Takes lines (.entry entry) :=
    .more (Eq.refl (Progress.more ⟨[r"#{"], 1⟩)) (.last rfl)
  refine ⟨ht, by decide +kernel, ?_, rfl, by decide +kernel⟩
  rw [parse, h]
  rfl

end Session
end LocksetLang
