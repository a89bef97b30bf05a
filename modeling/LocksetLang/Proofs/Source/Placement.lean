import LocksetLang.Proofs.Source.Visits

/-! Where a statement stands on a page. Its lines are those that it has on a blank page, below all
that is there and moved to the right by the margin, and behind it the level is the old one again.
What has line breaks in it, as a string may, is moved as one line. -/

namespace LocksetLang

attribute [ext] Page

namespace Page

/-- The lines of `q` below those of `p`, at the margin of `p`. -/
instance : Append Page where
  append p q := ⟨p.lines ++ q.lines.map (p.margin ++ ·), p.indent + q.indent⟩

variable {p q : Page}

theorem lines_append (p q : Page) : (p ++ q).lines = p.lines ++ q.lines.map (p.margin ++ ·) := rfl

theorem indent_append (p q : Page) : (p ++ q).indent = p.indent + q.indent := rfl

theorem append_blank (p : Page) : p ++ blank = p := by
  ext1
  · simp [lines_append, blank]
  · simp [indent_append, blank]

/-- Margins add up, since none of them is cut off at the left edge. -/
theorem margin_append (hp : 0 ≤ p.indent) (hq : 0 ≤ q.indent) :
    (p ++ q).margin = p.margin ++ q.margin := by
  have hsum : (4 * (p.indent + q.indent)).toNat = (4 * p.indent).toNat + (4 * q.indent).toNat := by
    omega
  rw [margin, margin, margin, indent_append, hsum, ← String.ofList_append,
    List.replicate_append_replicate]

end Page

namespace Writing

open Page

variable {α β : Type} {w : Writing α} {f : α → Writing β} {p q : Page} {k l : Int}

theorem run_bind_eq_ok {b : β} (h : (w >>= f).run p = (.ok b, q)) :
    ∃ a r, w.run p = (.ok a, r) ∧ (f a).run r = (.ok b, q) :=
  Outcome.run_bind_eq_ok (f := fun a => f a true) h

/-- The writing takes no notice of a page that its own is put below, and ends `levels` levels deeper
than it starts. Where there can be no margin, it only gets to its end if it needs none. -/
structure Movable (levels : Int) (w : Writing α) : Prop where
  run_append : ∀ {p q : Page}, 0 ≤ p.indent → 0 ≤ q.indent →
    w.run (p ++ q) = ((w.run q).1, p ++ (w.run q).2)
  deepens : ∀ {q r : Page} {a : α}, w.run q = (.ok a, r) → r.indent = q.indent + levels
  unspaced : ∀ {q r : Page} {a : α}, (w false).run q = (.ok a, r) → w.run q = (.ok a, r)

/-- The second writing has to start at a level from zero upwards like the first one. -/
theorem Movable.bind (hk : 0 ≤ k) (hw : w.Movable k) (hf : ∀ a, (f a).Movable l) :
    (w >>= f).Movable (k + l) where
  run_append {p q} hp hq := by
    have hmoved := hw.run_append hp hq
    rcases hrun : w.run q with ⟨fault | a, r⟩
    · rw [hrun] at hmoved
      rw [run_bind_fault hmoved, run_bind_fault hrun]
    · rw [hrun] at hmoved
      have hr : 0 ≤ r.indent := by
        rw [hw.deepens hrun]
        exact add_nonneg hq hk
      rw [run_bind hmoved, run_bind hrun, (hf a).run_append hp hr]
  deepens {q r b} h := by
    obtain ⟨a, q', hw', hf'⟩ := run_bind_eq_ok h
    rw [(hf a).deepens hf', hw.deepens hw', add_assoc]
  unspaced {q r b} h := by
    obtain ⟨a, q', hw', hf'⟩ := Outcome.run_bind_eq_ok (f := fun a => f a false) h
    rw [run_bind (hw.unspaced hw'), (hf a).unspaced hf']

theorem Movable.before (hw : w.Movable 0) (hf : ∀ a, (f a).Movable l) : (w >>= f).Movable l := by
  simpa using hw.bind le_rfl hf

theorem Movable.then {v w : Writing Unit} (hv : v.Movable 0) (hw : w.Movable l) :
    Movable l (do v; w) :=
  hv.before fun _ => hw

theorem movable_return (a : α) : Movable 0 (return a) where
  run_append _ _ := rfl
  deepens h := by
    cases h
    exact (add_zero _).symm
  unspaced h := h

theorem movable_throw (fault : PrintFault) : Movable 0 (throw fault : Writing α) where
  run_append _ _ := rfl
  deepens h := by cases h
  unspaced h := h

theorem movable_line (text : String) : (line text).Movable 0 where
  run_append {p q} hp hq := by
    rw [run_line, run_line, margin_append hp hq, Prod.mk.injEq]
    refine ⟨rfl, Page.ext ?_ rfl⟩
    simp [lines_append, String.append_assoc]
  deepens h := by
    cases h
    exact (add_zero _).symm
  unspaced h := by cases h

theorem movable_shift (levels : Int) : (shift levels).Movable levels where
  run_append {p q} _ _ := by
    rw [run_shift, run_shift, Prod.mk.injEq]
    exact ⟨rfl, Page.ext rfl (add_assoc _ _ _)⟩
  deepens h := by
    cases h
    rfl
  unspaced h := h

theorem movable_expression (n : Node) : (expression n).Movable 0 where
  run_append _ _ := rfl
  deepens h := by
    rw [← (Prod.mk.inj h).2]
    exact (add_zero _).symm
  unspaced h := h

def block (ns : List Node) : Writing Unit := do
  shift 1
  statements ns
  shift (-1)

theorem Movable.block {ns : List Node} (h : (statements ns).Movable 0) : (block ns).Movable 0 := by
  -- the way back comes last, where nothing more is written that could start below zero
  have hshifts : (Writing.block ns).Movable (1 + -1) :=
    (movable_shift 1).bind (by decide) fun _ => h.then (movable_shift (-1))
  rwa [add_neg_cancel] at hshifts

section
variable {lead name : String} {parameters : List String} {condition : Node}
  {body consequent : List Node} {alternate : Option (List Node)}

theorem statement_function :
    statement lead (.function name parameters body) = (do
      line ("fun " ++ name ++ "(" ++ ", ".intercalate parameters ++ r") {")
      block body
      line r"}") := by
  rw [statement, block]
  simp only [bind_assoc]

theorem statement_conditional :
    statement lead (.conditional condition consequent alternate) = (do
      line (lead ++ "if " ++ (← expression condition) ++ r" {")
      block consequent
      branch alternate) := by
  rw [statement, block]
  simp only [bind_assoc]

/-- The other branch is a block, unless it is a conditional alone. -/
theorem branch_some (h : ∀ n, body = [n] → n.isConditional = false) :
    branch (some body) = (do
      line r"} else {"
      block body
      line r"}") := by
  rw [block]
  simp only [bind_assoc]
  rcases body with - | ⟨n, - | ⟨m, ns⟩⟩
  · rw [branch]
    simp
  · rw [branch, h n rfl, statements, statements]
    simp
  · rw [branch]
    simp

end

theorem run_expressionLine_fault {n : Node} {fault : PrintFault}
    (h : Source.expression 0 n = .error fault) (p : Page) :
    (expressionLine n).run p = (.error fault, p) := by
  have hn : (expression n).run p = (.error fault, p) := congrArg (·, p) h
  rw [expressionLine, run_bind (show margin.run p = (.ok p.margin, p) from rfl), run_bind_fault hn]

theorem movable_expressionLine (n : Node) : (expressionLine n).Movable 0 := by
  cases h : Source.expression 0 n with
  | ok text =>
    rw [expressionLine_eq h]
    exact movable_line text
  | error fault =>
    have hrun := run_expressionLine_fault h
    refine ⟨fun _ _ => by rw [hrun, hrun], fun hok => ?_, fun hok => by cases hok⟩
    rw [hrun] at hok
    cases hok

theorem Movable.enclosed {v : Writing Unit} (hv : v.Movable 0) (opening closing : String) :
    Movable 0 (do line opening; v; line closing) :=
  (movable_line opening).then (hv.then (movable_line closing))

mutual

/-- A statement can be moved, whatever stands in it. -/
theorem movable_statement (lead : String) : (n : Node) → (statement lead n).Movable 0
  | .program body => by
    rw [statement]
    exact movable_statements body
  | .declaration name constant none => by
    rw [statement]
    exact movable_line _
  | .declaration name constant (some value) => by
    rw [statement]
    exact (movable_expression value).before fun _ => movable_line _
  | .function name parameters body => by
    rw [statement_function]
    exact (movable_statements body).block.enclosed _ _
  | .conditional condition consequent alternate => by
    rw [statement_conditional]
    exact (movable_expression condition).before fun _ =>
      (movable_line _).then ((movable_statements consequent).block.then (movable_branch alternate))
  | .property _ none => movable_return ()
  | .property _ (some value) => by
    rw [statement]
    exact (movable_expression value).before fun _ => movable_return ()
  | .bare => movable_throw _
  | .assignment .. | .object _ | .binary .. | .equality .. | .call .. | .member .. | .identifier _
  | .number _ | .string _ => movable_expressionLine _

theorem movable_statements : (ns : List Node) → (statements ns).Movable 0
  | [] => movable_return ()
  | n :: ns => by
    rw [statements]
    exact (movable_statement "" n).then (movable_statements ns)

theorem movable_branch : (alternate : Option (List Node)) → (branch alternate).Movable 0
  | none => movable_line _
  | some [] => by
    rw [branch_some (by simp)]
    exact (movable_statements []).block.enclosed _ _
  | some [n] => by
    cases hn : n.isConditional with
    | true =>
      rw [branch, if_pos hn]
      exact movable_statement _ n
    | false =>
      rw [branch_some (by simpa using hn)]
      exact (movable_statements [n]).block.enclosed _ _
  | some (n :: m :: ns) => by
    rw [branch_some (by simp)]
    exact (movable_statements (n :: m :: ns)).block.enclosed _ _

end

/-- What is written on a page is what is written on a blank one, put below the page. -/
theorem Movable.run_eq (hw : w.Movable k) (hp : 0 ≤ p.indent) :
    w.run p = ((w.run blank).1, p ++ (w.run blank).2) := by
  have h := hw.run_append hp (q := blank) le_rfl
  rwa [append_blank] at h

end Writing

namespace Page

open Writing

variable {p q : Page} {w : Writing Unit}

theorem run_of_write (hw : w.Movable 0) (h : p.write w = (.ok (), q)) : w.run p = (.ok (), q) := by
  cases hp : isIndex p.indent with
  | true => rwa [write_eq_run hp] at h
  | false =>
    rw [write, hp] at h
    exact hw.unspaced h

end Page

/-- The lines that come of a statement at a level, on a page with nothing else. -/
def Node.linesAt (level : Int) (n : Node) : Array String :=
  ((Writing.statement "" n).run ⟨#[], level⟩).2.lines

namespace Writing

open Page Node

variable {p q : Page} {n : Node} {ns : List Node}

theorem linesAt_eq_map {level : Int} (h : 0 ≤ level) (n : Node) :
    n.linesAt level = (n.linesAt 0).map ((⟨#[], level⟩ : Page).margin ++ ·) := by
  rw [linesAt, (movable_statement "" n).run_eq h, lines_append]
  exact Array.empty_append

/-- A statement adds its lines to those that are there. -/
theorem run_statement (hp : 0 ≤ p.indent) (h : (statement "" n).run p = (.ok (), q)) :
    q = ⟨p.lines ++ n.linesAt p.indent, p.indent⟩ := by
  have hw := movable_statement "" n
  have hlevel : q.indent = p.indent := by simpa using hw.deepens h
  refine Page.ext ?_ hlevel
  rw [hw.run_eq hp, Prod.mk.injEq] at h
  rw [← h.2, lines_append, linesAt_eq_map hp]
  rfl

theorem run_statements (hp : 0 ≤ p.indent) (h : (statements ns).run p = (.ok (), q)) :
    q = ⟨p.lines ++ ns.toArray.flatMap (linesAt p.indent), p.indent⟩ := by
  induction ns generalizing p with
  | nil =>
    cases h
    simp
  | cons n ns ih =>
    rw [statements] at h
    obtain ⟨_, r, hn, hns⟩ := run_bind_eq_ok h
    rw [run_statement hp hn] at hns
    rw [ih (p := ⟨p.lines ++ n.linesAt p.indent, p.indent⟩) hp hns, List.flatMap_toArray_cons,
      Array.append_assoc]

theorem run_block (hp : 0 ≤ p.indent) (h : (block ns).run p = (.ok (), q)) :
    q = ⟨p.lines ++ ns.toArray.flatMap (linesAt (p.indent + 1)), p.indent⟩ := by
  rw [block, run_bind (run_shift 1 _)] at h
  obtain ⟨_, r, hns, hback⟩ := run_bind_eq_ok h
  have hr := run_statements (p := ⟨p.lines, p.indent + 1⟩) (by dsimp only; omega) hns
  rw [run_shift, hr] at hback
  cases hback
  rw [Int.add_neg_cancel_right]

/-- A statement that is written on a page at a level from zero upwards leaves the level and the lines
that are there as they are and adds its own, which are those of a blank page behind four spaces for
each level. The lines of a list of statements are those of its statements one after the other, also in
a block, which is a level deeper. At a level that is an index, a statement has the same fault on every
page, behind the same lines. -/
theorem statements_appended {p : Page} (hp : 0 ≤ p.indent) :
    (∀ n q, p.write (statement "" n) = (.ok (), q) →
      q = ⟨p.lines ++ n.linesAt p.indent, p.indent⟩ ∧
      blank.write (statement "" n) = (.ok (), ⟨n.linesAt 0, 0⟩) ∧
      n.linesAt p.indent =
        (n.linesAt 0).map (String.ofList (List.replicate (4 * p.indent).toNat ' ') ++ ·)) ∧
    (∀ ns q, p.write (statements ns) = (.ok (), q) →
      q = ⟨p.lines ++ ns.toArray.flatMap (linesAt p.indent), p.indent⟩) ∧
    (∀ ns q, p.write (block ns) = (.ok (), q) →
      q = ⟨p.lines ++ ns.toArray.flatMap (linesAt (p.indent + 1)), p.indent⟩) ∧
    (isIndex p.indent → ∀ n,
      p.write (statement "" n) =
        ((blank.write (statement "" n)).1, p ++ (blank.write (statement "" n)).2)) := by
  refine ⟨fun n q h => ?_, fun ns q h => ?_, fun ns q h => ?_, fun he n => ?_⟩
  · have hw := movable_statement "" n
    have hrun := run_of_write hw h
    refine ⟨run_statement hp hrun, ?_, linesAt_eq_map hp n⟩
    rw [hw.run_eq hp, Prod.mk.injEq] at hrun
    have hblank : (statement "" n).run blank = (.ok (), ((statement "" n).run blank).2) :=
      Prod.ext hrun.1 rfl
    rw [write_eq_run isIndex_blank, hblank, run_statement le_rfl hblank]
    simp [blank]
  · exact run_statements hp (run_of_write (movable_statements ns) h)
  · exact run_block hp (run_of_write (movable_statements ns).block h)
  · rw [write_eq_run he, write_eq_run isIndex_blank]
    exact (movable_statement "" n).run_eq hp

/-- On a page at the second level: a conditional with a string over two lines, which goes on behind
`else`, and a block of two names. -/
theorem conditional_appended :
    let p : Page := ⟨#["x"], 2⟩
    let n := Node.conditional (.identifier "a") [.string "b\nc"]
      (some [.conditional (.identifier "d") [] none])
    let ns := [Node.identifier "e", .identifier "f"]
    0 ≤ p.indent ∧
      (p.write (statement "" n) =
          (.ok (), ⟨#["x", r"        if a {", "            \"b\nc\"", r"        } else if d {",
            r"        }"], 2⟩) ∧
        blank.write (statement "" n) = (.ok (), ⟨n.linesAt 0, 0⟩) ∧
        n.linesAt 2 = (n.linesAt 0).map ("        " ++ ·)) ∧
      p.write (block ns) = (.ok (), ⟨#["x", "            e", "            f"], 2⟩) ∧
      (⟨#["x", "            e", "            f"], 2⟩ : Page) =
        ⟨p.lines ++ ns.toArray.flatMap (linesAt 3), 2⟩ := by
  intro p n ns
  have hp : 0 ≤ p.indent := by decide
  have hn : p.write (statement "" n) =
      (.ok (), ⟨#["x", r"        if a {", "            \"b\nc\"", r"        } else if d {",
        r"        }"], 2⟩) := by rfl
  have hns : p.write (block ns) = (.ok (), ⟨#["x", "            e", "            f"], 2⟩) := by rfl
  obtain ⟨hstatement, -, hblock, -⟩ := statements_appended hp
  exact ⟨hp, ⟨hn, (hstatement n _ hn).2⟩, hns, hblock ns _ hns⟩

end Writing
end LocksetLang
