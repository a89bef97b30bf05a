import LocksetLang.Proofs.Grammar.Agreement
import LocksetLang.Proofs.Grammar.Buffer
import LocksetLang.Proofs.Grammar.EarliestFault

/-! Reading goes forward. A production that returns a tree has taken a token, and none moves the
position back or past the last token. So all of them come to an end, and a program is read up to the
end of its tokens. -/

namespace LocksetLang

namespace Grammar

open LocksetLang.Parser

/-- The productions for statements and expressions, down to the tightest. -/
def nodeProductions : List (Nat → Parser Node) :=
  [statement, expression, object, sum, product, callOrMember, member, primary]

/-- A tree is never read off no token. -/
structure Progresses (production : Nat → Parser Node) : Prop where
  finishes {last d ahead} : last.kind = .endOfInput → depthFor ahead ≤ d →
    Finishes (production d) last ahead
  shortens {last d ahead v rest} : last.kind = .endOfInput →
    production d last ahead = .value v rest → rest.length < ahead.length
  agrees {d e} : d ≤ e → Agrees id id (production d) (production e)

variable {last : Token} {d : Nat} {ahead : List Token} {production : Nat → Parser Node}

theorem le_of_depthFor_le {n : Nat} (h : depthFor ahead ≤ d) (hn : n ≤ 32) :
    16 * ahead.length + n ≤ d := by
  rw [depthFor] at h
  omega

theorem progresses_of_mem (h : production ∈ nodeProductions) : Progresses production := by
  simp only [nodeProductions, List.mem_cons, List.not_mem_nil, or_false] at h
  rcases h with rfl | rfl | rfl | rfl | rfl | rfl | rfl | rfl
  · exact ⟨fun hl hd => (statementsFinish hl _).statement (le_of_depthFor_le hd (by decide)),
      fun hl h => ((statementsSound hl _).statement h).length_lt,
      fun h => (statementsAgree h).statement⟩
  · exact ⟨fun hl hd => (expressionsFinish hl _).expression (le_of_depthFor_le hd (by decide)),
      fun hl h => ((sound hl _).expression h).length_lt rfl, fun h => (expressionsAgree h).expression⟩
  · exact ⟨fun hl hd => (expressionsFinish hl _).object (le_of_depthFor_le hd (by decide)),
      fun hl h => ((sound hl _).object h).length_lt rfl, fun h => (expressionsAgree h).object⟩
  · exact ⟨fun hl hd => (expressionsFinish hl _).sum (le_of_depthFor_le hd (by decide)),
      fun hl h => ((sound hl _).sum h).length_lt rfl, fun h => (expressionsAgree h).sum⟩
  · exact ⟨fun hl hd => (expressionsFinish hl _).product (le_of_depthFor_le hd (by decide)),
      fun hl h => ((sound hl _).product h).length_lt rfl, fun h => (expressionsAgree h).product⟩
  · exact ⟨fun hl hd => (expressionsFinish hl _).callOrMember (le_of_depthFor_le hd (by decide)),
      fun hl h => ((sound hl _).callOrMember h).length_lt rfl,
      fun h => (expressionsAgree h).callOrMember⟩
  · exact ⟨fun hl hd => (expressionsFinish hl _).member (le_of_depthFor_le hd (by decide)),
      fun hl h => ((sound hl _).member h).length_lt rfl, fun h => (expressionsAgree h).member⟩
  · exact ⟨fun hl hd => (expressionsFinish hl _).primary (le_of_depthFor_le hd (by decide)),
      fun hl h => ((sound hl _).primary h).length_lt rfl, fun h => (expressionsAgree h).primary⟩

/-- The production with more depth than it is given otherwise. -/
def withExtra {α : Type} (extra : Nat) (production : Nat → Parser α) : Parser α :=
  fun last ahead => production (depthFor ahead + extra) last ahead

theorem full_program_agrees (hl : last.kind = .endOfInput) (extra : Nat) :
    withExtra extra program last ahead = full program last ahead :=
  ((program_agrees (Nat.le_add_right _ extra)).same (full_program_finishes hl)).1

end Grammar

open Grammar LocksetLang.Parser

namespace Buffer

variable {last : Token} {body ahead rest : List Token} {i : Nat} {production : Nat → Parser Node}

theorem ahead?_concat : (⟨body ++ [last], i⟩ : Buffer).ahead? = some (body.drop i, last) := by
  simp [ahead?]

theorem leaving_of_suffix (last : Token) (hi : i ≤ body.length) (h : rest <:+ body.drop i) :
    ∃ j : Nat, (⟨body ++ [last], i⟩ : Buffer).leaving rest = ⟨body ++ [last], j⟩ ∧
      j + rest.length = body.length := by
  have hle : rest.length ≤ body.length - i := by simpa using h.length_le
  have hpos : ((i : Int) < (body ++ [last]).length) := by simp; omega
  refine ⟨body.length - rest.length, ?_, by omega⟩
  rw [leaving, if_pos hpos, Buffer.mk.injEq]
  simp
  omega

/-- A production goes on from any position, and stays within the tokens. -/
theorem run_progresses (hp : Progresses production) (hl : last.kind = .endOfInput)
    (hi : i ≤ body.length) :
    ∃ (reply : Except ParseFault Node) (j : Nat), i ≤ j ∧ j ≤ body.length ∧
      reply ≠ .error .endless ∧ (∀ v, reply = .ok v → i < j) ∧
      ∀ extra, (⟨body ++ [last], i⟩ : Buffer).run (withExtra extra production) =
        (reply, ⟨body ++ [last], j⟩) := by
  have hfin := hp.finishes hl (Nat.le_refl (depthFor (body.drop i)))
  obtain ⟨-, hleft⟩ := (hp.agrees (Nat.le_refl _)).same hfin
  have hall (extra : Nat) : withExtra extra production last (body.drop i) =
      production (depthFor (body.drop i)) last (body.drop i) :=
    ((hp.agrees (Nat.le_add_right _ extra)).same hfin).1
  have hlen : (body.drop i).length = body.length - i := List.length_drop
  cases hr : production (depthFor (body.drop i)) last (body.drop i) with
  | value v rest =>
    rw [hr] at hleft
    cases hleft with
    | value hrest =>
      obtain ⟨j, hj, hsum⟩ := leaving_of_suffix last hi hrest
      have hlt := hp.shortens hl hr
      refine ⟨.ok v, j, by omega, by omega, by simp, fun _ _ => by omega, fun extra => ?_⟩
      rw [run, ahead?_concat]
      dsimp only
      rw [hall, hr, ← hj]
  | fault f rest =>
    rw [hr] at hleft
    cases hleft with
    | fault hrest hf =>
      obtain ⟨j, hj, hsum⟩ := leaving_of_suffix last hi hrest
      have hle := hrest.length_le
      refine ⟨.error f, j, by omega, by omega, fun h => hf (Except.error.inj h), by simp,
        fun extra => ?_⟩
      rw [run, ahead?_concat]
      dsimp only
      rw [hall, hr, ← hj]
  | unfinished => exact absurd hr hfin

theorem parseTokens_ne_endless (b : Buffer) (tokens : List Token) :
    (b.parseTokens tokens).1 ≠ .error .endless := by
  rw [parseTokens_fst]
  intro h
  obtain ⟨body, last, rfl, hl⟩ := endsInput_of_parseTokens h nofun
  obtain ⟨left, hp⟩ := program_fault_of_parseTokens hl h
  have hfin : program (depthFor body) last body ≠ .unfinished := full_program_finishes hl
  obtain ⟨-, hleft⟩ := (program_agrees (Nat.le_refl _)).same hfin
  rw [hp] at hleft
  cases hleft with
  | fault _ hf => exact hf rfl

theorem parseTokens_snd {b b' : Buffer} {v : Node} (hl : last.kind = .endOfInput)
    (hb : ∀ t ∈ body, t.kind ≠ .endOfInput) (h : b.parseTokens (body ++ [last]) = (.ok v, b')) :
    b' = ⟨body ++ [last], body.length⟩ := by
  have hv : LocksetLang.parseTokens (body ++ [last]) = .ok v := by rw [← parseTokens_fst b, h]
  rw [parseTokens_append hl] at hv
  cases hp : full program last body with
  | value ss rest =>
    obtain ⟨⟨used, rfl, -⟩, hend⟩ := program_sound hl hp
    cases rest with
    | nil =>
      have hrun := run_full hp
      rw [List.nil_append] at hrun
      rw [List.append_nil] at h ⊢
      rw [parseTokens, List.getLast?_concat] at h
      dsimp only at h
      rw [if_pos hl, hrun] at h
      exact (Prod.mk.inj h).2.symm
    | cons t rest => exact absurd hend (hb t (by simp))
  | fault f rest => rw [hp] at hv; cases hv
  | unfinished => rw [hp] at hv; cases hv

end Buffer

/-- Productions take a token or fail, wherever they start; they all come to an end, at the same
position with whatever more depth. -/
theorem productions_advance :
    (∀ production ∈ nodeProductions, ∀ (tokens : List Token) (i : Nat), EndsInput tokens →
      i < tokens.length → ∃ (reply : Except ParseFault Node) (j : Nat),
        (⟨tokens, i⟩ : Buffer).run (full production) = (reply, ⟨tokens, j⟩) ∧
          i ≤ j ∧ j < tokens.length ∧ reply ≠ .error .endless ∧ (∀ v, reply = .ok v → i < j) ∧
          ∀ extra, (⟨tokens, i⟩ : Buffer).run (withExtra extra production) =
            (reply, ⟨tokens, j⟩)) ∧
    (∀ (b : Buffer) (tokens : List Token), (b.parseTokens tokens).1 ≠ .error .endless) ∧
    (∀ (last : Token) (ahead : List Token) (extra : Nat), last.kind = .endOfInput →
      withExtra extra program last ahead = full program last ahead) ∧
    ∀ (b : Buffer) (body : List Token) (last : Token), last.kind = .endOfInput →
      (∀ t ∈ body, t.kind ≠ .endOfInput) →
      ∀ v b', b.parseTokens (body ++ [last]) = (.ok v, b') → b' = ⟨body ++ [last], body.length⟩ := by
  refine ⟨fun production hp tokens i ht hi => ?_, Buffer.parseTokens_ne_endless,
    fun last ahead extra hl => full_program_agrees hl extra,
    fun b body last hl hb v b' h => Buffer.parseTokens_snd hl hb h⟩
  obtain ⟨body, last, rfl, hl⟩ := ht
  rw [List.length_append, List.length_singleton] at hi ⊢
  obtain ⟨reply, j, hij, hj, hne, hok, hrun⟩ :=
    Buffer.run_progresses (progresses_of_mem hp) hl (Nat.le_of_lt_succ hi)
  exact ⟨reply, j, hrun 0, hij, Nat.lt_succ_of_le hj, hne, hok, hrun⟩

/-- A name before an end of input in the middle of the tokens, and the same name as a program. -/
theorem name_advances :
    let a : Token := ⟨.identifier, "a", ⟨1, 1⟩⟩
    let last : Token := Cursor.endToken ⟨1, 2⟩
    sum ∈ nodeProductions ∧ EndsInput [a, last, last] ∧
      (∃ (reply : Except ParseFault Node) (j : Nat),
        (⟨[a, last, last], (0 : Nat)⟩ : Buffer).run (full sum) = (reply, ⟨[a, last, last], j⟩) ∧
          0 ≤ j ∧ j < 3 ∧ reply ≠ .error .endless ∧ (∀ v, reply = .ok v → 0 < j) ∧
          ∀ extra, (⟨[a, last, last], (0 : Nat)⟩ : Buffer).run (withExtra extra sum) =
            (reply, ⟨[a, last, last], j⟩)) ∧
      last.kind = .endOfInput ∧ withExtra 7 program last [a] = full program last [a] ∧
      a.kind ≠ .endOfInput ∧
      Buffer.empty.parseTokens ([a] ++ [last]) =
        (.ok (.program [.identifier "a"]), (⟨[a] ++ [last], (1 : Nat)⟩ : Buffer)) := by
  intro a last
  have hmem : sum ∈ nodeProductions := by simp [nodeProductions]
  have hends : EndsInput [a, last, last] := ⟨[a, last], last, rfl, rfl⟩
  have hread : Buffer.empty.parseTokens ([a] ++ [last]) =
      (.ok (.program [.identifier "a"]), (Buffer.empty.parseTokens ([a] ++ [last])).2) := rfl
  obtain ⟨hrun, -, hextra, hend⟩ := productions_advance
  have hsnd := hend Buffer.empty [a] last rfl (by simp [a]) _ _ hread
  exact ⟨hmem, hends, hrun sum hmem _ 0 hends (by decide), rfl, hextra last [a] 7 rfl, nofun,
    hread.trans (congrArg _ hsnd)⟩

end LocksetLang
