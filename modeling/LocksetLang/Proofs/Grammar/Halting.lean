import LocksetLang.Grammar.Parser
import LocksetLang.Proofs.Grammar.Derivation
import LocksetLang.Proofs.Grammar.Reply

/-! Where a parser halts. A production is a parser for each depth. What it returns, or why it fails,
is settled by the tokens that it has used and the next one: the tokens behind them do not matter,
nor does the depth as long as it is enough. Where it meets a token that is not expected, the tokens
before it are the beginning of something that it takes, or else of something that it refuses for
nothing but the parameters of a function. -/

namespace LocksetLang

/-- Whether a fault can arise behind the tokens `used` and before the token `next`. -/
def ParseFault.ArisesAt (used : List Token) (next : Token) : ParseFault → Prop
  | unexpected _ t => t = next
  | constantWithoutValue _ | parameterNotName _ | numberTooLarge _ => True
  | numberMisspelt t => t ∈ used ∧ t.kind = .number ∧ Binary64.ofText? t.value = none
  | noEnd | noToken | noIndex | endless => False

theorem ParseFault.ArisesAt.append {used : List Token} {next : Token} {f : ParseFault}
    (h : f.ArisesAt used next) (before : List Token) : f.ArisesAt (before ++ used) next := by
  cases f with
  | numberMisspelt t => exact ⟨List.mem_append_right _ h.1, h.2⟩
  | _ => exact h

namespace Parser

variable {α β : Type}

/-- From the depth `d` on, the production returns `a` behind the tokens `used`, before `next`. -/
def Passes (p : Nat → Parser α) (d : Nat) (used : List Token) (next : Token) (a : α) : Prop :=
  ∀ {e last rest}, d ≤ e → rest.headD last = next → p e last (used ++ rest) = .value a rest

/-- From the depth `d` on, the production fails behind the tokens `used`, before `next`. -/
def Refuses (p : Nat → Parser α) (d : Nat) (used : List Token) (next : Token) (f : ParseFault) :
    Prop :=
  ∀ {e last rest}, d ≤ e → rest.headD last = next → ∃ left, p e last (used ++ rest) = .fault f left

/-- The tokens can be gone on with in such a way that the production, with enough depth, refuses the
parameters of a function in them. -/
def Objects (p : Nat → Parser α) (used : List Token) : Prop :=
  used ≠ [] ∧ ∃ more d, ∀ {e last rest}, d ≤ e → last.kind = .endOfInput →
    ∃ start left, p e last (used ++ (more ++ rest)) = .fault (.parameterNotName start) left

/-- Where the production halts at the depth `d`. The tokens before one that is not expected are
`viable`, or the production objects to them. -/
structure Halts (viable : List Token → Prop) (p : Nat → Parser α) (d : Nat) (last : Token)
    (ahead : List Token) : Prop where
  value {a rest} : p d last ahead = .value a rest →
    ∃ used, ahead = used ++ rest ∧ Passes p d used (rest.headD last) a
  fault {f left} : p d last ahead = .fault f left →
    ∃ used rest, ahead = used ++ rest ∧ f.ArisesAt used (rest.headD last) ∧
      (f.faultClass = .unexpectedToken → viable used ∨ Objects p used) ∧
      Refuses p d used (rest.headD last) f

variable {p q : Nat → Parser α} {f : Nat → α → Parser β} {viable viable' : List Token → Prop}
  {d : Nat} {last t : Token} {ahead used rest : List Token} {a : α} {g : ParseFault}

theorem Halts.mono (h : Halts viable p d last ahead)
    (hv : ∀ used rest, ahead = used ++ rest → viable used → viable' used) :
    Halts viable' p d last ahead := by
  refine ⟨h.value, fun hp => ?_⟩
  obtain ⟨used, rest, he, ha, hu, hr⟩ := h.fault hp
  exact ⟨used, rest, he, ha, fun hc => (hu hc).imp_left (hv used rest he), hr⟩

theorem Halts.of_objects (h : Halts (fun ts => viable ts ∨ Objects p ts) p d last ahead) :
    Halts viable p d last ahead := by
  refine ⟨h.value, fun hp => ?_⟩
  obtain ⟨used, rest, he, ha, hu, hr⟩ := h.fault hp
  exact ⟨used, rest, he, ha, fun hc => (hu hc).elim id .inr, hr⟩

theorem headD_append (used rest : List Token) {rest' : List Token} {last last' : Token}
    (h : rest'.headD last' = rest.headD last) :
    (used ++ rest').headD last' = (used ++ rest).headD last := by
  cases used with
  | nil => exact h
  | cons => rfl

theorem Objects.bind_left (h : Objects p used) : Objects (fun e => p e >>= f e) used := by
  obtain ⟨hne, more, n, ho⟩ := h
  exact ⟨hne, more, n, fun hn hl => (ho hn hl).imp fun _ => .imp fun _ => bind_of_fault⟩

theorem Objects.bind_right {more : List Token} (hp : Passes p d used ((more ++ rest).headD last) a)
    (h : Objects (f · a) more) : Objects (fun e => p e >>= f e) (used ++ more) := by
  obtain ⟨hne, more', n, ho⟩ := h
  refine ⟨by simp [hne], more', max d n, fun {e last' rest'} hn hl => ?_⟩
  have hh : (more ++ (more' ++ rest')).headD last' = (more ++ rest).headD last := by
    cases more with
    | nil => exact absurd rfl hne
    | cons => rfl
  obtain ⟨start, left, hs⟩ := @ho e last' rest' (by omega) hl
  rw [List.append_assoc]
  exact ⟨start, left, bind_eq_fault.2 (.inr ⟨a, _, hp (by omega) hh, hs⟩)⟩

theorem Objects.succ (h : Objects (fun e => p (e + 1)) used) : Objects p used := by
  obtain ⟨hne, more, n, ho⟩ := h
  refine ⟨hne, more, n + 1, fun {e last rest} hn hl => ?_⟩
  obtain ⟨e, rfl⟩ : ∃ e', e = e' + 1 := ⟨e - 1, by omega⟩
  exact ho (by omega) hl

/-- A production made of two halts where the first one fails, or where the second one does on what
the first one left ahead. -/
theorem Halts.bind (hp : Halts viable p d last ahead)
    (hf : ∀ {a used rest}, ahead = used ++ rest → p d last ahead = .value a rest →
      Halts (fun us => viable (used ++ us)) (f · a) d last rest) :
    Halts viable (fun e => p e >>= f e) d last ahead := by
  constructor
  · intro b rest h
    obtain ⟨a, mid, ha, hb⟩ := bind_eq_value.1 h
    obtain ⟨used, he, hpass⟩ := hp.value ha
    obtain ⟨more, rfl, hpass'⟩ := (hf he ha).value hb
    refine ⟨used ++ more, by rw [he, List.append_assoc], fun hd hh => ?_⟩
    rw [List.append_assoc]
    exact bind_eq_value.2 ⟨a, _, hpass hd (headD_append more rest hh), hpass' hd hh⟩
  · intro g left h
    rcases bind_eq_fault.1 h with hg | ⟨a, mid, ha, hg⟩
    · obtain ⟨used, rest, he, harises, hv, hr⟩ := hp.fault hg
      exact ⟨used, rest, he, harises, fun hc => (hv hc).imp_right .bind_left, fun hd hh =>
        (hr hd hh).imp fun _ => bind_of_fault⟩
    · obtain ⟨used, he, hpass⟩ := hp.value ha
      obtain ⟨more, rest, rfl, harises, hv, hr⟩ := (hf he ha).fault hg
      refine ⟨used ++ more, rest, by rw [he, List.append_assoc], harises.append used,
        fun hc => (hv hc).imp_right (.bind_right hpass), fun hd hh => ?_⟩
      obtain ⟨left', hs⟩ := hr hd hh
      rw [List.append_assoc]
      exact ⟨left', bind_eq_fault.2 (.inr ⟨a, _, hpass hd (headD_append more rest hh), hs⟩)⟩

/-- What the first production returns behind the tokens that it uses can be told beforehand. -/
theorem Halts.bind_of {r : List Token → α → List Token → Prop}
    (hs : ∀ {a rest}, p d last ahead = .value a rest →
      ∃ used, ahead = used ++ rest ∧ r used a rest)
    (hp : Halts viable p d last ahead)
    (hf : ∀ {a used rest}, r used a rest →
      Halts (fun us => viable (used ++ us)) (f · a) d last rest) :
    Halts viable (fun e => p e >>= f e) d last ahead := by
  refine hp.bind fun he h => ?_
  obtain ⟨used, he', hu⟩ := hs h
  obtain rfl := List.append_cancel_right (he.symm.trans he')
  exact hf hu

theorem Halts.succ (h : Halts viable (fun e => p (e + 1)) d last ahead) :
    Halts viable p (d + 1) last ahead := by
  have hpred {e : Nat} (he : d + 1 ≤ e) : ∃ e', e = e' + 1 ∧ d ≤ e' := ⟨e - 1, by omega, by omega⟩
  constructor
  · intro a rest hp
    obtain ⟨used, he, hpass⟩ := h.value hp
    refine ⟨used, he, fun hd hh => ?_⟩
    obtain ⟨e, rfl, hd'⟩ := hpred hd
    exact hpass hd' hh
  · intro g left hp
    obtain ⟨used, rest, he, ha, hv, hr⟩ := h.fault hp
    refine ⟨used, rest, he, ha, fun hc => (hv hc).imp_right .succ, fun hd hh => ?_⟩
    obtain ⟨e, rfl, hd'⟩ := hpred hd
    exact hr hd' hh

theorem Halts.return : Halts viable (fun _ => pure a) d last ahead := by
  constructor
  · intro b rest h
    obtain ⟨rfl, rfl⟩ := return_eq_value.1 h
    exact ⟨[], rfl, fun _ _ => rfl⟩
  · intro g left h
    cases h

theorem Halts.fail (hg : g.ArisesAt [] (ahead.headD last))
    (hv : g.faultClass = .unexpectedToken → viable []) :
    Halts viable (fun _ => fail g : Nat → Parser α) d last ahead := by
  constructor
  · intro b rest h
    exact absurd h fail_ne_value
  · intro g' left h
    obtain ⟨rfl, -⟩ := Reply.fault.inj h
    exact ⟨[], ahead, rfl, hg, fun hc => .inl (hv hc), fun _ _ => ⟨_, rfl⟩⟩

theorem Halts.of_unfinished (h : p d last ahead = .unfinished) : Halts viable p d last ahead :=
  ⟨fun hp => absurd (h.symm.trans hp) nofun, fun hp => absurd (h.symm.trans hp) nofun⟩

theorem Halts.ite {c : Prop} [Decidable c] (h : c → Halts viable p d last ahead)
    (h' : ¬ c → Halts viable q d last ahead) :
    Halts viable (fun e => if c then p e else q e) d last ahead := by
  split_ifs with hc
  · exact h hc
  · exact h' hc

theorem Halts.peek_bind {f : Nat → Token → Parser β}
    (h : Halts viable (f · (ahead.headD last)) d last ahead) :
    Halts viable (fun e => peek >>= f e) d last ahead := by
  refine .bind ⟨fun hp => ?_, nofun⟩ fun he hp => ?_
  · obtain ⟨rfl, rfl⟩ := Reply.value.inj hp
    exact ⟨[], rfl, fun _ hh => by rw [List.nil_append, ← hh]; rfl⟩
  · obtain ⟨rfl, rfl⟩ := Reply.value.inj hp
    obtain rfl : [] = _ := List.append_cancel_right he
    exact h

theorem Halts.atOperator_bind {operators : List String} {f : Nat → Bool → Parser β}
    (h : Halts viable (f · ((ahead.headD last).kind = .operator &&
      operators.contains (ahead.headD last).value)) d last ahead) :
    Halts viable (fun e => atOperator operators >>= f e) d last ahead :=
  .peek_bind (f := fun e t => f e (t.kind = .operator && operators.contains t.value)) h

theorem Halts.atListEnd_bind {f : Nat → Bool → Parser β}
    (h : Halts viable (f · ((ahead.headD last).kind = .endOfInput ||
      (ahead.headD last).kind = .rightBrace)) d last ahead) :
    Halts viable (fun e => atListEnd >>= f e) d last ahead :=
  .peek_bind (f := fun e t => f e (t.kind = .endOfInput || t.kind = .rightBrace)) h

theorem Halts.advance_bind {f : Nat → Token → Parser β}
    (h : Halts (fun us => viable (t :: us)) (f · t) d last rest) :
    Halts viable (fun e => advance >>= f e) d last (t :: rest) := by
  refine .bind ⟨fun hp => ?_, nofun⟩ fun he hp => ?_
  · obtain ⟨rfl, rfl⟩ := Reply.value.inj hp
    exact ⟨[t], rfl, fun _ _ => rfl⟩
  · obtain ⟨rfl, rfl⟩ := Reply.value.inj hp
    obtain rfl : [t] = _ := List.append_cancel_right he
    exact h

/-- A token that does not meet a demand is the one after those used. -/
theorem Halts.expect_bind {c : Demand} {f : Nat → Token → Parser β} (hl : last.kind = .endOfInput)
    (hc : c.kind ≠ .endOfInput) (hv : viable [])
    (h : ∀ {t rest}, ahead = t :: rest → t.kind = c.kind →
      Halts (fun us => viable (t :: us)) (f · t) d last rest) :
    Halts viable (fun e => expect c >>= f e) d last ahead := by
  by_cases hk : (ahead.headD last).kind = c.kind
  · obtain ⟨t, rest, rfl, ht⟩ := eq_cons_of_headD hl hk hc
    have hpass {last'} (rest' : List Token) : expect c last' (t :: rest') = .value t rest' :=
      expect_of_kind ht
    refine .bind ⟨fun hp => ?_, fun hp => ?_⟩ fun he hp => ?_
    · rw [hpass] at hp
      obtain ⟨rfl, rfl⟩ := Reply.value.inj hp
      exact ⟨[t], rfl, fun _ _ => hpass _⟩
    · rw [hpass] at hp
      cases hp
    · rw [hpass] at hp
      obtain ⟨rfl, rfl⟩ := Reply.value.inj hp
      obtain rfl : [t] = _ := List.append_cancel_right he
      exact h rfl ht
  · have hfail {e last' ahead'} (hh : ahead'.headD last' = ahead.headD last) :
        (expect c >>= f e) last' ahead' =
          .fault (.unexpected c (ahead.headD last)) ahead'.tail := by
      rw [Parser.expect_bind, hh, if_neg hk]
    constructor
    · intro b rest hp
      rw [hfail rfl] at hp
      cases hp
    · intro g left hp
      rw [hfail rfl] at hp
      obtain ⟨rfl, -⟩ := Reply.fault.inj hp
      exact ⟨[], ahead, rfl, rfl, fun _ => .inl hv, fun _ hh => ⟨_, hfail hh⟩⟩

end Parser
end LocksetLang
