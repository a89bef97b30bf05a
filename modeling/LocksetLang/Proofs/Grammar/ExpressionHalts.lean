import LocksetLang.Proofs.Grammar.Beginnings
import LocksetLang.Proofs.Grammar.Halting
import LocksetLang.Proofs.Grammar.Soundness

/-! Where the productions for expressions halt. The tokens used before one that is not expected are
the beginning of the phrase, behind what the production goes on with. -/

namespace LocksetLang.Grammar

open LocksetLang.Parser

/-- The tokens go on with a phrase that begins with the lexemes `xs`. -/
def GoesOn (p : Phrase) (xs : List Lexeme) (ts : List Token) : Prop :=
  Begins p (xs ++ ts.map Token.lexeme)

structure ExpressionsHalt (last : Token) (d : Nat) : Prop where
  primary ahead : Halts (GoesOn .primary []) primary d last ahead
  memberTail {xs u} ahead : Derives Parted .call xs u →
    Halts (GoesOn .call xs) (memberTail · u) d last ahead
  member ahead : Halts (GoesOn .call []) member d last ahead
  argumentList ahead : Halts (GoesOn .argumentList []) argumentList d last ahead
  locatedArguments ahead :
    Halts (fun ts => BeginsArguments (ts.map Token.lexeme)) locatedArguments d last ahead
  call {xs u} ahead : Derives Parted .call xs u → Halts (GoesOn .call xs) (call · u) d last ahead
  callOrMember ahead : Halts (GoesOn .call []) callOrMember d last ahead
  productTail {xs u} ahead : Derives Parted .product xs u →
    Halts (GoesOn .product xs) (productTail · u) d last ahead
  product ahead : Halts (GoesOn .product []) product d last ahead
  sumTail {xs u} ahead : Derives Parted .sum xs u →
    Halts (GoesOn .sum xs) (sumTail · u) d last ahead
  sum ahead : Halts (GoesOn .sum []) sum d last ahead
  properties ahead : Halts (GoesOn .entries []) properties d last ahead
  object ahead : Halts (GoesOn .object []) object d last ahead
  expression ahead : Halts (GoesOn .expression []) expression d last ahead

variable {last : Token} {d : Nat} {ahead : List Token} {xs : List Lexeme} {u : Node}

theorem GoesOn.append {p : Phrase} {ts us : List Token}
    (h : GoesOn p (xs ++ ts.map Token.lexeme) us) : GoesOn p xs (ts ++ us) := by
  simpa [GoesOn] using h

theorem GoesOn.behind {p : Phrase} {ts us : List Token} (h : GoesOn p (ts.map Token.lexeme) us) :
    GoesOn p [] (ts ++ us) :=
  .append h

theorem number_halts {t : Token} {ts : List Token} {viable : List Token → Prop}
    (ht : t.kind = .number) : Halts viable (fun _ => advance >>= numberOf) d last (t :: ts) := by
  cases hx : Binary64.ofText? t.value with
  | some x =>
    refine .advance_bind ?_
    simp only [numberOf, hx]
    exact .ite (fun _ => .return) fun _ => .fail trivial nofun
  | none =>
    -- the fault is about the token that has just been used
    have hn {last' rest} :
        (advance >>= numberOf) last' (t :: rest) = .fault (.numberMisspelt t) rest := by
      rw [advance_bind, List.headD_cons, List.tail_cons, numberOf, hx]
      rfl
    refine ⟨fun hp => absurd (hn.symm.trans hp) nofun, fun hp => ?_⟩
    obtain ⟨rfl, rfl⟩ := Reply.fault.inj (hn.symm.trans hp)
    exact ⟨[t], ts, rfl, ⟨List.mem_singleton_self t, ht, hx⟩, nofun, fun _ _ => ⟨_, hn⟩⟩

theorem group_halts (hl : last.kind = .endOfInput) (ih : ExpressionsHalt last d) {o : Token}
    {ts : List Token} {left : Node} (ho : o.kind = .leftParen)
    (dx : Derives Parted .expression (ts.map Token.lexeme) left) :
    Halts (fun us => GoesOn .primary [] (o :: (ts ++ us))) (fun e => do
      let t ← peek
      let inner ←
        if t.kind = .doubleEquals || t.kind = .notEquals then do
          let _ ← advance
          pure (.equality left t.kind.name (← expression e))
        else pure left
      let _ ← expect .groupEnd
      return inner : Nat → Parser Node) d last ahead := by
  refine .peek_bind (.ite (fun hc => ?_) fun _ => ?_)
  · obtain ⟨s, ss, rfl, hs⟩ := eq_cons_of_comparison hl hc
    have hv {us} (h : Begins .expression us) :
        Begins .primary (o.lexeme :: (ts.map Token.lexeme ++ s.lexeme :: us)) :=
      .comparison ho dx hs h
    refine .advance_bind (.bind_of (sound hl d).expression ((ih.expression _).mono ?_) ?_)
    · exact fun us _ _ h => by simpa [GoesOn] using hv h
    · intro right us rest dy
      simp only [return_bind]
      refine .expect_bind hl (by decide) ?_ fun _ _ => .return
      simpa [GoesOn] using hv dy.begins
  · simp only [return_bind]
    refine .expect_bind hl (by decide) ?_ fun _ _ => .return
    simpa [GoesOn] using Begins.group (o := o.lexeme) ho dx.begins

theorem primary_halts (hl : last.kind = .endOfInput) (ih : ExpressionsHalt last d) :
    Halts (GoesOn .primary []) primary (d + 1) last ahead := by
  refine .succ ?_
  simp only [primary]
  refine .peek_bind ?_
  generalize hk : (ahead.headD last).kind = k
  cases k with
  | identifier | string =>
    obtain ⟨t, ts, rfl, ht⟩ := eq_cons_of_headD hl hk (by decide)
    exact .advance_bind .return
  | number =>
    obtain ⟨t, ts, rfl, ht⟩ := eq_cons_of_headD hl hk (by decide)
    exact number_halts ht
  | leftParen =>
    obtain ⟨o, ts, rfl, ho⟩ := eq_cons_of_headD hl hk (by decide)
    refine .advance_bind (.bind_of (sound hl d).expression ((ih.expression _).mono ?_) ?_)
    · exact fun us _ _ h => .group ho h
    · exact fun dx => group_halts hl ih ho dx
  | _ => exact .fail rfl fun _ => begins_primary

theorem memberTail_halts (hl : last.kind = .endOfInput) (ih : ExpressionsHalt last d)
    (hu : Derives Parted .call xs u) :
    Halts (GoesOn .call xs) (memberTail · u) (d + 1) last ahead := by
  refine .succ ?_
  simp only [memberTail]
  refine .peek_bind (.ite (fun hd => ?_) fun _ => .ite (fun hb => ?_) fun _ => .return)
  · obtain ⟨t, ts, rfl, ht⟩ := eq_cons_of_headD hl hd (by decide)
    refine .advance_bind (.expect_bind hl (by decide) ?_ fun {n rest} _ hn => ?_)
    · exact .memberName hu ht
    · have hu' : Derives Parted .call (xs ++ [t, n].map Token.lexeme) _ :=
        .memberName (d := t.lexeme) (n := n.lexeme) hu ht hn
      exact (ih.memberTail _ hu').mono fun us _ _ => .append
  · obtain ⟨o, ts, rfl, ho⟩ := eq_cons_of_headD hl hb (by decide)
    refine .advance_bind (.bind_of (sound hl d).expression ((ih.expression _).mono ?_) ?_)
    · exact fun us _ _ h => .memberIndex hu ho h
    · intro i is rest di
      refine .expect_bind hl (by decide) ?_ fun {c rest} _ hc => ?_
      · simpa [GoesOn] using Begins.memberIndex (o := o.lexeme) hu ho di.begins
      · have hu' : Derives Parted .call (xs ++ (o :: (is ++ [c])).map Token.lexeme)
            (.member u i true) := by
          simpa using Derives.memberIndex (o := o.lexeme) (c := c.lexeme) hu ho di hc
        exact (ih.memberTail _ hu').mono fun us _ _ h => by simpa using h.append

theorem member_halts (hl : last.kind = .endOfInput) (ih : ExpressionsHalt last d) :
    Halts (GoesOn .call []) member (d + 1) last ahead := by
  refine .succ ?_
  simp only [member]
  refine .bind_of (sound hl d).primary ((ih.primary _).mono fun _ _ _ h => .call h) ?_
  exact fun dx => (ih.memberTail _ (.primary dx)).mono fun us _ _ => .behind

theorem argumentList_halts (hl : last.kind = .endOfInput) (ih : ExpressionsHalt last d) :
    Halts (GoesOn .argumentList []) argumentList (d + 1) last ahead := by
  refine .succ ?_
  simp only [argumentList]
  refine .peek_bind (.bind_of (sound hl d).expression
    ((ih.expression _).mono fun _ _ _ h => .oneArgument h) fun {e xs rest} dx => ?_)
  refine .peek_bind (.ite (fun hc => ?_) fun _ => .return)
  obtain ⟨c, cs, rfl, hc⟩ := eq_cons_of_headD hl hc (by decide)
  refine .advance_bind (.bind_of (sound hl d).argumentList ((ih.argumentList _).mono ?_)
    fun _ => .return)
  intro us _ _ h
  simpa [GoesOn] using Begins.moreArguments (c := c.lexeme) dx hc h

theorem locatedArguments_halts (hl : last.kind = .endOfInput) (ih : ExpressionsHalt last d) :
    Halts (fun ts => BeginsArguments (ts.map Token.lexeme)) locatedArguments (d + 1) last
      ahead := by
  refine .succ ?_
  simp only [locatedArguments]
  refine .expect_bind hl (by decide) beginsArguments_nil fun {o rest} _ ho => ?_
  refine .peek_bind (.ite (fun _ => ?_) fun _ => ?_)
  · simp only [return_bind]
    exact .expect_bind hl (by decide) (Begins.arguments (o := o.lexeme) ho
      begins_expression.oneArgument) fun _ _ => .return
  · refine .bind_of (sound hl d).argumentList ((ih.argumentList _).mono ?_) fun {as xs rest} dx => ?_
    · exact fun us _ _ h => Begins.arguments (o := o.lexeme) ho h
    · refine .expect_bind hl (by decide) ?_ fun _ _ => .return
      simpa using Begins.arguments (o := o.lexeme) ho dx.begins

theorem call_halts (hl : last.kind = .endOfInput) (ih : ExpressionsHalt last d)
    (hu : Derives Parted .call xs u) :
    Halts (GoesOn .call xs) (call · u) (d + 1) last ahead := by
  refine .succ ?_
  simp only [call]
  refine .bind_of (r := fun used as _ => Derives Parted .call (xs ++ used.map Token.lexeme)
    (.call u (as.map (·.2)))) ?_ ((ih.locatedArguments _).mono fun us _ _ h => h.call hu)
    fun {as used rest} hu' => ?_
  · intro as rest h
    obtain ⟨o, us, c, rfl, ho, hc, da⟩ := (sound hl d).locatedArguments h
    refine ⟨o :: (us ++ [c]), by simp, ?_⟩
    simpa using Derives.call (o := o.lexeme) (c := c.lexeme) hu ho da hc
  · refine .bind_of (r := fun more v _ => Derives Parted .call
      ((xs ++ used.map Token.lexeme) ++ more.map Token.lexeme) v)
      (fun h => (sound hl d).memberTail h _ hu')
      ((ih.memberTail _ hu').mono fun us _ _ => .append) fun {v more rest} hv => ?_
    refine .peek_bind (.ite (fun _ => ?_) fun _ => .return)
    exact (ih.call _ hv).mono fun us _ _ h => h.append.append

theorem callOrMember_halts (hl : last.kind = .endOfInput) (ih : ExpressionsHalt last d) :
    Halts (GoesOn .call []) callOrMember (d + 1) last ahead := by
  refine .succ ?_
  simp only [callOrMember]
  refine .bind_of (sound hl d).member (ih.member _) fun dx =>
    .peek_bind (.ite (fun _ => ?_) fun _ => .return)
  exact (ih.call _ dx).mono fun us _ _ => .behind

section
variable {R : LeftRung} {D E : List Lexeme → Node → Prop} {V W : List Lexeme → Prop}

/-- `V` and `W` are the beginnings of operands and of what they are grouped to. -/
theorem LeftRung.Groups.tail_halts (hR : R.Groups D E) (hl : last.kind = .endOfInput)
    (hbegins : ∀ {o : Lexeme} {xs ys e}, E xs e → o.kind = .operator → o.value ∈ R.operators →
      V ys → W (xs ++ o :: ys))
    (hsound : ∀ {ahead rest v}, R.operand d last ahead = .value v rest →
      ∃ used, ahead = used ++ rest ∧ D (used.map Token.lexeme) v)
    (ihOperand : ∀ ahead, Halts (fun us => V (us.map Token.lexeme)) R.operand d last ahead)
    (ihTail : ∀ {xs u} ahead, E xs u →
      Halts (fun us => W (xs ++ us.map Token.lexeme)) (R.tail · u) d last ahead)
    (hu : E xs u) :
    Halts (fun us => W (xs ++ us.map Token.lexeme)) (R.tail · u) (d + 1) last ahead := by
  refine .succ ?_
  simp only [R.tail_succ]
  refine .atOperator_bind (.ite (fun h => ?_) fun _ => .return)
  obtain ⟨o, os, rfl, ho, hv⟩ := eq_cons_of_operator hl h
  refine .advance_bind (.bind_of hsound ((ihOperand _).mono ?_) fun {r ys rest} dy => ?_)
  · exact fun us _ _ h => hbegins hu ho hv h
  · have hu' : E (xs ++ (o :: ys).map Token.lexeme) _ := hR.binary (o := o.lexeme) hu ho hv dy
    exact (ihTail _ hu').mono fun us _ _ h => by simpa using h

theorem LeftRung.Groups.whole_halts (hR : R.Groups D E) (hbegins : ∀ {ys}, V ys → W ys)
    (hsound : ∀ {ahead rest v}, R.operand d last ahead = .value v rest →
      ∃ used, ahead = used ++ rest ∧ D (used.map Token.lexeme) v)
    (ihOperand : ∀ ahead, Halts (fun us => V (us.map Token.lexeme)) R.operand d last ahead)
    (ihTail : ∀ {xs u} ahead, E xs u →
      Halts (fun us => W (xs ++ us.map Token.lexeme)) (R.tail · u) d last ahead) :
    Halts (fun us => W (us.map Token.lexeme)) R.whole (d + 1) last ahead := by
  refine .succ ?_
  simp only [R.whole_succ]
  refine .bind_of hsound ((ihOperand _).mono fun _ _ _ h => hbegins h) fun dx => ?_
  exact (ihTail _ (hR.operand dx)).mono fun us _ _ h => by simpa using h

end

theorem properties_halts (hl : last.kind = .endOfInput) (ih : ExpressionsHalt last d) :
    Halts (GoesOn .entries []) properties (d + 1) last ahead := by
  refine .succ ?_
  simp only [properties]
  refine .atListEnd_bind (.ite (fun _ => .return) fun _ => ?_)
  refine .expect_bind hl (by decide) begins_entries fun {k rest} _ hk => ?_
  refine .peek_bind (.ite (fun hc => ?_) fun _ => .ite (fun _ => .return) fun _ => ?_)
  · obtain ⟨c, cs, rfl, hc⟩ := eq_cons_of_headD hl hc (by decide)
    refine .advance_bind (.bind_of (sound hl d).properties ((ih.properties _).mono ?_)
      fun _ => .return)
    exact fun us _ _ h => .key (k := k.lexeme) (c := c.lexeme) hk hc h
  · refine .expect_bind hl (by decide) (Derives.lastKey (k := k.lexeme) hk).begins
      fun {s rest} _ hs => ?_
    refine .bind_of (sound hl d).expression ((ih.expression _).mono ?_) fun {e xs rest} dx => ?_
    · exact fun us _ _ h => .lastEntry (k := k.lexeme) (s := s.lexeme) hk hs h
    refine .peek_bind (.ite (fun _ => .return) fun _ => .expect_bind hl (by decide) ?_
      fun {c rest} _ hc => ?_)
    · simpa [GoesOn] using Begins.lastEntry (k := k.lexeme) (s := s.lexeme) hk hs dx.begins
    · refine .bind_of (sound hl d).properties ((ih.properties _).mono fun us _ _ h => ?_)
        fun _ => .return
      simpa [GoesOn] using Begins.entry (k := k.lexeme) (s := s.lexeme) (c := c.lexeme) hk hs dx hc h

theorem object_halts (hl : last.kind = .endOfInput) (ih : ExpressionsHalt last d) :
    Halts (GoesOn .object []) object (d + 1) last ahead := by
  refine .succ ?_
  simp only [object]
  refine .peek_bind (.ite (fun hb => ?_) fun _ => (ih.sum _).mono fun _ _ _ h => .object h)
  obtain ⟨o, os, rfl, ho⟩ := eq_cons_of_headD hl hb (by decide)
  refine .advance_bind (.bind_of (sound hl d).properties ((ih.properties _).mono ?_)
    fun {ps xs rest} dp => .expect_bind hl (by decide) ?_ fun _ _ => .return)
  · exact fun us _ _ h => .entries (o := o.lexeme) ho h
  · simpa [GoesOn] using Begins.entries (o := o.lexeme) ho dp.begins

theorem expression_halts (hl : last.kind = .endOfInput) (ih : ExpressionsHalt last d) :
    Halts (GoesOn .expression []) expression (d + 1) last ahead := by
  refine .succ ?_
  simp only [expression]
  refine .bind_of (sound hl d).object ((ih.object _).mono fun _ _ _ h => .expression h)
    fun {t xs rest} dx => ?_
  refine .peek_bind (.ite (fun hq => ?_) fun _ => .return)
  obtain ⟨q, qs, rfl, hq⟩ := eq_cons_of_headD hl hq (by decide)
  refine .advance_bind (.bind_of (sound hl d).expression ((ih.expression _).mono ?_)
    fun _ => .return)
  intro us _ _ h
  simpa [GoesOn] using Begins.assignment (q := q.lexeme) dx hq h

theorem expressionsHalt (hl : last.kind = .endOfInput) : ∀ d, ExpressionsHalt last d := by
  intro d
  induction d with
  | zero => constructor <;> intros <;> exact .of_unfinished rfl
  | succ d ih =>
    exact {
      primary := fun _ => primary_halts hl ih
      memberTail := fun _ => memberTail_halts hl ih
      member := fun _ => member_halts hl ih
      argumentList := fun _ => argumentList_halts hl ih
      locatedArguments := fun _ => locatedArguments_halts hl ih
      call := fun _ => call_halts hl ih
      callOrMember := fun _ => callOrMember_halts hl ih
      productTail := fun _ => LeftRung.groups_products.tail_halts hl .factorBehind
        (sound hl d).callOrMember ih.callOrMember ih.productTail
      product := fun _ => LeftRung.groups_products.whole_halts .product (sound hl d).callOrMember
        ih.callOrMember ih.productTail
      sumTail := fun _ => LeftRung.groups_sums.tail_halts hl .termBehind (sound hl d).product ih.product
        ih.sumTail
      sum := fun _ => LeftRung.groups_sums.whole_halts .sum (sound hl d).product ih.product ih.sumTail
      properties := fun _ => properties_halts hl ih
      object := fun _ => object_halts hl ih
      expression := fun _ => expression_halts hl ih }

end LocksetLang.Grammar
