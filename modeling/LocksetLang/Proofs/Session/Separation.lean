import LocksetLang.Proofs.Grammar.Buffer
import LocksetLang.Session.Run

/-! Sessions that are cut in two between two entries. Of what came before, only the mode reaches the
second part. The parser goes on holding the tokens of some earlier entry, but two sessions that
differ in these alone show the same: this is kept by every step. -/

namespace LocksetLang.Session

variable {frames : Frames} {target : Option String} {s t : State} {entry : String}

/-- States that differ at most in what their parsers hold. -/
structure State.Alike (s t : State) : Prop where
  verbose_eq : s.verbose = t.verbose
  pending_eq : s.pending = t.pending

/-- Replies that show the same and lead to states alike. -/
structure RepliesAlike (a b : String × Option State) : Prop where
  shown_eq : a.1 = b.1
  next : Option.Rel State.Alike a.2 b.2

theorem State.Alike.reply (h : s.Alike t) (shown : String) :
    RepliesAlike (shown, some s) (shown, some t) :=
  ⟨rfl, .some h⟩

theorem RepliesAlike.last (shown : String) : RepliesAlike (shown, none) (shown, none) :=
  ⟨rfl, .none⟩

theorem refused_alike (h : s.Alike t) (fault : SourceFault) :
    RepliesAlike (refused frames s fault) (refused frames t fault) := by
  unfold refused
  split_ifs
  · exact .last _
  · exact h.reply _
  · exact h.reply _

def replyTo (frames : Frames) (target : Option String) (s : State) :
    Except SourceFault Node → String × Option State
  | .error fault => refused frames s fault
  | .ok (.program []) => ("", some s)
  | .ok program => (shown frames target s.verbose program, some s)

/-- An entry is read the same whatever the parser holds. -/
theorem answer_eq (frames : Frames) (target : Option String) (s : State) (entry : String) :
    answer frames target s entry =
      if entry.isEmpty || entry.toList.head? = some '#' then ("", some s)
      else if changesMode entry then
        (modeLine !s.verbose, some { s with verbose := !s.verbose })
      else replyTo frames target { s with parser := (s.parser.parse entry).2 } (parse entry) := by
  rw [answer, ← Buffer.parse_fst s.parser entry]
  rfl

theorem replyTo_alike (h : s.Alike t) (reply : Except SourceFault Node) :
    RepliesAlike (replyTo frames target s reply) (replyTo frames target t reply) := by
  unfold replyTo
  split
  · exact refused_alike h _
  · exact h.reply _
  · rw [h.verbose_eq]
    exact h.reply _

theorem answer_alike (h : s.Alike t) (entry : String) :
    RepliesAlike (answer frames target s entry) (answer frames target t entry) := by
  rw [answer_eq, answer_eq]
  split_ifs with hskip hmode
  · exact h.reply _
  · have hflip : State.Alike { s with verbose := !s.verbose } { t with verbose := !t.verbose } :=
      ⟨congrArg not h.verbose_eq, h.pending_eq⟩
    rw [show modeLine (!s.verbose) = modeLine (!t.verbose) by rw [h.verbose_eq]]
    exact hflip.reply _
  · have hread : State.Alike { s with parser := (s.parser.parse entry).2 }
        { t with parser := (t.parser.parse entry).2 } := ⟨h.verbose_eq, h.pending_eq⟩
    exact replyTo_alike hread _

theorem step_alike (h : s.Alike t) (input : Input) :
    RepliesAlike (step frames target s input) (step frames target t input) := by
  cases input with
  | interrupt => exact .last _
  | line text =>
    unfold step
    rw [h.pending_eq]
    dsimp only
    cases t.pending.add text with
    | quit => exact .last _
    | more pending =>
      have hmore : State.Alike { s with pending } { t with pending } := ⟨h.verbose_eq, rfl⟩
      exact hmore.reply _
    | entry text =>
      have hempty : State.Alike { s with pending := .empty } { t with pending := .empty } :=
        ⟨h.verbose_eq, rfl⟩
      exact answer_alike hempty text

section
variable {input : Input} {shown : String}

theorem runFrom_cons_none (h : step frames target s input = (shown, none)) (rest : List Input) :
    runFrom frames target s (input :: rest) = s.pending.prompt ++ shown := by
  rw [runFrom, h]
  exact String.append_empty

theorem runFrom_cons_some (h : step frames target s input = (shown, some t)) (rest : List Input) :
    runFrom frames target s (input :: rest) =
      s.pending.prompt ++ shown ++ runFrom frames target t rest := by
  rw [runFrom, h]

end

theorem runFrom_alike (h : s.Alike t) (input : List Input) :
    runFrom frames target s input = runFrom frames target t input := by
  induction input generalizing s t with
  | nil => rw [runFrom, runFrom, h.pending_eq]
  | cons first rest ih =>
    have hstep : RepliesAlike (step frames target s first) (step frames target t first) :=
      step_alike h first
    cases hs : step frames target s first with
    | mk shown next =>
      cases ht : step frames target t first with
      | mk shown' next' =>
        rw [hs, ht] at hstep
        obtain ⟨rfl, hnext⟩ := hstep
        cases hnext with
        | none => rw [runFrom_cons_none hs, runFrom_cons_none ht, h.pending_eq]
        | some hnext => rw [runFrom_cons_some hs, runFrom_cons_some ht, h.pending_eq, ih hnext]

/-- What inputs show from a state on, with the prompts before them, and the state they lead to;
`none` if one of them ends the session. -/
def runThrough (frames : Frames) (target : Option String) (s : State) :
    List Input → String × Option State
  | [] => ("", some s)
  | input :: rest =>
    match step frames target s input with
    | (shown, none) => (s.pending.prompt ++ shown, none)
    | (shown, some t) =>
      (s.pending.prompt ++ shown ++ (runThrough frames target t rest).1,
        (runThrough frames target t rest).2)

theorem runFrom_append (frames : Frames) (target : Option String) (s : State)
    (done rest : List Input) :
    runFrom frames target s (done ++ rest) =
      (runThrough frames target s done).1 ++
        match (runThrough frames target s done).2 with
        | none => ""
        | some t => runFrom frames target t rest := by
  induction done generalizing s with
  | nil => exact String.empty_append.symm
  | cons input done ih =>
    rw [List.cons_append, runThrough]
    cases h : step frames target s input with
    | mk shown next =>
      cases next with
      | none => rw [runFrom_cons_none h, String.append_empty]
      | some t =>
        rw [runFrom_cons_some h, ih]
        exact String.append_assoc.symm

/-- The small form of a text that starts with a hash starts with one as well. -/
theorem changesMode_eq_false (h : entry.isEmpty || entry.toList.head? = some '#') :
    changesMode entry = false := by
  rw [changesMode, decide_eq_false_iff_not]
  intro he
  have hlower := congrArg String.toList he
  rw [Text.lowercase, String.toList_ofList] at hlower
  cases hcs : entry.toList with
  | nil =>
    rw [hcs] at hlower
    exact absurd hlower (by decide)
  | cons c cs =>
    rw [Bool.or_eq_true, String.isEmpty_iff, ← String.toList_eq_nil_iff, hcs] at h
    obtain rfl : c = '#' := by simpa using h
    rw [hcs, Text.lowerFrom, show Text.lowerChar '#' = ['#'] by decide] at hlower
    exact absurd (congrArg List.head? hlower) (by simp)

/-- Only an entry that changes the mode does so, and no lines are left behind an entry. -/
theorem answer_next (h : (answer frames target s entry).2 = some t) :
    t.pending = s.pending ∧ t.verbose = (s.verbose ^^ changesMode entry) := by
  have hkept : ∀ parser reply, (replyTo frames target { s with parser } reply).2 = some t →
      t.pending = s.pending ∧ t.verbose = s.verbose := by
    intro parser reply hreply
    unfold replyTo refused at hreply
    split at hreply
    · split_ifs at hreply <;> cases hreply <;> exact ⟨rfl, rfl⟩
    · cases hreply
      exact ⟨rfl, rfl⟩
    · cases hreply
      exact ⟨rfl, rfl⟩
  rw [answer_eq] at h
  split_ifs at h with hskip hmode
  · cases h
    simp [changesMode_eq_false hskip]
  · cases h
    simp [hmode]
  · simpa [hmode] using hkept _ _ h

theorem entriesFrom_more {p q : Pending} {text : String} (h : p.add text = .more q)
    (rest : List Input) : (entriesFrom p (.line text :: rest)).1 = (entriesFrom q rest).1 := by
  simp [entriesFrom, h]

theorem entriesFrom_entry {p : Pending} {text : String} (h : p.add text = .entry entry)
    (rest : List Input) :
    (entriesFrom p (.line text :: rest)).1 = some entry :: (entriesFrom .empty rest).1 := by
  simp [entriesFrom, h]

def modeChanges (entries : List (Option String)) : Nat :=
  entries.countP fun entry => entry.any changesMode

/-- An input that does not end the session adds to the lines that are pending, or it ends an entry,
which alone can change the mode. -/
theorem step_next {input : Input} {shown : String} (h : step frames target s input = (shown, some t))
    (rest : List Input) :
    t.verbose = not^[modeChanges (entriesFrom s.pending [input]).1] s.verbose ∧
      (entriesFrom s.pending (input :: rest)).1 =
        (entriesFrom s.pending [input]).1 ++ (entriesFrom t.pending rest).1 := by
  cases input with
  | interrupt => cases h
  | line text =>
    unfold step at h
    dsimp only at h
    cases hadd : s.pending.add text with
    | quit =>
      rw [hadd] at h
      cases h
    | more pending =>
      rw [hadd] at h
      cases h
      rw [entriesFrom_more hadd, entriesFrom_more hadd]
      exact ⟨rfl, rfl⟩
    | entry entry =>
      rw [hadd] at h
      obtain ⟨hpending, hverbose⟩ := answer_next (congrArg Prod.snd h)
      rw [entriesFrom_entry hadd, entriesFrom_entry hadd, hpending, hverbose]
      refine ⟨?_, rfl⟩
      cases hmode : changesMode entry <;> simp [modeChanges, entriesFrom, hmode]

/-- The mode after inputs has changed once for each entry that asks for it. -/
theorem verbose_runThrough {done : List Input} (h : (runThrough frames target s done).2 = some t) :
    t.verbose = not^[modeChanges (entriesFrom s.pending done).1] s.verbose := by
  induction done generalizing s with
  | nil =>
    cases h
    rfl
  | cons input done ih =>
    rw [runThrough] at h
    cases hstep : step frames target s input with
    | mk shown next =>
      rw [hstep] at h
      cases next with
      | none => cases h
      | some u =>
        obtain ⟨hverbose, hentries⟩ := step_next hstep done
        rw [hentries, ih h, hverbose, modeChanges, modeChanges, modeChanges, List.countP_append,
          Nat.add_comm, Function.iterate_add_apply]

/-- Behind the end of an entry, a session goes on as a new one in the mode that was reached. -/
theorem run_append (frames : Frames) (target : Option String) (verbose : Bool) {done : List Input}
    (h : (runThrough frames target (start verbose) done).2.map State.pending = some .empty)
    (rest : List Input) :
    run frames target verbose (done ++ rest) =
      banner target ++ (runThrough frames target (start verbose) done).1 ++
        runFrom frames target (start (not^[modeChanges (entries done).1] verbose)) rest := by
  obtain ⟨t, ht, hpending⟩ := Option.map_eq_some_iff.1 h
  have hverbose := verbose_runThrough ht
  have halike : t.Alike (start (not^[modeChanges (entries done).1] verbose)) := ⟨hverbose, hpending⟩
  rw [run, runFrom_append, ht]
  dsimp only
  rw [runFrom_alike halike, String.append_assoc]

/-- A session behind an entry that is no program and one that changes the mode. -/
theorem run_behind_fault :
    let frames : Frames := fun faultClass _ => "  " ++ faultClass ++ "\n"
    let done := [.line r"f({", .line r"}", .line "Verbose-Mode"]
    (runThrough frames (some "source") (start false) done).2.map State.pending = some .empty ∧
      run frames (some "source") false (done ++ [.line "x", .interrupt]) =
        banner (some "source") ++ (runThrough frames (some "source") (start false) done).1 ++
          runFrom frames (some "source") (start (not^[modeChanges (entries done).1] false))
            [.line "x", .interrupt] := by
  intro frames done
  have h : (runThrough frames (some "source") (start false) done).2.map State.pending =
      some .empty := by decide +kernel
  exact ⟨h, run_append frames (some "source") false h _⟩

end LocksetLang.Session
