import LocksetLang.CommandLine.World
import LocksetLang.Proofs.Outcome

/-! What happens to the files. A text is written as a whole or, if there is a surrogate in it, not at
all; by then the file that it was meant for has been emptied. -/

namespace LocksetLang

namespace Text

variable {standIns : StandIns} {text : String}

/-- No character of a text stands for a surrogate. -/
def Encodable (standIns : StandIns) (text : String) : Prop := ∀ c ∈ text.toList, standIns c = none

theorem scalars_of_forall {cs : List Char} (h : ∀ c ∈ cs, standIns c = none) (start : Nat) :
    scalars start (cs.map fun c => (standIns c).elim (.scalar c) .surrogate) = .ok cs := by
  induction cs generalizing start with
  | nil => rfl
  | cons c cs ih =>
    obtain ⟨hc, hcs⟩ := List.forall_mem_cons.1 h
    rw [List.map_cons, hc, Option.elim_none, scalars, ih hcs]
    rfl

theorem scalars_fault {cs : List Char} (h : ∃ c ∈ cs, standIns c ≠ none) (start : Nat) :
    ∃ fault, scalars start (cs.map fun c => (standIns c).elim (.scalar c) .surrogate) =
      .error fault := by
  induction cs generalizing start with
  | nil => simp at h
  | cons c cs ih =>
    rw [List.map_cons]
    cases hc : standIns c with
    | some s => exact ⟨_, rfl⟩
    | none =>
      obtain ⟨fault, hfault⟩ := ih (by simpa [hc] using h) (start + 1)
      refine ⟨fault, ?_⟩
      rw [Option.elim_none, scalars, hfault]
      rfl

theorem encode_of_encodable (h : Encodable standIns text) :
    encode standIns text = .ok text.toUTF8 := by
  rw [encode, codePoints, scalars_of_forall h]
  dsimp only [bind, Except.bind, pure, Except.pure]
  rw [String.ofList_toList]

theorem encode_fault (h : ¬ Encodable standIns text) :
    ∃ fault, encode standIns text = .error fault := by
  rw [Encodable] at h
  push Not at h
  obtain ⟨fault, hfault⟩ := scalars_fault h 0
  refine ⟨fault, ?_⟩
  rw [encode, codePoints, hfault]
  rfl

end Text

variable {site : Site} {w : World} {path name text : String} {content : ByteArray}

@[simp] theorem World.put_self : (w.put name content).files name = some content := if_pos rfl

theorem World.put_put {before : ByteArray} :
    (w.put name before).put name content = w.put name content := by
  simp only [put, World.mk.injEq, and_true]
  funext other
  split_ifs <;> rfl

def World.blank : World := ⟨fun _ => none, "", ""⟩

namespace Site

/-- A site where each path is the name of a file, on which nothing is typed. -/
def flat (standIns : StandIns) : Site := ⟨fun _ path => .ok path, standIns, true, fun _ _ => "", []⟩

def contentAt (site : Site) (w : World) (path : String) : Except PathFault ByteArray := do
  (w.files (← site.locate .reading path)).elim (throw .missing) pure

theorem run_read (site : Site) (w : World) (path : String) :
    (site.shell.read path).run w = (site.contentAt w path, w) := by
  cases hn : site.locate .reading path with
  | error fault =>
    rw [contentAt, hn]
    exact Outcome.run_bind_fault (congrArg (·, w) hn)
  | ok name =>
    rw [contentAt, hn]
    refine (Outcome.run_bind (congrArg (·, w) hn)).trans ?_
    have hw : (get : ExceptT PathFault (StateM World) World).run w = (.ok w, w) := rfl
    refine (Outcome.run_bind hw).trans ?_
    dsimp only [bind, Except.bind]
    cases w.files name <;> rfl

theorem run_create {name : String} (h : site.locate .writing path = .ok name) :
    (site.shell.create path).run w = (.ok name, w.put name .empty) :=
  Outcome.run_bind (congrArg (·, w) h)

theorem run_create_fault {fault : PathFault} (h : site.locate .writing path = .error fault) :
    (site.shell.create path).run w = (.error fault, w) :=
  Outcome.run_bind_fault (congrArg (·, w) h)

theorem run_write (h : Text.Encodable site.standIns text) :
    (site.shell.write name text).run w =
      (.ok (), w.put name ((w.files name).getD .empty ++ text.toUTF8)) :=
  Outcome.run_bind (congrArg (·, w) (Text.encode_of_encodable h))

theorem run_write_fault {fault : EncodeFault} (h : Text.encode site.standIns text = .error fault) :
    (site.shell.write name text).run w = (.error fault, w) :=
  Outcome.run_bind_fault (congrArg (·, w) h)

theorem run_print (h : site.strict → Text.Encodable site.standIns text) :
    (site.shell.print text).run w = (.ok (), { w with stdout := w.stdout ++ text }) := by
  dsimp only [shell]
  split_ifs with hs
  · exact Outcome.run_bind (congrArg (·, w) (Text.encode_of_encodable (h hs)))
  · rfl

theorem run_print_fault {fault : EncodeFault} (hs : site.strict)
    (h : Text.encode site.standIns text = .error fault) :
    (site.shell.print text).run w = (.error fault, w) := by
  dsimp only [shell]
  rw [if_pos hs]
  exact Outcome.run_bind_fault (congrArg (·, w) h)

end Site
end LocksetLang
