import LocksetLang.CommandLine.Run
import LocksetLang.Proofs.CommandLine.World
import LocksetLang.Proofs.Source.Outcomes

/-! What can come of a command that renders. The source is read, parsed and rendered before anything
is shown or written, so a fault at any of these stages leaves all as it was. Then the file is opened,
and it is empty when it turns out that there are no bytes for the text. Of the faults, those of the
parser are the ones in the source itself, and they alone are reported. -/

namespace LocksetLang.CommandLine

variable {job : Job} {site : Site} {w after : World} {fault : RunFault} {args : List String}

theorem decodeFile_toUTF8 (s : String) :
    decodeFile s.toUTF8 = .ok (String.ofList (Text.unifyNewlines s.toList)) := by
  have h : String.fromUTF8? s.toUTF8 = some s := by
    rw [String.fromUTF8?, String.toUTF8_eq_toByteArray, dif_pos s.isValidUTF8]
    rfl
  rw [decodeFile, h]

namespace Job

theorem path?_of_file (ht : job.isText = false)
    (hext : extension.toList.isSuffixOf job.source.toList) : job.path? = .ok (some job.source) := by
  simp [path?, ht, hext]

def sourceIn (job : Job) (site : Site) (w : World) : Except RunFault String :=
  ((job.sourceText site.shell).run w).1

def textIn (job : Job) (site : Site) (w : World) : Except RunFault String :=
  ((job.text site.shell).run w).1

def outcome (job : Job) (site : Site) (w : World) : Except RunFault String × World :=
  (job.run site.shell).run w

theorem run_sourceText_fault (h : job.path? = .error fault) :
    (job.sourceText site.shell).run w = (.error fault, w) :=
  Outcome.run_bind_fault ((Outcome.run_lift job.path? w).trans (by rw [h]))

theorem run_sourceText_text (h : job.path? = .ok none) :
    (job.sourceText site.shell).run w = (.ok job.source, w) :=
  Outcome.run_bind ((Outcome.run_lift job.path? w).trans (by rw [h]))

theorem run_sourceText_file {path : String} (h : job.path? = .ok (some path)) :
    (job.sourceText site.shell).run w =
      (((site.contentAt w path).mapError (.file · path)).bind decodeFile, w) := by
  refine (Outcome.run_bind ((Outcome.run_lift job.path? w).trans (by rw [h]))).trans ?_
  have hread : ((site.shell.read path).adapt (RunFault.file · path)).run w =
      ((site.contentAt w path).mapError (.file · path), w) := by
    rw [Outcome.run_adapt, Site.run_read]
  cases hc : (site.contentAt w path).mapError (RunFault.file · path) with
  | error fault =>
    rw [hc] at hread
    exact Outcome.run_bind_fault hread
  | ok content =>
    rw [hc] at hread
    exact (Outcome.run_bind hread).trans (Outcome.run_lift _ w)

theorem run_sourceText (job : Job) (site : Site) (w : World) :
    (job.sourceText site.shell).run w = (job.sourceIn site w, w) := by
  suffices h : ∃ r, (job.sourceText site.shell).run w = (r, w) by
    obtain ⟨r, hr⟩ := h
    rw [sourceIn, hr]
  rcases h : job.path? with fault | (_ | path)
  · exact ⟨_, run_sourceText_fault h⟩
  · exact ⟨_, run_sourceText_text h⟩
  · exact ⟨_, run_sourceText_file h⟩

theorem sourceIn_of_text (h : job.path? = .ok none) : job.sourceIn site w = .ok job.source :=
  congrArg Prod.fst (run_sourceText_text h)

theorem sourceIn_of_file {path text : String} (h : job.path? = .ok (some path))
    (hc : site.contentAt w path = .ok text.toUTF8) :
    job.sourceIn site w = .ok (String.ofList (Text.unifyNewlines text.toList)) := by
  rw [sourceIn, run_sourceText_file h, hc]
  exact decodeFile_toUTF8 text

theorem run_text (job : Job) (site : Site) (w : World) :
    (job.text site.shell).run w = ((job.sourceIn site w).bind job.rendered, w) := by
  have hread := run_sourceText job site w
  rw [text]
  cases hs : job.sourceIn site w with
  | error fault =>
    rw [hs] at hread
    exact Outcome.run_bind_fault hread
  | ok source =>
    rw [hs] at hread
    rw [Outcome.run_bind hread, Outcome.run_lift]
    rfl

theorem textIn_eq (job : Job) (site : Site) (w : World) :
    job.textIn site w = (job.sourceIn site w).bind job.rendered := by
  rw [textIn, run_text]

theorem destination?_of_out {path : String} (hout : job.out = some path) (hne : path ≠ "") :
    job.destination? = some path := by
  simp [destination?, hout, hne]

section
variable {text path name : String}

theorem outcome_of_fault (h : job.textIn site w = .error fault) :
    job.outcome site w = (.error fault, w) :=
  Outcome.run_bind_fault ((run_text job site w).trans (by rw [← textIn_eq, h]))

theorem outcome_of_delivered (h : job.textIn site w = .ok text)
    (hd : (job.deliver site.shell text).run w = (.ok (), after)) :
    job.outcome site w = (.ok text, after) :=
  (Outcome.run_bind ((run_text job site w).trans (by rw [← textIn_eq, h]))).trans
    (Outcome.run_bind hd)

theorem outcome_of_undelivered (h : job.textIn site w = .ok text)
    (hd : (job.deliver site.shell text).run w = (.error fault, after)) :
    job.outcome site w = (.error fault, after) :=
  (Outcome.run_bind ((run_text job site w).trans (by rw [← textIn_eq, h]))).trans
    (Outcome.run_bind_fault hd)

theorem outcome_shown (h : job.textIn site w = .ok text) (hd : job.destination? = none)
    (he : site.strict → Text.Encodable site.standIns (written text)) :
    job.outcome site w = (.ok text, { w with stdout := w.stdout ++ written text }) := by
  refine outcome_of_delivered h ?_
  rw [deliver, hd]
  exact Outcome.run_adapt_ok (Site.run_print he)

theorem outcome_unshown {found : EncodeFault} (h : job.textIn site w = .ok text)
    (hd : job.destination? = none) (hs : site.strict)
    (he : Text.encode site.standIns (written text) = .error found) :
    job.outcome site w = (.error (.unencodable found), w) := by
  refine outcome_of_undelivered h ?_
  rw [deliver, hd]
  exact Outcome.run_adapt_fault (Site.run_print_fault hs he)

theorem outcome_unopened {unopened : PathFault} (h : job.textIn site w = .ok text)
    (hd : job.destination? = some path) (hn : site.locate .writing path = .error unopened) :
    job.outcome site w = (.error (.file unopened path), w) := by
  refine outcome_of_undelivered h ?_
  rw [deliver, hd]
  exact Outcome.run_bind_fault (Outcome.run_adapt_fault (Site.run_create_fault hn))

theorem outcome_written (h : job.textIn site w = .ok text) (hd : job.destination? = some path)
    (hn : site.locate .writing path = .ok name)
    (he : Text.Encodable site.standIns (written text)) :
    job.outcome site w = (.ok text, w.put name (written text).toUTF8) := by
  refine outcome_of_delivered h ?_
  rw [deliver, hd]
  refine (Outcome.run_bind (Outcome.run_adapt_ok (Site.run_create hn))).trans ?_
  refine Outcome.run_adapt_ok ((Site.run_write he).trans ?_)
  rw [World.put_self, World.put_put]
  rfl

theorem outcome_emptied {found : EncodeFault} (h : job.textIn site w = .ok text)
    (hd : job.destination? = some path) (hn : site.locate .writing path = .ok name)
    (he : Text.encode site.standIns (written text) = .error found) :
    job.outcome site w = (.error (.unencodable found), w.put name .empty) := by
  refine outcome_of_undelivered h ?_
  rw [deliver, hd]
  refine (Outcome.run_bind (Outcome.run_adapt_ok (Site.run_create hn))).trans ?_
  exact Outcome.run_adapt_fault (Site.run_write_fault he)

end

/-- What a job leaves behind: a text that is shown or written, or nothing at all, unless it has opened
a file for a text that cannot be written. -/
inductive Leaves (job : Job) (site : Site) (w : World) : Except RunFault String × World → Prop where
  | nothing {fault : RunFault} (h : job.textIn site w = .error fault) :
    Leaves job site w (.error fault, w)
  | shown {text : String} (h : job.textIn site w = .ok text) (hd : job.destination? = none)
    (he : site.strict → Text.Encodable site.standIns (written text)) :
    Leaves job site w (.ok text, { w with stdout := w.stdout ++ written text })
  | unshown {text : String} {fault : EncodeFault} (h : job.textIn site w = .ok text)
    (hd : job.destination? = none) (hs : site.strict)
    (he : ¬ Text.Encodable site.standIns (written text)) :
    Leaves job site w (.error (.unencodable fault), w)
  | unopened {text path : String} {fault : PathFault} (h : job.textIn site w = .ok text)
    (hd : job.destination? = some path) (hn : site.locate .writing path = .error fault) :
    Leaves job site w (.error (.file fault path), w)
  | written {text path name : String} (h : job.textIn site w = .ok text)
    (hd : job.destination? = some path) (hn : site.locate .writing path = .ok name)
    (he : Text.Encodable site.standIns (Job.written text)) :
    Leaves job site w (.ok text, w.put name (Job.written text).toUTF8)
  | emptied {text path name : String} {fault : EncodeFault} (h : job.textIn site w = .ok text)
    (hd : job.destination? = some path) (hn : site.locate .writing path = .ok name)
    (he : ¬ Text.Encodable site.standIns (Job.written text)) :
    Leaves job site w (.error (.unencodable fault), w.put name .empty)

theorem leaves_outcome (job : Job) (site : Site) (w : World) :
    job.Leaves site w (job.outcome site w) := by
  cases h : job.textIn site w with
  | error fault =>
    rw [outcome_of_fault h]
    exact .nothing h
  | ok text =>
    cases hd : job.destination? with
    | none =>
      by_cases he : site.strict → Text.Encodable site.standIns (written text)
      · rw [outcome_shown h hd he]
        exact .shown h hd he
      · obtain ⟨hs, he⟩ := Classical.not_imp.1 he
        obtain ⟨found, hfound⟩ := Text.encode_fault he
        rw [outcome_unshown h hd hs hfound]
        exact .unshown h hd hs he
    | some path =>
      cases hn : site.locate .writing path with
      | error fault =>
        rw [outcome_unopened h hd hn]
        exact .unopened h hd hn
      | ok name =>
        by_cases he : Text.Encodable site.standIns (written text)
        · rw [outcome_written h hd hn he]
          exact .written h hd hn he
        · obtain ⟨found, hfound⟩ := Text.encode_fault he
          rw [outcome_emptied h hd hn hfound]
          exact .emptied h hd hn he

theorem outcome_eq_ok_iff {text : String} :
    (job.outcome site w).1 = .ok text ↔ job.textIn site w = .ok text ∧
      match job.destination? with
      | none => site.strict → Text.Encodable site.standIns (written text)
      | some path => ∃ name, site.locate .writing path = .ok name ∧
        Text.Encodable site.standIns (written text) := by
  constructor
  · intro hok
    have hleaves := leaves_outcome job site w
    generalize job.outcome site w = result at hleaves hok
    cases hleaves with
    | shown h hd he =>
      obtain rfl := Except.ok.inj hok
      rw [hd]
      exact ⟨h, he⟩
    | written h hd hn he =>
      obtain rfl := Except.ok.inj hok
      rw [hd]
      exact ⟨h, _, hn, he⟩
    | nothing | unshown | unopened | emptied => cases hok
  · rintro ⟨h, hdelivered⟩
    cases hd : job.destination? with
    | none =>
      rw [hd] at hdelivered
      rw [outcome_shown h hd hdelivered]
    | some path =>
      rw [hd] at hdelivered
      obtain ⟨name, hn, he⟩ := hdelivered
      rw [outcome_written h hd hn he]

end Job

section
variable (h : request args = .ok (.render job))
include h

end

end LocksetLang.CommandLine
