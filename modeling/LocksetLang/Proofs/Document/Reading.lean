import LocksetLang.Proofs.Binary64.Written
import LocksetLang.Proofs.Document.Escapes

/-! Reading documents back. A reader goes through a text character by character. It does not look at
blanks, commas and colons, so how a text is spread over lines does not matter to it: documents are
told apart by brackets and quotes alone, and words by what stands behind them. -/

namespace LocksetLang.Document

open Binary64

inductive Unfinished where
  | nothing
  | word (cs : List Char)
  | string (cs : List Char) (escaping : Bool)

/-- The documents read so far: those of each bracket that is open, the innermost first, and last the
outermost ones. -/
structure Reader where
  levels : List (List Document)
  unfinished : Unfinished

/-- The names and the values of a record, which stand by turns. -/
def paired : List Document → List (String × Document)
  | .text name :: value :: rest => (name, value) :: paired rest
  | _ => []

def ofWord (cs : List Char) : Document :=
  match ofText? (String.ofList cs) with
  | some value => .number value
  | none =>
    if cs = "true".toList then .flag true else if cs = "false".toList then .flag false else .null

def push (ds : List Document) : List (List Document) → List (List Document)
  | items :: outer => (items ++ ds) :: outer
  | [] => []

def closed (wrap : List Document → Document) : List (List Document) → List (List Document)
  | items :: outer => push [wrap items] outer
  | [] => []

def blanks : List Char := " ,:\n".toList

def wordEnds : List Char := "\"[]{}".toList ++ blanks

namespace Reader

def empty : Reader := ⟨[[]], .nothing⟩

/-- The documents read so far, with the word that ends where the reader is. -/
def settled (r : Reader) : List (List Document) :=
  match r.unfinished with
  | .word cs => push [ofWord cs] r.levels
  | _ => r.levels

def stepOutside (r : Reader) (before : List Char) (c : Char) : Reader :=
  if c ∉ wordEnds then ⟨r.levels, .word (before ++ [c])⟩
  else if c = '"' then ⟨r.settled, .string [] false⟩
  else if c = '[' ∨ c = '{' then ⟨[] :: r.settled, .nothing⟩
  else if c = ']' then ⟨closed .list r.settled, .nothing⟩
  else if c = '}' then ⟨closed (fun ds => .record (paired ds)) r.settled, .nothing⟩
  else ⟨r.settled, .nothing⟩

def step (r : Reader) (c : Char) : Reader :=
  match r.unfinished with
  | .string cs true => ⟨r.levels, .string (cs ++ [c]) false⟩
  | .string cs false =>
    if c = '"' then ⟨push [.text (unescaped cs)] r.levels, .nothing⟩
    else ⟨r.levels, .string (cs ++ [c]) (c = '\\')⟩
  | .word cs => r.stepOutside cs c
  | .nothing => r.stepOutside [] c

def feed (r : Reader) (cs : List Char) : Reader := cs.foldl step r

end Reader

def ofJson? (text : String) : Option Document :=
  match (Reader.empty.feed text.toList).settled with
  | [[d]] => some d
  | _ => none

variable {as bs cs gap : List Char} {ds es : List Document} {levels : List (List Document)}
  {r : Reader} {c : Char}

@[simp] theorem push_nil : push [] levels = levels := by
  cases levels <;> simp [push]

@[simp] theorem push_push : push es (push ds levels) = push (ds ++ es) levels := by
  cases levels <;> simp [push]

namespace Reader

theorem feed_append : r.feed (as ++ bs) = (r.feed as).feed bs := List.foldl_append

theorem feed_cons : r.feed (c :: cs) = (r.step c).feed cs := rfl

/-- Outside of strings, the reader has read the documents in `levels`. -/
structure Holds (r : Reader) (levels : List (List Document)) : Prop where
  settled_eq : r.settled = levels
  outside : ∀ cs escaping, r.unfinished ≠ .string cs escaping

theorem holds_nothing : Holds ⟨levels, .nothing⟩ levels := ⟨rfl, nofun⟩

/-- A character that ends a word finds the same reader with the word and without it. -/
theorem Holds.step_eq (h : r.Holds levels) (hc : c ∈ wordEnds) :
    r.step c = step ⟨levels, .nothing⟩ c := by
  obtain ⟨ls, unfinished⟩ := r
  obtain ⟨rfl, hout⟩ := h
  cases unfinished with
  | nothing => rfl
  | string cs escaping => exact absurd rfl (hout cs escaping)
  | word cs => simp only [step, stepOutside, hc, not_true_eq_false, if_false, settled]

theorem feed_blanks (hg : ∀ c ∈ gap, c ∈ blanks) : feed ⟨levels, .nothing⟩ gap = ⟨levels, .nothing⟩ := by
  have hall : ∀ c ∈ blanks, ∀ levels, step ⟨levels, .nothing⟩ c = ⟨levels, .nothing⟩ := by
    intro c hc levels
    fin_cases hc <;> rfl
  induction gap with
  | nil => rfl
  | cons c gap ih => rw [feed_cons, hall c (hg c (by simp)), ih fun d hd => hg d (by simp [hd])]

end Reader

open Reader

/-- The characters are ASCII, and a reader takes the documents from them. -/
structure Encodes (cs : List Char) (ds : List Document) : Prop where
  ascii : ∀ c ∈ cs, c.toNat < 0x80
  reads : ∀ levels, (feed ⟨levels, .nothing⟩ cs).Holds (push ds levels)

theorem mem_wordEnds_of_blanks (h : c ∈ blanks) : c ∈ wordEnds := List.mem_append_right _ h

theorem ascii_blanks : ∀ c ∈ blanks, c.toNat < 0x80 := List.forall_iff_forall_mem.1 (by decide)

theorem encodes_nil : Encodes [] [] :=
  ⟨List.forall_mem_nil _, fun levels => by rw [push_nil]; exact holds_nothing⟩

theorem Encodes.append (ha : Encodes as ds) (hb : Encodes bs es) (hg : ∀ c ∈ gap, c ∈ blanks)
    (hn : gap ≠ []) : Encodes (as ++ gap ++ bs) (ds ++ es) := by
  refine ⟨fun c hc => ?_, fun levels => ?_⟩
  · rw [List.mem_append, List.mem_append] at hc
    rcases hc with (hc | hc) | hc
    · exact ha.ascii c hc
    · exact ascii_blanks c (hg c hc)
    · exact hb.ascii c hc
  · obtain ⟨g, gap, rfl⟩ := List.exists_cons_of_ne_nil hn
    have hblank : (feed ⟨levels, .nothing⟩ as).feed (g :: gap) = ⟨push ds levels, .nothing⟩ := by
      rw [feed_cons, (ha.reads levels).step_eq (mem_wordEnds_of_blanks (hg g (by simp))), ← feed_cons,
        feed_blanks hg]
    rw [feed_append, feed_append, hblank, ← push_push]
    exact hb.reads _

theorem Encodes.behind (h : Encodes cs ds) (hg : ∀ c ∈ gap, c ∈ blanks) : Encodes (gap ++ cs) ds := by
  by_cases hn : gap = []
  · rwa [hn]
  · exact encodes_nil.append h hg hn

theorem Encodes.before (h : Encodes cs ds) (hg : ∀ c ∈ gap, c ∈ blanks) : Encodes (cs ++ gap) ds := by
  by_cases hn : gap = []
  · rwa [hn, List.append_nil]
  · simpa using h.append encodes_nil hg hn

/-- A pair of brackets, and what it makes of the documents in it. -/
structure Brackets (o e : Char) (wrap : List Document → Document) : Prop where
  ascii : o.toNat < 0x80 ∧ e.toNat < 0x80
  ends : e ∈ wordEnds
  opens : ∀ levels, step ⟨levels, .nothing⟩ o = ⟨[] :: levels, .nothing⟩
  closes : ∀ items levels,
    step ⟨items :: levels, .nothing⟩ e = ⟨push [wrap items] levels, .nothing⟩

theorem brackets_list : Brackets '[' ']' .list :=
  ⟨by decide, by decide, fun _ => rfl, fun _ _ => rfl⟩

theorem brackets_record : Brackets '{' '}' fun ds => .record (paired ds) :=
  ⟨by decide, by decide, fun _ => rfl, fun _ _ => rfl⟩

theorem Encodes.enclosed {o e : Char} {wrap : List Document → Document} (h : Encodes cs ds)
    (hb : Brackets o e wrap) : Encodes (o :: (cs ++ [e])) [wrap ds] := by
  refine ⟨fun c hc => ?_, fun levels => ?_⟩
  · rw [List.mem_cons, List.mem_append, List.mem_singleton] at hc
    rcases hc with rfl | hc | rfl
    · exact hb.ascii.1
    · exact h.ascii c hc
    · exact hb.ascii.2
  · rw [feed_cons, hb.opens, feed_append, feed_cons, (h.reads ([] :: levels)).step_eq hb.ends, push,
      hb.closes, List.nil_append]
    exact holds_nothing

theorem feed_word (before : List Char) (h : ∀ c ∈ cs, c ∉ wordEnds) :
    feed ⟨levels, .word before⟩ cs = ⟨levels, .word (before ++ cs)⟩ := by
  induction cs generalizing before with
  | nil => rw [List.append_nil]; rfl
  | cons c cs ih =>
    have hstep : step ⟨levels, .word before⟩ c = ⟨levels, .word (before ++ [c])⟩ := if_pos (h c (by simp))
    rw [feed_cons, hstep, ih _ fun d hd => h d (by simp [hd]), List.append_assoc]
    rfl

theorem encodes_word (hne : cs ≠ []) (ha : ∀ c ∈ cs, c.toNat < 0x80) (h : ∀ c ∈ cs, c ∉ wordEnds) :
    Encodes cs [ofWord cs] := by
  refine ⟨ha, fun levels => ?_⟩
  obtain ⟨c, cs, rfl⟩ := List.exists_cons_of_ne_nil hne
  have hstep : step ⟨levels, .nothing⟩ c = ⟨levels, .word [c]⟩ := if_pos (h c (by simp))
  rw [feed_cons, hstep, feed_word _ fun d hd => h d (by simp [hd])]
  exact ⟨rfl, nofun⟩

theorem feed_plain (before : List Char) (h : ∀ c ∈ cs, c ≠ '"' ∧ c ≠ '\\') :
    feed ⟨levels, .string before false⟩ cs = ⟨levels, .string (before ++ cs) false⟩ := by
  induction cs generalizing before with
  | nil => rw [List.append_nil]; rfl
  | cons c cs ih =>
    obtain ⟨hq, hb⟩ := h c (by simp)
    have hstep : step ⟨levels, .string before false⟩ c = ⟨levels, .string (before ++ [c]) false⟩ := by
      simp [step, hq, hb]
    rw [feed_cons, hstep, ih _ fun d hd => h d (by simp [hd]), List.append_assoc]
    rfl

/-- Whatever stands behind a backslash, the string goes on. -/
theorem feed_escape (before : List Char) (e : Char) (h : ∀ c ∈ cs, c ≠ '"' ∧ c ≠ '\\') :
    feed ⟨levels, .string before false⟩ ('\\' :: e :: cs) =
      ⟨levels, .string (before ++ '\\' :: e :: cs) false⟩ := by
  have hstep : (step ⟨levels, .string before false⟩ '\\').step e =
      ⟨levels, .string (before ++ ['\\', e]) false⟩ := by
    simp [step]
  rw [feed_cons, feed_cons, hstep, feed_plain _ h, List.append_assoc]
  rfl

theorem hexDigits_spec : ∀ c ∈ hexDigits, (c ≠ '"' ∧ c ≠ '\\') ∧ c.toNat < 0x80 :=
  List.forall_iff_forall_mem.1 (by decide)

theorem feed_unitEscape (before : List Char) (n : Nat) :
    feed ⟨levels, .string before false⟩ (unitEscape n) =
      ⟨levels, .string (before ++ unitEscape n) false⟩ :=
  feed_escape before 'u' fun c hc => (hexDigits_spec c (hexDigits_hex 4 n c hc)).1

theorem ascii_unitEscape (n : Nat) : ∀ c ∈ unitEscape n, c.toNat < 0x80 := by
  rw [unitEscape, List.forall_mem_cons, List.forall_mem_cons]
  exact ⟨by decide, by decide, fun c hc => (hexDigits_spec c (hexDigits_hex 4 n c hc)).2⟩

/-- However a character of a string is written, it does not end the string. -/
theorem feed_escapes (h : Escapes c cs) (before : List Char) :
    feed ⟨levels, .string before false⟩ cs = ⟨levels, .string (before ++ cs) false⟩ := by
  cases h with
  | letter => exact feed_escape before _ (List.forall_mem_nil _)
  | plain hq hb => exact feed_plain before (List.forall_mem_singleton.2 ⟨hq, hb⟩)
  | unit => exact feed_unitEscape before _
  | pair => rw [feed_append, feed_unitEscape, feed_unitEscape, List.append_assoc]

theorem ascii_escapes (h : Escapes c cs) : ∀ d ∈ cs, d.toNat < 0x80 := by
  cases h with
  | letter he =>
    have hall : ∀ e ∈ escapeLetters, e.toNat < 0x80 := List.forall_iff_forall_mem.1 (by decide)
    exact List.forall_mem_cons.2 ⟨by decide, List.forall_mem_singleton.2 (hall _ he)⟩
  | plain hq hb hp => exact List.forall_mem_singleton.2 (by omega)
  | unit => exact ascii_unitEscape _
  | pair => exact List.forall_mem_append.2 ⟨ascii_unitEscape _, ascii_unitEscape _⟩

theorem encodes_jsonString (s : String) : Encodes (jsonString s).toList [.text s] := by
  have hfeed : ∀ (cs before : List Char) (levels : List (List Document)),
      feed ⟨levels, .string before false⟩ (cs.flatMap jsonChar) =
        ⟨levels, .string (before ++ cs.flatMap jsonChar) false⟩ := by
    intro cs
    induction cs with
    | nil => intro before levels; rw [List.flatMap_nil, List.append_nil]; rfl
    | cons c cs ih =>
      intro before levels
      rw [List.flatMap_cons, feed_append, feed_escapes (escapes_jsonChar c), ih, List.append_assoc]
  rw [jsonString, String.toList_ofList]
  refine ⟨fun c hc => ?_, fun levels => ?_⟩
  · rw [List.mem_append, List.mem_cons, List.mem_flatMap, List.mem_singleton] at hc
    rcases hc with (rfl | ⟨d, -, hc⟩) | rfl
    · decide
    · exact ascii_escapes (escapes_jsonChar d) c hc
    · decide
  · have hquote : step ⟨levels, .nothing⟩ '"' = ⟨levels, .string [] false⟩ := rfl
    have hend : ∀ body, step ⟨levels, .string body false⟩ '"' =
        ⟨push [.text (unescaped body)] levels, .nothing⟩ := fun body => rfl
    rw [List.cons_append, feed_cons, hquote, feed_append, hfeed, List.nil_append, feed_cons, hend,
      unescaped_jsonChar]
    exact holds_nothing

theorem encodes_number (x : Binary64) : Encodes (x.text longWords).toList [.number x] := by
  have hall : ∀ c ∈ textChars, c.toNat < 0x80 ∧ c ∉ wordEnds := List.forall_iff_forall_mem.1 (by decide)
  obtain ⟨hne, hc⟩ := text_word x
  have h := encodes_word hne (fun c h => (hall c (hc c h)).1) fun c h => (hall c (hc c h)).2
  rwa [ofWord, String.ofList_toList, ofText?_text] at h

theorem ofWord_of_not_number {s : String} (h : ofText? s = none) : ofWord s.toList =
    if s.toList = "true".toList then .flag true
    else if s.toList = "false".toList then .flag false else .null := by
  rw [ofWord, String.ofList_toList, h]

theorem encodes_words : Encodes "null".toList [.null] ∧ Encodes "true".toList [.flag true] ∧
    Encodes "false".toList [.flag false] := by
  have hall : ∀ s ∈ ["null", "true", "false"], s.toList ≠ [] ∧
      s.toList.Forall (fun c => c.toNat < 0x80 ∧ c ∉ wordEnds) ∧ ofText? s = none := by
    decide +kernel
  simp only [List.forall_iff_forall_mem] at hall
  have hword : ∀ s ∈ ["null", "true", "false"], Encodes s.toList [if s.toList = "true".toList
      then .flag true else if s.toList = "false".toList then .flag false else .null] := by
    intro s hs
    obtain ⟨hne, hc, hnone⟩ := hall s hs
    rw [← ofWord_of_not_number hnone]
    exact encodes_word hne (fun c h => (hc c h).1) fun c h => (hc c h).2
  exact ⟨hword "null" (by simp), hword "true" (by simp), hword "false" (by simp)⟩

theorem blanks_lineBreak (indent : Option Int) (depth : Nat) :
    ∀ c ∈ (lineBreak indent depth).toList, c ∈ blanks := by
  cases indent with
  | none => exact List.forall_mem_nil _
  | some width =>
    rw [lineBreak, String.toList_ofList, List.forall_mem_cons]
    refine ⟨by decide, fun c hc => ?_⟩
    rw [List.eq_of_mem_replicate hc]
    decide

/-- Texts of documents with blanks between them. -/
theorem encodes_intercalate {comma : String} {texts : List String} {dss : List (List Document)}
    (hg : ∀ c ∈ comma.toList, c ∈ blanks) (hn : comma.toList ≠ [])
    (h : List.Forall₂ (fun text ds => Encodes text.toList ds) texts dss) :
    Encodes (comma.intercalate texts).toList dss.flatten := by
  induction h with
  | nil => exact encodes_nil
  | @cons text ds texts dss ht hts ih =>
    cases hts with
    | nil => simpa using ht
    | cons =>
      rw [String.intercalate_cons_cons, String.toList_append, String.toList_append]
      exact ht.append ih hg hn

section
variable (indent : Option Int)

/-- How what stands in brackets is spread over lines does not matter. -/
theorem encodes_bracketed (depth : Nat) (opening closing : String) {o e : Char}
    {wrap : List Document → Document} {texts : List String} {dss : List (List Document)}
    (h : List.Forall₂ (fun text ds => Encodes text.toList ds) texts dss) (hb : Brackets o e wrap)
    (ho : opening.toList = [o]) (he : closing.toList = [e]) :
    Encodes (bracketed opening closing indent depth texts).toList [wrap dss.flatten] := by
  have hinner : ∃ inner, Encodes inner dss.flatten ∧
      (bracketed opening closing indent depth texts).toList = o :: (inner ++ [e]) := by
    cases h with
    | nil => exact ⟨[], encodes_nil, by simp [bracketed, ho, he]⟩
    | @cons text ds texts dss ht hts =>
      have hcomma : ∀ c ∈ (if indent.isNone then ", " else "," ++ lineBreak indent (depth + 1)).toList,
          c ∈ blanks := by
        split_ifs
        · exact List.forall_iff_forall_mem.1 (by decide)
        · rw [String.toList_append]
          exact List.forall_mem_append.2
            ⟨List.forall_mem_singleton.2 (by decide), blanks_lineBreak indent _⟩
      have hne : (if indent.isNone then ", " else "," ++ lineBreak indent (depth + 1)).toList ≠ [] := by
        split_ifs <;> simp
      have hitems := encodes_intercalate hcomma hne (.cons ht hts)
      refine ⟨_, (hitems.behind (blanks_lineBreak indent (depth + 1))).before
        (blanks_lineBreak indent depth), ?_⟩
      simp [bracketed, ho, he]
  obtain ⟨inner, hinner, heq⟩ := hinner
  rw [heq]
  exact hinner.enclosed hb

theorem paired_flatten (fields : List (String × Document)) :
    paired (fields.map fun f => [.text f.1, f.2]).flatten = fields := by
  induction fields with
  | nil => rfl
  | cons f fields ih =>
    rw [List.map_cons, List.flatten_cons, List.cons_append, List.cons_append, paired,
      List.nil_append, ih]

mutual

theorem encodes_jsonAt (depth : Nat) : (d : Document) → Encodes (jsonAt indent depth d).toList [d]
  | .null => by rw [jsonAt]; exact encodes_words.1
  | .flag true => by rw [jsonAt]; exact encodes_words.2.1
  | .flag false => by rw [jsonAt]; exact encodes_words.2.2
  | .number x => by rw [jsonAt]; exact encodes_number x
  | .text s => by rw [jsonAt]; exact encodes_jsonString s
  | .list items => by
    have h := encodes_bracketed indent depth "[" "]" (encodes_jsonItems (depth + 1) items)
      brackets_list rfl rfl
    rw [jsonAt]
    rwa [← List.flatMap_def, List.flatMap_singleton'] at h
  | .record fields => by
    have h := encodes_bracketed indent depth r"{" r"}"
      (encodes_jsonFields (depth + 1) fields) brackets_record rfl rfl
    rw [jsonAt]
    rwa [paired_flatten] at h

theorem encodes_jsonItems (depth : Nat) : (items : List Document) →
    List.Forall₂ (fun text ds => Encodes text.toList ds) (jsonItems indent depth items)
      (items.map fun d => [d])
  | [] => by rw [jsonItems]; exact .nil
  | d :: items => by
    rw [jsonItems]
    exact .cons (encodes_jsonAt depth d) (encodes_jsonItems depth items)

theorem encodes_jsonFields (depth : Nat) : (fields : List (String × Document)) →
    List.Forall₂ (fun text ds => Encodes text.toList ds) (jsonFields indent depth fields)
      (fields.map fun f => [.text f.1, f.2])
  | [] => by rw [jsonFields]; exact .nil
  | (name, value) :: fields => by
    have hcolon : ∀ c ∈ ": ".toList, c ∈ blanks := List.forall_iff_forall_mem.1 (by decide)
    have h := (encodes_jsonString name).append (encodes_jsonAt depth value) hcolon (by decide)
    rw [jsonFields]
    refine .cons ?_ (encodes_jsonFields depth fields)
    rw [String.toList_append, String.toList_append]
    exact h

end

/-- However a document is indented, its text is ASCII and reads back as the document. -/
theorem ofJson?_json (d : Document) :
    ofJson? (d.json indent) = some d ∧ ∀ c ∈ (d.json indent).toList, c.toNat < 0x80 := by
  have h := encodes_jsonAt indent 0 d
  refine ⟨?_, h.ascii⟩
  rw [ofJson?, json, Reader.empty, (h.reads [[]]).settled_eq]
  rfl

end
end LocksetLang.Document
