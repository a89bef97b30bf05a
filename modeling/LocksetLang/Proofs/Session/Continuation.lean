import LocksetLang.Proofs.Token.Braces
import LocksetLang.Session.Entry

/-! When more lines are asked for. An entry goes on while the characters of its lines open more braces
than they close; its tokens would say the same but for the braces in comments and strings. -/

namespace LocksetLang.Session

variable {p : Pending} {line : String} {init lines : List String}

def StartsEntry (lines : List String) : Prop :=
  ∀ line ∈ lines.head?, quitWords.contains (Text.strip line) = false

theorem StartsEntry.of_concat (h : StartsEntry (init ++ [line])) : StartsEntry init := by
  intro first hfirst
  refine h first ?_
  rw [List.head?_append, Option.mem_def.1 hfirst]
  rfl

/-- A line that is no word to quit with ends the entry, or leaves a brace open. -/
theorem Pending.add_eq (h : p.lines = [] → quitWords.contains (Text.strip line) = false) :
    p.add line =
      if p.openBraces + braceBalance line ≤ 0 then
        .entry (Text.strip ("\n".intercalate (p.lines ++ [line])))
      else .more ⟨p.lines ++ [line], p.openBraces + braceBalance line⟩ := by
  have hquit : (p.lines.isEmpty && quitWords.contains (Text.strip line)) = false := by
    rw [Bool.and_eq_false_imp, List.isEmpty_iff]
    exact h
  rw [Pending.add, hquit]
  rfl

/-- More lines are asked for as long as the lines so far leave a brace open. -/
theorem entriesFrom_eq_nil_iff (hq : p.lines = [] → StartsEntry lines) :
    (entriesFrom p (lines.map .line)).1 = [] ↔
      ∀ pre, pre ≠ [] → pre <+: lines → 0 < p.openBraces + (pre.map braceBalance).sum := by
  induction lines generalizing p with
  | nil =>
    refine iff_of_true rfl fun pre hne hpre => ?_
    exact absurd (List.prefix_nil.1 hpre) hne
  | cons line lines ih =>
    have hadd := Pending.add_eq fun h => hq h line rfl
    by_cases hclosed : p.openBraces + braceBalance line ≤ 0
    · rw [if_pos hclosed] at hadd
      rw [List.map_cons, entriesFrom, hadd]
      refine iff_of_false (List.cons_ne_nil _ _) fun h => ?_
      have hfirst := h [line] (List.cons_ne_nil _ _) (List.prefix_append [line] lines)
      rw [List.map_singleton, List.sum_singleton] at hfirst
      omega
    · rw [if_neg hclosed] at hadd
      rw [List.map_cons, entriesFrom, hadd]
      dsimp only
      rw [List.nil_append, ih fun h => absurd h (by simp)]
      constructor
      · rintro h (_ | ⟨first, pre⟩) hne hpre
        · exact absurd rfl hne
        obtain ⟨rfl, hrest⟩ := List.cons_prefix_cons.1 hpre
        rw [List.map_cons, List.sum_cons, ← Int.add_assoc]
        cases pre with
        | nil => simpa using hclosed
        | cons second pre => exact h (second :: pre) (List.cons_ne_nil _ _) hrest
      · intro h pre hne hpre
        have hlonger := h (line :: pre) (List.cons_ne_nil _ _) (List.cons_prefix_cons.2 ⟨rfl, hpre⟩)
        rwa [List.map_cons, List.sum_cons, ← Int.add_assoc] at hlonger

theorem sum_braceBalance (lines : List String) :
    (lines.map braceBalance).sum = charBalance ("\n".intercalate lines).toList := by
  induction lines with
  | nil => rfl
  | cons line lines ih =>
    have hnewline : charBalance "\n".toList = 0 := rfl
    rw [List.map_cons, List.sum_cons, ih]
    cases lines with
    | nil => simp [braceBalance, charBalance]
    | cons next lines =>
      rw [String.intercalate_cons_cons, String.toList_append, String.toList_append,
        charBalance_append, charBalance_append, hnewline, add_zero]
      rfl

/-- How many more braces the tokens of lines open than they close. -/
def openBraces (lines : List String) : Int :=
  match tokenize ("\n".intercalate lines) with
  | .ok ts => tokenBalance ts
  | .error _ => 0

/-- How many more braces are opened than closed in the comments and strings of lines. -/
def concealedBraces (lines : List String) : Int := charBalance (concealed ("\n".intercalate lines))

theorem sum_braceBalance_of_tokenize {ts : List Token}
    (h : tokenize ("\n".intercalate lines) = .ok ts) :
    (lines.map braceBalance).sum = openBraces lines + concealedBraces lines := by
  rw [sum_braceBalance, charBalance_of_tokenize h, openBraces, h, concealedBraces]

theorem forall_prefix_concat {α : Type} {P : List α → Prop} {init : List α} {x : α} :
    (∀ pre, pre ≠ [] → pre <+: init ++ [x] → P pre) ↔
      (∀ pre, pre ≠ [] → pre <+: init → P pre) ∧ P (init ++ [x]) := by
  constructor
  · intro h
    exact ⟨fun pre hne hpre => h pre hne (hpre.trans (List.prefix_append _ _)),
      h _ (by simp) (List.prefix_refl _)⟩
  · rintro ⟨hinit, hall⟩ pre hne hpre
    rcases List.prefix_concat_iff.1 hpre with rfl | hpre
    · exact hall
    · exact hinit pre hne hpre

def StaysOpen (lines : List String) : Prop :=
  ∀ pre, pre ≠ [] → pre <+: lines → 0 < openBraces pre

theorem entries_concat_eq_nil_iff {ts : List Token} (hq : StartsEntry (init ++ [line]))
    (ht : tokenize ("\n".intercalate (init ++ [line])) = .ok ts) :
    (entries ((init ++ [line]).map .line)).1 = [] ↔
      (entries (init.map .line)).1 = [] ∧
        0 < openBraces (init ++ [line]) + concealedBraces (init ++ [line]) := by
  rw [entries, entries, entriesFrom_eq_nil_iff fun _ => hq,
    entriesFrom_eq_nil_iff fun _ => hq.of_concat, forall_prefix_concat, Pending.empty,
    sum_braceBalance_of_tokenize ht, Int.zero_add]

theorem staysOpen_nil : StaysOpen [] := fun _ hne hpre => absurd (List.prefix_nil.1 hpre) hne

theorem staysOpen_concat :
    StaysOpen (init ++ [line]) ↔ StaysOpen init ∧ 0 < openBraces (init ++ [line]) :=
  forall_prefix_concat

/-- More lines are asked for as the tokens have it if, and only if, behind lines that always left a
brace open, the braces in comments and strings make no difference to whether one is open. -/
theorem continuation_agrees_iff (hq : StartsEntry lines)
    (ht : ∀ pre, pre ≠ [] → pre <+: lines → ∃ ts, tokenize ("\n".intercalate pre) = .ok ts) :
    (∀ pre, pre ≠ [] → pre <+: lines → ((entries (pre.map .line)).1 = [] ↔ StaysOpen pre)) ↔
      ∀ pre, pre ≠ [] → pre <+: lines → StaysOpen pre.dropLast →
        (0 < openBraces pre ↔ 0 < openBraces pre + concealedBraces pre) := by
  induction lines using List.reverseRecOn with
  | nil =>
    have hnone : ∀ pre : List String, pre ≠ [] → ¬ pre <+: [] := fun _ hne hpre =>
      hne (List.prefix_nil.1 hpre)
    exact iff_of_true (fun pre hne hpre => absurd hpre (hnone pre hne))
      fun pre hne hpre => absurd hpre (hnone pre hne)
  | append_singleton init line ih =>
    obtain ⟨ts, hts⟩ := ht _ (by simp) (List.prefix_refl _)
    have ih := ih hq.of_concat fun pre hne hpre => ht pre hne (hpre.trans (List.prefix_append _ _))
    rw [forall_prefix_concat, forall_prefix_concat, ih]
    refine and_congr_right fun hinit => ?_
    -- both sides go on from whether a brace is still open before the last line
    have hbefore : (entries (init.map .line)).1 = [] ↔ StaysOpen init := by
      rcases eq_or_ne init [] with rfl | hne
      · exact iff_of_true rfl staysOpen_nil
      · exact ih.2 hinit init hne (List.prefix_refl _)
    rw [entries_concat_eq_nil_iff hq hts, staysOpen_concat, hbefore, List.dropLast_concat,
      and_congr_right_iff]
    exact imp_congr_right fun _ => Iff.comm

/-- An object on two lines, with braces in a string and in a comment. -/
theorem object_continuation_agrees :
    let lines := [r"f({ s: '}{',", r"}) # }"]
    StartsEntry lines ∧
      (∀ pre, pre ≠ [] → pre <+: lines → ∃ ts, tokenize ("\n".intercalate pre) = .ok ts) ∧
      (∀ pre, pre ≠ [] → pre <+: lines → StaysOpen pre.dropLast →
        (0 < openBraces pre ↔ 0 < openBraces pre + concealedBraces pre)) ∧
      ∀ pre, pre ≠ [] → pre <+: lines → ((entries (pre.map .line)).1 = [] ↔ StaysOpen pre) := by
  intro lines
  have hq : StartsEntry lines := by
    rintro line ⟨⟩
    decide +kernel
  have hok : ∀ {source}, (tokenize source).isOk → ∃ ts, tokenize source = .ok ts := by
    intro source h
    cases ht : tokenize source with
    | ok ts => exact ⟨ts, rfl⟩
    | error fault => rw [ht] at h; cases h
  have hpre : ∀ {P : List String → Prop}, P [r"f({ s: '}{',"] → P lines →
      ∀ pre, pre ≠ [] → pre <+: lines → P pre := by
    intro P hone htwo pre hne hpre
    simp only [lines, List.prefix_cons_iff, List.prefix_nil] at hpre
    rcases hpre with rfl | ⟨pre, rfl, rfl | ⟨pre, rfl, rfl⟩⟩
    · exact absurd rfl hne
    · exact hone
    · exact htwo
  have ht := hpre (P := fun pre => ∃ ts, tokenize ("\n".intercalate pre) = .ok ts)
    (hok (by decide +kernel)) (hok (by decide +kernel))
  have hbraces := hpre (P := fun pre => StaysOpen pre.dropLast →
      (0 < openBraces pre ↔ 0 < openBraces pre + concealedBraces pre))
    (fun _ => by decide +kernel) (fun _ => by decide +kernel)
  exact ⟨hq, ht, hbraces, (continuation_agrees_iff hq ht).2 hbraces⟩

/-- A string with a brace in it leaves no brace open, but another line is asked for. -/
theorem string_continuation_disagrees :
    let lines := [r#""{""#]
    StartsEntry lines ∧
      tokenize ("\n".intercalate lines) =
        .ok [⟨.string, r"{", ⟨1, 1⟩⟩, Cursor.endToken ⟨1, 4⟩] ∧
      (entries (lines.map .line)).1 = [] ∧ ¬ StaysOpen lines := by
  intro lines
  have ht : tokenize ("\n".intercalate lines) =
      .ok [⟨.string, r"{", ⟨1, 1⟩⟩, Cursor.endToken ⟨1, 4⟩] := by decide +kernel
  have hq : StartsEntry lines := by
    rintro line ⟨⟩
    decide +kernel
  refine ⟨hq, ht, by decide +kernel, fun h => ?_⟩
  have hopen := h _ (List.cons_ne_nil _ _) (List.prefix_refl _)
  rw [openBraces, ht] at hopen
  exact absurd hopen (by decide)

end LocksetLang.Session
