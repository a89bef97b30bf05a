import LocksetLang.Proofs.Source.Content
import LocksetLang.Proofs.Token.Stripping

/-! The strings of a program. They stand in its text as they stand in its layout, and nothing else of
a layout has a carriage return in it. -/

namespace LocksetLang

open Lexeme Source

variable {cs : List Char} {ls ms : List Lexeme} {t : Lexeme} {source text : String}
  {ss : List Node} {ts : List Token}

/-- The layout of lexemes has no carriage return but in a string. -/
theorem Spells.not_mem_return (h : Spells cs ls)
    (hs : ∀ t ∈ ls, t.kind = .string → '\r' ∉ t.value.toList) : '\r' ∉ cs := by
  induction h with
  | nil => exact List.not_mem_nil
  | @cons t cs gap rest ls ht hg _ _ _ ih =>
    rw [List.forall_mem_cons] at hs
    rw [List.mem_append, List.mem_append, not_or, not_or]
    refine ⟨fun hc => ?_, fun hc => absurd (hg _ hc) (by decide), ih hs.2⟩
    rcases ht.visible_or_quoted with hall | ⟨quote, body, hq, rfl, rfl⟩
    · exact absurd (hall _ hc) (by decide)
    · have hbody : '\r' ∉ body := by simpa using hs.1 rfl
      have hquote : quote ≠ '\r' := by
        rintro rfl
        exact absurd hq (by decide)
      simp [hbody, hquote.symm] at hc

/-- Lexemes that say the same have the same strings. -/
theorem exists_string_of_contents_eq (h : contents ls = contents ms) (ht : t ∈ ls)
    (hk : t.kind = .string) : ∃ u ∈ ms, u.kind = .string ∧ u.value = t.value := by
  have hc : t.content? = some (.text .string t.value) := by
    rw [Lexeme.content?, hk]
    rfl
  have hmem : Content.text .string t.value ∈ contents ms := by
    rw [← h]
    exact List.mem_filterMap.2 ⟨t, ht, hc⟩
  obtain ⟨u, hu, hcu⟩ := List.mem_filterMap.1 hmem
  rw [Lexeme.content?] at hcu
  split_ifs at hcu
  · cases hcu
  · obtain ⟨hkind, hvalue⟩ := Content.text.inj (Option.some.inj hcu)
    exact ⟨u, hu, hkind, hvalue⟩

theorem Lexeme.ReadOff.value_subset (h : t.ReadOff cs) : t.value.toList ⊆ cs := by
  rcases h with ⟨_ | _ | _ | _⟩ | _
  all_goals simp

theorem Scans.value_subset (h : Scans cs ls) (ht : t ∈ ls) : t.value.toList ⊆ cs := by
  induction h with
  | last => cases ht
  | more _ hread _ ih =>
    refine List.Subset.trans ?_ (List.subset_append_right _ _)
    rcases List.mem_cons.1 ht with rfl | ht
    · exact List.Subset.trans hread.readOff.value_subset (List.subset_append_left _ _)
    · exact List.Subset.trans (ih ht) (List.subset_append_right _ _)

/-- What is in a string of a text is in the text. -/
theorem value_subset_of_tokenize {t : Token} (h : tokenize source = .ok ts) (ht : t ∈ ts)
    (hk : t.kind = .string) : t.value.toList ⊆ source.toList := by
  obtain ⟨body, place, rfl, hscans⟩ := scans_of_tokenize h
  rcases List.mem_append.1 ht with ht | ht
  · exact hscans.value_subset (List.mem_map_of_mem ht)
  · rw [List.mem_singleton.1 ht] at hk
    cases hk

/-- The strings of a text are in the layout of its program, and the other way around. -/
theorem exists_string_iff (h : parse source = .ok (.program ss))
    (ht : tokenize source = .ok ts) (value : String) :
    (∃ t ∈ ts, t.kind = .string ∧ t.value = value) ↔
      ∃ t ∈ statementsLexemes ss, t.kind = .string ∧ t.value = value := by
  obtain ⟨body, place, ss', ht', -, hw, he, hd⟩ := scans_of_parse h
  obtain rfl := Node.program.inj he
  rw [ht, Except.ok.injEq] at ht'
  subst ht'
  have hcontents : contents (body.map Token.lexeme) = contents (statementsLexemes ss) :=
    hd.contents_eq (List.forall_mem_map.2 hw)
  constructor
  · rintro ⟨t, ht, hk, rfl⟩
    rcases List.mem_append.1 ht with ht | ht
    · exact exists_string_of_contents_eq hcontents (List.mem_map_of_mem ht) hk
    · rw [List.mem_singleton.1 ht] at hk
      cases hk
  · rintro ⟨t, ht, hk, rfl⟩
    obtain ⟨u, hu, huk, huv⟩ := exists_string_of_contents_eq hcontents.symm ht hk
    obtain ⟨w, hw, rfl⟩ := List.mem_map.1 hu
    exact ⟨w, List.mem_append_left _ hw, huk, huv⟩

theorem spells_of_formatSource (h : parse source = .ok (.program ss))
    (hf : formatSource (.program ss) = .ok text) : Spells text.toList (statementsLexemes ss) := by
  obtain ⟨text', hf', hs⟩ := formatSource_spells fun s hs => (isPlainStatement_of_parse h s hs).1
  rw [hf, Except.ok.injEq] at hf'
  rwa [hf']

theorem Spells.unique (hl : Spells text.toList ls)
    (hm : Spells text.toList ms) : ls = ms := by
  obtain ⟨ts, place, hts, rfl⟩ := tokenize_of_spells hl
  obtain ⟨us, place', hus, rfl⟩ := tokenize_of_spells hm
  rw [hts, Except.ok.injEq] at hus
  rw [(List.append_inj' hus rfl).1]

end LocksetLang
