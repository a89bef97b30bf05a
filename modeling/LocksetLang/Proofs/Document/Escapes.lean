import LocksetLang.Document.Json
import Mathlib.Tactic

/-! Strings of documents. A character beyond the first plane is written as two code units of UTF-16,
so the escapes of a string are first read as code units, and these are then joined. -/

namespace LocksetLang.Document

open Text

def hexDigits : List Char := "0123456789abcdef".toList

def hexValue (cs : List Char) : Nat := cs.foldl (fun n c => 16 * n + hexDigits.idxOf c) 0

theorem idxOf_digitChar {n : Nat} (h : n < 16) : hexDigits.idxOf (Nat.digitChar n) = n := by
  interval_cases n <;> decide

theorem digitChar_mem {n : Nat} (h : n < 16) : Nat.digitChar n ∈ hexDigits := by
  interval_cases n <;> decide

theorem hexValue_hex {width n : Nat} (h : n < 16 ^ width) : hexValue (hex width n) = n := by
  induction width generalizing n with
  | zero => exact (Nat.lt_one_iff.1 h).symm
  | succ width ih =>
    have hdiv := ih (n := n / 16) (by rw [Nat.pow_succ] at h; omega)
    rw [hexValue] at hdiv ⊢
    rw [hex, List.foldl_append, hdiv, List.foldl_cons, List.foldl_nil,
      idxOf_digitChar (Nat.mod_lt n (by decide)), Nat.div_add_mod]

theorem hexDigits_hex (width n : Nat) : ∀ c ∈ hex width n, c ∈ hexDigits := by
  induction width generalizing n with
  | zero => exact List.forall_mem_nil _
  | succ width ih =>
    intro c hc
    rw [hex, List.mem_append, List.mem_singleton] at hc
    rcases hc with hc | rfl
    · exact ih _ c hc
    · exact digitChar_mem (Nat.mod_lt n (by decide))

def units (c : Char) : List Nat :=
  if c.toNat < 0x10000 then [c.toNat]
  else [0xD800 + (c.toNat - 0x10000) / 0x400, 0xDC00 + (c.toNat - 0x10000) % 0x400]

/-- The code unit that a letter behind a backslash stands for; a quote or a backslash there stands
for itself. -/
def escapeUnit (c : Char) : Nat :=
  if c = 'n' then 0x0A
  else if c = 'r' then 0x0D
  else if c = 't' then 0x09
  else if c = 'b' then 0x08
  else if c = 'f' then 0x0C
  else c.toNat

/-- The code units that a text with escapes stands for. -/
def readUnits : List Char → List Nat
  | '\\' :: 'u' :: a :: b :: c :: d :: rest => hexValue [a, b, c, d] :: readUnits rest
  | '\\' :: c :: rest => escapeUnit c :: readUnits rest
  | c :: rest => c.toNat :: readUnits rest
  | [] => []

/-- The characters of code units. The first unit of two is known by its range. -/
def joinUnits : List Nat → List Char
  | n :: m :: rest =>
    if 0xD800 ≤ n ∧ n < 0xDC00 then
      Char.ofNat (0x10000 + (n - 0xD800) * 0x400 + (m - 0xDC00)) :: joinUnits rest
    else Char.ofNat n :: joinUnits (m :: rest)
  | [n] => [Char.ofNat n]
  | [] => []

/-- The string that a text with escapes stands for. -/
def unescaped (cs : List Char) : String := String.ofList (joinUnits (readUnits cs))

theorem readUnits_unitEscape {n : Nat} (h : n < 0x10000) (rest : List Char) :
    readUnits (unitEscape n ++ rest) = n :: readUnits rest := by
  have hv : hexValue (hex 4 n) = n := hexValue_hex h
  rw [unitEscape, hex, hex, hex, hex, hex] at *
  simp only [List.nil_append, List.cons_append] at hv ⊢
  rw [readUnits, hv]

/-- The letters and signs that stand behind a backslash without a number. -/
def escapeLetters : List Char := "\"\\nrtbf".toList

inductive Escapes (c : Char) : List Char → Prop where
  | letter {e : Char} (he : e ∈ escapeLetters) (hu : units c = [escapeUnit e]) : Escapes c ['\\', e]
  | plain (hq : c ≠ '"') (hb : c ≠ '\\') (hp : 0x20 ≤ c.toNat ∧ c.toNat < 0x7F) : Escapes c [c]
  | unit {n : Nat} (hn : n < 0x10000) (hu : units c = [n]) : Escapes c (unitEscape n)
  | pair {n m : Nat} (hn : n < 0x10000) (hm : m < 0x10000) (hu : units c = [n, m]) :
    Escapes c (unitEscape n ++ unitEscape m)

theorem units_of_lt {c : Char} (h : c.toNat < 0x10000) : units c = [c.toNat] := if_pos h

theorem escapes_jsonChar (c : Char) : Escapes c (jsonChar c) := by
  have hvalid : c.toNat < 0xD800 ∨ 0xDFFF < c.toNat ∧ c.toNat < 0x110000 := c.valid
  unfold jsonChar
  split_ifs with hq hn hr ht hb hf hp hu
  · simp only [Bool.or_eq_true, decide_eq_true_eq] at hq
    rcases hq with rfl | rfl <;> exact .letter (by decide) (by decide)
  · exact .letter (by decide) (hn ▸ by decide)
  · exact .letter (by decide) (hr ▸ by decide)
  · exact .letter (by decide) (ht ▸ by decide)
  · refine .letter (by decide) ?_
    rw [units_of_lt (by omega), hb]
    rfl
  · refine .letter (by decide) ?_
    rw [units_of_lt (by omega), hf]
    rfl
  · simp only [Bool.or_eq_true, decide_eq_true_eq, not_or] at hq
    simp only [Bool.and_eq_true, decide_eq_true_eq] at hp
    exact .plain hq.1 hq.2 hp
  · exact .unit hu (units_of_lt hu)
  · exact .pair (by omega) (by omega) (if_neg hu)

theorem readUnits_jsonChar (c : Char) (rest : List Char) :
    readUnits (jsonChar c ++ rest) = units c ++ readUnits rest := by
  generalize hcs : jsonChar c = cs
  have h := hcs ▸ escapes_jsonChar c
  cases h with
  | @letter e he hu =>
    have hne : e ≠ 'u' := by
      rintro rfl
      exact absurd he (by decide)
    rw [hu, List.cons_append, List.singleton_append, readUnits]
    · rfl
    · exact fun _ _ _ _ _ h => absurd h hne
  | plain hq hb hp =>
    rw [units_of_lt (by omega), List.singleton_append, readUnits]
    · rfl
    · exact fun _ _ _ _ _ h => absurd h hb
    · exact fun _ _ h => absurd h hb
  | unit hn hu => rw [hu, readUnits_unitEscape hn, List.singleton_append]
  | pair hn hm hu =>
    rw [hu, List.append_assoc, readUnits_unitEscape hn, readUnits_unitEscape hm]
    rfl

theorem joinUnits_units (c : Char) (rest : List Nat) :
    joinUnits (units c ++ rest) = c :: joinUnits rest := by
  have hvalid : c.toNat < 0xD800 ∨ 0xDFFF < c.toNat ∧ c.toNat < 0x110000 := c.valid
  unfold units
  split_ifs with h
  · have hn : ¬ (0xD800 ≤ c.toNat ∧ c.toNat < 0xDC00) := by omega
    rw [List.singleton_append]
    cases rest with
    | nil => rw [joinUnits, joinUnits, Char.ofNat_toNat]
    | cons m rest => rw [joinUnits, if_neg hn, Char.ofNat_toNat]
  · rw [List.cons_append, List.singleton_append, joinUnits, if_pos (by omega)]
    rw [show 0x10000 + (0xD800 + (c.toNat - 0x10000) / 0x400 - 0xD800) * 0x400 +
      (0xDC00 + (c.toNat - 0x10000) % 0x400 - 0xDC00) = c.toNat by omega, Char.ofNat_toNat]

theorem unescaped_jsonChar (s : String) : unescaped (s.toList.flatMap jsonChar) = s := by
  have h : ∀ cs : List Char, joinUnits (readUnits (cs.flatMap jsonChar)) = cs := by
    intro cs
    induction cs with
    | nil => rfl
    | cons c cs ih => rw [List.flatMap_cons, readUnits_jsonChar, joinUnits_units, ih]
  rw [unescaped, h, String.ofList_toList]

end LocksetLang.Document
