import Kortex.Library.Occurrences
import Mathlib.Data.List.Lex
import Mathlib.Data.Prod.Lex
import Mathlib.Tactic

/-
This file renames characters in texts, and says what no renaming can change. It orders lists by their length
and then by their letters, so that a replacement goes one way wherever it happens.
-/

namespace Kortex

/-- A renaming leaves the kept characters alone, makes none of them from another one and keeps the
size of each character. -/
structure Renaming (kept : List Char) (rename : Char → Char) : Prop where
  keeps : ∀ c ∈ kept, rename c = c
  avoids : ∀ c, rename c ∈ kept → c ∈ kept
  size : ∀ c, (rename c).utf8Size = c.utf8Size

/-- A renaming can replace the character. -/
def Movable (kept : List Char) (c : Char) : Prop :=
  c ∉ kept ∧ ∃ d, d ∉ kept ∧ d ≠ c ∧ d.utf8Size = c.utf8Size

/-- This renaming replaces one character by another one. -/
def replaceChar (c d : Char) (e : Char) : Char := if e = c then d else e

theorem renaming_replaceChar (kept : List Char) (c d : Char) (moved : c ∉ kept) (free : d ∉ kept)
    (size : d.utf8Size = c.utf8Size) : Renaming kept (replaceChar c d) where
  keeps e inside := by
    rw [replaceChar, if_neg]
    rintro rfl
    exact moved inside
  avoids e inside := by
    rw [replaceChar] at inside
    split at inside
    · exact absurd inside free
    · exact inside
  size e := by
    rw [replaceChar]
    split
    · rename_i same
      rw [same, size]
    · rfl

/-- Some renaming changes a text exactly when it can replace one of its characters. -/
theorem exists_renaming_iff (kept : List Char) (text : Str) :
    (∃ rename, Renaming kept rename ∧ text.map rename ≠ text) ↔ ∃ c ∈ text, Movable kept c := by
  constructor
  · rintro ⟨rename, renames, changed⟩
    by_contra fixed
    apply changed
    rw [← List.map_id text, List.map_map]
    apply List.map_congr_left
    intro c inside
    by_contra moved
    have free : c ∉ kept := fun own => moved (renames.keeps c own)
    exact fixed ⟨c, inside, free, rename c, fun own => free (renames.avoids c own), moved,
      renames.size c⟩
  · rintro ⟨c, inside, moved, d, free, different, size⟩
    refine ⟨replaceChar c d, renaming_replaceChar kept c d moved free size, fun same => ?_⟩
    have fixed : ∀ e ∈ text, replaceChar c d e = e := by
      rw [← List.map_id text, List.map_map] at same
      exact List.map_inj_left.mp same
    have own := fixed c inside
    rw [replaceChar, if_pos rfl] at own
    exact different own

namespace Renaming

variable {kept : List Char} {rename : Char → Char} (renames : Renaming kept rename)

include renames

theorem eq_iff (c d : Char) (own : d ∈ kept) : rename c = d ↔ c = d := by
  constructor
  · intro same
    have fixed := renames.keeps c (renames.avoids c (same ▸ own))
    exact fixed.symm.trans same
  · rintro rfl
    exact renames.keeps c own

theorem utf8Length (text : Str) : Str.utf8Length (text.map rename) = Str.utf8Length text := by
  rw [Str.utf8Length, Str.utf8Length, List.map_map]
  congr 1
  exact List.map_congr_left fun c _ => renames.size c

theorem split (separator : Char) (own : separator ∈ kept) (text : Str) :
    Str.split separator (text.map rename) = (Str.split separator text).map (List.map rename) := by
  simp only [Str.split]
  induction text with
  | nil => simp
  | cons c text ih =>
      rw [List.map_cons, List.splitOn_cons_eq_if_modifyHead, List.splitOn_cons_eq_if_modifyHead, ih]
      by_cases same : c = separator
      · rw [if_pos (by simpa using (renames.eq_iff c separator own).mpr same), if_pos (by simpa)]
        rfl
      · rw [if_neg (by simpa using (renames.eq_iff c separator own).not.mpr same),
          if_neg (by simpa using same)]
        cases text.splitOn separator <;> rfl

theorem join (separator : Char) (own : separator ∈ kept) (parts : List Str) :
    Str.join [separator] (parts.map (List.map rename)) =
      (Str.join [separator] parts).map rename := by
  simp only [Str.join]
  induction parts with
  | nil => rfl
  | cons part rest ih =>
      cases rest with
      | nil => simp
      | cons other rest =>
          simp only [List.map_cons, List.intercalate_cons_cons] at ih ⊢
          rw [ih]
          simp [renames.keeps separator own]

/-- A kept text stands in the renamed text where it stood before. -/
theorem prefix_iff (old : Str) (inside : old ⊆ kept) (text : Str) :
    old <+: text.map rename ↔ old <+: text := by
  induction old generalizing text with
  | nil => simp
  | cons c old ih =>
      cases text with
      | nil => simp
      | cons d text =>
          have own := inside List.mem_cons_self
          rw [List.map_cons, List.cons_prefix_cons, List.cons_prefix_cons,
            ih (fun _ present => inside (List.mem_cons_of_mem _ present)), eq_comm,
            renames.eq_iff d c own, eq_comm]

theorem isPrefixOf (old : Str) (inside : old ⊆ kept) (text : Str) :
    old.isPrefixOf (text.map rename) = old.isPrefixOf text := by
  rw [Bool.eq_iff_iff, List.isPrefixOf_iff_prefix, List.isPrefixOf_iff_prefix,
    renames.prefix_iff old inside]

theorem countFrom (old : Str) (inside : old ⊆ kept) (skip : Nat) (text : Str) :
    Str.countFrom old skip (text.map rename) = Str.countFrom old skip text := by
  induction text generalizing skip with
  | nil => simp [Str.countFrom]
  | cons c text ih =>
      cases skip with
      | succ skip => exact ih skip
      | zero =>
          rw [List.map_cons, Str.countFrom, Str.countFrom, ← List.map_cons,
            renames.isPrefixOf old inside, ih, ih]

theorem count (old : Str) (inside : old ⊆ kept) (text : Str) :
    Str.count old (text.map rename) = Str.count old text := renames.countFrom old inside 0 text

theorem contains (old : Str) (inside : old ⊆ kept) (text : Str) :
    Str.contains (text.map rename) old = Str.contains text old := by
  rw [Str.contains, Str.contains, List.map_tails, List.any_map]
  exact congrArg (List.any _) (funext fun tail => renames.isPrefixOf old inside tail)

/-- A replaced text is renamed but for the text that replaces. -/
theorem replaceFirst (old new : Str) (inside : old ⊆ kept) (text : Str) :
    (∃ before after, Str.replaceFirst old new text = before ++ new ++ after ∧
      Str.replaceFirst old new (text.map rename) = before.map rename ++ new ++ after.map rename ∧
        text = before ++ old ++ after) ∨
      Str.replaceFirst old new text = text ∧
        Str.replaceFirst old new (text.map rename) = text.map rename := by
  induction text with
  | nil => exact Or.inr ⟨rfl, rfl⟩
  | cons c text ih =>
      have same := renames.isPrefixOf old inside (c :: text)
      rw [List.map_cons] at same ⊢
      rw [Str.replaceFirst, Str.replaceFirst, same]
      by_cases first : old.isPrefixOf (c :: text) = true
      · rw [if_pos first, if_pos first]
        obtain ⟨rest, split⟩ := List.isPrefixOf_iff_prefix.mp first
        refine Or.inl ⟨[], (c :: text).drop old.length, rfl, ?_, ?_⟩
        · rw [← List.map_cons, ← List.map_drop]
          rfl
        · rw [← split, List.drop_left]
          rfl
      · rw [if_neg first, if_neg first]
        rcases ih with ⟨before, after, replaced, renamed, split⟩ | ⟨kept, renamed⟩
        · refine Or.inl ⟨c :: before, after, ?_, ?_, ?_⟩
          · rw [replaced]
            rfl
          · rw [renamed]
            rfl
          · rw [split]
            rfl
        · rw [kept, renamed]
          exact Or.inr ⟨rfl, rfl⟩

end Renaming
end Kortex

namespace Kortex

variable {A : Type}

def weight (list : List A) : ℕ ×ₗ List A := toLex (list.length, list)

theorem weight_injective : Function.Injective (weight (A := A)) := by
  intro a b same
  exact (Prod.mk.inj (toLex.injective same)).2

variable [LinearOrder A]

theorem weight_lt_iff (a b : List A) :
    weight a < weight b ↔ a.length < b.length ∨ a.length = b.length ∧ a < b := by
  rw [weight, weight, Prod.Lex.toLex_lt_toLex]

theorem append_lt_append_of_length (a b back : List A) (same : a.length = b.length) (less : a < b) :
    a ++ back < b ++ back := by
  induction a generalizing b with
  | nil =>
      rw [List.length_nil] at same
      rw [List.eq_nil_of_length_eq_zero same.symm] at less
      exact absurd less (lt_irrefl _)
  | cons x a ih =>
      cases b with
      | nil => exact absurd same (by simp)
      | cons y b =>
          rw [List.cons_append, List.cons_append, List.cons_lt_cons_iff]
          rcases List.cons_lt_cons_iff.mp less with first | ⟨equal, rest⟩
          · exact Or.inl first
          · exact Or.inr ⟨equal, ih b (Nat.succ.inj same) rest⟩

/-- A replacement by a heavier part makes the whole heavier. -/
theorem weight_replace (front back a b : List A) (less : weight a < weight b) :
    weight (front ++ a ++ back) < weight (front ++ b ++ back) := by
  rw [weight_lt_iff] at less ⊢
  simp only [List.length_append]
  rcases less with shorter | ⟨same, before⟩
  · left
    omega
  · right
    refine ⟨by omega, ?_⟩
    rw [List.append_assoc, List.append_assoc]
    exact List.append_left_lt (append_lt_append_of_length a b back same before)

end Kortex
