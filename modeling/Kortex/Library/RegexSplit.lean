import Kortex.Library.Regex
import Mathlib.Data.List.Forall2
import Mathlib.Tactic

/-
This file proves where a scan finds nothing, and that it reads the two sides of a separator alone.
-/

namespace Kortex.Regex

/-- Every match of the pattern has a character at least. -/
def consumes : Regex → Bool
  | empty => false
  | set _ => true
  | boundary _ => false
  | seq first second => consumes first || consumes second
  | alt first second => consumes first && consumes second
  | many body least _ _ => decide (0 < least) && consumes body

/-- No set of the pattern has the separator, which is no character of a word either. -/
def Rejects (separator : Char) : Regex → Prop
  | empty => True
  | set accepts => accepts separator = false
  | boundary isWord => isWord separator = false
  | seq first second => Rejects separator first ∧ Rejects separator second
  | alt first second => Rejects separator first ∧ Rejects separator second
  | many body _ most _ => Rejects separator body ∧ (most = none → consumes body = true)

theorem rejects_chars (separator : Char) (s : Str) : (chars s).Rejects separator ↔ separator ∉ s := by
  induction s with
  | nil => simp [chars, seqs, Rejects]
  | cons c s ih =>
      simp only [chars, seqs, List.map_cons, List.foldr_cons, Rejects] at ih ⊢
      rw [ih]
      simp

/-! A match leaves the rest of the text behind. -/

theorem suffix_upTo (step : Cursor → List Cursor) (lazily : Bool)
    (suffix : ∀ c, ∀ d ∈ step c, d.after <:+ c.after) (extra : Nat) (c d : Cursor)
    (inside : d ∈ upTo step lazily extra c) : d.after <:+ c.after := by
  induction extra generalizing c with
  | zero => rw [List.mem_singleton.mp inside]
  | succ extra ih =>
      have own : d = c ∨ ∃ e ∈ step c, d ∈ upTo step lazily extra e := by
        rw [upTo] at inside
        split at inside
        · simpa using inside
        · simpa [or_comm] using inside
      rcases own with rfl | ⟨e, first, later⟩
      · exact List.suffix_rfl
      · exact (ih e later).trans (suffix c e first)

theorem suffix_repeats (step : Cursor → List Cursor) (lazily : Bool) (extra : Nat)
    (suffix : ∀ c, ∀ d ∈ step c, d.after <:+ c.after) (least : Nat) (c d : Cursor)
    (inside : d ∈ repeats step lazily extra least c) : d.after <:+ c.after := by
  induction least generalizing c with
  | zero => exact suffix_upTo step lazily suffix extra c d inside
  | succ least ih =>
      obtain ⟨e, first, later⟩ := List.mem_flatMap.mp inside
      exact (ih e later).trans (suffix c e first)

theorem suffix_ends (r : Regex) (c d : Cursor) (inside : d ∈ r.ends c) : d.after <:+ c.after := by
  induction r generalizing c d with
  | empty => rw [List.mem_singleton.mp inside]
  | set accepts =>
      rw [ends] at inside
      split at inside
      · exact absurd inside List.not_mem_nil
      · rename_i e rest after
        split at inside
        · rw [List.mem_singleton.mp inside, after]
          exact List.suffix_cons e rest
        · exact absurd inside List.not_mem_nil
  | boundary isWord =>
      rw [ends] at inside
      split at inside
      · rw [List.mem_singleton.mp inside]
      · exact absurd inside List.not_mem_nil
  | seq first second ihFirst ihSecond =>
      obtain ⟨e, middle, final⟩ := List.mem_flatMap.mp inside
      exact (ihSecond e d final).trans (ihFirst c e middle)
  | alt first second ihFirst ihSecond =>
      rcases List.mem_append.mp inside with left | right
      · exact ihFirst c d left
      · exact ihSecond c d right
  | many body least most lazily ih => exact suffix_repeats _ lazily _ ih least c d inside

theorem length_ends (r : Regex) (c d : Cursor) (inside : d ∈ r.ends c) :
    d.after.length + r.consumes.toNat ≤ c.after.length := by
  have shorter (r : Regex) (c d : Cursor) (inside : d ∈ r.ends c) : d.after.length ≤ c.after.length :=
    (suffix_ends r c d inside).length_le
  induction r generalizing c d with
  | empty | boundary => exact shorter _ c d inside
  | set accepts =>
      rw [ends] at inside
      split at inside
      · exact absurd inside List.not_mem_nil
      · rename_i e rest after
        split at inside
        · simp [List.mem_singleton.mp inside, after, consumes]
        · exact absurd inside List.not_mem_nil
  | seq first second ihFirst ihSecond =>
      obtain ⟨e, middle, final⟩ := List.mem_flatMap.mp inside
      have before := ihFirst c e middle
      have after := ihSecond e d final
      have both : (first.seq second).consumes.toNat ≤ first.consumes.toNat + second.consumes.toNat := by
        rw [consumes]
        cases first.consumes <;> cases second.consumes <;> decide
      omega
  | alt first second ihFirst ihSecond =>
      have least : (first.alt second).consumes.toNat ≤ min first.consumes.toNat second.consumes.toNat := by
        rw [consumes]
        cases first.consumes <;> cases second.consumes <;> decide
      rcases List.mem_append.mp inside with left | right
      · have bound := ihFirst c d left
        omega
      · have bound := ihSecond c d right
        omega
  | many body least most lazily ih =>
      cases least with
      | zero => simpa [consumes] using shorter _ c d inside
      | succ least =>
          rw [ends] at inside
          obtain ⟨e, first, later⟩ := List.mem_flatMap.mp inside
          have rest := (suffix_repeats _ lazily _ (suffix_ends body) least e d later).length_le
          have own := ih c e first
          simp only [consumes, Nat.zero_lt_succ, decide_true, Bool.true_and]
          omega

/-! Some patterns match only where a character of a kind is. -/

/-- Every match of the pattern has a character with the property. -/
def Needs (P : Char → Prop) : Regex → Prop
  | empty => False
  | set accepts => ∀ c, accepts c = true → P c
  | boundary _ => False
  | seq first second => Needs P first ∨ Needs P second
  | alt first second => Needs P first ∧ Needs P second
  | many body least _ _ => 0 < least ∧ Needs P body

theorem needs_chars (P : Char → Prop) (s : Str) : (chars s).Needs P ↔ ∃ c ∈ s, P c := by
  induction s with
  | nil => simp [chars, seqs, Needs]
  | cons c s ih =>
      simp only [chars, seqs, List.map_cons, List.foldr_cons, Needs] at ih ⊢
      rw [ih]
      simp

theorem ends_eq_nil {P : Char → Prop} (r : Regex) (needs : r.Needs P) (c : Cursor)
    (lacks : ∀ e ∈ c.after, ¬ P e) : r.ends c = [] := by
  induction r generalizing c with
  | empty | boundary => exact False.elim needs
  | set accepts =>
      rw [ends]
      split
      · rfl
      · rename_i e rest after
        rw [if_neg]
        intro accepted
        exact lacks e (by simp [after]) (needs e accepted)
  | seq first second ihFirst ihSecond =>
      rw [ends]
      rcases needs with own | own
      · rw [ihFirst own c lacks, List.flatMap_nil]
      · rw [List.flatMap_eq_nil_iff]
        intro d inside
        apply ihSecond own d
        exact fun e member => lacks e ((suffix_ends first c d inside).subset member)
  | alt first second ihFirst ihSecond =>
      rw [ends, ihFirst needs.1 c lacks, ihSecond needs.2 c lacks, List.append_nil]
  | many body least most lazily ih =>
      obtain ⟨positive, own⟩ := needs
      obtain ⟨n, rfl⟩ := Nat.exists_eq_succ_of_ne_zero (Nat.ne_of_gt positive)
      rw [ends, repeats, ih own c lacks, List.flatMap_nil]

theorem finditer_eq_nil {P : Char → Prop} (r : Regex) (needs : r.Needs P) (text : Str)
    (lacks : ∀ e ∈ text, ¬ P e) : r.finditer text = [] := by
  have general : ∀ (position : Nat) (before : Option Char),
      r.finditerFrom position 0 before text = [] := by
    induction text with
    | nil => exact fun _ _ => rfl
    | cons c rest ih =>
        intro position before
        rw [finditerFrom, matchLength?, ends_eq_nil r needs _ lacks]
        exact ih (fun e member => lacks e (List.mem_cons_of_mem c member)) _ _
  exact general 0 none

/-! A repetition of a body that consumes has no more rounds than the text has characters. -/

variable {step : Cursor → List Cursor}

theorem upTo_stable (lazily : Bool) (shorter : ∀ c, ∀ d ∈ step c, d.after.length < c.after.length)
    (extra : Nat) (c : Cursor) (enough : c.after.length ≤ extra) :
    upTo step lazily extra c = upTo step lazily c.after.length c := by
  have general : ∀ n m : Nat, ∀ c : Cursor, c.after.length ≤ n → c.after.length ≤ m →
      upTo step lazily n c = upTo step lazily m c := by
    intro n
    induction n with
    | zero =>
        intro m c none _
        have stuck : step c = [] := by
          rw [List.eq_nil_iff_forall_not_mem]
          intro d inside
          have less := shorter c d inside
          omega
        cases m with
        | zero => rfl
        | succ m => simp [upTo, stuck]
    | succ n ih =>
        intro m c boundN boundM
        cases m with
        | zero =>
            have stuck : step c = [] := by
              rw [List.eq_nil_iff_forall_not_mem]
              intro d inside
              have less := shorter c d inside
              omega
            simp [upTo, stuck]
        | succ m =>
            have same : (step c).flatMap (upTo step lazily n) = (step c).flatMap (upTo step lazily m) := by
              apply List.flatMap_congr
              intro d inside
              have less := shorter c d inside
              exact ih m d (by omega) (by omega)
            rw [upTo, upTo, same]
  exact general extra _ c enough le_rfl

theorem repeats_stable (lazily : Bool) (shorter : ∀ c, ∀ d ∈ step c, d.after.length < c.after.length)
    (least n m : Nat) (c : Cursor) (boundN : c.after.length ≤ n + least)
    (boundM : c.after.length ≤ m + least) :
    repeats step lazily n least c = repeats step lazily m least c := by
  induction least generalizing c with
  | zero =>
      rw [repeats, repeats, upTo_stable lazily shorter n c boundN, upTo_stable lazily shorter m c boundM]
  | succ least ih =>
      apply List.flatMap_congr
      intro d inside
      have less := shorter c d inside
      exact ih d (by omega) (by omega)

/-! Related positions have related matches. -/

/-- The relation is kept by what a pattern does that rejects the separator. -/
structure Similar (separator : Char) (R : Cursor → Cursor → Prop) : Prop where
  shorter : ∀ c d, R c d → c.after.length ≤ d.after.length
  set : ∀ accepts c d, accepts separator = false → R c d →
    List.Forall₂ R (ends (.set accepts) c) (ends (.set accepts) d)
  boundary : ∀ isWord c d, isWord separator = false → R c d →
    List.Forall₂ R (ends (.boundary isWord) c) (ends (.boundary isWord) d)

variable {separator : Char} {R : Cursor → Cursor → Prop}

theorem related_flatMap {f g : Cursor → List Cursor} {cs ds : List Cursor}
    (related : List.Forall₂ R cs ds) (alike : ∀ c d, R c d → List.Forall₂ R (f c) (g d)) :
    List.Forall₂ R (cs.flatMap f) (ds.flatMap g) :=
  List.rel_flatMap related fun {c d} => alike c d

theorem related_upTo (alike : ∀ c d, R c d → List.Forall₂ R (step c) (step d)) (lazily : Bool)
    (extra : Nat) (c d : Cursor) (related : R c d) :
    List.Forall₂ R (upTo step lazily extra c) (upTo step lazily extra d) := by
  induction extra generalizing c d with
  | zero => exact List.Forall₂.cons related List.Forall₂.nil
  | succ extra ih =>
      have more := related_flatMap (alike c d related) ih
      cases lazily with
      | true => exact List.Forall₂.cons related more
      | false => exact List.rel_append more (List.Forall₂.cons related List.Forall₂.nil)

theorem related_repeats (alike : ∀ c d, R c d → List.Forall₂ R (step c) (step d)) (lazily : Bool)
    (extra least : Nat) (c d : Cursor) (related : R c d) :
    List.Forall₂ R (repeats step lazily extra least c) (repeats step lazily extra least d) := by
  induction least generalizing c d with
  | zero => exact related_upTo alike lazily extra c d related
  | succ least ih => exact related_flatMap (alike c d related) ih

theorem related_ends (similar : Similar separator R) (r : Regex) (rejects : r.Rejects separator)
    (c d : Cursor) (related : R c d) : List.Forall₂ R (r.ends c) (r.ends d) := by
  induction r generalizing c d with
  | empty => exact List.Forall₂.cons related List.Forall₂.nil
  | set accepts => exact similar.set accepts c d rejects related
  | boundary isWord => exact similar.boundary isWord c d rejects related
  | seq first second ihFirst ihSecond =>
      exact related_flatMap (ihFirst rejects.1 c d related) (ihSecond rejects.2)
  | alt first second ihFirst ihSecond =>
      exact List.rel_append (ihFirst rejects.1 c d related) (ihSecond rejects.2 c d related)
  | many body least most lazily ih =>
      have alike := ih rejects.1
      rw [ends, ends]
      cases most with
      | some most => exact related_repeats alike lazily _ least c d related
      | none =>
          -- The longer text allows more rounds, which the shorter one does not need.
          have shorter (c d : Cursor) (inside : d ∈ body.ends c) : d.after.length < c.after.length := by
            have bound := length_ends body c d inside
            rw [rejects.2 rfl] at bound
            exact bound
          have bound := similar.shorter c d related
          rw [Option.getD_none, Option.getD_none, repeats_stable lazily shorter least
            (c.after.length - least) (d.after.length - least) c (by omega) (by omega)]
          exact related_repeats alike lazily _ least c d related

/-- The second position is the first one in a text that goes on behind a separator. -/
def Extended (separator : Char) (rest : Str) (c d : Cursor) : Prop :=
  d.before = c.before ∧ d.after = c.after ++ separator :: rest

theorem extended_similar (separator : Char) (rest : Str) :
    Similar separator (Extended separator rest) where
  shorter c d related := by
    rw [related.2, List.length_append]
    omega
  set accepts c d outside related := by
    rw [ends, ends, related.2]
    cases c.after with
    | nil => simp [outside]
    | cons e after =>
        simp only [List.cons_append]
        split
        · exact List.Forall₂.cons ⟨rfl, rfl⟩ List.Forall₂.nil
        · exact List.Forall₂.nil
  boundary isWord c d outside related := by
    have head : d.after.head?.any isWord = c.after.head?.any isWord := by
      rw [related.2]
      cases c.after with
      | nil => simp [outside]
      | cons e after => rfl
    rw [ends, ends, related.1, head]
    split
    · exact List.Forall₂.cons related List.Forall₂.nil
    · exact List.Forall₂.nil

/-- The second position is the first one, but may follow a separator instead of nothing. -/
def Following (separator : Char) (c d : Cursor) : Prop :=
  d.after = c.after ∧ (d.before = c.before ∨ (c.before = none ∧ d.before = some separator))

theorem following_similar (separator : Char) : Similar separator (Following separator) where
  shorter c d related := by rw [related.1]
  set accepts c d _ related := by
    rw [ends, ends, related.1]
    split
    · exact List.Forall₂.nil
    · split
      · exact List.Forall₂.cons ⟨rfl, Or.inl rfl⟩ List.Forall₂.nil
      · exact List.Forall₂.nil
  boundary isWord c d outside related := by
    have before : d.before.any isWord = c.before.any isWord := by
      rcases related.2 with same | ⟨start, follows⟩
      · rw [same]
      · simp [start, follows, outside]
    rw [ends, ends, related.1, before]
    split
    · exact List.Forall₂.cons related List.Forall₂.nil
    · exact List.Forall₂.nil

/-! The scan of a text with a separator is the scan of its two sides. -/

variable {r : Regex}

/-- The first matches at positions in the two texts have one length. -/
theorem length_extended {rest : Str} {cs ds : List Cursor}
    (related : List.Forall₂ (Extended separator rest) cs ds) (text : Str) :
    (ds.head?.map fun d => (text ++ separator :: rest).length - d.after.length) =
      cs.head?.map fun c => text.length - c.after.length := by
  cases related with
  | nil => rfl
  | cons first _ =>
      simp only [List.head?_cons, Option.map_some, first.2, List.length_append]
      congr 1
      omega

theorem matchLength?_extended (rejects : r.Rejects separator) (before : Option Char) (text rest : Str) :
    r.matchLength? before (text ++ separator :: rest) = r.matchLength? before text :=
  length_extended (related_ends (extended_similar separator rest) r rejects ⟨before, text⟩
    ⟨before, text ++ separator :: rest⟩ ⟨rfl, rfl⟩) text

theorem matchLength?_following (rejects : r.Rejects separator) (text : Str) :
    r.matchLength? (some separator) text = r.matchLength? none text := by
  have related := related_ends (following_similar separator) r rejects ⟨none, text⟩
    ⟨some separator, text⟩ ⟨rfl, Or.inr ⟨rfl, rfl⟩⟩
  rw [matchLength?, matchLength?]
  generalize r.ends ⟨none, text⟩ = cs at related
  generalize r.ends ⟨some separator, text⟩ = ds at related
  cases related with
  | nil => rfl
  | cons first _ => simp only [List.head?_cons, Option.map_some, first.1]

theorem matchLength?_bounds (consumes : r.consumes = true) (before : Option Char) (text : Str)
    (length : Nat) (found : r.matchLength? before text = some length) :
    0 < length ∧ length ≤ text.length := by
  rw [matchLength?] at found
  obtain ⟨d, first, same⟩ := Option.map_eq_some_iff.mp found
  have bound := length_ends r ⟨before, text⟩ d (List.mem_of_mem_head? first)
  rw [consumes] at bound
  simp only [Bool.toNat_true] at bound
  omega

theorem matchLength?_nil (consumes : r.consumes = true) (before : Option Char) :
    r.matchLength? before [] = none := by
  cases found : r.matchLength? before [] with
  | none => rfl
  | some length =>
      have bounds := matchLength?_bounds consumes before [] length found
      simp only [List.length_nil] at bounds
      omega

/-- The positions of a scan only count on from the first one. -/
theorem finditerFrom_shift (r : Regex) (offset position skip : Nat) (before : Option Char) (text : Str) :
    r.finditerFrom (offset + position) skip before text =
      (r.finditerFrom position skip before text).map fun span => (offset + span.1, offset + span.2) := by
  induction text generalizing position skip before with
  | nil => simp [finditerFrom]
  | cons c rest ih =>
      cases skip with
      | succ skip => rw [finditerFrom, finditerFrom, Nat.add_assoc, ih]
      | zero =>
          rw [finditerFrom, finditerFrom]
          cases r.matchLength? before (c :: rest) with
          | none => simp only [Nat.add_assoc, ih]
          | some length => simp only [Nat.add_assoc, ih, List.map_cons]

theorem finditerFrom_following (rejects : r.Rejects separator) (position : Nat) (text : Str) :
    r.finditerFrom position 0 (some separator) text = r.finditerFrom position 0 none text := by
  cases text with
  | nil => rfl
  | cons c rest => rw [finditerFrom, finditerFrom, matchLength?_following rejects]

theorem finditerFrom_append (consumes : r.consumes = true) (rejects : r.Rejects separator)
    (position skip : Nat) (before : Option Char) (text rest : Str) (within : skip ≤ text.length) :
    r.finditerFrom position skip before (text ++ separator :: rest) =
      r.finditerFrom position skip before text ++
        r.finditerFrom (position + text.length + 1) 0 none rest := by
  induction text generalizing position skip before with
  | nil =>
      obtain rfl : skip = 0 := Nat.le_zero.mp within
      have extended := matchLength?_extended rejects before [] rest
      rw [List.nil_append, matchLength?_nil consumes] at extended
      simp only [List.nil_append, List.length_nil, Nat.add_zero, finditerFrom, extended,
        finditerFrom_following rejects]
  | cons c text ih =>
      have next (skip : Nat) (bound : skip ≤ text.length) :=
        ih (position + 1) skip (some c) bound
      rw [show position + (c :: text).length + 1 = position + 1 + text.length + 1 by
        simp only [List.length_cons]
        omega]
      cases skip with
      | succ skip =>
          rw [List.cons_append, finditerFrom, finditerFrom, next skip (by simpa using within)]
      | zero =>
          have extended := matchLength?_extended rejects before (c :: text) rest
          rw [List.cons_append] at extended ⊢
          rw [finditerFrom, finditerFrom, extended]
          cases found : r.matchLength? before (c :: text) with
          | none => exact next 0 (Nat.zero_le _)
          | some length =>
              have bounds := matchLength?_bounds consumes before _ length found
              simp only [List.length_cons] at bounds
              rw [List.cons_append, ← next (length - 1) (by omega)]

/-- No match of the scan reaches over a separator. -/
theorem finditer_append (consumes : r.consumes = true) (rejects : r.Rejects separator)
    (text rest : Str) : r.finditer (text ++ separator :: rest) = r.finditer text ++
      (r.finditer rest).map fun span =>
        (text.length + 1 + span.1, text.length + 1 + span.2) := by
  rw [finditer, finditerFrom_append consumes rejects 0 0 none text rest (Nat.zero_le _), finditer,
    finditer, ← finditerFrom_shift]
  congr 2
  omega

theorem bounds_finditerFrom (consumes : r.consumes = true) (position skip : Nat)
    (before : Option Char) (text : Str) (span : Nat × Nat)
    (inside : span ∈ r.finditerFrom position skip before text) :
    position + skip ≤ span.1 ∧ span.1 < span.2 ∧ span.2 ≤ position + text.length := by
  induction text generalizing position skip before with
  | nil => exact absurd inside (by simp [finditerFrom])
  | cons c rest ih =>
      rw [List.length_cons]
      cases skip with
      | succ skip =>
          have bounds := ih (position + 1) skip (some c) (by simpa [finditerFrom] using inside)
          omega
      | zero =>
          rw [finditerFrom] at inside
          split at inside
          · have bounds := ih (position + 1) 0 (some c) inside
            omega
          · rename_i length found
            have bounds := matchLength?_bounds consumes before _ length found
            rw [List.length_cons] at bounds
            rcases List.mem_cons.mp inside with rfl | later
            · exact ⟨le_rfl, by omega, by omega⟩
            · have after := ih (position + 1) (length - 1) (some c) later
              omega

/-- Every match of a scan has a character, and lies in the text. -/
theorem bounds_finditer (consumes : r.consumes = true) (text : Str) (span : Nat × Nat)
    (inside : span ∈ r.finditer text) : span.1 < span.2 ∧ span.2 ≤ text.length := by
  have bounds := bounds_finditerFrom consumes 0 0 none text span inside
  omega

end Kortex.Regex
