import Kortex.Library.RegexSplit
import Kortex.Library.Sorted
import Kortex.Library.Sweep
import Kortex.Model.PiiDetector

/-
This file proves when a redacted text leaves nothing for the detector to find, and when the findings that are
kept cover all findings.
-/

namespace Kortex

/-- The tables of Unicode say about ASCII what ASCII says. -/
def Unicode.Standard (u : Unicode) : Prop :=
  ∀ c, c.toNat < 128 → u.isAlnum c = Unicode.ascii.isAlnum c ∧ u.decimal c = Unicode.ascii.decimal c

namespace PiiDetector

open Regex

variable {u : Unicode}

/-- These characters occur in no finding. -/
def separators : List Char := ['\n', '[', ']', ':']

/-- These are the kinds of findings, each with its pattern and the check of a match. -/
def detectors (u : Unicode) : List (Str × Regex × (Str → Bool)) :=
  [("email", email u, fun _ => true), ("secret", secretPrefixes u, fun _ => true),
    ("card", card u, fun raw => luhnValid u (raw.filter fun c => c != ' ' && c != '-')),
    ("iban", iban u, ibanValid u), ("ssn", ssn u, ssnPlausible u), ("phone", phone u, fun _ => true),
    ("ip", ipv4 u, publicAddress u)]

/-- These are the patterns of the detectors. -/
def patterns (u : Unicode) : List Regex :=
  [email u, secretPrefixes u, card u, iban u, ssn u, phone u, ipv4 u]

def isLower (c : Char) : Bool := range 'a' 'z' c

theorem consumes_of_mem (r : Regex) (inside : r ∈ patterns u) : r.consumes = true := by
  simp only [patterns, List.mem_cons, List.not_mem_nil, or_false] at inside
  rcases inside with rfl | rfl | rfl | rfl | rfl | rfl | rfl <;> rfl

theorem mem_patterns (d : Str × Regex × (Str → Bool)) (inside : d ∈ detectors u) :
    d.2.1 ∈ patterns u :=
  List.mem_map_of_mem (f := fun d => d.2.1) inside

theorem isDigit_of_ascii (standard : u.Standard) (c : Char) (ascii : c.toNat < 128) :
    u.isDigit c = Unicode.ascii.isDigit c := by
  rw [Unicode.isDigit, (standard c ascii).2, Unicode.isDigit]

theorem isWord_of_ascii (standard : u.Standard) (c : Char) (ascii : c.toNat < 128) :
    u.isWord c = Unicode.ascii.isWord c := by
  rw [Unicode.isWord, (standard c ascii).1, Unicode.isWord]

/-- A separator is no digit and no character of a word, in all scripts. -/
theorem separates (standard : u.Standard) (separator : Char) (inside : separator ∈ separators) :
    u.isWord separator = false ∧ u.isDigit separator = false := by
  have ascii : separator.toNat < 128 ∧ Unicode.ascii.isWord separator = false ∧
      Unicode.ascii.isDigit separator = false := by
    simp only [separators, List.mem_cons, List.not_mem_nil, or_false] at inside
    rcases inside with rfl | rfl | rfl | rfl
    all_goals decide +kernel
  rw [isWord_of_ascii standard separator ascii.1, isDigit_of_ascii standard separator ascii.1]
  exact ascii.2

theorem rejects_of_mem (standard : u.Standard) (separator : Char) (present : separator ∈ separators)
    (r : Regex) (inside : r ∈ patterns u) : r.Rejects separator := by
  obtain ⟨word, digit⟩ := separates standard separator present
  simp only [separators, List.mem_cons, List.not_mem_nil, or_false] at present
  simp only [patterns, List.mem_cons, List.not_mem_nil, or_false] at inside
  rcases inside with rfl | rfl | rfl | rfl | rfl | rfl | rfl
  all_goals
    simp only [email, secretPrefixes, card, iban, ssn, phone, ipv4, seqs, alts, List.foldr,
      Unicode.boundary, Unicode.digit, atLeast, between, exactly, Regex.optional, oneOfChars,
      rejects_chars, Rejects, word, digit, consumes, reduceCtorEq, false_imp_iff, imp_self, and_true,
      true_and]
    rcases present with rfl | rfl | rfl | rfl <;> decide

theorem isLower_of_le (c : Char) (below : c ≤ 'Z') : isLower c = false := by
  simp only [isLower, range, decide_eq_false_iff_not, not_and]
  intro above
  exact absurd (Char.le_trans above below) (by decide)

theorem ascii_isDigit (c : Char) : Unicode.ascii.isDigit c = c.isDigit := by
  cases digit : c.isDigit <;> simp [Unicode.isDigit, Unicode.ascii, digit]

theorem ascii_isDigit_of_le (c : Char) (above : 'A' ≤ c) : Unicode.ascii.isDigit c = false := by
  rw [ascii_isDigit]
  by_contra digit
  simp only [Char.isDigit, Bool.and_eq_true, decide_eq_true_eq, Bool.not_eq_false] at digit
  have small : c ≤ '9' := digit.2
  exact absurd (Char.le_trans above small) (by decide)

theorem isDigit_of_letter (standard : u.Standard) (c : Char) (letter : isLetter c = true) :
    u.isDigit c = false := by
  simp only [isLetter, range, Bool.or_eq_true, decide_eq_true_eq] at letter
  have above : 'A' ≤ c := by
    rcases letter with upper | lower
    · exact upper.1
    · exact Char.le_trans (by decide) lower.1
  have ascii : c.toNat < 128 := by
    rcases letter with upper | lower
    · exact Nat.lt_of_le_of_lt upper.2 (by decide)
    · exact Nat.lt_of_le_of_lt lower.2 (by decide)
  rw [isDigit_of_ascii standard c ascii, ascii_isDigit_of_le c above]

theorem isLower_of_isDigit (standard : u.Standard) (c : Char) (digit : u.isDigit c = true) :
    isLower c = false := by
  cases lower : isLower c with
  | false => rfl
  | true =>
      have letter : isLetter c = true := by
        rw [isLetter, show range 'a' 'z' c = true from lower, Bool.or_true]
      rw [isDigit_of_letter standard c letter] at digit
      exact absurd digit Bool.false_ne_true

/-- A text of small letters holds nothing that the detector looks for. -/
theorem needs_of_mem (standard : u.Standard) (r : Regex) (inside : r ∈ patterns u) :
    r.Needs fun c => isLower c = false := by
  have digit := eq_true (isLower_of_isDigit standard)
  have upper : (∀ c, isUpper c = true → isLower c = false) = True := by
    apply eq_true
    intro c found
    simp only [isUpper, decide_eq_true_eq] at found
    exact isLower_of_le c found.2
  have symbols : isLower '@' = false ∧ isLower '-' = false ∧ isLower '_' = false ∧
      isLower 'A' = false ∧ isLower '.' = false := by decide
  simp only [patterns, List.mem_cons, List.not_mem_nil, or_false] at inside
  rcases inside with rfl | rfl | rfl | rfl | rfl | rfl | rfl
  all_goals
    simp only [email, secretPrefixes, card, iban, ssn, phone, ipv4, seqs, alts, List.foldr,
      Unicode.boundary, Unicode.digit, atLeast, between, exactly, Regex.optional, oneOfChars,
      needs_chars, Needs]
    simp [digit, upper, symbols]

/-! A text with a separator is clean when its two sides are. -/

/-- This is where a finding is in a text that has more in front. -/
def PiiMatch.shift (offset : Nat) (m : PiiMatch) : PiiMatch :=
  { m with start := offset + m.start, stop := offset + m.stop }

theorem find_append (standard : u.Standard) (separator : Char) (present : separator ∈ separators)
    (r : Regex) (inside : r ∈ patterns u) (text rest kind : Str) (check : Str → Bool) :
    find (text ++ separator :: rest) kind r check =
      find text kind r check ++ (find rest kind r check).map (PiiMatch.shift (text.length + 1)) := by
  have consumes := consumes_of_mem r inside
  rw [find, finditer_append consumes (rejects_of_mem standard separator present r inside),
    List.map_append, List.filter_append, List.map_map]
  congr 1
  · rw [find]
    congr 1
    apply List.map_congr_left
    intro span found
    have bounds := bounds_finditer consumes text span found
    rw [List.take_append_of_le_length bounds.2]
  · have value (span : Nat × Nat) :
        ((text ++ separator :: rest).take (text.length + 1 + span.2)).drop
          (text.length + 1 + span.1) = (rest.take span.2).drop span.1 := by
      rw [List.append_cons, show text.length + 1 = (text ++ [separator]).length by simp,
        List.take_length_add_append, List.drop_length_add_append]
    rw [find, List.filter_map, List.filter_map, List.map_map]
    simp only [Function.comp_def, value, PiiMatch.shift]

/-- These are all findings of the detectors, before overlaps are removed. -/
def candidates (u : Unicode) (text : Str) : List PiiMatch :=
  (detectors u).flatMap fun d => find text d.1 d.2.1 d.2.2

theorem scan_eq (text : Str) : scan u text = dedupeOverlaps (candidates u text) := by
  rw [scan]
  split
  · rename_i blank
    subst blank
    rfl
  · simp only [candidates, detectors, List.flatMap_cons, List.flatMap_nil, List.append_nil,
      List.append_assoc]

theorem before_iff (a b : PiiMatch) : before a b = true ↔
    a.start < b.start ∨ (a.start = b.start ∧ b.stop - b.start ≤ a.stop - a.start) := by
  simp [before]

instance before_total : Std.Total fun a b : PiiMatch => before a b = true where
  total a b := by
    rw [before_iff, before_iff]
    omega

instance before_trans : IsTrans PiiMatch fun a b => before a b = true where
  trans a b c := by
    rw [before_iff, before_iff, before_iff]
    omega

/-- Overlaps are removed by a sweep over the sorted findings. -/
theorem dedupeOverlaps_eq (found : List PiiMatch) : dedupeOverlaps found =
    Sweep.sweep PiiMatch.start PiiMatch.stop 0 (found.insertionSort fun a b => before a b = true) :=
  Sweep.foldl_keep _ []

theorem scan_eq_nil (text : Str) : scan u text = [] ↔ candidates u text = [] := by
  rw [scan_eq, dedupeOverlaps_eq]
  constructor
  · intro clean
    cases sorted : (candidates u text).insertionSort fun a b => before a b = true with
    | nil => exact List.perm_nil.mp (sorted ▸ (List.perm_insertionSort _ _).symm)
    | cons m rest =>
        rw [sorted, Sweep.sweep, if_neg (Nat.not_lt_zero _)] at clean
        exact absurd clean (List.cons_ne_nil _ _)
  · intro none
    rw [none]
    rfl

/-! The findings of a scan are apart from each other. -/

/-- A finding has a character, lies in the text and has a kind in small letters. -/
structure Finding (text : Str) (m : PiiMatch) : Prop where
  nonempty : m.start < m.stop
  within : m.stop ≤ text.length
  kind : m.kind.all isLower = true

theorem finding_of_candidates (text : Str) (m : PiiMatch) (found : m ∈ candidates u text) :
    Finding text m := by
  obtain ⟨d, inside, found⟩ := List.mem_flatMap.mp found
  obtain ⟨span, present, rfl⟩ := List.mem_map.mp (List.mem_of_mem_filter found)
  have bounds := bounds_finditer (consumes_of_mem d.2.1 (mem_patterns d inside)) text span present
  refine ⟨bounds.1, bounds.2, ?_⟩
  have lower : ∀ kind ∈ (detectors u).map Prod.fst, kind.all isLower = true := by
    simp only [detectors, List.map_cons, List.map_nil]
    decide
  exact lower d.1 (List.mem_map_of_mem inside)

/-- The findings follow each other without overlaps. -/
def Apart (a b : PiiMatch) : Prop := a.stop ≤ b.start

/-- The findings that are kept are those of the sweep. -/
theorem chosen_dedupeOverlaps (found : List PiiMatch) (proper : ∀ m ∈ found, m.start ≤ m.stop) :
    Sweep.Chosen PiiMatch.start PiiMatch.stop found (dedupeOverlaps found) := by
  have members (m : PiiMatch) : m ∈ found ↔ m ∈ found.insertionSort fun a b => before a b = true :=
    (List.mem_insertionSort _).symm
  have proper' (m : PiiMatch) (inside : m ∈ found.insertionSort fun a b => before a b = true) :
      m.start ≤ m.stop := proper m ((members m).mpr inside)
  rw [dedupeOverlaps_eq]
  refine (Sweep.chosen_sweep _ proper' ?_).of_mem_iff found members
  apply List.Pairwise.imp_of_mem ?_ (List.pairwise_insertionSort _ found)
  intro a b inside inside' ordered
  have first := proper' a inside
  have second := proper' b inside'
  rw [before_iff] at ordered
  unfold Sweep.Ahead
  omega

theorem chosen_scan (text : Str) :
    Sweep.Chosen PiiMatch.start PiiMatch.stop (candidates u text) (scan u text) := by
  rw [scan_eq]
  exact chosen_dedupeOverlaps _ fun m found => (finding_of_candidates text m found).nonempty.le

theorem apart_scan (text : Str) :
    (scan u text).Pairwise Apart ∧ ∀ m ∈ scan u text, Finding text m :=
  ⟨(chosen_scan text).apart,
    fun m kept => finding_of_candidates text m ((chosen_scan text).subset m kept)⟩

/-! The scan of a text with a separator is the scan of its two sides. -/

theorem candidates_append (standard : u.Standard) (separator : Char) (present : separator ∈ separators)
    (text rest : Str) :
    (candidates u (text ++ separator :: rest)).filter (fun m => decide (m.stop ≤ text.length)) =
        candidates u text ∧
      (candidates u (text ++ separator :: rest)).filter (fun m => !decide (m.stop ≤ text.length)) =
        (candidates u rest).map (PiiMatch.shift (text.length + 1)) := by
  have parts (d : Str × Regex × (Str → Bool)) (inside : d ∈ detectors u) :=
    find_append standard separator present d.2.1 (mem_patterns d inside) text rest d.1 d.2.2
  have front (m : PiiMatch) (found : m ∈ candidates u text) : m.stop ≤ text.length :=
    (finding_of_candidates text m found).within
  have back (m : PiiMatch) : ¬ (PiiMatch.shift (text.length + 1) m).stop ≤ text.length := by
    change ¬ text.length + 1 + m.stop ≤ text.length
    omega
  constructor
  · rw [candidates, List.filter_flatMap]
    apply List.flatMap_congr
    intro d inside
    rw [parts d inside, List.filter_append, List.filter_eq_self.mpr, List.filter_eq_nil_iff.mpr,
      List.append_nil]
    · intro m moved
      obtain ⟨m, _, rfl⟩ := List.mem_map.mp moved
      simpa using back m
    · intro m found
      exact decide_eq_true (front m (List.mem_flatMap.mpr ⟨d, inside, found⟩))
  · rw [candidates, List.filter_flatMap, candidates, List.map_flatMap]
    apply List.flatMap_congr
    intro d inside
    rw [parts d inside, List.filter_append, List.filter_eq_nil_iff.mpr, List.filter_eq_self.mpr,
      List.nil_append]
    · intro m moved
      obtain ⟨m, _, rfl⟩ := List.mem_map.mp moved
      simpa using back m
    · intro m found
      simpa using front m (List.mem_flatMap.mpr ⟨d, inside, found⟩)

theorem scan_append (standard : u.Standard) (separator : Char) (present : separator ∈ separators)
    (text rest : Str) : scan u (text ++ separator :: rest) =
      scan u text ++ (scan u rest).map (PiiMatch.shift (text.length + 1)) := by
  obtain ⟨front, back⟩ := candidates_append standard separator present text rest
  have precedes : ∀ a ∈ candidates u (text ++ separator :: rest),
      ∀ b ∈ candidates u (text ++ separator :: rest), decide (a.stop ≤ text.length) = true →
        decide (b.stop ≤ text.length) = false → before a b = true ∧ ¬ before b a = true := by
    intro a inside b inside' first second
    have nonempty := (finding_of_candidates _ a inside).nonempty
    have moved : b ∈ (candidates u rest).map (PiiMatch.shift (text.length + 1)) := by
      rw [← back]
      exact List.mem_filter.mpr ⟨inside', by simpa using second⟩
    obtain ⟨b, _, rfl⟩ := List.mem_map.mp moved
    have stop : a.stop ≤ text.length := by simpa using first
    rw [before_iff, before_iff]
    change (a.start < text.length + 1 + b.start ∨ _) ∧ ¬ (text.length + 1 + b.start < a.start ∨
      (text.length + 1 + b.start = a.start ∧ _))
    omega
  have moved : ((candidates u rest).map (PiiMatch.shift (text.length + 1))).insertionSort
      (fun a b => before a b = true) = ((candidates u rest).insertionSort fun a b =>
        before a b = true).map (PiiMatch.shift (text.length + 1)) := by
    symm
    apply List.map_insertionSort
    intro a _ b _
    rw [before_iff, before_iff]
    simp only [PiiMatch.shift]
    omega
  have sweeps := Sweep.sweep_map PiiMatch.start PiiMatch.stop (PiiMatch.shift (text.length + 1))
    (text.length + 1) (fun m => ⟨rfl, rfl⟩) 0
    ((candidates u rest).insertionSort fun a b => before a b = true)
  rw [scan_eq, scan_eq, scan_eq, dedupeOverlaps_eq, dedupeOverlaps_eq, dedupeOverlaps_eq,
    insertionSort_filter _ _ _ precedes, front, back, moved, ← sweeps]
  apply Sweep.sweep_append 0 (text.length + 1) _ _ (Nat.zero_le _)
  · intro m inside
    rw [List.mem_insertionSort] at inside
    exact ((finding_of_candidates text m inside).within).trans (Nat.le_succ _)
  · intro m inside
    obtain ⟨m, _, rfl⟩ := List.mem_map.mp inside
    exact Nat.le_add_right _ _

theorem scan_append_eq_nil (standard : u.Standard) (separator : Char)
    (present : separator ∈ separators) (text rest : Str) :
    scan u (text ++ separator :: rest) = [] ↔ scan u text = [] ∧ scan u rest = [] := by
  rw [scan_append standard separator present, List.append_eq_nil_iff, List.map_eq_nil_iff]

/-- A text of small letters is clean. -/
theorem scan_lower (standard : u.Standard) (text : Str) (lower : text.all isLower = true) :
    scan u text = [] := by
  rw [scan_eq_nil, candidates, List.flatMap_eq_nil_iff]
  intro d inside
  have nothing := finditer_eq_nil d.2.1 (needs_of_mem standard d.2.1 (mem_patterns d inside)) text
    fun c present => by simp [List.all_eq_true.mp lower c present]
  rw [find, nothing]
  rfl

/-! The redacted text is made of the pieces between the findings. -/

/-- These are the pieces of a text that stay when the findings from a position on are replaced. -/
def piecesFrom (text : Str) : Nat → List PiiMatch → List Str
  | position, [] => [text.drop position]
  | position, m :: rest => (text.take m.start).drop position :: piecesFrom text m.stop rest

/-- These are the pieces of a text before, between and after the findings. -/
def pieces (text : Str) (found : List PiiMatch) : List Str := piecesFrom text 0 found

/-- This is `REDACTION.format(kind=kind)`. -/
def placeholder (kind : Str) : Str := "[redacted:" ++ kind ++ "]"

/-- This is the text from a position on with its findings replaced. -/
def splicedFrom (text : Str) : Nat → List PiiMatch → Str
  | position, [] => text.drop position
  | position, m :: rest =>
      (text.take m.start).drop position ++ placeholder m.kind ++ splicedFrom text m.stop rest

/-- Findings that follow each other are replaced from right to left. -/
theorem sorted_reverse (found : List PiiMatch) (apart : found.Pairwise Apart)
    (nonempty : ∀ m ∈ found, m.start < m.stop) :
    (found.insertionSort fun a b => b.start ≤ a.start) = found.reverse := by
  induction found with
  | nil => rfl
  | cons m rest ih =>
      obtain ⟨first, others⟩ := List.pairwise_cons.mp apart
      have sorted := ih others fun m' inside => nonempty m' (List.mem_cons_of_mem m inside)
      have behind : ∀ b ∈ rest.reverse, ¬ b.start ≤ m.start := by
        intro b inside
        have after : m.stop ≤ b.start := first b (List.mem_reverse.mp inside)
        have own := nonempty m List.mem_cons_self
        omega
      have inserted := orderedInsert_append_of_rest (fun a b => b.start ≤ a.start) m rest.reverse []
        behind
      rw [List.append_nil] at inserted
      rw [List.insertionSort_cons, sorted, inserted, List.reverse_cons]
      rfl

/-- This is one round of the loop of `redact`. -/
def replace (m : PiiMatch) (out : Str) : Str := out.take m.start ++ placeholder m.kind ++ out.drop m.stop

theorem foldr_replace (text : Str) (found : List PiiMatch) (apart : found.Pairwise Apart)
    (spans : ∀ m ∈ found, m.start ≤ m.stop ∧ m.stop ≤ text.length) (position : Nat)
    (ahead : ∀ m ∈ found, position ≤ m.start) :
    found.foldr replace text = text.take position ++ splicedFrom text position found := by
  induction found generalizing position with
  | nil => exact (List.take_append_drop position text).symm
  | cons m rest ih =>
      obtain ⟨first, others⟩ := List.pairwise_cons.mp apart
      obtain ⟨forward, within⟩ := spans m List.mem_cons_self
      have start := ahead m List.mem_cons_self
      have stop : (text.take m.stop).length = m.stop := by
        rw [List.length_take]
        omega
      rw [List.foldr_cons, ih others (fun m' inside => spans m' (List.mem_cons_of_mem m inside))
        m.stop first, replace, splicedFrom]
      have front : (text.take m.stop ++ splicedFrom text m.stop rest).take m.start =
          text.take m.start := by
        rw [List.take_append_of_le_length (by omega), List.take_take, Nat.min_eq_left forward]
      have back : (text.take m.stop ++ splicedFrom text m.stop rest).drop m.stop =
          splicedFrom text m.stop rest := by
        rw [List.drop_append_of_le_length (by omega), ← stop]
        simp
      have split : text.take m.start = text.take position ++ (text.take m.start).drop position := by
        conv_lhs => rw [← List.take_append_drop position (text.take m.start)]
        rw [List.take_take, Nat.min_eq_left start]
      rw [front, back]
      conv_lhs => rw [split]
      simp only [List.append_assoc]

theorem redact_eq (text : Str) (found : List PiiMatch) (apart : found.Pairwise Apart)
    (findings : ∀ m ∈ found, Finding text m) : redact text found = splicedFrom text 0 found := by
  have sorted := sorted_reverse found apart fun m inside => (findings m inside).nonempty
  have spans (m : PiiMatch) (inside : m ∈ found) : m.start ≤ m.stop ∧ m.stop ≤ text.length :=
    ⟨(findings m inside).nonempty.le, (findings m inside).within⟩
  have spliced := foldr_replace text found apart spans 0 fun _ _ => Nat.zero_le _
  rw [List.take_zero, List.nil_append] at spliced
  rw [redact, sorted, List.foldl_reverse, ← spliced]
  apply List.foldr_ext
  intro m _ out
  unfold replace placeholder
  simp only [List.append_assoc]

theorem scan_placeholder (standard : u.Standard) (text kind rest : Str)
    (lower : kind.all isLower = true) : scan u (text ++ placeholder kind ++ rest) = [] ↔
      scan u text = [] ∧ scan u rest = [] := by
  have parts := scan_append_eq_nil standard
  have shape : text ++ placeholder kind ++ rest =
      text ++ '[' :: ("redacted".toList ++ ':' :: (kind ++ ']' :: rest)) := by
    unfold placeholder
    simp
  rw [shape, parts '[' (by decide), parts ':' (by decide), parts ']' (by decide),
    scan_lower standard kind lower, scan_lower standard "redacted".toList (by decide)]
  simp

theorem scan_splicedFrom (standard : u.Standard) (text : Str) (found : List PiiMatch)
    (findings : ∀ m ∈ found, Finding text m) (position : Nat) :
    scan u (splicedFrom text position found) = [] ↔
      ∀ piece ∈ piecesFrom text position found, scan u piece = [] := by
  induction found generalizing position with
  | nil => simp [splicedFrom, piecesFrom]
  | cons m rest ih =>
      have lower := (findings m List.mem_cons_self).kind
      rw [splicedFrom, scan_placeholder standard _ m.kind _ lower,
        ih (fun m' inside => findings m' (List.mem_cons_of_mem m inside)), piecesFrom,
        List.forall_mem_cons]

/-- A redacted text is clean exactly when every piece of the text between its findings is, read on
its own. -/
theorem scan_redact_eq_nil (standard : u.Standard) (text : Str) :
    scan u (redact text (scan u text)) = [] ↔
      ∀ piece ∈ pieces text (scan u text), scan u piece = [] := by
  obtain ⟨apart, findings⟩ := apart_scan (u := u) text
  rw [redact_eq text _ apart findings, pieces]
  exact scan_splicedFrom standard text _ findings 0

/-- The digits of a number swallow the start of a card, which redaction uncovers. -/
example :
    let text := "123-45-6789 4111 1111 1111 1111".toList
    pieces text (scan Unicode.ascii text) = [[], " 4111 1111 1111 1111".toList] ∧
      scan Unicode.ascii " 4111 1111 1111 1111".toList ≠ [] := by decide +kernel

end PiiDetector
end Kortex

namespace Kortex.PiiDetector

/-- These are findings in a text. -/
def Within (text : Str) (found : List PiiMatch) : Prop :=
  ∀ m ∈ found, m.start ≤ m.stop ∧ m.stop ≤ text.length

/-- The findings that are kept are apart and in order, and cover what all findings cover. -/
structure LosesNothing (found kept : List PiiMatch) : Prop where
  own : kept.Subperm found
  sorted : kept.Pairwise fun a b => a.start ≤ b.start
  disjoint : kept.Pairwise Apart
  covers : ∀ position, (∃ m ∈ found, m.start ≤ position ∧ position < m.stop) →
    ∃ m ∈ kept, m.start ≤ position ∧ position < m.stop

theorem subperm_dedupeOverlaps (found : List PiiMatch) : (dedupeOverlaps found).Subperm found := by
  rw [dedupeOverlaps_eq]
  exact (Sweep.sweep_sublist 0 _).subperm.trans (List.perm_insertionSort _ found).subperm

/-- Nothing is lost exactly when no finding reaches over a place where the sweep from left to right rests,
unless another one starts at that place. -/
theorem losesNothing_iff (text : Str) (found : List PiiMatch) (within : Within text found) :
    LosesNothing found (dedupeOverlaps found) ↔
      ∀ position, Sweep.Rests PiiMatch.start PiiMatch.stop found position →
        ∀ m ∈ found, m.start < position → position < m.stop →
          ∃ next ∈ found, next.start = position ∧ position < next.stop := by
  have chosen := chosen_dedupeOverlaps found fun m inside => (within m inside).1
  rw [← chosen.covered_iff_bridged]
  constructor
  · exact fun whole => whole.covers
  · intro covers
    refine ⟨subperm_dedupeOverlaps found, ?_, chosen.apart, covers⟩
    apply List.Pairwise.imp_of_mem ?_ chosen.apart
    exact fun inside _ apart => (within _ (chosen.subset _ inside)).1.trans apart

/-- These are the findings in a text with one address. -/
def address : List PiiMatch := candidates Unicode.ascii "a@b.io".toList

theorem losesNothing_address : LosesNothing address (dedupeOverlaps address) ↔
    ∀ position, Sweep.Rests PiiMatch.start PiiMatch.stop address position →
      ∀ m ∈ address, m.start < position → position < m.stop →
        ∃ next ∈ address, next.start = position ∧ position < next.stop :=
  losesNothing_iff "a@b.io".toList address fun m found =>
    ⟨(finding_of_candidates _ m found).nonempty.le, (finding_of_candidates _ m found).within⟩

/-- The number of a card follows a plus sign, so that its start is a phone number too. -/
def plusCard : Str := "+4111 1111 1111 1111"

theorem plusCard_candidates : candidates Unicode.ascii plusCard =
    [⟨"card", 1, 20, "4111 1111 1111 1111"⟩, ⟨"phone", 0, 15, "+4111 1111 1111"⟩] := by
  decide +kernel

theorem plusCard_kept : dedupeOverlaps (candidates Unicode.ascii plusCard) =
    [⟨"phone", 0, 15, "+4111 1111 1111"⟩] := by
  decide +kernel

/-- The last digits of the card are left. -/
theorem phone_uncovers_card :
    ¬ ∀ (text : Str) (found : List PiiMatch), Within text found →
      LosesNothing found (dedupeOverlaps found) := by
  intro claim
  have whole := claim plusCard (candidates Unicode.ascii plusCard) fun m found =>
    ⟨(finding_of_candidates _ m found).nonempty.le, (finding_of_candidates _ m found).within⟩
  obtain ⟨m, kept, _, beyond⟩ := whole.covers 16
    ⟨⟨"card", 1, 20, "4111 1111 1111 1111"⟩, by simp [plusCard_candidates], by decide⟩
  rw [plusCard_kept, List.mem_singleton] at kept
  subst kept
  exact absurd beyond (by decide)

end Kortex.PiiDetector
