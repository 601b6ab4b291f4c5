import Kortex.Proof.PiiPolicy

/-
This file proves what redaction leaves in a text, that a write counts what it replaces, and that redaction
replaces the matches of a list in their places.
-/

namespace Kortex.PiiDetector

open MemoryService

variable {u : Unicode}

/-! The pieces that redaction keeps are the gaps of the sweep. -/

theorem mem_piecesFrom (text : Str) (position : Nat) (found : List PiiMatch) (piece : Str) :
    piece ∈ piecesFrom text position found ↔ ∃ front rest, found = front ++ rest ∧
      piece = (text.take (rest.head?.elim text.length PiiMatch.start)).drop
        (front.getLast?.elim position PiiMatch.stop) := by
  induction found generalizing position with
  | nil =>
      rw [piecesFrom, List.mem_singleton]
      constructor
      · rintro rfl
        exact ⟨[], [], rfl, by simp⟩
      · rintro ⟨front, rest, split, rfl⟩
        obtain ⟨rfl, rfl⟩ := List.nil_eq_append_iff.mp split
        simp
  | cons m found ih =>
      rw [piecesFrom, List.mem_cons, ih m.stop]
      have shifted (front : List PiiMatch) :
          (m :: front).getLast?.elim position PiiMatch.stop = front.getLast?.elim m.stop PiiMatch.stop := by
        cases front <;> simp [List.getLast?_cons]
      constructor
      · rintro (rfl | ⟨front, rest, rfl, rfl⟩)
        · exact ⟨[], m :: found, rfl, rfl⟩
        · exact ⟨m :: front, rest, rfl, by rw [shifted]⟩
      · rintro ⟨front, rest, split, rfl⟩
        cases front with
        | nil =>
            rw [List.nil_append] at split
            exact Or.inl (by rw [← split]; rfl)
        | cons first front =>
            obtain ⟨rfl, rfl⟩ := List.cons.inj split
            exact Or.inr ⟨front, rest, rfl, by rw [shifted]⟩

/-- No gap between the findings of the patterns holds, read on its own, another finding. -/
def ClearGaps (u : Unicode) (text : Str) : Prop :=
  ∀ first last, Sweep.Gap PiiMatch.start PiiMatch.stop (candidates u text) text.length first last →
    candidates u ((text.take last).drop first) = []

theorem clearGaps_iff (text : Str) :
    ClearGaps u text ↔ ∀ piece ∈ pieces text (scan u text), scan u piece = [] := by
  have chosen := chosen_scan (u := u) text
  have nonempty (m : PiiMatch) (found : m ∈ candidates u text) :=
    (finding_of_candidates text m found).nonempty
  have within (m : PiiMatch) (found : m ∈ candidates u text) :=
    (finding_of_candidates text m found).within
  constructor
  · intro clear piece inside
    obtain ⟨front, rest, split, rfl⟩ := (mem_piecesFrom text 0 _ piece).mp inside
    rw [scan_eq_nil]
    exact clear _ _ (chosen.gap_of_split nonempty text.length within front rest split)
  · intro clean first last gap
    obtain ⟨front, rest, split, rfl, rfl⟩ := chosen.split_of_gap nonempty text.length within first last gap
    rw [← scan_eq_nil]
    exact clean _ ((mem_piecesFrom text 0 _ _).mpr ⟨front, rest, split, rfl⟩)

theorem scan_redact_eq_nil_iff (standard : u.Standard) (text : Str) :
    scan u (redact text (scan u text)) = [] ↔ ClearGaps u text := by
  rw [scan_redact_eq_nil standard, clearGaps_iff]

/-- A write that stores a row stores the text and the counts of its screening. -/
theorem write_screened {env : Environment} {p : Principal} {ctx : CallContext} {s s' : Session}
    (payload : CreateMemoryInput) (embed force : Bool) (result : MemoryWrite)
    (done : write env p ctx s payload embed force = .ok (result, s')) (fresh : result.deduped = false) :
    result.memory.title = (screen env payload).title ∧ result.memory.body = (screen env payload).body ∧
      result.memory.piiFlags = (screen env payload).findings := by
  rcases write_cases payload embed force result done with ⟨existing, folds⟩ | ⟨_, mode, tsConfig, _, stores⟩
  · exact absurd (fresh.symm.trans folds.deduped) Bool.false_ne_true
  · obtain ⟨embedding, _, inserted⟩ := stores.inserted
    obtain ⟨row, _⟩ := insertMemory_done _ _ _ _ _ inserted
    rw [row]
    exact ⟨rfl, rfl, rfl⟩

/-- This environment redacts, and knows ASCII only. -/
def redactingEnvironment : Environment := { sampleEnvironment with settings := { piiPolicy := .redact } }

/-- The title and the body of the sample hold an address each. -/
def addressInput : CreateMemoryInput where
  scope := sampleScope
  title := "a@b.io"
  body := "c@d.io"

theorem write_addressInput : ∃ result s', write redactingEnvironment sampleOwner
    { now := 1, newPublicId := 1 } ⟨{}, {}⟩ addressInput false false = .ok (result, s') ∧
      result.deduped = false := by
  have stored : (write redactingEnvironment sampleOwner { now := 1, newPublicId := 1 } ⟨{}, {}⟩
      addressInput false false).toOption.map (fun outcome => outcome.1.deduped) = some false := by
    decide +kernel
  obtain ⟨⟨result, s'⟩, done, fresh⟩ := Option.map_eq_some_iff.mp stored
  refine ⟨result, s', ?_, fresh⟩
  cases outcome : write redactingEnvironment sampleOwner { now := 1, newPublicId := 1 } ⟨{}, {}⟩
      addressInput false false with
  | error e =>
      rw [outcome] at done
      exact absurd done (by simp [Except.toOption])
  | ok value =>
      rw [outcome] at done
      rw [Option.some.inj done]

/-- These are the placeholders that redaction inserts. -/
def placeholders (found : List PiiMatch) : List Str := found.map fun m => placeholder m.kind

/-- The marks stand between the pieces. -/
def splice : List Str → List Str → Str
  | [], _ => []
  | piece :: _, [] => piece
  | piece :: pieces, mark :: marks => piece ++ mark ++ splice pieces marks

theorem splicedFrom_eq (text : Str) (position : Nat) (found : List PiiMatch) :
    splicedFrom text position found = splice (piecesFrom text position found) (placeholders found) := by
  induction found generalizing position with
  | nil => rfl
  | cons m found ih =>
      rw [splicedFrom, ih]
      rfl

/-- Redaction inserts one placeholder for each finding. -/
theorem redact_scan (text : Str) :
    redact text (scan u text) = splice (pieces text (scan u text)) (placeholders (scan u text)) := by
  obtain ⟨apart, findings⟩ := apart_scan (u := u) text
  rw [redact_eq text _ apart findings, splicedFrom_eq]
  rfl

theorem placeholder_injective : Function.Injective placeholder := by
  intro kind kind' same
  unfold placeholder at same
  simpa using same

/-- The counts are the numbers of the placeholders of each kind. -/
def Counts (counts : Dict Str Nat) (marks : List Str) : Prop :=
  ∀ kind, Dict.get? counts kind =
    if placeholder kind ∈ marks then some (marks.count (placeholder kind)) else none

theorem counts_summarise (found : List PiiMatch) : Counts (summarise found) (placeholders found) := by
  -- The counts go on from those of the findings before.
  have general (counts : Dict Str Nat) (kind : Str) : Dict.get? (found.foldl (fun counts m =>
      Dict.set counts m.kind ((Dict.get? counts m.kind).getD 0 + 1)) counts) kind =
        if placeholder kind ∈ placeholders found then
          some ((Dict.get? counts kind).getD 0 + (placeholders found).count (placeholder kind))
        else Dict.get? counts kind := by
    induction found generalizing counts with
    | nil => rfl
    | cons m found ih =>
        rw [List.foldl_cons, ih, Dict.get?_set]
        simp only [placeholders, List.map_cons, List.mem_cons, List.count_cons, beq_iff_eq,
          placeholder_injective.eq_iff]
        by_cases own : m.kind = kind
        · subst own
          by_cases later : placeholder m.kind ∈ found.map fun m => placeholder m.kind
          · simp only [later, if_true, or_true, Option.getD_some]
            congr 1
            omega
          · simp only [later, if_true, if_false, true_or, List.count_eq_zero.mpr later]
        · simp only [own, Ne.symm own, false_or, if_false, Nat.add_zero]
  intro kind
  have total := general [] kind
  simpa [summarise, Dict.get?] using total

theorem placeholders_append (found : List PiiMatch) (offset : Nat) (others : List PiiMatch) :
    placeholders (found ++ others.map (PiiMatch.shift offset)) =
      placeholders found ++ placeholders others := by
  simp [placeholders, PiiMatch.shift, Function.comp_def]

/-- This is what a write stores under the policy of redaction. -/
structure Redacts (u : Unicode) (payload : CreateMemoryInput) (m : Memory) : Prop where
  title : m.title = splice (pieces payload.title (scan u payload.title)) (placeholders (scan u payload.title))
  body : m.body = splice (pieces payload.body (scan u payload.body)) (placeholders (scan u payload.body))
  counts : Counts m.piiFlags (placeholders (scan u payload.title) ++ placeholders (scan u payload.body))

theorem scan_newline (standard : u.Standard) (title body : Str) : scan u (title ++ "\n" ++ body) =
    scan u title ++ (scan u body).map (PiiMatch.shift (title.length + 1)) := by
  rw [List.append_assoc]
  exact scan_append standard '\n' (by decide) title body

theorem screen_redacts (env : Environment) (standard : env.unicode.Standard)
    (detects : env.settings.piiDetection = true) (redacts : env.settings.piiPolicy = .redact)
    (payload : CreateMemoryInput) :
    (screen env payload).title = redact payload.title (scan env.unicode payload.title) ∧
      (screen env payload).body = redact payload.body (scan env.unicode payload.body) ∧
      (screen env payload).findings =
        summarise (scan env.unicode (payload.title ++ "\n" ++ payload.body)) := by
  by_cases clean : scan env.unicode (payload.title ++ "\n" ++ payload.body) = []
  · obtain ⟨title, body⟩ := (MemoryTool.scan_joined standard _ _).mp clean
    rw [screen, if_neg fun found => found.2 clean, clean, title, body]
    exact ⟨rfl, rfl, rfl⟩
  · rw [screen, if_pos ⟨detects, clean⟩]
    simp only [redacts]
    exact ⟨trivial, trivial, trivial⟩

/-- The scan of a title and a body is their two scans, and the counts of a write are the numbers of the
placeholders that it inserts. -/
theorem scan_joined_agrees (u : Unicode) (standard : u.Standard) :
    (∀ title body : Str, scan u (title ++ "\n" ++ body) =
      scan u title ++ (scan u body).map (PiiMatch.shift (title.length + 1))) ∧
    ∀ env : Environment, env.unicode = u → env.settings.piiDetection = true →
      env.settings.piiPolicy = .redact → ∀ (p : Principal) (ctx : CallContext) (s s' : Session)
        (payload : CreateMemoryInput) (embed force : Bool) (result : MemoryWrite),
        write env p ctx s payload embed force = .ok (result, s') → result.deduped = false →
          Redacts u payload result.memory := by
  refine ⟨scan_newline standard, ?_⟩
  rintro env rfl detects redacts p ctx s s' payload embed force result done fresh
  obtain ⟨title, body, flags⟩ := write_screened payload embed force result done fresh
  obtain ⟨title', body', found⟩ := screen_redacts env standard detects redacts payload
  constructor
  · rw [title, title', redact_scan]
  · rw [body, body', redact_scan]
  · rw [flags, found, scan_newline standard, ← placeholders_append]
    exact counts_summarise _

theorem scan_joined_addressInput : scan Unicode.ascii ("a@b.io".toList ++ "\n" ++ "c@d.io".toList) =
      scan Unicode.ascii "a@b.io".toList ++
        (scan Unicode.ascii "c@d.io".toList).map (PiiMatch.shift 7) ∧
    ∃ result s', write redactingEnvironment sampleOwner { now := 1, newPublicId := 1 } ⟨{}, {}⟩
      addressInput false false = .ok (result, s') ∧ Redacts Unicode.ascii addressInput result.memory := by
  obtain ⟨result, s', done, fresh⟩ := write_addressInput
  obtain ⟨joined, writes⟩ := scan_joined_agrees Unicode.ascii MemoryTool.standard_ascii
  exact ⟨joined "a@b.io".toList "c@d.io".toList, result, s', done,
    writes redactingEnvironment rfl rfl rfl _ _ _ _ _ _ _ _ done fresh⟩

end Kortex.PiiDetector

namespace Kortex.PiiDetector

/-- The matches lie in the text and do not overlap, and an empty match is not listed before one that
starts at the same place and is not empty. -/
structure Listed (text : Str) (found : List PiiMatch) : Prop where
  within : ∀ m ∈ found, m.start ≤ m.stop ∧ m.stop ≤ text.length
  disjoint : found.Pairwise fun a b => a.stop ≤ b.start ∨ b.stop ≤ a.start
  ties : found.Pairwise fun a b => a.start = b.start → a.start = a.stop → b.start = b.stop

/-- These are the matches in the order of the text. -/
def inOrder (found : List PiiMatch) : List PiiMatch :=
  (found.insertionSort fun a b => b.start ≤ a.start).reverse

theorem redact_eq_foldr (text : Str) (found : List PiiMatch) :
    redact text found = (inOrder found).foldr replace text := by
  rw [redact, inOrder, List.foldr_reverse]
  congr 1
  funext out m
  unfold replace placeholder
  simp only [List.append_assoc]

theorem inOrder_apart (text : Str) (found : List PiiMatch) (listed : Listed text found) :
    (inOrder found).Pairwise Apart := by
  have symmetric : Std.Symm fun a b : PiiMatch => a.stop ≤ b.start ∨ b.stop ≤ a.start :=
    ⟨fun _ _ => Or.symm⟩
  have sorted : (found.insertionSort fun a b => b.start ≤ a.start).Pairwise
      fun a b => b.start ≤ a.start :=
    pairwise_insertionSort_on _ (fun _ => True) found (fun _ _ => trivial)
      (fun a b _ _ => le_total b.start a.start) (fun _ _ _ _ _ _ first second => second.trans first)
  have behind : (found.insertionSort fun a b => b.start ≤ a.start).Pairwise
      fun a b => b.start ≤ a.start → b.stop ≤ a.start := by
    apply pairwise_insertionSort_of
    · refine (List.pairwise_and_iff.mpr ⟨listed.disjoint, listed.ties⟩).imp_of_mem ?_
      rintro a b first second ⟨apart, tied⟩ below
      have forward := (listed.within a first).1
      rcases apart with before | after
      · have empty := tied (by omega) (by omega)
        omega
      · exact after
    · intro a first b second above _
      have different : a ≠ b := by
        rintro rfl
        exact above le_rfl
      have forward := (listed.within a first).1
      rcases listed.disjoint.forall first second different with before | after
      · omega
      · exact after
  rw [inOrder, List.pairwise_reverse]
  exact (List.pairwise_and_iff.mpr ⟨sorted, behind⟩).imp fun both => both.2 both.1

/-- The matches are replaced from right to left, and each one is replaced in its own place. -/
structure Splices (text : Str) (found ordered : List PiiMatch) : Prop where
  perm : ordered.Perm found
  apart : ordered.Pairwise Apart
  steps : redact text found = ordered.foldr replace text
  offsets : ∀ before m after, ordered = before ++ m :: after →
    (after.foldr replace text).take m.stop = text.take m.stop
  spliced : redact text found = splice (pieces text ordered) (placeholders ordered)

theorem redact_splices (text : Str) (found : List PiiMatch) (listed : Listed text found) :
    ∃ ordered, Splices text found ordered := by
  have perm : (inOrder found).Perm found :=
    (List.reverse_perm _).trans (List.perm_insertionSort _ found)
  have apart := inOrder_apart text found listed
  have within (m : PiiMatch) (inside : m ∈ inOrder found) := listed.within m (perm.mem_iff.mp inside)
  refine ⟨inOrder found, perm, apart, redact_eq_foldr text found, ?_, ?_⟩
  · intro before m after split
    have tail : (m :: after).Pairwise Apart := by
      rw [split] at apart
      exact (List.pairwise_append.mp apart).2.1
    obtain ⟨ahead, others⟩ := List.pairwise_cons.mp tail
    have inside (m' : PiiMatch) (present : m' ∈ m :: after) : m' ∈ inOrder found := by
      rw [split]
      exact List.mem_append_right before present
    rw [foldr_replace text after others (fun m' present =>
      within m' (inside m' (List.mem_cons_of_mem m present))) m.stop ahead]
    have stop : (text.take m.stop).length = m.stop := by
      rw [List.length_take]
      exact Nat.min_eq_left (within m (inside m List.mem_cons_self)).2
    rw [List.take_append_of_le_length stop.ge, List.take_take, Nat.min_self]
  · rw [redact_eq_foldr, foldr_replace text _ apart within 0 fun _ _ => Nat.zero_le _,
      splicedFrom_eq]
    rfl

/-- This empty match is listed before a match that starts at its place. -/
def emptyFirst : List PiiMatch := [⟨"ip", 1, 1, []⟩, ⟨"ssn", 1, 2, "b"⟩]

/-- The second match cuts the placeholder of the first one. -/
theorem empty_match_is_cut :
    ¬ ∀ (text : Str) (found : List PiiMatch),
      (∀ m ∈ found, m.start ≤ m.stop ∧ m.stop ≤ text.length) →
      (found.Pairwise fun a b => a.stop ≤ b.start ∨ b.stop ≤ a.start) →
        ∃ ordered : List PiiMatch, ordered.Perm found ∧ ordered.Pairwise Apart ∧
          redact text found = splice (pieces text ordered) (placeholders ordered) := by
  intro claim
  obtain ⟨ordered, perm, apart, spliced⟩ := claim "abc" emptyFirst (by decide) (by decide)
  have listed := List.mem_permutations'.mpr perm
  simp only [emptyFirst, List.permutations', List.permutations'Aux, List.flatMap_cons, List.flatMap_nil,
    List.map_cons, List.map_nil, List.append_nil, List.mem_cons, List.not_mem_nil, or_false] at listed
  rcases listed with rfl | rfl
  · exact absurd spliced (by decide)
  · have overlap : (2 : Nat) ≤ 1 := (List.pairwise_cons.mp apart).1 _ List.mem_cons_self
    omega

/-- These matches touch, and are listed from right to left. -/
theorem redact_splices_touching : Listed "abc" [⟨"ssn", 1, 3, "bc"⟩, ⟨"ip", 0, 1, "a"⟩] ∧
    ∃ ordered, Splices "abc" [⟨"ssn", 1, 3, "bc"⟩, ⟨"ip", 0, 1, "a"⟩] ordered := by
  have listed : Listed "abc" [⟨"ssn", 1, 3, "bc"⟩, ⟨"ip", 0, 1, "a"⟩] :=
    ⟨by decide, by decide, by decide⟩
  exact ⟨listed, redact_splices "abc" _ listed⟩

end Kortex.PiiDetector
