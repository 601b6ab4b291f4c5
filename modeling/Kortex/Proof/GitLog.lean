import Kortex.Library.Shelf
import Kortex.Library.Strip
import Kortex.Model.GitLog
import Kortex.Proof.MemoryService

/-
This file proves when an ingested git log can be traced back to every commit, and what the command posts for
the output of `git log`.
-/

namespace Kortex.IngestionService

open MemoryService

variable {env : Environment} {p : Principal} {scope : ScopeFilter} {sensitivity : Sensitivity}
  {ctx : Nat → CallContext} {s s' : Session}

/-- This is the sha in a `source_ref`. -/
def shaOf (m : Memory) : Option Json := m.sourceRef.bind fun ref => Dict.get? ref "sha"

/-- A live memory of the scope has the sha in its `source_ref`. -/
def Traced (p : Principal) (scope : ScopeFilter) (db : Database) (sha : Str) : Prop :=
  ∃ m ∈ MemoryRepo.liveRows p db, m.inScope scope = true ∧ shaOf m = some (.str sha)

/-- This is the fingerprint that a write compares and stores. -/
def printOf (env : Environment) (payload : CreateMemoryInput) : Str :=
  contentHash env (screen env payload).title (screen env payload).body

/-- These are the fingerprints and the shas of the live memories of the scope. -/
def shelf (p : Principal) (scope : ScopeFilter) (db : Database) : Shelf Str Str where
  keys := {hash | ∃ m ∈ MemoryRepo.liveRows p db, m.inScope scope = true ∧ m.contentHash = some hash}
  marks := {sha | Traced p scope db sha}

/-- A commit that is not skipped is put on the shelf with its fingerprint and its sha. -/
def entryOf (env : Environment) (scope : ScopeFilter) (sensitivity : Sensitivity) (commit : GitCommit) :
    Option (Str × Str) :=
  (commitInput scope sensitivity commit).map fun payload =>
    (printOf env payload, Str.strip commit.sha)

def entriesOf (env : Environment) (scope : ScopeFilter) (sensitivity : Sensitivity)
    (commits : List GitCommit) : List (Str × Str) :=
  commits.filterMap (entryOf env scope sensitivity)

/-- A change of one row that keeps what the shelf shows of it keeps the shelf. -/
theorem shelf_update (db : Database) (m : Memory) (present : m ∈ db.memories.rows)
    (now : Instant) (metadata : Option JsonDict) :
    shelf p scope (db.updateMemory m.id (Memory.duplicated now metadata)
      (Memory.duplicated_ident now metadata)) = shelf p scope db := by
  have rows (x : Memory) := mem_updateMemory db m present (Memory.duplicated now metadata)
    (Memory.duplicated_ident now metadata) x
  have seen (Q : Memory → Prop) (kept : Q (m.duplicated now metadata) ↔ Q m) :
      (∃ x ∈ MemoryRepo.liveRows p (db.updateMemory m.id (Memory.duplicated now metadata)
        (Memory.duplicated_ident now metadata)), Q x) ↔ ∃ x ∈ MemoryRepo.liveRows p db, Q x := by
    have visible : Visible p (m.duplicated now metadata) ↔ Visible p m := Iff.rfl
    simp only [MemoryRepo.mem_liveRows, rows]
    constructor
    · rintro ⟨x, ⟨⟨inside, _⟩ | rfl, own⟩, holds⟩
      · exact ⟨x, ⟨inside, own⟩, holds⟩
      · exact ⟨m, ⟨present, visible.mp own⟩, kept.mp holds⟩
    · rintro ⟨x, ⟨inside, own⟩, holds⟩
      by_cases same : x = m
      · subst same
        exact ⟨_, ⟨Or.inr rfl, visible.mpr own⟩, kept.mpr holds⟩
      · exact ⟨x, ⟨Or.inl ⟨inside, same⟩, own⟩, holds⟩
  rw [shelf, shelf]
  congr 1
  · ext hash
    exact seen (fun x => x.inScope scope = true ∧ x.contentHash = some hash) Iff.rfl
  · ext sha
    exact seen (fun x => x.inScope scope = true ∧ shaOf x = some (.str sha)) Iff.rfl

/-- A new row of the scope adds its fingerprint and its sha to the shelf. -/
theorem shelf_insert (db db' : Database) (m created : Memory) (gap : Nat)
    (done : db.insertMemory m gap = some (created, db')) (visible : Visible p created)
    (inside : created.inScope scope = true) (hash sha : Str) (print : created.contentHash = some hash)
    (mark : shaOf created = some (.str sha)) :
    shelf p scope db' = ⟨insert hash (shelf p scope db).keys, insert sha (shelf p scope db).marks⟩ := by
  obtain ⟨_, _, _, rows⟩ := insertMemory_cases _ _ _ _ _ done
  have seen (Q : Memory → Prop) : (∃ x ∈ MemoryRepo.liveRows p db', Q x) ↔
      Q created ∨ ∃ x ∈ MemoryRepo.liveRows p db, Q x := by
    simp only [MemoryRepo.mem_liveRows, rows]
    constructor
    · rintro ⟨x, ⟨old | rfl, own⟩, holds⟩
      · exact Or.inr ⟨x, ⟨old, own⟩, holds⟩
      · exact Or.inl holds
    · rintro (holds | ⟨x, ⟨old, own⟩, holds⟩)
      · exact ⟨created, ⟨Or.inr rfl, visible⟩, holds⟩
      · exact ⟨x, ⟨Or.inl old, own⟩, holds⟩
  rw [shelf]
  congr 1
  · ext other
    have added := seen fun x => x.inScope scope = true ∧ x.contentHash = some other
    simp only [inside, print, true_and, Option.some.injEq, eq_comm (a := hash)] at added
    exact added
  · ext other
    have added := seen fun x => x.inScope scope = true ∧ shaOf x = some (.str other)
    simp only [inside, mark, true_and, Option.some.injEq, Value.str.injEq, eq_comm (a := sha)] at added
    exact added

/-- A write finds a duplicate exactly when the shelf holds its fingerprint. -/
theorem duplicateOf_eq_none (dedup : env.settings.dedupOnWrite = true) (db : Database)
    (payload : CreateMemoryInput) :
    duplicateOf env p db scope (screen env payload) false = none ↔
      printOf env payload ∉ (shelf p scope db).keys := by
  simp only [duplicateOf, Bool.false_eq_true, if_false, fingerprint, if_pos dedup, Option.bind_some]
  constructor
  · rintro missing ⟨m, inside, own, print⟩
    exact findByContentHash_none p db scope _ missing m inside own print
  · intro absent
    cases found : MemoryRepo.findByContentHash p db scope
        (contentHash env (screen env payload).title (screen env payload).body) with
    | none => rfl
    | some m =>
        obtain ⟨inside, own, print⟩ := MemoryRepo.findByContentHash_some p db scope _ m found
        exact absurd ⟨m, inside, own, print⟩ absent

theorem commitInput_some (commit : GitCommit) (payload : CreateMemoryInput)
    (input : commitInput scope sensitivity commit = some payload) :
    payload.scope = scope ∧ (payload.sourceRef.bind fun ref => Dict.get? ref "sha") =
      some (.str (Str.strip commit.sha)) := by
  simp only [commitInput] at input
  split at input
  · exact absurd input (by simp)
  · rw [← Option.some.inj input]
    exact ⟨rfl, rfl⟩

/-- The write of a commit puts its entry on the shelf. -/
theorem shelf_write (dedup : env.settings.dedupOnWrite = true) (context : CallContext)
    (commit : GitCommit) (payload : CreateMemoryInput)
    (input : commitInput scope sensitivity commit = some payload) (result : MemoryWrite)
    (done : write env p context s payload false false = .ok (result, s')) :
    shelf p scope s'.db =
      Shelf.put (shelf p scope s.db) (printOf env payload, Str.strip commit.sha) := by
  obtain ⟨rfl, sha⟩ := commitInput_some commit payload input
  have duplicate := @duplicateOf_eq_none env p payload.scope dedup s.db payload
  rcases write_cases payload false false result done with ⟨existing, folds⟩ |
    ⟨fresh, mode, tsConfig, _, stores⟩
  · have held : printOf env payload ∈ (shelf p payload.scope s.db).keys := by
      by_contra absent
      rw [folds.duplicate] at duplicate
      exact absurd (duplicate.mpr absent) (by simp)
    have inside := (duplicateOf_some p s.db _ _ _ _ folds.duplicate).1
    rw [MemoryRepo.mem_liveRows] at inside
    rw [Shelf.put_held _ _ held, folds.updated, shelf_update s.db existing inside.1]
  · rw [Shelf.put_new _ _ (duplicate.mp fresh)]
    obtain ⟨embedding, _, inserted⟩ := stores.inserted
    obtain ⟨row, _⟩ := insertMemory_cases _ _ _ _ _ inserted
    apply shelf_insert _ _ _ _ _ inserted
    · rw [row]
      exact ⟨Or.inr rfl, rfl⟩
    · rw [row]
      simp [Memory.inScope, newRow]
    · rw [row]
      simp [newRow, fingerprint, dedup, printOf]
    · rw [row]
      exact sha

/-- The ids of the memories stay when the write finds its fingerprint. -/
theorem memoryIds_write (dedup : env.settings.dedupOnWrite = true) (context : CallContext)
    (payload : CreateMemoryInput) (held : printOf env payload ∈ (shelf p payload.scope s.db).keys)
    (result : MemoryWrite) (done : write env p context s payload false false = .ok (result, s')) :
    s'.db.memories.rows.map Memory.id = s.db.memories.rows.map Memory.id := by
  have duplicate := @duplicateOf_eq_none env p payload.scope dedup s.db payload
  rcases write_cases payload false false result done with ⟨existing, folds⟩ | ⟨fresh, _⟩
  · rw [folds.updated]
    exact memoryIds_updateMemory s.db existing.id _ _
  · exact absurd held (duplicate.mp fresh)

/-- The first commit is skipped, or it is written before the others. -/
theorem ingestCommits_cons (i : Nat) (commit : GitCommit) (rest : List GitCommit) (created : Nat)
    (done : ingestCommits env p scope sensitivity ctx i (commit :: rest) s = .ok (created, s')) :
    (commitInput scope sensitivity commit = none ∧
        ingestCommits env p scope sensitivity ctx i rest s = .ok (created, s')) ∨
      ∃ payload result middle others, commitInput scope sensitivity commit = some payload ∧
        write env p (ctx i) s payload false false = .ok (result, middle) ∧
        ingestCommits env p scope sensitivity ctx (i + 1) rest middle = .ok (others, s') := by
  rw [ingestCommits] at done
  cases input : commitInput scope sensitivity commit with
  | none =>
      rw [input] at done
      exact Or.inl ⟨rfl, done⟩
  | some payload =>
      simp only [input, bind_eq_ok] at done
      obtain ⟨⟨result, middle⟩, one, ⟨others, final⟩, later, same⟩ := done
      obtain ⟨_, rfl⟩ := Prod.mk.inj (Except.ok.inj same)
      exact Or.inr ⟨payload, result, middle, others, rfl, one, later⟩

theorem entriesOf_cons_none (commit : GitCommit) (rest : List GitCommit)
    (input : commitInput scope sensitivity commit = none) :
    entriesOf env scope sensitivity (commit :: rest) = entriesOf env scope sensitivity rest := by
  simp [entriesOf, entryOf, input]

theorem entriesOf_cons_some (commit : GitCommit) (rest : List GitCommit) (payload : CreateMemoryInput)
    (input : commitInput scope sensitivity commit = some payload) :
    entriesOf env scope sensitivity (commit :: rest) =
      (printOf env payload, Str.strip commit.sha) :: entriesOf env scope sensitivity rest := by
  simp [entriesOf, entryOf, input]

/-- The ingestion puts the entries of its commits on the shelf, one after the other. -/
theorem shelf_ingestCommits (dedup : env.settings.dedupOnWrite = true) (i : Nat)
    (commits : List GitCommit) (created : Nat)
    (done : ingestCommits env p scope sensitivity ctx i commits s = .ok (created, s')) :
    shelf p scope s'.db =
      Run.final Shelf.put (shelf p scope s.db) (entriesOf env scope sensitivity commits) := by
  induction commits generalizing i created s with
  | nil =>
      obtain ⟨_, rfl⟩ := Prod.mk.inj (Except.ok.inj done)
      rfl
  | cons commit rest ih =>
      rcases ingestCommits_cons i commit rest created done with
        ⟨input, later⟩ | ⟨payload, result, middle, others, input, one, later⟩
      · rw [ih i created later, entriesOf_cons_none commit rest input]
      · rw [ih (i + 1) others later, shelf_write dedup _ commit payload input result one,
          entriesOf_cons_some commit rest payload input, Run.final_cons]

/-- An ingestion whose fingerprints are all held stores no memory. -/
theorem memoryIds_ingestCommits (dedup : env.settings.dedupOnWrite = true) (i : Nat)
    (commits : List GitCommit) (created : Nat)
    (held : ∀ entry ∈ entriesOf env scope sensitivity commits, entry.1 ∈ (shelf p scope s.db).keys)
    (done : ingestCommits env p scope sensitivity ctx i commits s = .ok (created, s')) :
    s'.db.memories.rows.map Memory.id = s.db.memories.rows.map Memory.id := by
  induction commits generalizing i created s with
  | nil =>
      obtain ⟨_, rfl⟩ := Prod.mk.inj (Except.ok.inj done)
      rfl
  | cons commit rest ih =>
      rcases ingestCommits_cons i commit rest created done with
        ⟨input, later⟩ | ⟨payload, result, middle, others, input, one, later⟩
      · rw [entriesOf_cons_none commit rest input] at held
        exact ih i created held later
      · rw [entriesOf_cons_some commit rest payload input, List.forall_mem_cons] at held
        have kept := shelf_write dedup _ commit payload input result one
        rw [Shelf.put_held _ _ held.1] at kept
        have ids : middle.db.memories.rows.map Memory.id = s.db.memories.rows.map Memory.id := by
          apply memoryIds_write dedup _ payload _ result one
          rw [(commitInput_some commit payload input).1]
          exact held.1
        rw [← ids]
        exact ih (i + 1) others (by rw [kept]; exact held.2) later

/-- The commit is the first of the list with its fingerprint, which no live memory of the scope has. -/
def FirstToSay (env : Environment) (p : Principal) (scope : ScopeFilter) (sensitivity : Sensitivity)
    (db : Database) (commits : List GitCommit) (commit : GitCommit) : Prop :=
  ∃ before after payload, commits = before ++ commit :: after ∧
    commitInput scope sensitivity commit = some payload ∧
    duplicateOf env p db scope (screen env payload) false = none ∧
    ∀ other ∈ before, ∀ earlier, commitInput scope sensitivity other = some earlier →
      printOf env earlier ≠ printOf env payload

/-- The first entries of the shelf are those of the commits that say something first. -/
theorem first_iff (dedup : env.settings.dedupOnWrite = true) (db : Database) (commits : List GitCommit)
    (sha : Str) :
    (∃ entry, Shelf.First (shelf p scope db) (entriesOf env scope sensitivity commits) entry ∧
      entry.2 = sha) ↔
      ∃ commit, FirstToSay env p scope sensitivity db commits commit ∧ Str.strip commit.sha = sha := by
  constructor
  · rintro ⟨entry, ⟨before, after, split, fresh, earlier⟩, rfl⟩
    obtain ⟨front, back, rfl, rfl, later⟩ := List.filterMap_eq_append_iff.mp split
    obtain ⟨skipped, commit, rest, rfl, none, own, rfl⟩ := List.filterMap_eq_cons_iff.mp later
    obtain ⟨payload, input, rfl⟩ := Option.map_eq_some_iff.mp own
    refine ⟨commit, ⟨front ++ skipped, rest, payload, by simp, input, ?_, ?_⟩, rfl⟩
    · exact (duplicateOf_eq_none dedup db payload).mpr fresh
    · intro other present payload' input'
      have entryOther : entryOf env scope sensitivity other =
          some (printOf env payload', Str.strip other.sha) := by rw [entryOf, input', Option.map_some]
      rcases List.mem_append.mp present with inFront | inSkipped
      · exact earlier _ (List.mem_filterMap.mpr ⟨other, inFront, entryOther⟩)
      · rw [none other inSkipped] at entryOther
        exact absurd entryOther (by simp)
  · rintro ⟨commit, ⟨before, after, payload, rfl, input, fresh, earlier⟩, rfl⟩
    have own : entryOf env scope sensitivity commit =
        some (printOf env payload, Str.strip commit.sha) := by rw [entryOf, input, Option.map_some]
    refine ⟨(printOf env payload, Str.strip commit.sha), ⟨entriesOf env scope sensitivity before,
      entriesOf env scope sensitivity after, ?_, (duplicateOf_eq_none dedup db payload).mp fresh, ?_⟩,
      rfl⟩
    · rw [entriesOf, List.filterMap_append, List.filterMap_cons_some own]
      rfl
    · intro entry present
      obtain ⟨other, inside, entryOther⟩ := List.mem_filterMap.mp present
      obtain ⟨payload', input', rfl⟩ := Option.map_eq_some_iff.mp entryOther
      exact earlier other inside payload' input'

/-- Every commit can be traced, and a second ingestion adds no memory and loses no sha. -/
structure KeepsEveryCommit (env : Environment) (p : Principal) (scope : ScopeFilter)
    (sensitivity : Sensitivity) (commits : List GitCommit) (db : Database) : Prop where
  traced : ∀ commit ∈ commits, commit.sha ≠ [] → commit.message ≠ [] →
    Traced p scope db (Str.strip commit.sha)
  again : ∀ (ctx : Nat → CallContext) (service : ServiceCache),
    let after := (afterCall ⟨db, service⟩
      (ingestGitLog env p scope sensitivity ctx ⟨db, service⟩ commits)).db
    after.memories.rows.map Memory.id = db.memories.rows.map Memory.id ∧
      ∀ sha, Traced p scope db sha → Traced p scope after sha

/-- A second ingestion adds no memory and loses no sha, whatever the first one kept. -/
theorem ingestGitLog_again (dedup : env.settings.dedupOnWrite = true) (commits : List GitCommit)
    (created : Nat) (done : ingestGitLog env p scope sensitivity ctx s commits = .ok (created, s'))
    (ctx' : Nat → CallContext) (service : ServiceCache) :
    let after := (afterCall ⟨s'.db, service⟩
      (ingestGitLog env p scope sensitivity ctx' ⟨s'.db, service⟩ commits)).db
    after.memories.rows.map Memory.id = s'.db.memories.rows.map Memory.id ∧
      shelf p scope after = shelf p scope s'.db := by
  have first := shelf_ingestCommits dedup 0 commits created done
  have held : ∀ entry ∈ entriesOf env scope sensitivity commits, entry.1 ∈ (shelf p scope s'.db).keys := by
    rw [first]
    exact Shelf.held_after _ _
  cases second : ingestGitLog env p scope sensitivity ctx' ⟨s'.db, service⟩ commits with
  | error e => exact ⟨rfl, rfl⟩
  | ok result =>
      obtain ⟨created', s''⟩ := result
      change s''.db.memories.rows.map Memory.id = _ ∧ shelf p scope s''.db = _
      have ids := memoryIds_ingestCommits (s := ⟨s'.db, service⟩) dedup 0 commits created' held second
      refine ⟨ids, ?_⟩
      rw [shelf_ingestCommits dedup 0 commits created' second, Shelf.final_held _ _ held]

/-- An ingestion keeps every commit exactly when the sha of each one was there before, or comes with
a commit that is the first to say what it says. -/
theorem keepsEveryCommit_iff (dedup : env.settings.dedupOnWrite = true) (commits : List GitCommit)
    (created : Nat) (done : ingestGitLog env p scope sensitivity ctx s commits = .ok (created, s')) :
    KeepsEveryCommit env p scope sensitivity commits s'.db ↔
      ∀ commit ∈ commits, commit.sha ≠ [] → commit.message ≠ [] →
        Traced p scope s.db (Str.strip commit.sha) ∨
          ∃ first, FirstToSay env p scope sensitivity s.db commits first ∧
            Str.strip first.sha = Str.strip commit.sha := by
  have marks (sha : Str) : Traced p scope s'.db sha ↔ Traced p scope s.db sha ∨
      ∃ first, FirstToSay env p scope sensitivity s.db commits first ∧ Str.strip first.sha = sha := by
    rw [← first_iff dedup]
    change sha ∈ (shelf p scope s'.db).marks ↔ _
    rw [shelf_ingestCommits dedup 0 commits created done, Shelf.mem_marks_final]
    rfl
  constructor
  · intro keeps commit present sha message
    exact (marks _).mp (keeps.traced commit present sha message)
  · intro condition
    refine ⟨fun commit present sha message => (marks _).mpr (condition commit present sha message), ?_⟩
    intro ctx' service
    obtain ⟨ids, same⟩ := ingestGitLog_again dedup commits created done ctx' service
    refine ⟨ids, fun sha traced => ?_⟩
    change sha ∈ (shelf p scope _).marks
    rw [same]
    exact traced

/-- The samples ingest a git log into an empty database. -/
def sampleIngest (commits : List GitCommit) : Except ServiceError (Nat × Session) :=
  ingestGitLog sampleEnvironment sampleOwner sampleScope .internal
    (fun i => { now := i, newPublicId := BitVec.ofNat 128 i }) ⟨{}, {}⟩ commits

def typoThenTests : List GitCommit :=
  [{ sha := "abc1234", message := "fix typo" }, { sha := "def5678", message := "add tests" }]

theorem keepsEveryCommit_iff_typo : KeepsEveryCommit sampleEnvironment sampleOwner sampleScope .internal
    typoThenTests (afterCall ⟨{}, {}⟩ (sampleIngest typoThenTests)).db := by
  have done := eq_ok_afterCall ⟨{}, {}⟩ (sampleIngest typoThenTests) 2 (by decide +kernel)
  apply (keepsEveryCommit_iff rfl typoThenTests 2 done).mpr
  intro commit present _ _
  refine Or.inr ⟨commit, ?_, rfl⟩
  simp only [typoThenTests, List.mem_cons, List.not_mem_nil, or_false] at present
  rcases present with rfl | rfl
  · exact ⟨[], [_], _, rfl, rfl, rfl, by simp⟩
  · refine ⟨[_], [], _, rfl, rfl, rfl, fun other inside earlier input => ?_⟩
    rw [List.mem_singleton.mp inside] at input
    rw [← Option.some.inj input]
    decide +kernel

/-- Both commits say the same. -/
def typoTwice : List GitCommit :=
  [{ sha := "abc1234", message := "fix typo" }, { sha := "def5678", message := "fix typo" }]

theorem typoTwice_shas : (afterCall ⟨{}, {}⟩ (sampleIngest typoTwice)).db.memories.rows.map shaOf =
    [some (.str "abc1234")] := by rfl

theorem second_typo_untraced :
    ¬ ∀ (env : Environment) (p : Principal) (scope : ScopeFilter) (sensitivity : Sensitivity)
      (ctx : Nat → CallContext) (commits : List GitCommit) (s s' : Session) (created : Nat),
      env.settings.dedupOnWrite = true →
      (∀ commit ∈ commits, Str.strip commit.sha ≠ [] ∧ Str.strip commit.message ≠ []) →
      ingestGitLog env p scope sensitivity ctx s commits = .ok (created, s') →
      KeepsEveryCommit env p scope sensitivity commits s'.db := by
  intro claim
  have done := eq_ok_afterCall ⟨{}, {}⟩ (sampleIngest typoTwice) 2 (by decide +kernel)
  have keeps := claim _ _ _ _ _ typoTwice _ _ 2 rfl (by decide) done
  obtain ⟨m, inside, _, sha⟩ := keeps.traced { sha := "def5678", message := "fix typo" }
    (List.mem_cons_of_mem _ List.mem_cons_self) (by decide) (by decide)
  rw [MemoryRepo.mem_liveRows] at inside
  have own := List.mem_map_of_mem (f := shaOf) inside.1
  rw [typoTwice_shas, List.mem_singleton, sha, Option.some.injEq, Value.str.injEq] at own
  exact absurd own (by decide)

end Kortex.IngestionService

namespace Kortex.GitLog

open Str (isSpace strip rstrip lstrip)

theorem splitMax_append (separator : Char) (maxsplit : Nat) (part rest : Str) (free : separator ∉ part) :
    splitMax separator (maxsplit + 1) (part ++ separator :: rest) =
      part :: splitMax separator maxsplit rest := by
  have others : ∀ c ∈ part, (c != separator) = true := by
    intro c inside
    exact bne_iff_ne.mpr fun same => free (same ▸ inside)
  rw [splitMax, List.dropWhile_append_of_pos others, List.takeWhile_append_of_pos others,
    List.dropWhile_cons_of_neg (by simp), List.takeWhile_cons_of_neg (by simp), List.append_nil]

theorem splitMax_free (separator : Char) (maxsplit : Nat) (part : Str) (free : separator ∉ part) :
    splitMax separator maxsplit part = [part] := by
  cases maxsplit with
  | zero => rfl
  | succ maxsplit =>
      have none : part.dropWhile (· != separator) = [] := by
        rw [List.dropWhile_eq_nil_iff]
        intro c inside
        exact bne_iff_ne.mpr fun same => free (same ▸ inside)
      rw [splitMax, none]

/-- The sha and the date have no whitespace, and the author has no separator; a message may have any. -/
structure Plain (e : Entry) : Prop where
  sha : e.sha ≠ [] ∧ ∀ c ∈ e.sha, isSpace c = false
  date : e.date ≠ [] ∧ ∀ c ∈ e.date, isSpace c = false
  author : recordSeparator ∉ e.author ∧ unitSeparator ∉ e.author

theorem plain_iff (e : Entry) : ((e.sha ≠ [] ∧ e.sha.all (fun c => !isSpace c) = true) ∧
    (e.date ≠ [] ∧ e.date.all (fun c => !isSpace c) = true) ∧
    (recordSeparator ∉ e.author ∧ unitSeparator ∉ e.author)) ↔ Plain e := by
  simp only [List.all_eq_true, Bool.not_eq_true']
  exact ⟨fun ⟨sha, date, author⟩ => ⟨sha, date, author⟩, fun ⟨sha, date, author⟩ => ⟨sha, date, author⟩⟩

instance (e : Entry) : Decidable (Plain e) := decidable_of_iff _ (plain_iff e)

theorem notMem_of_spaceless {s : Str} (spaceless : ∀ c ∈ s, isSpace c = false) (c : Char)
    (space : isSpace c = true) : c ∉ s := by
  intro inside
  rw [spaceless c inside] at space
  cases space

/-- This is what an entry says, with its message as it is. -/
def Entry.raw (e : Entry) : GitCommit :=
  { sha := e.sha, message := e.message, author := .str e.author, date := .str e.date }

/-- This is the commit of an entry with a message. -/
def Entry.commit (e : Entry) : Option GitCommit :=
  if strip e.message = [] then none else some { e.raw with message := strip e.message }

/-- These are the commits for one entry: the part of its message up to the first `\x1e` is its own, and
each later part is read as a record. -/
def Entry.posted (e : Entry) : List GitCommit :=
  match Str.split recordSeparator e.message with
  | [] => []
  | own :: others => ({ e with message := own } : Entry).commit.toList ++ others.filterMap commitOf

/-- A record is read back, also after the newline that stands before it. -/
theorem commitOf_text (e : Entry) (plain : Plain e) (lead : Str) (spaces : ∀ c ∈ lead, isSpace c = true) :
    commitOf (lead ++ e.text) = e.commit := by
  have space : isSpace unitSeparator = true := by decide
  have shaFree := notMem_of_spaceless plain.sha.2 unitSeparator space
  have dateFree := notMem_of_spaceless plain.date.2 unitSeparator space
  let front : Str := e.sha ++ unitSeparator :: (e.author ++ unitSeparator :: e.date)
  have filled : front ≠ [] := by simp [front]
  have first : ∀ c ∈ front.head?, isSpace c = false := by
    obtain ⟨c, rest, whole⟩ := List.exists_cons_of_ne_nil plain.sha.1
    intro d start
    have same : c = d := by simpa [front, whole] using start
    exact plain.sha.2 d (by rw [whole, ← same]; exact List.mem_cons_self)
  have last : ∀ c ∈ front.getLast?, isSpace c = false := by
    intro d final
    have ends : front.getLast? = e.date.getLast? := by
      have split : front = (e.sha ++ unitSeparator :: (e.author ++ [unitSeparator])) ++ e.date := by
        simp [front]
      rw [split, List.getLast?_append_of_ne_nil _ plain.date.1]
    rw [ends] at final
    exact plain.date.2 d (List.mem_of_getLast? final)
  have whole : lead ++ e.text = lead ++ front ++ unitSeparator :: e.message := by
    simp [front, Entry.text]
  have stripped : strip (lead ++ e.text) = front ++ rstrip (unitSeparator :: e.message) := by
    rw [whole, Str.strip_around lead front _ filled first last, lstrip,
      List.dropWhile_eq_nil_iff.mpr spaces, List.nil_append]
  rw [commitOf, stripped, Str.rstrip_cons, Entry.commit]
  by_cases blank : strip e.message = []
  · -- The separator before a blank message is whitespace too, so the record has three parts.
    have three : splitMax unitSeparator 3 front = [e.sha, e.author, e.date] := by
      rw [splitMax_append _ _ _ _ shaFree, splitMax_append _ _ _ _ plain.author.2,
        splitMax_free _ _ _ dateFree]
    rw [if_pos ((Str.rstrip_eq_nil_iff _).mpr blank), if_pos blank]
    have none : rstrip [unitSeparator] = [] := by decide
    simp only [none, List.append_nil, three, ite_self]
  · have four : splitMax unitSeparator 3 (front ++ unitSeparator :: rstrip e.message) =
        [e.sha, e.author, e.date, rstrip e.message] := by
      simp only [front, List.append_assoc, List.cons_append]
      rw [splitMax_append _ _ _ _ shaFree, splitMax_append _ _ _ _ plain.author.2,
        splitMax_append _ _ _ _ dateFree, splitMax]
    have more : front ++ unitSeparator :: rstrip e.message ≠ [] := by simp
    rw [if_neg (mt (Str.rstrip_eq_nil_iff _).mp blank), if_neg blank]
    simp only [if_neg more, four, Str.strip_rstrip, Entry.raw]

theorem commits_append (e : Entry) (plain : Plain e) (lead tail : Str)
    (spaces : ∀ c ∈ lead, isSpace c = true) (free : recordSeparator ∉ lead) :
    commits (lead ++ e.text ++ recordSeparator :: tail) = e.posted ++ commits tail := by
  have space : isSpace recordSeparator = true := by decide
  have other : recordSeparator ≠ unitSeparator := by decide
  let front : Str := lead ++ (e.sha ++ unitSeparator :: (e.author ++ unitSeparator :: (e.date ++
    [unitSeparator])))
  have whole (m : Str) : lead ++ ({ e with message := m } : Entry).text = front ++ m := by
    simp [front, Entry.text]
  have frontFree : recordSeparator ∉ front := by
    simp only [front, List.mem_append, List.mem_cons, not_or, List.not_mem_nil, not_false_eq_true,
      and_true]
    exact ⟨free, notMem_of_spaceless plain.sha.2 _ space, other, plain.author.1, other,
      notMem_of_spaceless plain.date.2 _ space, other⟩
  have pieces : Str.split recordSeparator (lead ++ e.text) =
      (Str.split recordSeparator e.message).modifyHead (front ++ ·) := by
    rw [whole e.message]
    exact Split.splitOn_free_append front e.message frontFree
  rw [commits, Str.split, List.splitOn_append_cons_self, List.filterMap_append, commits]
  congr 1
  rw [← Str.split, pieces, Entry.posted]
  cases Str.split recordSeparator e.message with
  | nil => rfl
  | cons own others =>
      have read : commitOf (front ++ own) = ({ e with message := own } : Entry).commit := by
        rw [← whole own]
        exact commitOf_text { e with message := own } ⟨plain.sha, plain.date, plain.author⟩ lead spaces
      simp only [List.modifyHead_cons, List.filterMap_cons, read]
      cases ({ e with message := own } : Entry).commit <;> rfl

theorem commits_output (entries : List Entry) (plain : ∀ e ∈ entries, Plain e) (lead : Str)
    (spaces : ∀ c ∈ lead, isSpace c = true) (free : recordSeparator ∉ lead) :
    commits (lead ++ output entries) = entries.flatMap Entry.posted := by
  have newline : ∀ c ∈ ['\n'], isSpace c = true := List.forall_mem_singleton.mpr rfl
  induction entries generalizing lead with
  | nil =>
      have blank : Str.strip lead = [] := (Str.strip_eq_nil_iff lead).mpr spaces
      rw [output, List.append_nil, commits, Str.split, List.splitOn_eq_singleton free]
      simp [commitOf, blank]
  | cons e rest ih =>
      rw [List.forall_mem_cons] at plain
      rw [List.flatMap_cons]
      cases rest with
      | nil =>
          rw [output, ← List.append_assoc, commits_append e plain.1 lead [] spaces free]
          rfl
      | cons next rest =>
          have unfolded : output (e :: next :: rest) =
              e.text ++ recordSeparator :: '\n' :: output (next :: rest) := rfl
          rw [unfolded, ← List.append_assoc, commits_append e plain.1 lead _ spaces free]
          exact congrArg _ (ih plain.2 ['\n'] newline (by decide))

theorem Entry.posted_free (e : Entry) (free : recordSeparator ∉ e.message) : e.posted = e.commit.toList := by
  rw [Entry.posted, Str.split, List.splitOn_eq_singleton free]
  exact List.append_nil _

/-- A message whose end has the text of an entry adds the commit of that entry. -/
theorem Entry.posted_forged (e forged : Entry) (front : Str) (plain : Plain forged)
    (free : recordSeparator ∉ forged.message)
    (message : e.message = front ++ recordSeparator :: forged.text) :
    ∃ own others, e.posted = ({ e with message := own } : Entry).commit.toList ++ others ++
      forged.commit.toList := by
  have space : isSpace recordSeparator = true := by decide
  have other : recordSeparator ≠ unitSeparator := by decide
  have textFree : recordSeparator ∉ forged.text := by
    simp only [Entry.text, List.mem_append, List.mem_cons, not_or]
    exact ⟨notMem_of_spaceless plain.sha.2 _ space, other, plain.author.1, other,
      notMem_of_spaceless plain.date.2 _ space, other, free⟩
  have read : commitOf forged.text = forged.commit :=
    commitOf_text forged plain [] fun _ inside => absurd inside List.not_mem_nil
  have pieces : Str.split recordSeparator e.message =
      Str.split recordSeparator front ++ [forged.text] := by
    rw [message, Str.split, List.splitOn_append_cons_self, List.splitOn_eq_singleton textFree]
    rfl
  obtain ⟨own, others, parts⟩ := List.exists_cons_of_ne_nil (List.splitOn_ne_nil recordSeparator front)
  refine ⟨own, others.filterMap commitOf, ?_⟩
  rw [Entry.posted, pieces, Str.split, parts]
  simp only [List.cons_append, List.filterMap_append, List.filterMap_cons, read, List.append_assoc]
  cases forged.commit <;> rfl

section Ingest

open IngestionService

variable (env : Environment) (p : Principal) (scope : ScopeFilter) (sensitivity : Sensitivity)
  (ctx : Nat → CallContext)

/-- The service strips again, and it skips what the command has left out. -/
theorem ingestCommits_posted (entries : List Entry) (i : Nat) (s : Session) :
    ingestCommits env p scope sensitivity ctx i (entries.filterMap Entry.commit) s =
      ingestCommits env p scope sensitivity ctx i (entries.map Entry.raw) s := by
  induction entries generalizing i s with
  | nil => rfl
  | cons e rest ih =>
      rw [List.map_cons, List.filterMap_cons, Entry.commit]
      by_cases blank : strip e.message = []
      · have skipped : commitInput scope sensitivity e.raw = none := by
          rw [commitInput]
          simp only [Entry.raw, blank, or_true, if_true]
        rw [if_pos blank, ingestCommits, skipped]
        exact ih i s
      · have same : commitInput scope sensitivity { e.raw with message := strip e.message } =
            commitInput scope sensitivity e.raw := by
          rw [commitInput, commitInput, Entry.raw]
          dsimp only
          rw [Str.strip_strip]
        rw [if_neg blank]
        simp only [ingestCommits, same]
        cases commitInput scope sensitivity e.raw with
        | none => exact ih i s
        | some payload => simp only [ih]

/-- The command posts the commits of the entries and those that the messages hold, so the memories are those
of the entries where no message holds a `\x1e`. -/
theorem output_ingested (entries : List Entry) (plain : ∀ e ∈ entries, Plain e) :
    commits (output entries) = entries.flatMap Entry.posted ∧
      ((∀ e ∈ entries, recordSeparator ∉ e.message) → ∀ s : Session,
        ingestGitLog env p scope sensitivity ctx s (commits (output entries)) =
          ingestGitLog env p scope sensitivity ctx s (entries.map Entry.raw)) ∧
      ∀ e ∈ entries, ∀ (front : Str) (forged : Entry), Plain forged → recordSeparator ∉ forged.message →
        strip forged.message ≠ [] → e.message = front ++ recordSeparator :: forged.text →
        { forged.raw with message := strip forged.message } ∈ commits (output entries) := by
  have posts : commits (output entries) = entries.flatMap Entry.posted :=
    commits_output entries plain [] (by simp) List.not_mem_nil
  refine ⟨posts, ?_, ?_⟩
  · intro free s
    have own : entries.flatMap Entry.posted = entries.filterMap Entry.commit := by
      rw [List.filterMap_eq_flatMap_toList]
      exact List.flatMap_congr fun e inside => e.posted_free (free e inside)
    rw [posts, own]
    exact ingestCommits_posted env p scope sensitivity ctx entries 0 s
  · intro e inside front forged plain free filled message
    obtain ⟨own, others, posted⟩ := e.posted_forged forged front plain free message
    rw [posts, List.mem_flatMap]
    have commit : forged.commit = some { forged.raw with message := strip forged.message } := if_neg filled
    refine ⟨e, inside, ?_⟩
    rw [posted, commit]
    exact List.mem_append_right _ (List.mem_singleton_self _)

end Ingest

open MemoryService (sampleEnvironment sampleOwner sampleScope)

def sampleEntry : Entry :=
  { sha := "abc1234", author := "Ada", date := "2025-01-02T03:04:05+00:00", message := "fix typo\n" }

/-- Its message holds the sample. -/
def forgingEntry : Entry :=
  { sampleEntry with sha := "def5678", message := "add tests" ++ recordSeparator :: sampleEntry.text }

theorem output_ingested_sample :
    (∀ s : Session, IngestionService.ingestGitLog sampleEnvironment sampleOwner sampleScope .internal
        (fun i => { now := i, newPublicId := BitVec.ofNat 128 i }) s (commits (output [sampleEntry])) =
      IngestionService.ingestGitLog sampleEnvironment sampleOwner sampleScope .internal
        (fun i => { now := i, newPublicId := BitVec.ofNat 128 i }) s [sampleEntry.raw]) ∧
      { sampleEntry.raw with message := "fix typo" } ∈ commits (output [forgingEntry]) := by
  have plain : Plain sampleEntry := by decide +kernel
  have forging : Plain forgingEntry := by decide +kernel
  have free : recordSeparator ∉ sampleEntry.message := by decide +kernel
  constructor
  · exact (output_ingested _ _ _ _ _ [sampleEntry] (by simpa using plain)).2.1 (by simpa using free)
  · have message : strip sampleEntry.message = "fix typo" := by decide +kernel
    rw [← message]
    exact (output_ingested sampleEnvironment sampleOwner sampleScope .internal
      (fun i => { now := i, newPublicId := BitVec.ofNat 128 i }) [forgingEntry]
      (by simpa using forging)).2.2 _ List.mem_cons_self _ sampleEntry plain free
      (by rw [message]; decide) rfl

end Kortex.GitLog
