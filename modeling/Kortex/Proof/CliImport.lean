import Kortex.Library.Shelf
import Kortex.Model.Importers
import Kortex.Proof.GitLog

/-
This file proves that an import can be run again after it broke off.
-/

namespace Kortex.CliImport

open Importers (SourceMemory)
open IngestionService (printOf shelf duplicateOf_eq_none)
open MemoryService (write write_cases sampleScope sampleEnvironment sampleOwner)

variable {env : Environment} {p : Principal} {scope : ScopeFilter}

/-- The memory is live, in the scope and has the fingerprint. -/
def counts (p : Principal) (scope : ScopeFilter) (hash : Str) (m : Memory) : Bool :=
  m.live && (p.isSuperuser || m.orgId == p.orgId) && m.inScope scope && m.contentHash == some hash

/-- This counts the live memories of the scope with each fingerprint. -/
def copies (p : Principal) (scope : ScopeFilter) (db : Database) : Tally Str :=
  fun hash => db.memories.rows.countP (counts p scope hash)

theorem counts_iff (hash : Str) (m : Memory) : counts p scope hash m = true ↔
    Visible p m ∧ m.inScope scope = true ∧ m.contentHash = some hash := by
  simp only [counts, Visible, Bool.and_eq_true, Bool.or_eq_true, beq_iff_eq]
  tauto

theorem copies_pos_iff (db : Database) (hash : Str) :
    0 < copies p scope db hash ↔ hash ∈ (shelf p scope db).keys := by
  simp only [copies, List.countP_pos_iff, counts_iff, shelf, Set.mem_ofPred_eq, MemoryRepo.mem_liveRows,
    and_assoc]

/-- A fold changes no fingerprint. -/
theorem copies_update (db : Database) (id : Nat) (now : Instant) (metadata : Option JsonDict) :
    copies p scope (db.updateMemory id (Memory.duplicated now metadata)
      (Memory.duplicated_ident now metadata)) = copies p scope db := by
  funext hash
  change (db.memories.rows.map _).countP _ = db.memories.rows.countP _
  rw [List.countP_map]
  congr 1
  funext m
  rw [Function.comp_apply, Table.changeRow]
  split <;> rfl

theorem copies_insert (db db' : Database) (m created : Memory) (gap : Nat)
    (done : db.insertMemory m gap = some (created, db')) (hash : Str)
    (absent : copies p scope db hash = 0) (counted : counts p scope hash created = true) :
    copies p scope db' = Tally.put (copies p scope db) hash := by
  obtain ⟨rows, _⟩ := insertMemory_rows db db' m created gap done
  obtain ⟨visible, inside, print⟩ := (counts_iff hash created).mp counted
  funext other
  rw [copies, rows, List.countP_append, List.countP_singleton, Tally.put]
  by_cases same : hash = other
  · subst same
    rw [if_pos counted, if_pos ⟨rfl, absent⟩]
    change copies p scope db hash + 1 = 1
    rw [absent]
  · have out : ¬ counts p scope other created = true := by
      rw [counts_iff, print]
      exact fun all => same (Option.some.inj all.2.2)
    rw [if_neg out, if_neg fun both => same both.1]
    rfl

/-- This is the fingerprint of a record that the API accepts. -/
def hashOf (env : Environment) (o : Options) (record : SourceMemory) : Option Str :=
  (payloadOf o record).map (printOf env)

theorem payloadOf_scope (o : Options) (record : SourceMemory) (payload : CreateMemoryInput)
    (some_ : payloadOf o record = some payload) : payload.scope = o.scope := by
  rw [payloadOf] at some_
  obtain ⟨kind, _, rest⟩ := Option.bind_eq_some_iff.mp some_
  dsimp only at rest
  split at rest
  · rw [← Option.some.inj rest]
  · cases rest

/-- What a request does that the endpoint answers with success. -/
structure Stored (env : Environment) (p : Principal) (o : Options) (record : SourceMemory) (db : Database)
    (result : MemoryWrite) (db' : Database) (hash : Str) : Prop where
  print : hashOf env o record = some hash
  tally : copies p o.scope db' = Tally.put (copies p o.scope db) hash
  deduped : result.deduped = true ↔ 0 < copies p o.scope db hash
  rows : db'.memories.rows.length = db.memories.rows.length + (if result.deduped then 0 else 1)

theorem post_cases (dedup : env.settings.dedupOnWrite = true) (o : Options) (context : CallContext)
    (record : SourceMemory) (db : Database) :
    post env p o context record db = (none, db) ∨ ∃ result db' hash,
      post env p o context record db = (some result, db') ∧
        Stored env p o record db result db' hash := by
  rw [post]
  cases accepted : payloadOf o record with
  | none => exact Or.inl rfl
  | some payload =>
      dsimp only
      have own := payloadOf_scope o record payload accepted
      have print : hashOf env o record = some (printOf env payload) := by
        rw [hashOf, accepted, Option.map_some]
      have duplicate := @duplicateOf_eq_none env p payload.scope dedup db payload
      rw [own, ← copies_pos_iff, not_lt, Nat.le_zero] at duplicate
      cases done : write env p context ⟨db, {}⟩ payload false false with
      | error e => exact Or.inl rfl
      | ok outcome =>
          obtain ⟨result, s⟩ := outcome
          refine Or.inr ⟨result, s.db, printOf env payload, rfl, ?_⟩
          rcases write_cases payload false false result done with ⟨existing, folds⟩ |
            ⟨fresh, mode, tsConfig, _, stores⟩
          · have held : 0 < copies p o.scope db (printOf env payload) := by
              by_contra absent
              have none := duplicate.mpr (by omega)
              rw [← own, folds.duplicate] at none
              cases none
            refine ⟨print, ?_, iff_of_true folds.deduped held, ?_⟩
            · rw [folds.updated, copies_update, Tally.put_held _ _ held]
            · rw [folds.updated, if_pos folds.deduped]
              exact List.length_map _
          · rw [own] at fresh
            have absent := duplicate.mp fresh
            obtain ⟨embedding, _, inserted⟩ := stores.inserted
            obtain ⟨row, _⟩ := insertMemory_cases _ _ _ _ _ inserted
            refine ⟨print, ?_, iff_of_false (by simp [stores.deduped]) (by omega), ?_⟩
            · apply copies_insert _ _ _ _ _ inserted _ absent
              rw [counts_iff, row]
              refine ⟨⟨Or.inr rfl, rfl⟩, ?_, ?_⟩
              · simp [Memory.inScope, MemoryService.newRow, own]
              · simp [MemoryService.newRow, MemoryService.fingerprint, dedup, printOf]
            · rw [stores.deduped, (insertMemory_rows _ _ _ _ _ inserted).1, List.length_append]
              rfl

def Report.total (report : Report) : Nat := report.written + report.deduped + report.failed

/-- What a run of the loop leaves: the fingerprints of the records that were stored or folded, and where it
comes to its end, the counters. -/
structure Ran (env : Environment) (p : Principal) (o : Options) (records : List SourceMemory)
    (report : Report) (db : Database) (outcome : Option Report × Database) (hashes : List Str) : Prop where
  tally : copies p o.scope outcome.2 = Run.final Tally.put (copies p o.scope db) hashes
  own : hashes ⊆ records.filterMap (hashOf env o)
  total : ∀ report', outcome.1 = some report' → report'.total = report.total + records.length
  rows : ∀ report', outcome.1 = some report' →
    outcome.2.memories.rows.length + report.written = db.memories.rows.length + report'.written
  failed : ∀ report', outcome.1 = some report' → report.failed ≤ report'.failed ∧
    (report'.failed = report.failed → records.map (hashOf env o) = hashes.map some)
  held : ∀ report', outcome.1 = some report' →
    (∀ hash ∈ records.filterMap (hashOf env o), 0 < copies p o.scope db hash) →
      report'.written = report.written

theorem writeRecords_ran (dedup : env.settings.dedupOnWrite = true) (o : Options) (line : Line) (i : Nat)
    (records : List SourceMemory) (report : Report) (db : Database) :
    ∃ hashes, Ran env p o records report db (writeRecords env p o line i records report db) hashes := by
  induction records generalizing i report db with
  | nil =>
      refine ⟨[], ⟨rfl, List.Subset.refl _, ?_, ?_, ?_, ?_⟩⟩
      all_goals
        rintro report' done
        cases Option.some.inj done
      · rfl
      · rfl
      · exact ⟨le_rfl, fun _ => rfl⟩
      · exact fun _ => rfl
  | cons record rest ih =>
      have later (hashes : List Str) (own : hashes ⊆ rest.filterMap (hashOf env o)) :
          hashes ⊆ (record :: rest).filterMap (hashOf env o) :=
        List.Subset.trans own (List.filterMap_subset (hashOf env o) (List.subset_cons_self record rest))
      have failing (db : Database) : ∃ hashes, Ran env p o (record :: rest) report db
          (writeRecords env p o line (i + 1) rest (report.count none) db) hashes := by
        obtain ⟨hashes, ran⟩ := ih (i + 1) (report.count none) db
        refine ⟨hashes, ran.tally, later hashes ran.own, ?_, ran.rows, ?_, ?_⟩
        · intro report' done
          rw [ran.total report' done, List.length_cons]
          simp only [Report.total, Report.count]
          omega
        · intro report' done
          have more : report.failed + 1 ≤ report'.failed := (ran.failed report' done).1
          exact ⟨by omega, fun same => by omega⟩
        · intro report' done all
          exact ran.held report' done fun hash inside => all hash (by
            obtain ⟨record', present, print⟩ := List.mem_filterMap.mp inside
            exact List.mem_filterMap.mpr ⟨record', List.mem_cons_of_mem _ present, print⟩)
      rw [writeRecords]
      cases line.fate i with
      | refused => exact failing db
      | broken arrived =>
          have ended (db' : Database) (hashes : List Str)
              (tally : copies p o.scope db' = Run.final Tally.put (copies p o.scope db) hashes)
              (own : hashes ⊆ (record :: rest).filterMap (hashOf env o)) :
              Ran env p o (record :: rest) report db (none, db') hashes := by
            refine ⟨tally, own, ?_, ?_, ?_, ?_⟩
            all_goals
              intro report' done
              cases done
          cases arrived with
          | false => exact ⟨[], ended db [] rfl (List.nil_subset _)⟩
          | true =>
              dsimp only
              rw [if_pos rfl]
              rcases post_cases dedup o (line.context i) record db with
                lost | ⟨result, db', hash, done, stored⟩
              · rw [lost]
                exact ⟨[], ended db [] rfl (List.nil_subset _)⟩
              · rw [done]
                refine ⟨[hash], ended db' [hash] stored.tally ?_⟩
                rw [List.filterMap_cons_some stored.print]
                exact List.cons_subset_cons hash (List.nil_subset _)
      | answered =>
          dsimp only
          rcases post_cases dedup o (line.context i) record db with lost | ⟨result, db', hash, done, stored⟩
          · rw [lost]
            exact failing db
          · rw [done]
            dsimp only
            obtain ⟨hashes, ran⟩ := ih (i + 1) (report.count (some result)) db'
            have whole : (record :: rest).filterMap (hashOf env o) = hash :: rest.filterMap (hashOf env o) :=
              List.filterMap_cons_some stored.print
            refine ⟨hash :: hashes, ⟨?_, ?_, ?_, ?_, ?_, ?_⟩⟩
            · rw [ran.tally, stored.tally, Run.final_cons]
            · rw [whole]
              exact List.cons_subset_cons hash ran.own
            · intro report' finished
              rw [ran.total report' finished, List.length_cons]
              simp only [Report.total, Report.count]
              split <;> dsimp only <;> omega
            · intro report' finished
              have rows := ran.rows report' finished
              have counted : (report.count (some result)).written =
                  report.written + (if result.deduped then 0 else 1) := by
                rw [Report.count]
                split <;> rfl
              rw [stored.rows, counted] at rows
              omega
            · intro report' finished
              obtain ⟨more, all⟩ := ran.failed report' finished
              have same : (report.count (some result)).failed = report.failed := by
                rw [Report.count]
                split <;> rfl
              rw [same] at more all
              refine ⟨more, fun none => ?_⟩
              rw [List.map_cons, List.map_cons, all none, stored.print]
            · intro report' finished held
              rw [whole, List.forall_mem_cons] at held
              have folded := stored.deduped.mpr held.1
              have kept := stored.tally
              rw [Tally.put_held _ _ held.1] at kept
              rw [ran.held report' finished (by rw [kept]; exact held.2), Report.count, if_pos folded]

/-- This is one start of the command. -/
structure Attempt where
  options : Options
  line : Line
  records : List SourceMemory

def Attempt.run (env : Environment) (p : Principal) (db : Database) (a : Attempt) : Database :=
  (importRecords env p a.options a.line a.records db).2

/-- This is a database after a number of starts. -/
def after (env : Environment) (p : Principal) (db : Database) (attempts : List Attempt) : Database :=
  Run.final (Attempt.run env p) db attempts

theorem chosen_subset (o : Options) (records : List SourceMemory) : chosen o records ⊆ records := by
  rw [chosen]
  split
  · exact List.take_subset _ _
  · exact List.Subset.refl _

theorem hashOf_congr (o o' : Options) (scope : o.scope = o'.scope)
    (sensitivity : o.sensitivity = o'.sensitivity) : hashOf env o = hashOf env o' := by
  funext record
  simp only [hashOf, payloadOf, scope, sensitivity]

/-- The attempts store none but the records, each once. -/
theorem tally_after (dedup : env.settings.dedupOnWrite = true) (o : Options)
    (records : List SourceMemory) (db : Database) (attempts : List Attempt)
    (same : ∀ a ∈ attempts, a.options.scope = o.scope ∧ a.options.sensitivity = o.sensitivity ∧
      a.records ⊆ records) :
    ∃ hashes, copies p o.scope (after env p db attempts) =
        Run.final Tally.put (copies p o.scope db) hashes ∧
      hashes ⊆ records.filterMap (hashOf env o) := by
  induction attempts generalizing db with
  | nil => exact ⟨[], rfl, List.nil_subset _⟩
  | cons a rest ih =>
      rw [List.forall_mem_cons] at same
      obtain ⟨⟨scope, sensitivity, fewer⟩, later⟩ := same
      obtain ⟨first, ran⟩ := @writeRecords_ran env p dedup a.options a.line 0
        (chosen a.options a.records) {} db
      obtain ⟨others, tally, own⟩ := ih (a.run env p db) later
      have firstTally : copies p o.scope (a.run env p db) =
          Run.final Tally.put (copies p o.scope db) first := by
        rw [← scope]
        exact ran.tally
      refine ⟨first ++ others, ?_, List.append_subset.mpr ⟨?_, own⟩⟩
      · rw [after, Run.final_cons, ← after, tally, firstTally, Run.final_append]
      · rw [← hashOf_congr a.options o scope sensitivity]
        exact List.Subset.trans ran.own (List.filterMap_subset _
          (List.Subset.trans (chosen_subset a.options a.records) fewer))

def sampleOptions : Options := { scope := sampleScope }

def sampleRecords : List SourceMemory := [{ body := "x" }, { body := "y" }]

def sampleContext (i : Nat) : CallContext := { now := i, newPublicId := BitVec.ofNat 128 i }

/-- The connection of this attempt breaks after the first record was stored. -/
def brokenAttempt : Attempt :=
  ⟨sampleOptions, ⟨sampleContext, fun _ => .broken true⟩, sampleRecords⟩

def secondAttempt : Attempt :=
  ⟨sampleOptions, { context := fun i => sampleContext (i + 5) }, sampleRecords⟩

end Kortex.CliImport
