import Kortex.Library.Dict
import Kortex.Library.Machine
import Kortex.Model.EmbeddingQueue
import Kortex.Proof.Governance

/-
This file proves what each operation on the embeddings makes of the columns of each memory.
-/

namespace Kortex.EmbeddingQueue

open EmbeddingTask

/-- These are the columns of the embedder in the row with an id, if there is one. -/
@[ext] structure Columns where
  retry : EmbedRetry
  stored : Option (Bool × Option (List PyFloat) × Option Str)

def rowOf (q : Queue) (id : Nat) : Option Memory := q.rows.find? fun m => m.id == id

/-- The row tells whether the memory is live, and its embedding. -/
def storedColumns (m : Memory) : Bool × Option (List PyFloat) × Option Str :=
  (m.live, m.embedding, m.embeddingModel)

def columns (q : Queue) (id : Nat) : Columns := ⟨q.retry id, (rowOf q id).map storedColumns⟩

/-- A vector is stored. -/
def Columns.embedded (vector : List PyFloat) (modelId : Str) (c : Columns) : Columns :=
  ⟨{}, c.stored.map fun stored => (stored.1, some vector, some modelId)⟩

/-- One more failure is recorded. -/
def failed (settings : Settings) (now : Instant) (error : Str) (retry : EmbedRetry) : EmbedRetry :=
  let decision := decideRetry retry.attempts settings.embedMaxAttempts settings.embedRetryBaseSeconds now
  { attempts := decision.attempts, error := some (error.take 2000)
    nextAttemptAt := decision.nextAttemptAt
    failedAt := if decision.parked then some now else retry.failedAt }

theorem decideRetry_attempts (attempts maxAttempts base : Nat) (now : Instant) :
    (decideRetry attempts maxAttempts base now).attempts = attempts + 1 := by
  rw [decideRetry]
  split <;> rfl

theorem failed_parked (settings : Settings) (now : Instant) (error : Str) (retry : EmbedRetry)
    (unparked : retry.failedAt = none) :
    (failed settings now error retry).failedAt.isSome = true ↔
      settings.embedMaxAttempts ≤ retry.attempts + 1 := by
  simp only [failed, decideRetry, unparked]
  split <;> simp_all

/-- A failure is recorded of a memory that has a row. -/
def Columns.failed (settings : Settings) (now : Instant) (error : Str) (c : Columns) : Columns :=
  if c.stored.isSome then { c with retry := EmbeddingQueue.failed settings now error c.retry } else c

/-- This is what an attempt makes of the columns of its memory. -/
def Columns.attempted (settings : Settings) (modelId : Str) (attempt : Attempt) (c : Columns) : Columns :=
  match attempt.answer with
  | .ok vector => c.embedded vector modelId
  | .error error => c.failed settings attempt.now error

variable {q : Queue}

theorem ids_nodup (q : Queue) : (q.rows.map Memory.id).Nodup := memoryIds_nodup q.session.db

theorem rowOf_eq_some (q : Queue) (id : Nat) (m : Memory) :
    rowOf q id = some m ↔ m ∈ q.rows ∧ m.id = id := storedRow_eq_some q.session.db id m

theorem columns_of_row (m : Memory) (present : m ∈ q.rows) :
    columns q m.id = ⟨q.retry m.id, some (storedColumns m)⟩ := by
  rw [columns, (rowOf_eq_some q m.id m).mpr ⟨present, rfl⟩]
  rfl

theorem stored_eq_some (id : Nat) (stored : Bool × Option (List PyFloat) × Option Str) :
    (columns q id).stored = some stored ↔ ∃ m ∈ q.rows, m.id = id ∧ storedColumns m = stored := by
  rw [columns, Option.map_eq_some_iff]
  constructor
  · rintro ⟨m, found, same⟩
    obtain ⟨present, own⟩ := (rowOf_eq_some q id m).mp found
    exact ⟨m, present, own, same⟩
  · rintro ⟨m, present, own, same⟩
    exact ⟨m, (rowOf_eq_some q id m).mpr ⟨present, own⟩, same⟩

theorem rowOf_isSome (q : Queue) (id : Nat) : (rowOf q id).isSome = true ↔ ∃ m ∈ q.rows, m.id = id := by
  rw [Option.isSome_iff_exists]
  simp only [rowOf_eq_some]

/-- An UPDATE changes the row that is found under an id if it is chosen. -/
theorem rowOf_update (q : Queue) (chosen : Memory → Bool) (change : Memory → Memory)
    (keeps : ∀ m, ((change m).id, (change m).publicId) = (m.id, m.publicId)) (q' : Queue)
    (same : q'.session.db.memories = q.session.db.memories.update chosen change keeps) (id : Nat) :
    rowOf q' id = (rowOf q id).map (Table.changeRow chosen change) :=
  storedRow_update q.session.db chosen change keeps q'.session.db same id

theorem rowOf_touch (q : Queue) (now : Instant) (ids : List Nat) (id : Nat) :
    (rowOf (q.touch now ids) id).map storedColumns = (rowOf q id).map storedColumns := by
  rw [rowOf_update q _ (Memory.withUpdatedAt now) (Memory.withUpdatedAt_ident now) (q.touch now ids) rfl,
    Option.map_map]
  congr 1
  funext m
  rw [Function.comp_apply, Table.changeRow]
  split <;> rfl

/-- A vector changes the columns of its memory and no others. -/
theorem columns_setEmbedding (q : Queue) (now : Instant) (memoryId : Nat) (vector : List PyFloat)
    (modelId : Str) (id : Nat) : columns (setEmbedding q now memoryId vector modelId) id =
      if id = memoryId then (columns q id).embedded vector modelId else columns q id := by
  have row := rowOf_update q (fun m => m.id == memoryId) (Memory.embedded now vector modelId)
    (Memory.embedded_ident now vector modelId) (setEmbedding q now memoryId vector modelId) rfl id
  have retry : (setEmbedding q now memoryId vector modelId).retry =
    Function.update q.retry memoryId {} := rfl
  simp only [columns, row, retry, Option.map_map]
  split
  · rename_i same
    subst same
    rw [Function.update_self, Columns.embedded]
    cases found : rowOf q id with
    | none => rfl
    | some m =>
        have own := ((rowOf_eq_some q id m).mp found).2
        simp [Table.changeRow, own, storedColumns, Memory.embedded, Memory.live]
  · rename_i other
    rw [Function.update_of_ne other]
    cases found : rowOf q id with
    | none => rfl
    | some m =>
        have own := ((rowOf_eq_some q id m).mp found).2
        simp [Table.changeRow, own, other]

theorem recordFailure_retry (q : Queue) (now : Instant) (error : Str) (m : Memory) :
    (recordFailure now error q m).retry =
      Function.update q.retry m.id (failed q.env.settings now error (q.retry m.id)) := rfl

theorem recordFailure_stored (q : Queue) (now : Instant) (error : Str) (m : Memory) (id : Nat) :
    (columns (recordFailure now error q m) id).stored = (columns q id).stored :=
  rowOf_touch _ now [m.id] id

/-- A failure that is recorded of a row changes the columns of this row and no others. -/
theorem cells_recordFailure (settings : Settings) (now : Instant) (error : Str) :
    Cells (fun q => q.env.settings = settings) columns (recordFailure now error) Memory.id
      (fun _ c => { c with retry := failed settings now error c.retry }) where
  keeps q m same := same
  own q m same := by
    apply Columns.ext
    · change (recordFailure now error q m).retry m.id = _
      rw [recordFailure_retry, Function.update_self, same]
      rfl
    · exact recordFailure_stored q now error m m.id
  other q m id same other := by
    apply Columns.ext
    · change (recordFailure now error q m).retry id = _
      rw [recordFailure_retry, Function.update_of_ne other]
      rfl
    · exact recordFailure_stored q now error m id

theorem recordEmbedFailures_env (q : Queue) (now : Instant) (ids : List Nat) (error : Str) :
    (recordEmbedFailures q now ids error).env = q.env := by
  rw [recordEmbedFailures]
  generalize q.rows.filter _ = rows
  induction rows generalizing q with
  | nil => rfl
  | cons m rest ih => exact ih (recordFailure now error q m)

/-- A recorded failure changes the columns of its memories and no others. -/
theorem columns_recordEmbedFailures (q : Queue) (now : Instant) (ids : List Nat) (error : Str)
    (id : Nat) : columns (recordEmbedFailures q now ids error) id =
      if id ∈ ids then (columns q id).failed q.env.settings now error else columns q id := by
  have cells := cells_recordFailure q.env.settings now error
  have distinct : ((q.rows.filter fun m => ids.contains m.id).map Memory.id).Nodup :=
    (ids_nodup q).sublist (List.filter_sublist.map Memory.id)
  rw [recordEmbedFailures]
  cases found : rowOf q id with
  | none =>
      have missing : (columns q id).stored = none := by rw [columns, found]; rfl
      have absent (m : Memory) (inside : m ∈ q.rows.filter fun m => ids.contains m.id) : id ≠ m.id := by
        rintro rfl
        have present : (rowOf q m.id).isSome = true :=
          (rowOf_isSome q m.id).mpr ⟨m, List.mem_of_mem_filter inside, rfl⟩
        rw [found] at present
        exact absurd present (by simp)
      rw [cells.foldl_other _ q rfl id absent, Columns.failed, missing]
      exact (ite_self _).symm
  | some m =>
      obtain ⟨present, rfl⟩ := (rowOf_eq_some q id m).mp found
      have here : (columns q m.id).stored.isSome = true := by rw [columns, found]; rfl
      split
      · rename_i asked
        have inside : m ∈ q.rows.filter fun m => ids.contains m.id :=
          List.mem_filter.mpr ⟨present, by simpa using asked⟩
        rw [cells.foldl_own _ distinct q rfl m inside, Columns.failed, if_pos here]
      · rename_i unasked
        refine cells.foldl_other _ q rfl m.id fun other inside same => ?_
        have asked := (List.mem_filter.mp inside).2
        rw [← same] at asked
        exact unasked (by simpa using asked)

/-- What is stored of an attempt changes the columns of its memory and no others. -/
theorem cells_store (settings : Settings) (modelId : Str) :
    Cells (fun q => q.env.settings = settings) columns (store modelId) (fun a => a.memory.id)
      (Columns.attempted settings modelId) where
  keeps q attempt same := by
    rw [store]
    cases attempt.answer with
    | ok vector => exact same
    | error error =>
        change (recordEmbedFailures q attempt.now [attempt.memory.id] error).env.settings = settings
        rw [recordEmbedFailures_env]
        exact same
  own q attempt same := by
    rw [store, Columns.attempted]
    cases attempt.answer with
    | ok vector =>
        change columns (setEmbedding q attempt.now attempt.memory.id vector modelId) attempt.memory.id =
          (columns q attempt.memory.id).embedded vector modelId
        rw [columns_setEmbedding, if_pos rfl]
    | error error =>
        change columns (recordEmbedFailures q attempt.now [attempt.memory.id] error) attempt.memory.id =
          (columns q attempt.memory.id).failed settings attempt.now error
        rw [columns_recordEmbedFailures, if_pos (List.mem_singleton_self _), same]
  other q attempt id _ other := by
    rw [store]
    cases attempt.answer with
    | ok vector =>
        change columns (setEmbedding q attempt.now attempt.memory.id vector modelId) id = columns q id
        rw [columns_setEmbedding, if_neg other]
    | error error =>
        change columns (recordEmbedFailures q attempt.now [attempt.memory.id] error) id = columns q id
        rw [columns_recordEmbedFailures, if_neg (by simpa using other)]

/-- A failed attempt at a memory that has a row records its failure. -/
theorem attempted_retry (settings : Settings) (modelId : Str) (attempt : Attempt) (error : Str)
    (refused : attempt.answer = .error error) (present : attempt.memory ∈ q.rows) :
    ((columns q attempt.memory.id).attempted settings modelId attempt).retry =
      failed settings attempt.now error (q.retry attempt.memory.id) := by
  rw [columns_of_row attempt.memory present, Columns.attempted, refused]
  rfl

/-- A reset clears the columns of the memories that it releases and no others. -/
theorem columns_resetEmbedFailures (q : Queue) (now : Instant) (orgId : Option Nat) (id : Nat) :
    columns (resetEmbedFailures q now orgId) id =
      if id ∈ releasedIds q orgId then { columns q id with retry := {} } else columns q id := by
  have stored := rowOf_touch q now (releasedIds q orgId) id
  apply Columns.ext
  · change (if id ∈ releasedIds q orgId then {} else q.retry id) = _
    split <;> rfl
  · change (rowOf (q.touch now (releasedIds q orgId)) id).map storedColumns = _
    rw [stored]
    split <;> rfl

/-- These are the filters of `list_pending_embedding`. -/
def isEligible (q : Queue) (now : Instant) (m : Memory) : Bool :=
  m.live && stale q.env m && eligible now (q.retry m.id)

theorem listPendingEmbedding_eq (q : Queue) (now : Instant) : listPendingEmbedding q now =
    ((q.rows.filter (isEligible q now)).insertionSort MemoryRepo.oldestFirst).take
      q.env.settings.embedderBatchSize := by
  rw [listPendingEmbedding, listPending, List.filter_filter]
  congr 3
  funext m
  rw [isEligible, Bool.and_comm]
  rfl

theorem mem_listPendingEmbedding_row (q : Queue) (now : Instant) (m : Memory)
    (listed : m ∈ listPendingEmbedding q now) : m ∈ q.rows ∧ isEligible q now m = true := by
  rw [listPendingEmbedding_eq] at listed
  have sorted := List.mem_of_mem_take listed
  rw [List.mem_insertionSort, List.mem_filter] at sorted
  exact sorted

theorem eligible_of_listed (q : Queue) (now : Instant) (m : Memory)
    (listed : m ∈ listPendingEmbedding q now) : eligible now (q.retry m.id) = true := by
  have own := (mem_listPendingEmbedding_row q now m listed).2
  rw [isEligible, Bool.and_eq_true] at own
  exact own.2

theorem pending_ids_nodup (q : Queue) (now : Instant) :
    ((listPendingEmbedding q now).map Memory.id).Nodup := by
  rw [listPendingEmbedding_eq]
  refine List.Nodup.sublist ((List.take_sublist _ _).map Memory.id) ?_
  refine ((List.perm_insertionSort _ _).map Memory.id).nodup_iff.mpr ?_
  exact (ids_nodup q).sublist (List.filter_sublist.map Memory.id)

/-- The samples start without any memory. -/
def emptyQueue : Queue := ⟨MemoryService.sampleEnvironment, ⟨{}, {}⟩, fun _ => {}⟩

end Kortex.EmbeddingQueue
