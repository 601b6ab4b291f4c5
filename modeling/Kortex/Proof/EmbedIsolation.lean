import Kortex.Library.Numbered
import Kortex.Library.Run
import Kortex.Proof.EmbeddingQueue

/-
This file proves when a run of the embedder settles each of its memories on its own.
-/

namespace Kortex.EmbeddingQueue

open EmbeddingTask MemoryService MemoryTool

variable (b : Batch)

/-- The embedder returned the vector for the text of the memory, in the call for the whole batch or in
the call for the memory alone. -/
def OwnVector (pending : List Memory) (i : Nat) (m : Memory) (vector : List PyFloat) : Prop :=
  (∃ vectors, b.embedder 0 (pending.map textOf) = .ok vectors ∧ vectors.length = pending.length ∧
    vectors[i]? = some vector) ∨ ∃ rest, b.embedder (i + 1) [textOf m] = .ok (vector :: rest)

/-- The row of the memory has the vector, and its failures are forgotten. -/
def HasEmbedding (q : Queue) (m : Memory) (vector : List PyFloat) : Prop :=
  (∃ m' ∈ q.rows, m'.id = m.id ∧ m'.embedding = some vector ∧ m'.embeddingModel = some b.modelId) ∧
    q.retry m.id = {}

/-- One more attempt is counted, with its error. -/
def HasFailure (q q' : Queue) (m : Memory) (error : Str) : Prop :=
  (q'.retry m.id).attempts = (q.retry m.id).attempts + 1 ∧
    (q'.retry m.id).error = some (error.take 2000)

/-- The run commits, and every memory that it has read has its own vector or its own failure. -/
def Isolated (q : Queue) : Prop :=
  ∃ q', embedBatch b q = .ok q' ∧ ∀ i m, (listPendingEmbedding q (b.clock 0))[i]? = some m →
    (∃ vector, OwnVector b (listPendingEmbedding q (b.clock 0)) i m vector ∧ HasEmbedding b q' m vector) ∨
      ∃ error, b.embedder (i + 1) [textOf m] = .error error ∧ HasFailure q q' m error

/-- The call for a memory alone raises an error or returns a vector that the database takes. -/
def AnswersAlone (n : Nat) (m : Memory) : Prop :=
  (∃ error, b.embedder n [textOf m] = .error error ∧ stores b (.error error) = true) ∨
    ∃ vector rest, b.embedder n [textOf m] = .ok (vector :: rest) ∧ stores b (.ok vector) = true

/-- The call for the whole batch returns as many vectors as there are memories. -/
def AnswersBatch (pending : List Memory) (vectors : List (List PyFloat)) : Prop :=
  b.embedder 0 (pending.map textOf) = .ok vectors ∧ vectors.length = pending.length

/-- The vectors of the batch are taken by the database, or the batch falls back to calls for each
memory alone, none of which returns an empty list or something that the database refuses. -/
def Answers (pending : List Memory) : Prop :=
  (∀ vectors, AnswersBatch b pending vectors → ∀ vector ∈ vectors, stores b (.ok vector) = true) ∧
    ((¬ ∃ vectors, AnswersBatch b pending vectors) → ∀ i m, pending[i]? = some m →
      AnswersAlone b (i + 1) m)

/-- The attempt is stored unless the database refuses it. -/
def taken (attempt : Attempt) : Option Attempt := if stores b attempt.answer then some attempt else none

/-- This is the attempt at a memory alone, if it can be stored. -/
def alone (n : Nat) (m : Memory) : Option Attempt :=
  match b.embedder n [textOf m] with
  | .error error => taken b ⟨m, b.clock n, .error error⟩
  | .ok [] => none
  | .ok (vector :: _) => taken b ⟨m, b.clock n, .ok vector⟩

/-- This is the attempt at a memory in the batch. -/
def together (n : Nat) (pair : Memory × List PyFloat) : Option Attempt :=
  taken b ⟨pair.1, b.clock n, .ok pair.2⟩

/-- These are the attempts of a run, if all of them can be stored. -/
def runAttempts (pending : List Memory) : Option (List Attempt) :=
  match b.embedder 0 (pending.map textOf) with
  | .error _ => eachFrom (alone b) 1 pending
  | .ok vectors =>
      if vectors.length = pending.length then eachFrom (together b) 1 (pending.zip vectors)
      else eachFrom (alone b) 1 pending

variable {b}

theorem taken_eq_some (attempt kept : Attempt) :
    taken b attempt = some kept ↔ stores b attempt.answer = true ∧ kept = attempt := by
  rw [taken]
  split
  · rename_i accepted
    simp [accepted, eq_comm]
  · rename_i refused
    simp [refused]

theorem storeOne_toOption (q : Queue) (attempt : Attempt) (next : Queue → Except TaskError Queue) :
    (storeOne b q attempt >>= next).toOption =
      (taken b attempt).bind fun kept => (next (store b.modelId q kept)).toOption := by
  rw [storeOne, taken]
  split <;> rfl

theorem embedOneByOne_toOption (n : Nat) (q : Queue) (pending : List Memory) :
    (embedOneByOne b n q pending).toOption =
      (eachFrom (alone b) n pending).map (storeAll b.modelId q) := by
  refine loop_eq_foldl (store b.modelId) (fun n q ms => (embedOneByOne b n q ms).toOption)
    (fun _ _ => rfl) (fun n q memory rest => ?_) n q pending
  simp only [embedOneByOne, alone]
  cases b.embedder n [textOf memory] with
  | error error => exact storeOne_toOption q _ fun q => embedOneByOne b (n + 1) q rest
  | ok vectors =>
      cases vectors with
      | nil => rfl
      | cons vector others => exact storeOne_toOption q _ fun q => embedOneByOne b (n + 1) q rest

theorem storeBatch_toOption (n : Nat) (q : Queue) (pairs : List (Memory × List PyFloat)) :
    (storeBatch b n q pairs).toOption =
      (eachFrom (together b) n pairs).map (storeAll b.modelId q) := by
  refine loop_eq_foldl (store b.modelId) (fun n q pairs => (storeBatch b n q pairs).toOption)
    (fun _ _ => rfl) (fun n q pair rest => ?_) n q pairs
  exact storeOne_toOption q _ fun q => storeBatch b (n + 1) q rest

theorem runAttempts_nil : runAttempts b [] = some [] := by
  rw [runAttempts]
  cases b.embedder 0 (List.map textOf []) with
  | error error => rfl
  | ok vectors => cases vectors <;> rfl

/-- A run that commits stores its attempts, and no other run commits. -/
theorem embedBatch_toOption (q : Queue) : (embedBatch b q).toOption =
    (runAttempts b (listPendingEmbedding q (b.clock 0))).map (storeAll b.modelId q) := by
  rw [embedBatch]
  generalize listPendingEmbedding q (b.clock 0) = pending
  by_cases nothing : pending = []
  · rw [if_pos nothing, nothing, runAttempts_nil]
    rfl
  · rw [if_neg nothing, runAttempts]
    cases b.embedder 0 (pending.map textOf) with
    | error error => exact embedOneByOne_toOption 1 q pending
    | ok vectors =>
        by_cases complete : vectors.length = pending.length
        · simp only [complete, ne_eq, not_true, if_false, if_true]
          exact storeBatch_toOption 1 q (pending.zip vectors)
        · simp only [complete, ne_eq, not_false_eq_true, if_true, if_false]
          exact embedOneByOne_toOption 1 q pending

theorem embedBatch_ok_iff (q q' : Queue) : embedBatch b q = .ok q' ↔
    ∃ attempts, runAttempts b (listPendingEmbedding q (b.clock 0)) = some attempts ∧
      storeAll b.modelId q attempts = q' := by
  rw [← Option.map_eq_some_iff, ← embedBatch_toOption]
  cases embedBatch b q <;> simp [Except.toOption]

theorem alone_isSome (n : Nat) (m : Memory) :
    (∃ attempt, alone b n m = some attempt) ↔ AnswersAlone b n m := by
  rw [alone, AnswersAlone]
  cases b.embedder n [textOf m] with
  | error error => simp [taken_eq_some]
  | ok vectors => cases vectors <;> simp [taken_eq_some]

theorem eachAlone_isSome (pending : List Memory) :
    (∃ attempts, eachFrom (alone b) 1 pending = some attempts) ↔
      ∀ i m, pending[i]? = some m → AnswersAlone b (i + 1) m := by
  rw [eachFrom_isSome]
  simp only [alone_isSome, Nat.add_comm 1]

theorem eachTogether_isSome (pending : List Memory) (vectors : List (List PyFloat))
    (complete : vectors.length = pending.length) :
    (∃ attempts, eachFrom (together b) 1 (pending.zip vectors) = some attempts) ↔
      ∀ vector ∈ vectors, stores b (.ok vector) = true := by
  simp only [eachFrom_isSome, together, taken_eq_some, exists_and_left, exists_eq,
    and_true]
  constructor
  · intro all vector inside
    obtain ⟨i, found⟩ := List.mem_iff_getElem?.mp inside
    have bound : i < pending.length := by
      have own := (List.getElem?_eq_some_iff.mp found).1
      omega
    exact all i (pending[i], vector)
      (List.getElem?_zip_eq_some.mpr ⟨List.getElem?_eq_getElem bound, found⟩)
  · rintro all i ⟨m, vector⟩ found
    exact all vector (List.mem_of_getElem? (List.getElem?_zip_eq_some.mp found).2)

/-- A run has its attempts exactly when the embedder answers them. -/
theorem runAttempts_isSome (pending : List Memory) :
    (∃ attempts, runAttempts b pending = some attempts) ↔ Answers b pending := by
  rw [runAttempts, Answers]
  cases answer : b.embedder 0 (pending.map textOf) with
  | error error =>
      simp only [eachAlone_isSome]
      simp [AnswersBatch, answer]
  | ok vectors =>
      by_cases complete : vectors.length = pending.length
      · simp only [if_pos complete, eachTogether_isSome pending vectors complete]
        simp [AnswersBatch, answer, complete]
      · simp only [if_neg complete, eachAlone_isSome]
        have mismatch (others : List (List PyFloat)) : ¬ AnswersBatch b pending others := by
          rintro ⟨same, length⟩
          obtain rfl : vectors = others := Except.ok.inj (answer.symm.trans same)
          exact complete length
        simp [mismatch]

theorem alone_own (n : Nat) (m : Memory) (attempt : Attempt) (done : alone b n m = some attempt) :
    attempt.memory = m ∧
      ((∃ vector rest, attempt.answer = .ok vector ∧ b.embedder n [textOf m] = .ok (vector :: rest)) ∨
        ∃ error, attempt.answer = .error error ∧ b.embedder n [textOf m] = .error error) := by
  rw [alone] at done
  cases answer : b.embedder n [textOf m] with
  | error error =>
      rw [answer] at done
      obtain ⟨_, rfl⟩ := (taken_eq_some _ _).mp done
      exact ⟨rfl, Or.inr ⟨error, rfl, rfl⟩⟩
  | ok vectors =>
      rw [answer] at done
      cases vectors with
      | nil => exact absurd done (by simp)
      | cons vector rest =>
          obtain ⟨_, rfl⟩ := (taken_eq_some _ _).mp done
          exact ⟨rfl, Or.inl ⟨vector, rest, rfl, rfl⟩⟩

theorem together_own (n : Nat) (pair : Memory × List PyFloat) (attempt : Attempt)
    (done : together b n pair = some attempt) :
    attempt.memory = pair.1 ∧ attempt.answer = .ok pair.2 := by
  obtain ⟨_, rfl⟩ := (taken_eq_some _ _).mp done
  exact ⟨rfl, rfl⟩

/-- A run makes its attempts one by one or has them all from the call for the batch. -/
theorem runAttempts_cases (pending : List Memory) (attempts : List Attempt)
    (done : runAttempts b pending = some attempts) :
    eachFrom (alone b) 1 pending = some attempts ∨ ∃ vectors, AnswersBatch b pending vectors ∧
      eachFrom (together b) 1 (pending.zip vectors) = some attempts := by
  rw [runAttempts] at done
  cases answer : b.embedder 0 (pending.map textOf) with
  | error error =>
      rw [answer] at done
      exact Or.inl done
  | ok vectors =>
      rw [answer] at done
      have branch : (if vectors.length = pending.length then
          eachFrom (together b) 1 (pending.zip vectors) else eachFrom (alone b) 1 pending) =
            some attempts := done
      by_cases complete : vectors.length = pending.length
      · rw [if_pos complete] at branch
        exact Or.inr ⟨vectors, ⟨answer, complete⟩, branch⟩
      · rw [if_neg complete] at branch
        exact Or.inl branch

theorem runAttempts_memories (pending : List Memory) (attempts : List Attempt)
    (done : runAttempts b pending = some attempts) : attempts.map Attempt.memory = pending := by
  rcases runAttempts_cases pending attempts done with single | ⟨vectors, ⟨_, complete⟩, whole⟩
  · rw [eachFrom_map Attempt.memory id (fun n m attempt own => (alone_own n m attempt own).1) 1 pending
      attempts single, List.map_id]
  · rw [eachFrom_map Attempt.memory Prod.fst
      (fun n pair attempt own => (together_own n pair attempt own).1) 1 _ attempts whole]
    exact List.map_fst_zip complete.ge

/-- The attempt at a memory of a run gives it its own vector or its own error. -/
theorem runAttempts_own (pending : List Memory) (attempts : List Attempt)
    (done : runAttempts b pending = some attempts) (i : Nat) (m : Memory) (found : pending[i]? = some m) :
    ∃ attempt ∈ attempts, attempt.memory = m ∧
      ((∃ vector, attempt.answer = .ok vector ∧ OwnVector b pending i m vector) ∨
        ∃ error, attempt.answer = .error error ∧ b.embedder (i + 1) [textOf m] = .error error) := by
  rcases runAttempts_cases pending attempts done with single | ⟨vectors, ⟨answer, complete⟩, whole⟩
  · obtain ⟨attempt, own, place⟩ := eachFrom_get 1 pending attempts single i m found
    have inside := List.mem_of_getElem? place
    rw [Nat.add_comm] at own
    obtain ⟨same, ⟨vector, rest, given, answer⟩ | refused⟩ := alone_own (i + 1) m attempt own
    · exact ⟨attempt, inside, same, Or.inl ⟨vector, given, Or.inr ⟨rest, answer⟩⟩⟩
    · exact ⟨attempt, inside, same, Or.inr refused⟩
  · have bound : i < vectors.length := by
      have own := (List.getElem?_eq_some_iff.mp found).1
      omega
    have vector := List.getElem?_eq_getElem bound
    obtain ⟨attempt, own, place⟩ := eachFrom_get 1 (pending.zip vectors) attempts whole i
      (m, vectors[i]) (List.getElem?_zip_eq_some.mpr ⟨found, vector⟩)
    obtain ⟨same, given⟩ := together_own (1 + i) _ attempt own
    exact ⟨attempt, List.mem_of_getElem? place, same,
      Or.inl ⟨vectors[i], given, Or.inl ⟨vectors, answer, complete, vector⟩⟩⟩

/-- The attempts of a run settle each of their memories. -/
theorem settled_of_attempt (q : Queue) (attempts : List Attempt)
    (distinct : (attempts.map fun a => a.memory.id).Nodup) (attempt : Attempt)
    (inside : attempt ∈ attempts) (present : attempt.memory ∈ q.rows) :
    (∀ vector, attempt.answer = .ok vector →
        HasEmbedding b (storeAll b.modelId q attempts) attempt.memory vector) ∧
      ∀ error, attempt.answer = .error error →
        HasFailure q (storeAll b.modelId q attempts) attempt.memory error := by
  have own : columns (storeAll b.modelId q attempts) attempt.memory.id =
      (columns q attempt.memory.id).attempted q.env.settings b.modelId attempt :=
    (cells_store q.env.settings b.modelId).foldl_own attempts distinct q rfl attempt inside
  constructor
  · intro vector given
    rw [columns_of_row attempt.memory present, Columns.attempted, given] at own
    obtain ⟨m', row, same, columns⟩ := (stored_eq_some _ _).mp (congrArg Columns.stored own)
    have embedding := Prod.mk.inj (Prod.mk.inj columns).2
    exact ⟨⟨m', row, same, embedding.1, embedding.2⟩, congrArg Columns.retry own⟩
  · intro error given
    have retry : (storeAll b.modelId q attempts).retry attempt.memory.id =
        failed q.env.settings attempt.now error (q.retry attempt.memory.id) :=
      (congrArg Columns.retry own).trans (attempted_retry _ _ attempt error given present)
    rw [HasFailure, retry]
    exact ⟨decideRetry_attempts _ _ _ _, rfl⟩

/-- A run that commits is a tick. -/
theorem embedBatch_eq_tick (q q' : Queue) (commits : embedBatch b q = .ok q') :
    ∃ attempt, tick q ⟨b.clock 0, b.modelId, attempt⟩ = q' := by
  obtain ⟨attempts, done, rfl⟩ := (embedBatch_ok_iff q q').mp commits
  have memories := runAttempts_memories _ attempts done
  have distinct : (attempts.map fun a => a.memory.id).Nodup := by
    have ids := pending_ids_nodup q (b.clock 0)
    rw [← memories, List.map_map] at ids
    exact ids
  let attempt (m : Memory) : Instant × Except Str (List PyFloat) :=
    ((attempts.find? fun a => decide (a.memory.id = m.id)).map fun a => (a.now, a.answer)).getD
      (0, .ok [])
  have own (a : Attempt) (inside : a ∈ attempts) : attempt a.memory = (a.now, a.answer) := by
    change ((attempts.find? _).map _).getD _ = _
    rw [(find?_key (fun a => a.memory.id) attempts distinct a.memory.id a).mpr ⟨inside, rfl⟩]
    rfl
  have same : Tick.attempts ⟨b.clock 0, b.modelId, attempt⟩ q = attempts := by
    rw [Tick.attempts, ← memories, List.map_map]
    conv_rhs => rw [← List.map_id attempts]
    apply List.map_congr_left
    intro a inside
    change (⟨a.memory, (attempt a.memory).1, (attempt a.memory).2⟩ : Attempt) = a
    rw [own a inside]
  exact ⟨attempt, congrArg (storeAll b.modelId q) same⟩

/-- A run settles every memory on its own exactly when the embedder answers each of its calls with
what the database takes, and a call for one memory with an error or with at least one vector. -/
theorem isolated_iff (b : Batch) (q : Queue) :
    Isolated b q ↔ Answers b (listPendingEmbedding q (b.clock 0)) := by
  rw [← runAttempts_isSome]
  constructor
  · rintro ⟨q', commits, _⟩
    obtain ⟨attempts, done, _⟩ := (embedBatch_ok_iff q q').mp commits
    exact ⟨attempts, done⟩
  · rintro ⟨attempts, done⟩
    have memories := runAttempts_memories _ attempts done
    have distinct : (attempts.map fun a => a.memory.id).Nodup := by
      have ids := pending_ids_nodup q (b.clock 0)
      rw [← memories, List.map_map] at ids
      exact ids
    refine ⟨storeAll b.modelId q attempts, (embedBatch_ok_iff q _).mpr ⟨attempts, done, rfl⟩,
      fun i m found => ?_⟩
    have present := (mem_listPendingEmbedding_row q _ m (List.mem_of_getElem? found)).1
    obtain ⟨attempt, inside, rfl, answer⟩ := runAttempts_own _ attempts done i m found
    obtain ⟨embeds, fails⟩ := settled_of_attempt q attempts distinct attempt inside present
    rcases answer with ⟨vector, given, own⟩ | ⟨error, given, own⟩
    · exact Or.inl ⟨vector, own, embeds vector given⟩
    · exact Or.inr ⟨error, own, fails error given⟩

/-- The embedder refuses the batch of two texts and answers the second text with no vector. -/
def sampleBatch : Batch where
  embedder n _ := match n with
    | 0 => .error "timeout".toList
    | 1 => .ok [[onePointZero]]
    | _ => .ok []
  modelId := sampleEnvironment.settings.embedderModel
  column _ := true
  clock n := n + 3

/-- Two files wait for their embedding. -/
def twoFiles : Queue :=
  Run.final step emptyQueue [.turn (sampleCommand 1 (createCommand "/memories/a" "x")),
    .turn (sampleCommand 2 (createCommand "/memories/b" "y"))]

theorem twoFiles_attempts :
    ((runAttempts sampleBatch (listPendingEmbedding twoFiles 3)).isSome,
      (listPendingEmbedding twoFiles 3).length) = (false, 2) := by
  decide +kernel

/-- The empty answer for the second text takes the vector of the first one with it. -/
theorem empty_answer_rolls_back : ¬ ∀ (b : Batch) (q : Queue), Isolated b q := by
  intro claim
  obtain ⟨q', commits, _⟩ := claim sampleBatch twoFiles
  obtain ⟨attempts, done, _⟩ := (embedBatch_ok_iff twoFiles q').mp commits
  have none := (Prod.mk.inj twoFiles_attempts).1
  change runAttempts sampleBatch (listPendingEmbedding twoFiles 3) = some attempts at done
  rw [done] at none
  exact Bool.noConfusion none

end Kortex.EmbeddingQueue
