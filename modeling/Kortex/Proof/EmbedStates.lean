import Kortex.Library.Run
import Kortex.Proof.EmbeddingFreshness
import Kortex.Proof.EmbeddingQueue
import Kortex.Proof.RowHistory

/-
This file proves when the states of the embeddings partition the live memories along a run.
-/

namespace Kortex.EmbeddingQueue

open EmbeddingTask MemoryService MemoryTool

/-- Exactly one of the three filters of `embed_status_counts` counts the memory. -/
def CountedOnce (q : Queue) (m : Memory) : Prop :=
  [countsPending q m, countsFailed q m, countsOk q m].count true = 1

/-- Every live memory is counted once, and those that count as embedded wait for no attempt. -/
structure Partitioned (q : Queue) : Prop where
  once : ∀ m ∈ q.rows, m.live = true → CountedOnce q m
  idle : ∀ m ∈ q.rows, m.live = true → countsOk q m = true → ∀ now, isEligible q now m = false

/-- After an edit of its text a memory is eligible for an attempt. -/
def Requeues (q : Queue) (e : Event) : Prop :=
  ∀ t, e = .turn t → ∀ patch m, EditsRow q.env q.session t patch m → patch.body.isSome = true →
    ∃ m' ∈ (step q e).rows, m'.id = m.id ∧ isEligible (step q e) t.context.now m' = true

/-- The live memory has an embedding. -/
def HasLiveEmbedding (m : Memory) : Prop := m.live = true ∧ m.embedding.isSome = true

/-- The step stores embeddings of the configured model only, parks no memory that has one, and changes
the model only while there are none of another model. -/
def KeepsEmbeddings (q : Queue) : Event → Prop
  | .turn t => ∀ payload, Writes q.env q.session t payload true →
      q.env.embedderModelId = q.configuredModel
  | .setEmbedding _ memoryId _ modelId => ∀ m ∈ q.rows, m.id = memoryId → m.live = true →
      modelId = q.configuredModel
  | .recordEmbedFailure _ memoryIds _ => ∀ m ∈ q.rows, m.id ∈ memoryIds → HasLiveEmbedding m →
      (q.retry m.id).attempts + 1 < q.env.settings.embedMaxAttempts
  | .resetEmbedFailures _ _ => True
  | .changeModel model => ∀ m ∈ q.rows, HasLiveEmbedding m → model = q.configuredModel

/-- The memory whose text is edited is neither parked nor waits for its next attempt. -/
def EditsReady (q : Queue) (e : Event) : Prop :=
  ∀ t, e = .turn t → ∀ patch m, EditsRow q.env q.session t patch m → patch.body.isSome = true →
    eligible t.context.now (q.retry m.id) = true

/-- The embedding of a live memory is of the configured model exactly when it is not parked. -/
def Columns.Counted (model : Str) (c : Columns) : Prop :=
  ∀ vector modelId, c.stored = some (true, some vector, modelId) →
    (modelId = some model ↔ c.retry.failedAt = none)

/-- The embedding of a live memory is of the configured model. -/
def Columns.OfModel (model : Str) (c : Columns) : Prop :=
  ∀ vector modelId, c.stored = some (true, some vector, modelId) → modelId = some model

/-- What is parked is a memory, and it has no embedding while it is live. -/
def Columns.ParkedEmpty (c : Columns) : Prop :=
  c.retry.failedAt.isSome = true →
    ∃ live embedding modelId, c.stored = some (live, embedding, modelId) ∧
      (live = true → embedding = none)

def Columns.Settled (model : Str) (c : Columns) : Prop := c.OfModel model ∧ c.ParkedEmpty

/-- The embeddings of the live memories are of the configured model, and only memories without one
are parked. -/
def Settled (q : Queue) : Prop := ∀ id, (columns q id).Settled q.configuredModel

namespace Columns

variable {model : Str} {c : Columns}

theorem ParkedEmpty.unparked (empty : c.ParkedEmpty) (vector : List PyFloat) (modelId : Option Str)
    (stored : c.stored = some (true, some vector, modelId)) : c.retry.failedAt = none := by
  by_contra parked
  obtain ⟨live, embedding, other, same, none⟩ := empty (by simpa [Option.isSome_iff_ne_none] using parked)
  rw [stored] at same
  obtain ⟨rfl, rfl, _⟩ : true = live ∧ some vector = embedding ∧ modelId = other := by simpa using same
  exact absurd (none rfl) (by simp)

theorem Settled.counted (settled : c.Settled model) : c.Counted model := by
  intro vector modelId stored
  exact iff_of_true (settled.1 vector modelId stored) (settled.2.unparked vector modelId stored)

/-- Where only memories without an embedding are parked, being counted once is being settled. -/
theorem Counted.settled (counted : c.Counted model) (empty : c.ParkedEmpty) : c.Settled model := by
  refine ⟨fun vector modelId stored => ?_, empty⟩
  exact (counted vector modelId stored).mpr (empty.unparked vector modelId stored)

theorem parkedEmpty_of_unparked (unparked : c.retry.failedAt = none) : c.ParkedEmpty := by
  intro parked
  rw [unparked] at parked
  exact Bool.noConfusion parked

theorem settled_embedded (vector : List PyFloat) (modelId : Str) :
    (c.embedded vector modelId).Settled model ↔
      ∀ embedding other, c.stored = some (true, embedding, other) → modelId = model := by
  constructor
  · rintro ⟨ofModel, _⟩ embedding other stored
    exact Option.some.inj (ofModel vector (some modelId) (by rw [embedded, stored]; rfl))
  · intro same
    refine ⟨?_, parkedEmpty_of_unparked rfl⟩
    intro vector' modelId' stored
    obtain ⟨⟨live, embedding, other⟩, own, equal⟩ := Option.map_eq_some_iff.mp stored
    obtain ⟨rfl, _, rfl⟩ : live = true ∧ some vector = some vector' ∧ some modelId = modelId' := by
      simpa using equal
    rw [same embedding other own]

theorem failed_stored (settings : Settings) (now : Instant) (error : Str) :
    (c.failed settings now error).stored = c.stored := by
  rw [failed]
  split <;> rfl

/-- A failure leaves the columns settled exactly when it does not park a memory that has an embedding. -/
theorem settled_failed (settings : Settings) (now : Instant) (error : Str) (settled : c.Settled model) :
    (c.failed settings now error).Settled model ↔ ∀ vector other,
      c.stored = some (true, some vector, other) → c.retry.attempts + 1 < settings.embedMaxAttempts := by
  have retry (vector : List PyFloat) (other : Option Str)
      (stored : c.stored = some (true, some vector, other)) :
      (c.failed settings now error).retry.failedAt.isSome = true ↔
        settings.embedMaxAttempts ≤ c.retry.attempts + 1 := by
    rw [failed, if_pos (by rw [stored]; rfl)]
    exact failed_parked settings now error c.retry (settled.2.unparked vector other stored)
  constructor
  · rintro ⟨_, empty⟩ vector other stored
    have unparked := empty.unparked vector other (by rw [failed_stored]; exact stored)
    by_contra few
    have parked := (retry vector other stored).mpr (by omega)
    rw [unparked] at parked
    exact Bool.noConfusion parked
  · intro few
    refine ⟨fun vector modelId stored => ?_, fun parked => ?_⟩
    · rw [failed_stored] at stored
      exact settled.1 vector modelId stored
    · rw [failed_stored]
      cases stored : c.stored with
      | none =>
          rw [failed, if_neg (by rw [stored]; simp)] at parked
          obtain ⟨_, _, _, same, _⟩ := settled.2 parked
          rw [stored] at same
          exact absurd same (by simp)
      | some row =>
          obtain ⟨live, embedding, modelId⟩ := row
          refine ⟨live, embedding, modelId, rfl, fun alive => ?_⟩
          subst alive
          cases embedding with
          | none => rfl
          | some vector =>
              have room := few vector modelId stored
              have full := (retry vector modelId stored).mp parked
              omega

theorem Counted.settled_failed (settings : Settings) (now : Instant) (error : Str)
    (settled : c.Settled model) (counted : (c.failed settings now error).Counted model) :
    (c.failed settings now error).Settled model := by
  rw [Columns.settled_failed settings now error settled]
  intro vector other stored
  have unparked := (counted vector other (by rw [failed_stored]; exact stored)).mp
    (settled.1 vector other stored)
  rw [failed, if_pos (by rw [stored]; rfl)] at unparked
  by_contra few
  have parked := (failed_parked settings now error c.retry
    (settled.2.unparked vector other stored)).mpr (by omega)
  rw [unparked] at parked
  exact Bool.noConfusion parked

theorem settled_cleared (settled : c.Settled model) : ({ c with retry := {} } : Columns).Settled model :=
  ⟨settled.1, parkedEmpty_of_unparked rfl⟩

theorem settled_otherModel (other : Str) (settled : c.Settled model) : c.Settled other ↔
    ∀ vector modelId, c.stored = some (true, some vector, modelId) → other = model := by
  constructor
  · intro changed vector modelId stored
    have first := settled.1 vector modelId stored
    exact Option.some.inj ((changed.1 vector modelId stored).symm.trans first)
  · intro same
    refine ⟨fun vector modelId stored => ?_, settled.2⟩
    rw [same vector modelId stored]
    exact settled.1 vector modelId stored

end Columns

variable {q : Queue}

theorem idle_of_ok (m : Memory) (ok : countsOk q m = true) (now : Instant) :
    isEligible q now m = false := by
  rw [countsOk, Bool.and_eq_true] at ok
  obtain ⟨has, model⟩ := ok
  have fresh : stale q.env m = false := by
    rw [stale, eq_of_beq model]
    simp [Option.isNone_eq_false_iff.mpr has, Queue.configuredModel]
  rw [isEligible, fresh, Bool.and_false, Bool.false_and]

/-- A live memory is counted once exactly when it has no embedding, or one of the configured model
without being parked, or one of another model and is parked. -/
theorem countedOnce_iff (m : Memory) : CountedOnce q m ↔ (m.embedding.isSome = true →
    (m.embeddingModel = some q.configuredModel ↔ (q.retry m.id).failedAt = none)) := by
  rw [CountedOnce, countsPending, countsFailed, countsOk]
  cases m.embedding with
  | none => cases (q.retry m.id).failedAt <;> simp
  | some vector =>
      by_cases model : m.embeddingModel = some q.configuredModel <;>
        cases (q.retry m.id).failedAt <;> simp [model]

/-- What holds of the embedding of each live memory holds of its row. -/
theorem forall_liveEmbedding (P : Nat → Option Str → Prop) :
    (∀ id vector modelId, (columns q id).stored = some (true, some vector, modelId) → P id modelId) ↔
      ∀ m ∈ q.rows, HasLiveEmbedding m → P m.id m.embeddingModel := by
  constructor
  · rintro all m present ⟨live, has⟩
    obtain ⟨vector, embedding⟩ := Option.isSome_iff_exists.mp has
    exact all m.id vector m.embeddingModel
      ((stored_eq_some m.id _).mpr ⟨m, present, rfl, by rw [storedColumns, live, embedding]⟩)
  · intro all id vector modelId stored
    obtain ⟨m, present, rfl, same⟩ := (stored_eq_some id _).mp stored
    obtain ⟨live, embedding, rfl⟩ : m.live = true ∧ m.embedding = some vector ∧
        m.embeddingModel = modelId := by
      simpa [storedColumns] using same
    exact all m present ⟨live, by rw [embedding]; rfl⟩

theorem partitioned_iff : Partitioned q ↔ ∀ id, (columns q id).Counted q.configuredModel := by
  have rows := forall_liveEmbedding (q := q) fun id modelId =>
    modelId = some q.configuredModel ↔ (q.retry id).failedAt = none
  constructor
  · intro partitioned
    apply rows.mpr
    intro m present has
    exact (countedOnce_iff m).mp (partitioned.once m present has.1) has.2
  · intro counted
    refine ⟨fun m present live => ?_, fun m _ _ => idle_of_ok m⟩
    rw [countedOnce_iff]
    exact fun has => rows.mp counted m present ⟨live, has⟩

/-- The three counts of a partition add up to the live memories. -/
theorem embedStatusCounts_total (partitioned : Partitioned q) (p : Principal) :
    (embedStatusCounts q p).pending + (embedStatusCounts q p).failed + (embedStatusCounts q p).ok =
      ((tenantQuery Memory.orgId p q.rows).filter Memory.live).length := by
  have once : ∀ m ∈ (tenantQuery Memory.orgId p q.rows).filter Memory.live, CountedOnce q m := by
    intro m inside
    obtain ⟨listed, live⟩ := List.mem_filter.mp inside
    exact partitioned.once m (List.mem_filter.mp listed).1 live
  simp only [embedStatusCounts]
  generalize (tenantQuery Memory.orgId p q.rows).filter Memory.live = rows at once ⊢
  induction rows with
  | nil => rfl
  | cons m rest ih =>
      rw [List.forall_mem_cons] at once
      have tail := ih once.2
      have own := once.1
      simp only [CountedOnce, List.count_cons, List.count_nil, beq_true] at own
      simp only [List.countP_cons, List.length_cons]
      omega

/-- An operation on some columns keeps all settled exactly when it keeps these. -/
theorem settled_changed (q' : Queue) (chosen : Nat → Prop) [DecidablePred chosen]
    (change : Columns → Columns) (settled : Settled q) (model : q'.configuredModel = q.configuredModel)
    (changed : ∀ id, columns q' id = if chosen id then change (columns q id) else columns q id) :
    Settled q' ↔ ∀ id, chosen id → (change (columns q id)).Settled q.configuredModel := by
  rw [Settled, model]
  constructor
  · intro all id picked
    have own := all id
    rwa [changed, if_pos picked] at own
  · intro all id
    rw [changed]
    split
    · rename_i picked
      exact all id picked
    · exact settled id

/-- Being counted once is being settled after an operation for which this is so of each row. -/
theorem settled_of_partitioned (q' : Queue) (chosen : Nat → Prop) [DecidablePred chosen]
    (change : Columns → Columns) (settled : Settled q) (model : q'.configuredModel = q.configuredModel)
    (changed : ∀ id, columns q' id = if chosen id then change (columns q id) else columns q id)
    (gives : ∀ c : Columns, c.Settled q.configuredModel → (change c).Counted q.configuredModel →
      (change c).Settled q.configuredModel)
    (partitioned : Partitioned q') : Settled q' := by
  rw [settled_changed q' chosen change settled model changed]
  intro id picked
  have counted := partitioned_iff.mp partitioned id
  rw [changed, if_pos picked, model] at counted
  exact gives (columns q id) (settled id) counted

theorem settled_setEmbedding (settled : Settled q) (now : Instant) (memoryId : Nat)
    (vector : List PyFloat) (modelId : Str) : Settled (setEmbedding q now memoryId vector modelId) ↔
      ∀ m ∈ q.rows, m.id = memoryId → m.live = true → modelId = q.configuredModel := by
  rw [settled_changed (setEmbedding q now memoryId vector modelId) (· = memoryId)
    (Columns.embedded vector modelId) settled rfl (columns_setEmbedding q now memoryId vector modelId)]
  simp only [Columns.settled_embedded]
  constructor
  · rintro all m present rfl live
    exact all m.id rfl m.embedding m.embeddingModel
      ((stored_eq_some m.id _).mpr ⟨m, present, rfl, by rw [storedColumns, live]⟩)
  · rintro all id rfl embedding other stored
    obtain ⟨m, present, same, own⟩ := (stored_eq_some id _).mp stored
    exact all m present same (Prod.mk.inj own).1

theorem settled_recordEmbedFailures (settled : Settled q) (now : Instant) (memoryIds : List Nat)
    (error : Str) : Settled (recordEmbedFailures q now memoryIds error) ↔
      ∀ m ∈ q.rows, m.id ∈ memoryIds → HasLiveEmbedding m →
        (q.retry m.id).attempts + 1 < q.env.settings.embedMaxAttempts := by
  have model : (recordEmbedFailures q now memoryIds error).configuredModel = q.configuredModel := by
    rw [Queue.configuredModel, recordEmbedFailures_env]
    rfl
  rw [settled_changed _ (· ∈ memoryIds) _ settled model
    (columns_recordEmbedFailures q now memoryIds error)]
  have rows := forall_liveEmbedding (q := q) fun id _ =>
    id ∈ memoryIds → (q.retry id).attempts + 1 < q.env.settings.embedMaxAttempts
  constructor
  · intro all m present asked has
    refine rows.mp (fun id vector other stored asked => ?_) m present has asked
    exact (Columns.settled_failed _ now error (settled id)).mp (all id asked) vector other stored
  · intro all id asked
    rw [Columns.settled_failed _ now error (settled id)]
    intro vector other stored
    exact rows.mpr (fun m present has asked => all m present asked has) id vector other stored asked

theorem settled_resetEmbedFailures (settled : Settled q) (now : Instant) (orgId : Option Nat) :
    Settled (resetEmbedFailures q now orgId) := by
  rw [settled_changed (resetEmbedFailures q now orgId) (· ∈ releasedIds q orgId)
    (fun c => { c with retry := {} }) settled rfl (columns_resetEmbedFailures q now orgId)]
  exact fun id _ => Columns.settled_cleared (settled id)

theorem settled_changeModel (settled : Settled q) (model : Str) :
    Settled (changeModel q model) ↔
      ∀ m ∈ q.rows, HasLiveEmbedding m → model = q.configuredModel := by
  rw [← forall_liveEmbedding fun _ _ => model = q.configuredModel]
  exact forall_congr' fun id => Columns.settled_otherModel model (settled id)

/-- The embedding of the row is of the model while it is live. -/
def RowOfModel (model : Str) (m : Memory) : Prop :=
  HasLiveEmbedding m → m.embeddingModel = some model

theorem ofModel_iff_rows (model : Str) :
    (∀ id, (columns q id).OfModel model) ↔ EveryMemory (RowOfModel model) q.session.db :=
  forall_liveEmbedding fun _ modelId => modelId = some model

theorem stableFor_rowOfModel (env : Environment) :
    StableFor env (RowOfModel env.settings.embedderModel)
      (fun _ embed => embed = true → env.embedderModelId = env.settings.embedderModel) where
  duplicated _ _ _ own := own
  softDeleted _ _ _ has := by
    have live := has.1
    simp [Memory.live, Memory.softDeleted] at live
  withPinned _ _ _ own := own
  created p ctx payload embed mode tsConfig embedding id done := by
    rcases inlineEmbedding_cases payload embed embedding done with
      ⟨rfl, rfl⟩ | ⟨vector, rfl, rfl, _⟩
    · refine iff_of_true (fun has => ?_) fun asked => Bool.noConfusion asked
      exact absurd has.2 (by simp [newRow])
    · constructor
      · intro own _
        exact Option.some.inj (own ⟨rfl, rfl⟩)
      · intro same _
        exact congrArg some (same rfl)

theorem rowOfModel_patched (model : Str) (now : Instant) (patch : MemoryPatch) (m : Memory)
    (own : RowOfModel model m) : RowOfModel model (m.patched now patch) := by
  rintro ⟨live, has⟩
  cases body : patch.body with
  | some text => simp [Memory.patched, body] at has
  | none =>
      simp only [Memory.patched, body] at live has ⊢
      exact own ⟨live, has⟩

theorem ofModel_turn (settled : Settled q) (t : Turn) :
    (∀ id, (columns (step q (.turn t)) id).OfModel q.configuredModel) ↔
      ∀ payload, Writes q.env q.session t payload true → q.env.embedderModelId = q.configuredModel := by
  have before : EveryMemory (RowOfModel q.env.settings.embedderModel) q.session.db :=
    (ofModel_iff_rows _).mp fun id => (settled id).1
  have after := everyMemory_turn_iff (stableFor_rowOfModel q.env) t (fun _ _ _ _ _ own => own) before
  rw [ofModel_iff_rows]
  refine after.trans ⟨fun own payload writes => own.2 payload true writes rfl, fun own => ⟨?_, ?_⟩⟩
  · intro publicId patch m _ edits
    have present := (visible_of_getByPublicId t.principal q.session.db publicId m edits.found).1
    exact rowOfModel_patched _ _ patch m (before m present)
  · rintro payload embed writes rfl
    exact own payload writes

theorem embedding_of_turnChange {edits : MemoryPatch → Memory → Prop}
    {reviews : Bool → Memory → Prop} {now : Instant} {m m' : Memory}
    (change : TurnChange edits reviews now m m') (missing : m.embedding = none) :
    m'.embedding = none := by
  cases change with
  | touched touched =>
      have same := touched.2
      simp only [content, Prod.mk.injEq] at same
      exact same.2.2.2.1.trans missing
  | patched patch _ =>
      simp only [Memory.patched]
      split
      · rfl
      · exact missing
  | reviewed _ _ _ => exact missing

theorem parkedEmpty_turn (settled : Settled q) (t : Turn) (id : Nat) :
    (columns (step q (.turn t)) id).ParkedEmpty := by
  intro parked
  obtain ⟨live, embedding, modelId, stored, missing⟩ := (settled id).2 parked
  obtain ⟨m, present, rfl, same⟩ := (stored_eq_some id _).mp stored
  obtain ⟨rfl, rfl, rfl⟩ : m.live = live ∧ m.embedding = embedding ∧ m.embeddingModel = modelId := by
    simpa [storedColumns] using same
  obtain ⟨m', inside, own, change⟩ := (evolves_turn q.env q.session t).stays m present
  refine ⟨m'.live, m'.embedding, m'.embeddingModel, (stored_eq_some m.id _).mpr ⟨m', inside, own, rfl⟩,
    fun alive => ?_⟩
  exact embedding_of_turnChange change (missing (change.sameOrigin.live alive))

theorem settled_turn (settled : Settled q) (t : Turn) : Settled (step q (.turn t)) ↔
    ∀ payload, Writes q.env q.session t payload true → q.env.embedderModelId = q.configuredModel := by
  rw [← ofModel_turn settled t]
  exact forall_congr' fun id => and_iff_left (parkedEmpty_turn settled t id)

/-- A step keeps the states settled exactly when it keeps the embeddings. -/
theorem settled_step (settled : Settled q) (e : Event) :
    Settled (step q e) ↔ KeepsEmbeddings q e := by
  cases e with
  | turn t => exact settled_turn settled t
  | setEmbedding now memoryId vector modelId =>
      exact settled_setEmbedding settled now memoryId vector modelId
  | recordEmbedFailure now memoryIds error =>
      exact settled_recordEmbedFailures settled now memoryIds error
  | resetEmbedFailures now orgId =>
      exact iff_of_true (settled_resetEmbedFailures settled now orgId) trivial
  | changeModel model => exact settled_changeModel settled model

theorem Settled.partitioned (settled : Settled q) : Partitioned q :=
  partitioned_iff.mpr fun id => (settled id).counted

/-- From settled states a step reaches a partition only by settled states. -/
theorem settled_of_partitioned_step (settled : Settled q) (e : Event)
    (partitioned : Partitioned (step q e)) : Settled (step q e) := by
  have counted := partitioned_iff.mp partitioned
  cases e with
  | turn t => exact fun id => (counted id).settled (parkedEmpty_turn settled t id)
  | setEmbedding now memoryId vector modelId =>
      exact settled_of_partitioned _ (· = memoryId) (Columns.embedded vector modelId) settled rfl
        (columns_setEmbedding q now memoryId vector modelId)
        (fun c _ counted => counted.settled (Columns.parkedEmpty_of_unparked rfl)) partitioned
  | recordEmbedFailure now memoryIds error =>
      have model : (recordEmbedFailures q now memoryIds error).configuredModel = q.configuredModel := by
        rw [Queue.configuredModel, recordEmbedFailures_env]
        rfl
      exact settled_of_partitioned _ (· ∈ memoryIds) _ settled model
        (columns_recordEmbedFailures q now memoryIds error)
        (fun c own counted => counted.settled_failed _ now error own) partitioned
  | resetEmbedFailures now orgId => exact settled_resetEmbedFailures settled now orgId
  | changeModel model => exact fun id => (counted id).settled (settled id).2

/-- An accepted edit of the text leaves the memory eligible exactly when its columns let it. -/
theorem requeues_iff (e : Event) : Requeues q e ↔ EditsReady q e := by
  constructor
  · rintro requeues t rfl patch m edits edited
    obtain ⟨m', _, same, ready⟩ := requeues t rfl patch m edits edited
    rw [isEligible, Bool.and_eq_true, same] at ready
    exact ready.2
  · rintro ready t rfl patch m edits edited
    have eligibleNow := ready t rfl patch m edits edited
    have after := turn_of_editsRow q.env q.session t patch m edits
    obtain ⟨publicId, _, own⟩ := edits
    obtain ⟨present, live⟩ := visible_of_getByPublicId t.principal q.session.db publicId m own.found
    refine ⟨m.patched t.context.now patch, ?_, rfl, ?_⟩
    · change _ ∈ (turn q.env q.session t).db.memories.rows
      rw [after, Database.updateMemory, Table.mem_update]
      exact ⟨m, present, by rw [Table.changeRow, if_pos (beq_self_eq_true m.id)]⟩
    · have cleared : (m.patched t.context.now patch).embedding = none := if_pos edited
      have kept : (m.patched t.context.now patch).live = true := live
      rw [isEligible, stale, cleared, kept]
      exact eligibleNow

/-- Along a run the states of the embeddings partition the live memories and edits requeue them,
exactly when each step keeps the embeddings and edits only memories that are ready. -/
theorem partitioned_run_iff (q : Queue) (settled : Settled q) (events : List Event) :
    (Run.Always step Partitioned q events ∧ Run.Each step Requeues q events) ↔
      Run.Each step (fun q e => KeepsEmbeddings q e ∧ EditsReady q e) q events := by
  have partitions : Run.Always step Partitioned q events ↔ Run.Each step KeepsEmbeddings q events := by
    refine Run.always_iff_each_of_strong events (fun _ own => own.partitioned) ?_ ?_ settled
    · intro q e _ own partitioned
      exact (settled_step own e).mp (settled_of_partitioned_step own e partitioned)
    · exact fun q e _ own keeps => (settled_step own e).mpr keeps
  have requeues : Run.Each step Requeues q events ↔ Run.Each step EditsReady q events :=
    Run.each_iff_each (P := fun _ => True) (Run.always_of_step (fun _ _ _ => trivial) events trivial)
      fun q e _ _ => requeues_iff e
  rw [partitions, requeues, Run.each_and]

theorem settled_empty : Settled emptyQueue :=
  fun _ => ⟨fun _ _ stored => absurd stored (by simp [columns, rowOf, emptyQueue, Queue.rows, Table.empty]),
    Columns.parkedEmpty_of_unparked rfl⟩

/-- A file is created, and the embedder fails at it until it is parked. -/
def parkedRun : List Event :=
  .turn (sampleCommand 1 (createCommand "/memories/a" "x")) ::
    ([2, 3, 4, 5, 6].map fun now => .recordEmbedFailure now [1] "timeout".toList)

theorem parkedRun_partitioned :
    (Run.Always step Partitioned emptyQueue parkedRun ∧ Run.Each step Requeues emptyQueue parkedRun) ↔
      Run.Each step (fun q e => KeepsEmbeddings q e ∧ EditsReady q e) emptyQueue parkedRun :=
  partitioned_run_iff emptyQueue settled_empty parkedRun

def parkedFile : Queue := Run.final step emptyQueue parkedRun

/-- The owner gives the parked memory a new text. -/
def editedText : Turn where
  principal := sampleOwner
  context := { now := 7, newPublicId := BitVec.ofNat 128 7 }
  newService := true
  action := .call (.update (BitVec.ofNat 128 1) { body := some "y".toList })

def editedFile : Queue := step parkedFile (.turn editedText)

theorem parkedFile_edited :
    ((MemoryRepo.getByPublicId sampleOwner parkedFile.session.db (BitVec.ofNat 128 1)).isSome,
      (update sampleOwner editedText.context parkedFile.session (BitVec.ofNat 128 1)
        { body := some "y".toList }).toOption.isSome,
      editedFile.rows.map fun m => (m.body, isEligible editedFile 7 m)) =
      (true, true, [("y".toList, false)]) := by
  decide +kernel

/-- A memory that is parked stays parked when its text is edited. -/
theorem edited_memory_stays_parked : ¬ ∀ (q : Queue) (events : List Event), Settled q →
    Run.Always step Partitioned q events ∧ Run.Each step Requeues q events := by
  intro claim
  have requeues := ((Run.each_append parkedRun [.turn editedText]).mp
    (claim emptyQueue (parkedRun ++ [.turn editedText]) settled_empty).2).2.1
  have facts := parkedFile_edited
  simp only [Prod.mk.injEq] at facts
  obtain ⟨present, succeeds, rows⟩ := facts
  obtain ⟨⟨result, s'⟩, done⟩ := Option.isSome_iff_exists.mp succeeds
  have updated : update sampleOwner editedText.context parkedFile.session (BitVec.ofNat 128 1)
      { body := some "y".toList } = .ok (result, s') := by
    revert done
    cases update sampleOwner editedText.context parkedFile.session (BitVec.ofNat 128 1)
      { body := some "y".toList } with
    | error e => exact fun done => absurd done (by simp [Except.toOption])
    | ok value => exact fun done => congrArg Except.ok (Option.some.inj done)
  rcases update_cases _ _ result updated with ⟨missing, _⟩ | ⟨m, edits, _⟩
  · rw [missing] at present
    exact Bool.noConfusion present
  · obtain ⟨m', inside, _, ready⟩ := requeues editedText rfl _ m ⟨_, rfl, edits⟩ rfl
    have listed : (m'.body, isEligible editedFile 7 m') ∈
        editedFile.rows.map fun m => (m.body, isEligible editedFile 7 m) :=
      List.mem_map.mpr ⟨m', inside, rfl⟩
    rw [rows, List.mem_singleton, Prod.mk.injEq] at listed
    exact Bool.noConfusion (listed.2.symm.trans ready)

end Kortex.EmbeddingQueue
