import Kortex.Model.Background
import Kortex.Proof.AgentLoop
import Kortex.Proof.Consolidation
import Kortex.Proof.ConflictTask
import Kortex.Proof.Decay
import Kortex.Proof.EmbedIsolation

/-
This file proves which runs of the background tasks leave every held memory in the review inbox.
-/

namespace Kortex.Background

/-- Both rows are of the same memory. -/
def SameMemory (m m' : Memory) : Prop :=
  m'.id = m.id ∧ m'.publicId = m.publicId ∧ m'.orgId = m.orgId

/-- Every held memory of the first tables is held in the others. -/
def Keeps (db db' : Database) : Prop :=
  ∀ m ∈ db.memories.rows, m.held = true → ∃ m' ∈ db'.memories.rows, SameMemory m m' ∧ m'.held = true

/-- The held memories of both tables are the same. -/
structure Waiting (db db' : Database) : Prop where
  keeps : Keeps db db'
  origin : Keeps db' db

theorem SameMemory.trans {a b c : Memory} (first : SameMemory a b) (second : SameMemory b c) :
    SameMemory a c :=
  ⟨second.1.trans first.1, second.2.1.trans first.2.1, second.2.2.trans first.2.2⟩

variable {db db' db'' : Database}

theorem Keeps.trans (first : Keeps db db') (second : Keeps db' db'') : Keeps db db'' := by
  intro m present held
  obtain ⟨m', present', same, held'⟩ := first m present held
  obtain ⟨m'', present'', same', held''⟩ := second m' present' held'
  exact ⟨m'', present'', same.trans same', held''⟩

namespace Waiting

theorem trans (first : Waiting db db') (second : Waiting db' db'') : Waiting db db'' :=
  ⟨first.keeps.trans second.keeps, second.origin.trans first.origin⟩

/-- Rows that change only in other columns stay held, and so does no new row. -/
theorem of_grown (change : Memory → Memory) (new : List Memory)
    (rows : db'.memories.rows = db.memories.rows.map change ++ new)
    (same : ∀ m, SameMemory m (change m) ∧ (change m).held = m.held)
    (fresh : ∀ m ∈ new, m.held = false) : Waiting db db' := by
  constructor
  · intro m present held
    refine ⟨change m, ?_, (same m).1, by rw [(same m).2, held]⟩
    rw [rows]
    exact List.mem_append_left _ (List.mem_map_of_mem present)
  · intro m' present held
    rw [rows] at present
    rcases List.mem_append.mp present with old | inserted
    · obtain ⟨m, inside, rfl⟩ := List.mem_map.mp old
      obtain ⟨⟨id, publicId, orgId⟩, alike⟩ := same m
      exact ⟨m, inside, ⟨id.symm, publicId.symm, orgId.symm⟩, alike ▸ held⟩
    · exact absurd (held.symm.trans (fresh m' inserted)) (by simp)

theorem of_memories (same : db'.memories = db.memories) : Waiting db db' :=
  of_grown id [] (by rw [same, List.map_id, List.append_nil]) (fun _ => ⟨⟨rfl, rfl, rfl⟩, rfl⟩) (by simp)

theorem of_update (chosen : Memory → Bool) (change : Memory → Memory)
    (keeps : ∀ m, ((change m).id, (change m).publicId) = (m.id, m.publicId))
    (same : ∀ m, (change m).orgId = m.orgId ∧ (change m).held = m.held)
    (updated : db'.memories = db.memories.update chosen change keeps) : Waiting db db' := by
  refine of_grown (Table.changeRow chosen change) [] ?_ ?_ (by simp)
  · rw [updated, List.append_nil]
    rfl
  · intro m
    rw [Table.changeRow]
    split
    · obtain ⟨id, publicId⟩ := Prod.mk.inj (keeps m)
      exact ⟨⟨id, publicId, (same m).1⟩, (same m).2⟩
    · exact ⟨⟨rfl, rfl, rfl⟩, rfl⟩

end Waiting

/-! No task but the decay changes which memories are held. -/

theorem waiting_applyDecay (now : Instant) (db : Database) (memoryId : Nat) (decayScore : PyFloat)
    (newTier : Option MemoryTier) : Waiting db (MemoryRepo.applyDecay now db memoryId decayScore newTier) :=
  Waiting.of_update _ _ (Memory.decayed_ident now decayScore newTier) (fun _ => ⟨rfl, rfl⟩) rfl

section Consolidation

open ConsolidationTask

variable {tools : Tools} {orgId : Nat}

theorem waiting_linkMembers (now : Instant) (candidates : List Memory) (summaryId : Nat)
    (ids : List Nat) (done : linkMembers tools now candidates summaryId db ids = some db') :
    Waiting db db' := by
  induction ids generalizing db with
  | nil => exact Waiting.of_memories (by rw [← Option.some.inj done])
  | cons mid rest ih =>
      simp only [linkMembers, bind, Option.bind_eq_some_iff] at done
      obtain ⟨⟨link, linked⟩, one, source, _, others⟩ := done
      obtain ⟨same, _, _⟩ := link_done now db linked summaryId mid _ _ link one
      exact ((Waiting.of_memories same).trans (waiting_applyDecay now linked source.id _ _)).trans
        (ih others)

theorem waiting_writeSummary (ctx : CallContext) (candidates : List Memory) (anchor summary : Memory)
    (result : ConsolidationResult)
    (done : writeSummary tools orgId ctx candidates db anchor result = some (summary, db')) :
    Waiting db db' := by
  simp only [writeSummary, bind, Option.bind_eq_some_iff] at done
  obtain ⟨⟨created, inserted⟩, one, final, linked, same⟩ := done
  obtain ⟨rfl, rfl⟩ := Prod.mk.inj (Option.some.inj same)
  obtain ⟨rfl, _, _, rows, _⟩ := insertMemory_done db _ ctx.idGap created inserted one
  have inserts : Waiting db inserted := by
    refine Waiting.of_grown id _ (by rw [rows, List.map_id]) (fun _ => ⟨⟨rfl, rfl, rfl⟩, rfl⟩) ?_
    intro m inside
    rw [List.mem_singleton.mp inside]
    rfl
  exact (inserts.trans (waiting_applyDecay ctx.now inserted _ _ _)).trans
    (waiting_linkMembers ctx.now candidates _ _ linked)

theorem waiting_consolidateGroups (ctx : Nat → CallContext) (candidates : List Memory) (i : Nat)
    (groups : List (Int × List Memory)) (written : List Written)
    (done : consolidateGroups tools orgId ctx candidates i groups db = some (written, db')) :
    Waiting db db' := by
  induction groups generalizing i db written with
  | nil => exact Waiting.of_memories (by rw [(Prod.mk.inj (Option.some.inj done)).2])
  | cons group rest ih =>
      obtain ⟨label, members⟩ := group
      rcases consolidateGroups_cons ctx candidates i label members rest written db db' done with
        ⟨_, later⟩ | ⟨result, anchor, others, summary, middle, written', _, _, _, one, later⟩
      · exact ih (i + 1) written later
      · exact (waiting_writeSummary (ctx i) candidates anchor summary result one).trans
          (ih (i + 1) written' later)

theorem waiting_afterRun (tools : Tools) (orgId : Nat) (ctx : Nat → CallContext) (db : Database) :
    Waiting db (afterRun tools orgId ctx db) := by
  rw [afterRun]
  cases done : consolidateOrg tools orgId ctx db with
  | none => exact Waiting.of_memories rfl
  | some result => exact waiting_consolidateGroups ctx _ 0 _ result.1 done

end Consolidation

section Embedding

open EmbeddingQueue

theorem waiting_recordFailure (now : Instant) (error : Str) (q : Queue) (m : Memory) :
    Waiting q.session.db (recordFailure now error q m).session.db :=
  Waiting.of_update _ _ (Memory.withUpdatedAt_ident now) (fun _ => ⟨rfl, rfl⟩) rfl

theorem waiting_store (modelId : Str) (q : Queue) (attempt : Attempt) :
    Waiting q.session.db (store modelId q attempt).session.db := by
  rw [store]
  cases attempt.answer with
  | ok vector =>
      exact Waiting.of_update _ _ (Memory.embedded_ident attempt.now vector modelId) (fun _ => ⟨rfl, rfl⟩) rfl
  | error error =>
      have all (rows : List Memory) (q : Queue) : Waiting q.session.db
          (rows.foldl (recordFailure attempt.now error) q).session.db := by
        induction rows generalizing q with
        | nil => exact Waiting.of_memories rfl
        | cons m rest ih => exact (waiting_recordFailure attempt.now error q m).trans (ih _)
      exact all _ q

theorem waiting_storeAll (modelId : Str) (attempts : List Attempt) (q : Queue) :
    Waiting q.session.db (storeAll modelId q attempts).session.db := by
  induction attempts generalizing q with
  | nil => exact Waiting.of_memories rfl
  | cons attempt rest ih => exact (waiting_store modelId q attempt).trans (ih _)

theorem waiting_embedBatch (b : Batch) (q q' : Queue) (commits : embedBatch b q = .ok q') :
    Waiting q.session.db q'.session.db := by
  obtain ⟨attempts, _, rfl⟩ := (embedBatch_ok_iff q q').mp commits
  exact waiting_storeAll b.modelId attempts q

end Embedding

theorem waiting_detectBatch (env : Environment) (engine : SearchEngine) (complement : PyFloat → PyFloat)
    (d : ConflictTask.Detection) (s : ConflictTask.State) :
    Waiting s.db (ConflictTask.detectBatch env engine complement d s).db := by
  rcases ConflictTask.detectBatch_cases env engine complement d s with ⟨_, same⟩ | ⟨_, same⟩
  · rw [same]
    exact Waiting.of_memories rfl
  · rw [same]
    exact Waiting.of_update _ _ (Memory.marked_ident d.now) (fun _ => ⟨rfl, rfl⟩) rfl

section Decay

open DecayTask

variable (numbers : Decay.Numbers PyFloat) (settings : Decay.Settings PyFloat) (t : Tick)

/-- The policy does not delete a held memory that the tick reads. -/
def Spares (orgId : Nat) (db : Database) : Prop :=
  ∀ median ∈ t.medianAccessCount, ∀ m ∈ MemoryRepo.iterForDecay db orgId, m.held = true →
    (Decay.evaluate numbers settings m.decayInputs t.now median).shouldHardDelete = false

variable {numbers settings t}

/-- No decision makes a memory held. -/
theorem held_of_decided (writtenAt : Instant) (decision : Decay.Decision PyFloat) (m : Memory)
    (held : (decided writtenAt decision m).held = true) : m.held = true := by
  rw [decided] at held
  split at held
  · simp [Memory.held, Memory.live, Memory.softDeleted] at held
  · exact held

/-- A held memory stays held exactly when the decision does not delete it. -/
theorem held_decided_iff (writtenAt : Instant) (decision : Decay.Decision PyFloat) (m : Memory)
    (held : m.held = true) :
    (decided writtenAt decision m).held = true ↔ decision.shouldHardDelete = false := by
  rw [decided]
  by_cases deletes : decision.shouldHardDelete = true
  · rw [if_pos deletes, deletes]
    simp [Memory.held, Memory.live, Memory.softDeleted]
  · rw [if_neg deletes]
    exact iff_of_true held (by simpa using deletes)

theorem sameMemory_decided (writtenAt : Instant) (decision : Decay.Decision PyFloat) (m : Memory) :
    SameMemory m (decided writtenAt decision m) := by
  rw [decided]
  split <;> exact ⟨rfl, rfl, rfl⟩

theorem origin_updateMemory (db : Database) (memoryId : Nat) (writtenAt : Instant)
    (decision : Decay.Decision PyFloat) :
    Keeps (db.updateMemory memoryId (decided writtenAt decision) (decided_ident _ _)) db := by
  intro m' present held
  rw [Database.updateMemory, Table.mem_update] at present
  obtain ⟨m, inside, rfl⟩ := present
  rw [Table.changeRow] at held ⊢
  split at held
  · rename_i chosen
    obtain ⟨id, publicId, orgId⟩ := sameMemory_decided writtenAt decision m
    rw [if_pos chosen]
    exact ⟨m, inside, ⟨id.symm, publicId.symm, orgId.symm⟩, held_of_decided writtenAt decision m held⟩
  · rename_i other
    rw [if_neg other]
    exact ⟨m, inside, ⟨rfl, rfl, rfl⟩, held⟩

/-- A tick makes no memory held. -/
theorem origin_afterTick (orgId : Nat) (db : Database) :
    Keeps (afterTick numbers settings t orgId db) db := by
  have refl (db : Database) : Keeps db db := fun m present held => ⟨m, present, ⟨rfl, rfl, rfl⟩, held⟩
  cases answer : t.medianAccessCount with
  | none =>
      rw [afterTick, tickOneOrg, answer]
      exact refl db
  | some median =>
      rw [afterTick_eq orgId db answer]
      have all (rows : List Memory) (state : Counts × Database) :
          Keeps (rows.foldl (tickRow numbers settings t median) state).2 state.2 := by
        induction rows generalizing state with
        | nil => exact refl state.2
        | cons m rest ih =>
            have one := origin_updateMemory state.2 m.id (t.writtenAt m)
              (Decay.evaluate numbers settings m.decayInputs t.now median)
            rw [← tickRow_database] at one
            exact (ih _).trans one
      exact all _ _

/-- A tick keeps every held memory exactly when the policy spares those that the tick reads. -/
theorem keeps_afterTick_iff (orgId : Nat) (db : Database) :
    Keeps db (afterTick numbers settings t orgId db) ↔ Spares numbers settings t orgId db := by
  constructor
  · intro keeps median answered m listed held
    have present := (iterForDecay_sublist db orgId).subset listed
    obtain ⟨m', present', ⟨id, _⟩, held'⟩ := keeps m present held
    have found := (storedRow_eq_some _ m.id m').mpr ⟨present', id⟩
    rw [row_of_listed numbers settings answered m listed] at found
    rw [← held_decided_iff (t.writtenAt m) _ m held, Option.some.inj found]
    exact held'
  · intro spares m present held
    cases answer : t.medianAccessCount with
    | none =>
        rw [afterTick, tickOneOrg, answer]
        exact ⟨m, present, ⟨rfl, rfl, rfl⟩, held⟩
    | some median =>
        by_cases listed : m ∈ MemoryRepo.iterForDecay db orgId
        · have found := row_of_listed numbers settings answer m listed
          have spared := spares median answer m listed held
          exact ⟨_, ((storedRow_eq_some _ _ _).mp found).1, sameMemory_decided _ _ m,
            (held_decided_iff _ _ m held).mpr spared⟩
        · have found := row_of_unlisted numbers settings answer m present listed
          exact ⟨m, ((storedRow_eq_some _ _ _).mp found).1, ⟨rfl, rfl, rfl⟩, held⟩

end Decay

variable (setup : Setup)

/-- A tick of this step deletes no held memory. -/
def SparesHeld (s : State) (e : Event) : Prop :=
  ∀ orgId t, e = .decay orgId t → Spares setup.numbers setup.settings t orgId s.db

/-- Everyone who may read the memory finds it in the whole inbox, which has as many rows as are counted. -/
def Inboxed (db : Database) (m : Memory) : Prop :=
  ∀ p : Principal, p.isSuperuser = true ∨ m.orgId = p.orgId →
    ∃ m' ∈ MemoryRepo.listPendingReview p db (MemoryRepo.countPendingReview p db), SameMemory m m'

/-- Every memory that was held at the start is held, and it is in the inbox. -/
def StillHeld (start : Database) (s : State) : Prop :=
  ∀ m ∈ start.memories.rows, m.held = true →
    (∃ m' ∈ s.db.memories.rows, SameMemory m m' ∧ m'.held = true) ∧ Inboxed s.db m

variable {setup}

theorem step_origin (s : State) (e : Event) : Keeps (step setup s e).db s.db := by
  cases e with
  | decay orgId t => exact origin_afterTick orgId s.db
  | embed b =>
      rw [step]
      cases done : EmbeddingQueue.embedBatch b s.queue with
      | ok q => exact (waiting_embedBatch b s.queue q done).origin
      | error e => exact (Waiting.of_memories rfl).origin
  | detect d => exact (waiting_detectBatch _ _ _ d s.conflicts).origin
  | consolidate orgId tools ctx => exact (waiting_afterRun tools orgId ctx s.db).origin

theorem step_keeps_iff (s : State) (e : Event) :
    Keeps s.db (step setup s e).db ↔ SparesHeld setup s e := by
  have harmless (keeps : Keeps s.db (step setup s e).db) (other : ∀ orgId t, e ≠ .decay orgId t) :
      Keeps s.db (step setup s e).db ↔ SparesHeld setup s e :=
    iff_of_true keeps fun orgId t same => absurd same (other orgId t)
  cases e with
  | decay orgId t =>
      have own : SparesHeld setup s (.decay orgId t) ↔
          Spares setup.numbers setup.settings t orgId s.db := by
        constructor
        · exact fun spares => spares orgId t rfl
        · rintro spares _ _ ⟨⟩
          exact spares
      rw [own]
      exact keeps_afterTick_iff orgId s.db
  | embed b =>
      refine harmless ?_ (by simp)
      rw [step]
      cases done : EmbeddingQueue.embedBatch b s.queue with
      | ok q => exact (waiting_embedBatch b s.queue q done).keeps
      | error e => exact (Waiting.of_memories rfl).keeps
  | detect d => exact harmless (waiting_detectBatch _ _ _ d s.conflicts).keeps (by simp)
  | consolidate orgId tools ctx =>
      exact harmless (waiting_afterRun tools orgId ctx s.db).keeps (by simp)

/-- The inbox lists the held memories. -/
theorem mem_listPendingReview (p : Principal) (db : Database) (m : Memory) :
    m ∈ MemoryRepo.listPendingReview p db (MemoryRepo.countPendingReview p db) ↔
      m ∈ db.memories.rows ∧ (p.isSuperuser = true ∨ m.orgId = p.orgId) ∧ m.held = true := by
  rw [MemoryRepo.listPendingReview, List.drop_zero, List.take_of_length_le
    (by rw [List.length_insertionSort, MemoryRepo.countPendingReview]), List.mem_insertionSort,
    List.mem_filter, MemoryRepo.mem_liveRows, Visible, Memory.held, Bool.and_eq_true]
  tauto

theorem stillHeld_iff (start : Database) (s : State) : StillHeld start s ↔ Keeps start s.db := by
  constructor
  · exact fun still m present held => (still m present held).1
  · intro keeps m present held
    obtain ⟨m', present', same, held'⟩ := keeps m present held
    refine ⟨⟨m', present', same, held'⟩, fun p may => ⟨m', ?_, same⟩⟩
    exact (mem_listPendingReview p s.db m').mpr ⟨present', same.2.2 ▸ may, held'⟩

/-- One memory without importance waits for its review since the epoch. -/
def waitingAlone : Database where
  memories := ⟨[DecayTask.sampleRow 1 .pending], List.pairwise_singleton _ _⟩

def sampleSetup : Setup where
  numbers := DecayTask.sampleNumbers
  settings := DecayTask.sampleSettings
  engine := AgentLoop.sampleEngine
  complement x := x

def sampleStart : State where
  queue := ⟨MemoryService.sampleEnvironment, ⟨waitingAlone, {}⟩, fun _ => {}⟩
  checkedAt _ := none

end Kortex.Background
