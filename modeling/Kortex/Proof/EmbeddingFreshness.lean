import Kortex.Library.Run
import Kortex.Model.Embedding
import Kortex.Proof.Governance

/-
This file proves when every stored vector is the one of the text beside it.
-/

namespace Kortex.EmbeddingTask

open MemoryService MemoryTool

variable (env : Environment)

/-- The memory has a vector of the configured model. -/
def HasVector (m : Memory) (vector : List PyFloat) : Prop :=
  m.embedding = some vector ∧ m.embeddingModel = some env.settings.embedderModel

/-- The vector of a live memory is the one that the embedder gives for its text. -/
def Fresh (m : Memory) : Prop :=
  m.live = true → ∀ vector, HasVector env m vector → env.embed (textOf m) = some vector

/-- A new title without a new body leaves the vector of the memory right. -/
def KeepsVectors (s : Session) (t : Turn) : Prop :=
  ∀ publicId patch m vector, Asks env s t publicId patch →
    Edits t.principal t.context.now s.db publicId patch m → patch.body = none →
      HasVector env m vector →
        env.embed (textOf { m with title := patch.title.getD m.title }) = env.embed (textOf m)

/-- This is the text that an inline embedding is taken of. -/
def inlineText (payload : CreateMemoryInput) : Str :=
  let stripped := Str.strip (payload.title ++ "\n" ++ payload.body)
  if stripped = [] then payload.body else stripped

/-- This is what `_text_of` gives for the text that a write stores. -/
def storedText (payload : CreateMemoryInput) : Str :=
  let screened := screen env payload
  if screened.title = [] then screened.body else Str.strip (screened.title ++ "\n" ++ screened.body)

/-- An inline embedding is the one of the text that is stored. -/
def EmbedsStored (payload : CreateMemoryInput) (embed : Bool) : Prop :=
  embed = true → env.embedderModelId = env.settings.embedderModel →
    env.embed (inlineText payload) = env.embed (storedText env payload)

/-- The vector that a run stores next is still the one of the text of its memory. -/
def StoresCurrent (w : Worker) (run : Nat) : Prop :=
  ∀ pending vector rest, w.phase run = .storing ((pending, some vector) :: rest) →
    env.embedderModelId = env.settings.embedderModel →
      ∀ m ∈ w.session.db.memories.rows, m.id = pending.memory.id → m.live = true →
        env.embed (textOf m) = some vector

/-- The step brings no vector beside a text that it is not the vector of. -/
def Timely (w : Worker) : Event → Prop
  | .turn t => KeepsVectors env w.session t ∧
      ∀ payload embed, Writes env w.session t payload embed → EmbedsStored env payload embed
  | .store run _ _ => StoresCurrent env w run
  | _ => True

variable {env}

theorem inlineEmbedding_cases (payload : CreateMemoryInput) (embed : Bool)
    (embedding : Option (List PyFloat)) (done : inlineEmbedding env payload embed = .ok embedding) :
    (embed = false ∧ embedding = none) ∨
      ∃ vector, embed = true ∧ embedding = some vector ∧ env.embed (inlineText payload) = some vector := by
  rw [inlineEmbedding] at done
  split at done
  · rename_i asked
    split at done
    · rename_i vector found
      exact Or.inr ⟨vector, asked, (Except.ok.inj done).symm, found⟩
    · exact absurd done (by simp)
  · rename_i unasked
    exact Or.inl ⟨by simpa using unasked, (Except.ok.inj done).symm⟩

theorem stableFor_fresh : StableFor env (Fresh env) (EmbedsStored env) where
  duplicated _ _ _ own := own
  softDeleted _ _ _ live := by simp [Memory.live, Memory.softDeleted] at live
  withPinned _ _ _ own := own
  created p ctx payload embed mode tsConfig embedding id done := by
    rcases inlineEmbedding_cases payload embed embedding done with
      ⟨rfl, rfl⟩ | ⟨vector, rfl, rfl, found⟩
    · refine iff_of_true ?_ fun asked => absurd asked (by simp)
      rintro _ vector ⟨has, _⟩
      exact absurd has (by simp [newRow])
    · constructor
      · intro own _ model
        rw [found]
        exact (own rfl vector ⟨rfl, congrArg some model⟩).symm
      · rintro same _ vector' ⟨has, model⟩
        have given := same rfl (Option.some.inj model)
        rw [found] at given
        obtain rfl : vector = vector' := Option.some.inj has
        exact given.symm

theorem reviewable_fresh : Reviewable (Fresh env) := fun _ _ _ _ own => own

/-- An edit keeps the vector fresh exactly when a new title alone does not change the vector. -/
theorem fresh_patched (now : Instant) (patch : MemoryPatch) (m : Memory) (live : m.live = true)
    (own : Fresh env m) : Fresh env (m.patched now patch) ↔
      (patch.body = none → ∀ vector, HasVector env m vector →
        env.embed (textOf { m with title := patch.title.getD m.title }) = env.embed (textOf m)) := by
  cases body : patch.body with
  | some text =>
      refine iff_of_true ?_ fun none => absurd none (by simp)
      rintro _ vector ⟨has, _⟩
      exact absurd has (by simp [Memory.patched, body])
  | none =>
      have text : textOf (m.patched now patch) = textOf { m with title := patch.title.getD m.title } := by
        simp [textOf, Memory.patched, body]
      have same (vector : List PyFloat) : HasVector env (m.patched now patch) vector ↔
          HasVector env m vector := by
        simp [HasVector, Memory.patched, body]
      rw [Fresh, text]
      constructor
      · intro fresh _ vector has
        rw [own live vector has]
        exact fresh live vector ((same vector).mpr has)
      · intro keeps _ vector has
        rw [keeps rfl vector ((same vector).mp has)]
        exact own live vector ((same vector).mp has)

theorem everyMemory_turn_fresh (s : Session) (t : Turn) (all : EveryMemory (Fresh env) s.db) :
    EveryMemory (Fresh env) (turn env s t).db ↔ KeepsVectors env s t ∧
      ∀ payload embed, Writes env s t payload embed → EmbedsStored env payload embed := by
  rw [everyMemory_turn_iff stableFor_fresh t (fun _ => reviewable_fresh) all]
  apply and_congr_left'
  have known (publicId : Uuid) (patch : MemoryPatch) (m : Memory)
      (edits : Edits t.principal t.context.now s.db publicId patch m) :
      m ∈ s.db.memories.rows ∧ m.live = true :=
    visible_of_getByPublicId t.principal s.db publicId m edits.found
  constructor
  · intro fresh publicId patch m vector asks edits
    obtain ⟨present, live⟩ := known publicId patch m edits
    have exactly := fresh_patched t.context.now patch m live (all m present)
    exact fun body => exactly.mp (fresh publicId patch m asks edits) body vector
  · intro keeps publicId patch m asks edits
    obtain ⟨present, live⟩ := known publicId patch m edits
    rw [fresh_patched t.context.now patch m live (all m present)]
    exact fun body vector has => keeps publicId patch m vector asks edits body has

theorem fresh_embedded (now : Instant) (vector : List PyFloat) (m : Memory) :
    Fresh env (m.embedded now vector env.embedderModelId) ↔
      (m.live = true → env.embedderModelId = env.settings.embedderModel →
        env.embed (textOf m) = some vector) := by
  constructor
  · intro fresh live model
    exact fresh live vector ⟨rfl, congrArg some model⟩
  · rintro current live vector' ⟨has, model⟩
    obtain rfl : vector = vector' := Option.some.inj has
    exact current live (Option.some.inj model)

theorem everyMemory_setEmbedding (w : Worker) (now : Instant) (memoryId : Nat)
    (vector : List PyFloat) (all : EveryMemory (Fresh env) w.session.db) :
    EveryMemory (Fresh env) (setEmbedding w now memoryId vector env.embedderModelId).session.db ↔
      (env.embedderModelId = env.settings.embedderModel →
        ∀ m ∈ w.session.db.memories.rows, m.id = memoryId → m.live = true →
          env.embed (textOf m) = some vector) := by
  have members (x : Memory) :
      x ∈ (setEmbedding w now memoryId vector env.embedderModelId).session.db.memories.rows ↔
        ∃ m ∈ w.session.db.memories.rows, Table.changeRow (fun m => m.id == memoryId)
          (Memory.embedded now vector env.embedderModelId) m = x :=
    Table.mem_update w.session.db.memories _ _
      (Memory.embedded_ident now vector env.embedderModelId) x
  constructor
  · intro fresh model m present same live
    have own := fresh _ ((members _).mpr ⟨m, present, rfl⟩)
    rw [Table.changeRow, if_pos (by simpa using same)] at own
    exact (fresh_embedded now vector m).mp own live model
  · intro current x inside
    obtain ⟨m, present, rfl⟩ := (members x).mp inside
    rw [Table.changeRow]
    split
    · rename_i same
      rw [fresh_embedded]
      exact fun live model => current model m present (by simpa using same) live
    · exact all m present

/-- A step keeps all vectors fresh exactly when it is timely. -/
theorem everyMemory_step (w : Worker) (e : Event) (all : EveryMemory (Fresh env) w.session.db) :
    EveryMemory (Fresh env) (step env w e).session.db ↔ Timely env w e := by
  cases e with
  | turn t => exact everyMemory_turn_fresh w.session t all
  | read run now =>
      have same : (step env w (.read run now)).session = w.session := by
        simp only [step]
        split
        · split <;> rfl
        · rfl
      rw [same]
      exact iff_of_true all trivial
  | embed run =>
      have same : (step env w (.embed run)).session = w.session := by
        simp only [step]
        split <;> rfl
      rw [same]
      exact iff_of_true all trivial
  | store run now error =>
      simp only [step, Timely, StoresCurrent]
      split
      · rename_i done
        exact iff_of_true all fun pending vector rest storing => absurd (done.symm.trans storing) (by simp)
      · rename_i pending vector rest storing
        rw [show (Worker.setPhase (setEmbedding w now pending.memory.id vector env.embedderModelId) run
          (.storing rest)).session = (setEmbedding w now pending.memory.id vector
            env.embedderModelId).session from rfl, everyMemory_setEmbedding w now _ vector all]
        constructor
        · intro current pending' vector' rest' storing'
          obtain ⟨⟨rfl, rfl⟩, rfl⟩ : (pending = pending' ∧ vector = vector') ∧ rest = rest' := by
            simpa using storing.symm.trans storing'
          exact current
        · exact fun current => current pending vector rest storing
      · rename_i pending rest storing
        exact iff_of_true all fun pending' vector' rest' storing' =>
          absurd (storing.symm.trans storing') (by simp)
      · rename_i other _
        exact iff_of_true all fun pending vector rest storing => absurd storing (other pending vector rest)

/-- Along a run of the service and the worker every vector is the one of the text beside it, exactly
when every step is timely. -/
theorem fresh_run_iff (env : Environment) (w : Worker)
    (good : EveryMemory (Fresh env) w.session.db) (events : List Event) :
    Run.Always (step env) (fun w => EveryMemory (Fresh env) w.session.db) w events ↔
      Run.Each (step env) (Timely env) w events :=
  Run.always_iff_each events (fun w e _ all => everyMemory_step w e all) good

/-- The embedder of the samples counts the characters of a text. -/
def countingEnvironment : Environment :=
  { sampleEnvironment with
    embed := fun text => some (text.map fun _ => onePointZero)
    embedderModelId := sampleEnvironment.settings.embedderModel }

def emptyWorker : Worker := ⟨⟨{}, {}⟩, fun _ => {}, fun _ => .idle⟩

theorem fresh_empty : EveryMemory (Fresh countingEnvironment) emptyWorker.session.db := by
  intro m present
  exact absurd present List.not_mem_nil

/-- A batch embeds a file. -/
def embeddedFile : List Event :=
  [.turn (sampleCommand 1 (createCommand "/memories/a" "x")), .read 1 2, .embed 1, .store 1 3 []]

theorem fresh_run_embedded :
    Run.Always (step countingEnvironment)
        (fun w => EveryMemory (Fresh countingEnvironment) w.session.db) emptyWorker embeddedFile ↔
      Run.Each (step countingEnvironment) (Timely countingEnvironment) emptyWorker embeddedFile :=
  fresh_run_iff countingEnvironment emptyWorker fresh_empty embeddedFile

/-- The file is edited between the call of the embedder and the store of its vector. -/
def overtakenBatch : List Event :=
  [.turn (sampleCommand 1 (createCommand "/memories/a" "x")), .read 1 2, .embed 1,
    .turn (sampleCommand 4 (createCommand "/memories/a" "yy")), .store 1 5 []]

theorem overtakenBatch_rows :
    (Run.final (step countingEnvironment) emptyWorker overtakenBatch).session.db.memories.rows.map
      (fun m => (m.live, m.embedding.map List.length, m.embeddingModel,
        (countingEnvironment.embed (textOf m)).map List.length)) =
      [(true, some 13, some countingEnvironment.settings.embedderModel, some 14)] := by
  decide +kernel

/-- The batch stores the vector of a text that is no longer there. -/
theorem batch_stores_stale_vector :
    ¬ ∀ (env : Environment) (events : List Event),
      Run.Always (step env) (fun w => EveryMemory (Fresh env) w.session.db) emptyWorker events := by
  intro claim
  have final := (claim countingEnvironment overtakenBatch).final
  have row : (true, some 13, some countingEnvironment.settings.embedderModel, some 14) ∈ _ :=
    overtakenBatch_rows ▸ List.mem_singleton_self _
  obtain ⟨m, inside, values⟩ := List.mem_map.mp row
  simp only [Prod.mk.injEq] at values
  obtain ⟨live, length, model, now⟩ := values
  obtain ⟨vector, has, same⟩ := Option.map_eq_some_iff.mp length
  have fresh := final m inside live vector ⟨has, model⟩
  rw [fresh, Option.map_some, same] at now
  exact absurd now (by decide)

end Kortex.EmbeddingTask
