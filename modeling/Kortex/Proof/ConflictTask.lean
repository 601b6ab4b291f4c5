import Kortex.Model.ConflictTask
import Kortex.Proof.RowHistory

/-
This file proves what a batch of the conflict task writes.
-/

namespace Kortex.ConflictTask

/-- The two links have the same key. -/
def SameKey (a b : MemoryLink) : Prop :=
  a.fromMemoryId = b.fromMemoryId ∧ a.toMemoryId = b.toMemoryId ∧ a.linkType = b.linkType

/-- The links name memories, and their keys are free. -/
structure Linkable (db : Database) (links : List MemoryLink) : Prop where
  target : ∀ link ∈ links, ∃ m ∈ db.memories.rows, m.id = link.toMemoryId
  free : ∀ link ∈ links, ∀ old ∈ db.links, ¬ SameKey old link
  distinct : links.Pairwise fun a b => ¬ SameKey a b

/-- This is the flush of one link after the other. -/
def storeLinks (db : Database) : List MemoryLink → Option Database
  | [] => some db
  | link :: rest =>
      if db.memories.rows.any fun m => m.id == link.toMemoryId then do
        let (_, db) ← MemoryLinkRepo.link link.createdAt db link.fromMemoryId link.toMemoryId
          link.linkType link.weight
        storeLinks db rest
      else none

theorem linkable_cons (db : Database) (link : MemoryLink) (rest : List MemoryLink) :
    Linkable db (link :: rest) ↔ (∃ m ∈ db.memories.rows, m.id = link.toMemoryId) ∧
      (∀ old ∈ db.links, ¬ SameKey old link) ∧
        Linkable { db with links := db.links ++ [link] } rest := by
  constructor
  · intro all
    have later := List.pairwise_cons.mp all.distinct
    refine ⟨all.target link List.mem_cons_self, all.free link List.mem_cons_self,
      fun other inside => all.target other (List.mem_cons_of_mem link inside),
      fun other inside old stored => ?_, later.2⟩
    rcases List.mem_append.mp stored with before | own
    · exact all.free other (List.mem_cons_of_mem link inside) old before
    · exact List.mem_singleton.mp own ▸ later.1 other inside
  · rintro ⟨target, free, all⟩
    constructor
    · exact List.forall_mem_cons.mpr ⟨target, all.target⟩
    · exact List.forall_mem_cons.mpr ⟨free, fun other inside old before =>
        all.free other inside old (List.mem_append_left _ before)⟩
    · exact List.pairwise_cons.mpr ⟨fun other inside =>
        all.free other inside link (List.mem_append_right _ (by simp)), all.distinct⟩

/-- The links are stored exactly when they are linkable, and then all of them are. -/
theorem storeLinks_eq_some (db db' : Database) (links : List MemoryLink) :
    storeLinks db links = some db' ↔
      Linkable db links ∧ db' = { db with links := db.links ++ links } := by
  induction links generalizing db with
  | nil =>
      have empty : Linkable db [] := ⟨by simp, by simp, List.Pairwise.nil⟩
      simp only [storeLinks, empty, List.append_nil, true_and, Option.some.injEq]
      exact eq_comm
  | cons link rest ih =>
      have known : (db.memories.rows.any fun m => m.id == link.toMemoryId) = true ↔
          ∃ m ∈ db.memories.rows, m.id = link.toMemoryId := by simp
      have taken : db.links.any (MemoryLinkRepo.hasKey link.fromMemoryId link.toMemoryId
          link.linkType) = true ↔ ¬ ∀ old ∈ db.links, ¬ SameKey old link := by
        simp [MemoryLinkRepo.hasKey, SameKey, and_assoc]
      rw [linkable_cons, storeLinks, ← known]
      by_cases present : (db.memories.rows.any fun m => m.id == link.toMemoryId) = true
      · rw [if_pos present, and_iff_right present, MemoryLinkRepo.link]
        by_cases free : ∀ old ∈ db.links, ¬ SameKey old link
        · rw [if_neg (mt taken.mp (not_not.mpr free)), and_iff_right free]
          change storeLinks { db with links := db.links ++ [link] } rest = some db' ↔ _
          rw [ih, List.append_assoc, List.singleton_append]
        · rw [if_pos (taken.mpr free)]
          exact iff_of_false (by simp) fun both => free both.1.1
      · rw [if_neg present]
        exact iff_of_false (by simp) fun both => present both.1.1

/-- This is the link that a verdict asks for. -/
def linkOf (now : Instant) (memoryId : Nat) (verdict : ConflictVerdict) : Option MemoryLink :=
  (linkTypeOf verdict.relation).map fun linkType =>
    ⟨memoryId, verdict.memoryId, linkType, verdict.confidence, now⟩

theorem linkVerdicts_eq (now : Instant) (memoryId : Nat) (db : Database)
    (verdicts : List ConflictVerdict) : linkVerdicts now memoryId db verdicts =
      (storeLinks db (verdicts.filterMap (linkOf now memoryId))).map fun db' =>
        (verdicts.filterMap (linkOf now memoryId), db') := by
  induction verdicts generalizing db with
  | nil => rfl
  | cons verdict rest ih =>
      rw [linkVerdicts, List.filterMap_cons, linkOf]
      cases linkTypeOf verdict.relation with
      | none => exact ih db
      | some linkType =>
          simp only [Option.map_some, storeLinks]
          split
          · simp only [MemoryLinkRepo.link]
            split
            · rfl
            · simp only [bind, Option.bind_some, ih]
              cases storeLinks _ (rest.filterMap (linkOf now memoryId)) <;> rfl
          · rfl

theorem storeLinks_append (db : Database) (first second : List MemoryLink) :
    storeLinks db (first ++ second) = (storeLinks db first).bind fun db => storeLinks db second := by
  induction first generalizing db with
  | nil => rfl
  | cons link rest ih =>
      simp only [List.cons_append, storeLinks]
      split
      · simp only [bind, ih, Option.bind_assoc]
      · rfl

variable (env : Environment) (engine : SearchEngine) (complement : PyFloat → PyFloat) (d : Detection)

/-- This is what the judge says about a memory that has neighbours. -/
def judgementOf (db : Database) (m : Memory) : Option Judgement :=
  let existing := (neighbours env engine complement db m).map asCandidate
  if existing = [] then none
  else
    let verdicts := d.judge (asCandidate m) existing
    some ⟨asCandidate m, existing, verdicts, verdicts.filterMap (linkOf d.now m.id)⟩

/-- These are the judgements on the memories within their quota. -/
def judgements (db : Database) (pending : List Memory) : List Judgement :=
  (pending.filter d.withinQuota).filterMap (judgementOf env engine complement d db)

theorem judgementOf_congr (db db' : Database) (same : db'.memories = db.memories) :
    judgementOf env engine complement d db' = judgementOf env engine complement d db := by
  funext m
  have nearby : neighbours env engine complement db' m = neighbours env engine complement db m := by
    rw [neighbours, neighbours, MemoryRepo.listConflictCandidates, MemoryRepo.listConflictCandidates,
      same]
  rw [judgementOf, judgementOf, nearby]

/-- A batch checks the memories within their quota, and stores the links of their judgements. -/
theorem checkAll_eq (db : Database) (pending : List Memory) :
    checkAll env engine complement d db pending =
      (storeLinks db ((judgements env engine complement d db pending).flatMap Judgement.links)).map
        fun db' => ((pending.filter d.withinQuota).map Memory.id,
          judgements env engine complement d db pending, db') := by
  induction pending generalizing db with
  | nil => rfl
  | cons m rest ih =>
      rw [checkAll]
      have tail : (rest.filter d.withinQuota).filterMap (judgementOf env engine complement d db) =
        judgements env engine complement d db rest := rfl
      by_cases quota : d.withinQuota m = true
      · have own : judgements env engine complement d db (m :: rest) =
            (match judgementOf env engine complement d db m with
              | none => judgements env engine complement d db rest
              | some judged => judged :: judgements env engine complement d db rest) := by
          rw [judgements, List.filter_cons_of_pos quota, List.filterMap_cons, tail]
          cases judgementOf env engine complement d db m <;> rfl
        simp only [if_pos quota, own, List.filter_cons_of_pos quota, judgementOf]
        by_cases alone : (neighbours env engine complement db m).map asCandidate = []
        · simp only [if_pos alone, ih, bind, Option.bind_map]
          cases storeLinks db _ <;> rfl
        · simp only [if_neg alone, linkVerdicts_eq, List.flatMap_cons, storeLinks_append, bind]
          cases first : storeLinks db _ with
          | none => rfl
          | some db' =>
              have same : db'.memories = db.memories := by
                rw [((storeLinks_eq_some db db' _).mp first).2]
              have later : judgements env engine complement d db' rest =
                  judgements env engine complement d db rest := by
                rw [judgements, judgementOf_congr env engine complement d db db' same, tail]
              simp only [Option.map_some, Option.bind_some, ih, later]
              cases storeLinks db' _ <;> rfl
      · rw [if_neg quota, ih, judgements, judgements, List.filter_cons_of_neg quota]

/-- These are the memories that a batch checks. -/
def checks (s : State) : List Memory := (listPendingConflictCheck env s).filter d.withinQuota

/-- These are the judgements of a batch. -/
def judges (s : State) : List Judgement :=
  judgements env engine complement d s.db (listPendingConflictCheck env s)

/-- These are the links that the verdicts of a batch ask for. -/
def asks (s : State) : List MemoryLink := (judges env engine complement d s).flatMap Judgement.links

/-- The batch goes through: the task is enabled and the links can be stored. -/
def GoesThrough (s : State) : Prop :=
  env.settings.conflictDetection = true ∧ Linkable s.db (asks env engine complement d s)

/-- This is the state after a batch that goes through. -/
def detected (s : State) : State :=
  markConflictChecked d
    { s.withDb { s.db with links := s.db.links ++ asks env engine complement d s } with
      judged := s.judged ++ judges env engine complement d s }
    ((checks env d s).map Memory.id)

theorem detectBatch_cases (s : State) :
    (¬ GoesThrough env engine complement d s ∧ detectBatch env engine complement d s = s) ∨
      (GoesThrough env engine complement d s ∧
        detectBatch env engine complement d s = detected env engine complement d s) := by
  rw [detectBatch]
  by_cases enabled : env.settings.conflictDetection = true
  · rw [if_pos enabled, checkAll_eq]
    cases stored : storeLinks s.db _ with
    | none =>
        refine Or.inl ⟨fun through => ?_, rfl⟩
        have done := (storeLinks_eq_some s.db _ (asks env engine complement d s)).mpr ⟨through.2, rfl⟩
        exact absurd (stored.symm.trans done) (by simp)
    | some db' =>
        obtain ⟨linkable, rfl⟩ := (storeLinks_eq_some s.db db' _).mp stored
        exact Or.inr ⟨⟨enabled, linkable⟩, rfl⟩
  · rw [if_neg enabled]
    exact Or.inl ⟨fun through => enabled through.1, rfl⟩

/-- A batch changes no row but for its mark. -/
theorem evolves_detected (s : State) :
    Evolves Touched s.db (detected env engine complement d s).db :=
  Evolves.of_update (fun m => ((checks env d s).map Memory.id).contains m.id) (Memory.marked d.now)
    (Memory.marked_ident d.now) Touched.refl
    (fun _ _ _ => ⟨⟨rfl, rfl, rfl, rfl, rfl, fun live => live⟩, rfl⟩) rfl

/-- A step of the embedder touches the rows, stores a vector, or takes a turn of the service. -/
inductive WorkerChange (w : EmbeddingTask.Worker) (e : EmbeddingTask.Event) : Memory → Memory → Prop
  | touched {m m'} (touched : Touched m m') : WorkerChange w e m m'
  | turned {m m'} (t : MemoryTool.Turn) (same : e = .turn t)
      (changed : TurnChange (MemoryTool.EditsRow env w.session t) (MemoryTool.ReviewsRow w.session t)
        t.context.now m m') : WorkerChange w e m m'
  | embedded {m} (run : Nat) (now : Instant) (error : Str) (pending : EmbeddingTask.Pending)
      (vector : List PyFloat) (rest : List (EmbeddingTask.Pending × Option (List PyFloat)))
      (same : e = .store run now error) (storing : w.phase run = .storing ((pending, some vector) :: rest))
      (own : m.id = pending.memory.id) : WorkerChange w e m (m.embedded now vector env.embedderModelId)

theorem WorkerChange.sameOrigin {w : EmbeddingTask.Worker} {e : EmbeddingTask.Event} {m m' : Memory}
    (change : WorkerChange env w e m m') : SameOrigin m m' := by
  cases change with
  | touched touched => exact touched.1
  | turned t same changed => exact changed.sameOrigin
  | embedded run now error pending vector rest same storing own =>
      exact ⟨rfl, rfl, rfl, rfl, rfl, fun live => live⟩

theorem evolves_worker (w : EmbeddingTask.Worker) (e : EmbeddingTask.Event) :
    Evolves (WorkerChange env w e) w.session.db (EmbeddingTask.step env w e).session.db := by
  have refl (m : Memory) : WorkerChange env w e m m := .touched (Touched.refl m)
  cases e with
  | turn t =>
      exact (MemoryTool.evolves_turn env w.session t).mono fun _ _ changed => .turned t rfl changed
  | read run now =>
      refine Evolves.of_memories refl ?_
      simp only [EmbeddingTask.step]
      split
      · split <;> rfl
      · rfl
  | embed run =>
      refine Evolves.of_memories refl ?_
      simp only [EmbeddingTask.step]
      split <;> rfl
  | store run now error =>
      simp only [EmbeddingTask.step]
      split
      · exact Evolves.of_memories refl rfl
      · rename_i pending vector rest storing
        refine Evolves.of_update (fun m => m.id == pending.memory.id)
          (Memory.embedded now vector env.embedderModelId)
          (Memory.embedded_ident now vector env.embedderModelId) refl (fun m _ picked => ?_) rfl
        exact .embedded run now error pending vector rest rfl storing (by simpa using picked)
      · exact Evolves.of_memories refl rfl
      · exact Evolves.of_memories refl rfl

theorem evolves_worker_origin (w : EmbeddingTask.Worker) (e : EmbeddingTask.Event) :
    Evolves SameOrigin w.session.db (EmbeddingTask.step env w e).session.db :=
  (evolves_worker env w e).mono fun _ _ changed => changed.sameOrigin

end Kortex.ConflictTask
