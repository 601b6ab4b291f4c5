import Kortex.Library.Machine
import Kortex.Proof.Noninterference
import Kortex.Proof.ReadPaths
import Kortex.Proof.TokenBudget

/-
This file proves that the reads of an org are the same whoever else shares the store.
-/

namespace Kortex

variable {p : Principal} {db db' : Database} {o : Nat}

/-! An access to a memory stays in its org. -/

namespace Agree

theorem trans {db'' : Database} (first : Agree o db db') (second : Agree o db' db'') : Agree o db db'' :=
  ⟨first.memories.trans second.memories, first.projects.trans second.projects,
    first.links.trans second.links⟩

/-- Two stores with the same links and the same rows of an org agree on it. -/
theorem of_rows (memories : (db.memories.rows.filter fun m => m.orgId == o) =
      db'.memories.rows.filter fun m => m.orgId == o)
    (projects : db.projects = db'.projects) (links : db.links = db'.links) : Agree o db db' := by
  have own (id : Nat) : Kortex.inOrg o db id = Kortex.inOrg o db' id := by
    rw [Bool.eq_iff_iff, inOrg_iff, inOrg_iff, memories]
  refine ⟨memories, by rw [projects], ?_⟩
  rw [orgLinks, orgLinks, links]
  simp only [own]

end Agree

/-- This is an UPDATE of memories that stay in their org. -/
structure Edit where
  chosen : Memory → Bool
  change : Memory → Memory
  ident : ∀ m, ((change m).id, (change m).publicId) = (m.id, m.publicId)
  orgId : ∀ m, (change m).orgId = m.orgId

def Edit.apply (edit : Edit) (db : Database) : Database :=
  { db with memories := db.memories.update edit.chosen edit.change edit.ident }

namespace Edit

variable (edit : Edit)

/-- The rows of an org after an edit are those before, each with its edit. -/
theorem orgRows : ((edit.apply db).memories.rows.filter fun m => m.orgId == o) =
    (db.memories.rows.filter fun m => m.orgId == o).map (Table.changeRow edit.chosen edit.change) := by
  rw [apply, Table.update, List.filter_map]
  congr 1
  apply List.filter_congr
  intro m _
  rw [Function.comp_apply, Table.changeRow]
  split
  · rw [edit.orgId]
  · rfl

theorem inOrg_apply (id : Nat) : inOrg o (edit.apply db) id = inOrg o db id := by
  have kept (m : Memory) : (Table.changeRow edit.chosen edit.change m).id = m.id := by
    rw [Table.changeRow]
    split
    · exact (Prod.mk.inj (edit.ident m)).1
    · rfl
  rw [Bool.eq_iff_iff, inOrg_iff, inOrg_iff, edit.orgRows]
  constructor
  · rintro ⟨m', inside, rfl⟩
    obtain ⟨m, row, rfl⟩ := List.mem_map.mp inside
    exact ⟨m, row, (kept m).symm⟩
  · rintro ⟨m, row, rfl⟩
    exact ⟨_, List.mem_map_of_mem row, kept m⟩

theorem agree (agree : Agree o db db') : Agree o (edit.apply db) (edit.apply db') := by
  refine ⟨?_, agree.projects, ?_⟩
  · rw [edit.orgRows, edit.orgRows, agree.memories]
  · have links := agree.links
    simp only [orgLinks, inOrg_apply] at links ⊢
    exact links

/-- An edit of memories of another org changes nothing. -/
theorem agree_other (own : ∀ m ∈ db.memories.rows, edit.chosen m = true → m.orgId ≠ o) :
    Agree o (edit.apply db) db := by
  refine Agree.of_rows ?_ rfl rfl
  rw [edit.orgRows]
  refine (List.map_congr_left fun m row => ?_).trans (List.map_id _)
  rw [List.mem_filter, beq_iff_eq] at row
  rw [Table.changeRow, if_neg fun chosen => own m row.1 chosen row.2, id]

end Edit

/-- This is the edit of `record_access`. -/
def accesses (now : Instant) (ids : List Nat) : Edit where
  chosen m := ids.contains m.id
  change := Memory.accessed now
  ident := Memory.accessed_ident now
  orgId _ := rfl

theorem Agree.recordAccess_other (now : Instant) (ids : List Nat) (org : Nat) (other : org ≠ o)
    (own : ∀ id ∈ ids, Kortex.inOrg org db id = true) :
    Agree o (MemoryRepo.recordAccess now db ids) db := by
  refine (accesses now ids).agree_other fun m row listed same => ?_
  obtain ⟨m', row', equal⟩ := (inOrg_iff _ _ _).mp (own m.id (List.contains_iff_mem.mp listed))
  rw [List.mem_filter, beq_iff_eq] at row'
  obtain rfl := memory_eq_of_id db m' m row'.1 row equal
  exact other (row'.2.symm.trans same)

/-! The hits of a recall are hits of the rows that were found. -/

theorem Reranker.hits_rerankAndPack (reranker : Reranker) (query : Str) (hits : List HybridSearchHit)
    (budget : TokenBudget) : ∀ r ∈ (reranker.rerankAndPack query hits budget).1, r.hit ∈ hits := by
  intro r inside
  have reranked : r ∈ reranker.rerank query hits := by
    simp only [rerankAndPack, List.mem_insertionSort] at inside
    obtain ⟨entry, chosen, rfl⟩ := List.mem_map.mp inside
    exact List.fst_mem_of_mem_zipIdx (List.mem_of_mem_filter chosen)
  cases hits with
  | nil => cases reranked
  | cons first rest =>
      rw [rerank, List.mem_insertionSort] at reranked
      obtain ⟨hit, present, rfl⟩ := List.mem_map.mp reranked
      exact present

namespace AgenticRetriever

variable {retriever : AgenticRetriever} {request : RecallRequest} {hits : List HybridSearchHit}

theorem ids_rerankPack : ∀ r ∈ retriever.rerankPack request hits,
    r.hit.memoryId ∈ hits.map HybridSearchHit.memoryId := by
  intro r inside
  have packed := retriever.reranker.hits_rerankAndPack request.query hits (packing retriever request)
  rw [rerankPack_eq] at inside
  split at inside
  · cases inside
  · dsimp only at inside
    split at inside
    · rw [annotated, (Conflicts.demoteSuperseded_perm _ _ _).mem_iff] at inside
      obtain ⟨entry, paired, rfl⟩ := List.mem_map.mp inside
      obtain ⟨hit, present, same, _⟩ := Conflicts.mem_annotateConflicts _ _ _ _ _ (List.of_mem_zip paired).2
      obtain ⟨r, chosen, rfl⟩ := List.mem_map.mp present
      exact same ▸ List.mem_map_of_mem (packed r chosen)
    · exact List.mem_map_of_mem (packed r inside)

/-- The hits are built from rows of the org of the retriever. -/
def OwnHits (retriever : AgenticRetriever) (hits : List HybridSearchHit) : Prop :=
  ∀ hit ∈ hits, Conflicts.HitOf retriever.principal.orgId retriever.db hit

/-- Two outcomes are the same but for the rows of other orgs. -/
def SameOutcome (o : Nat) :
    Except RecallError (ContextBundle × Database) → Except RecallError (ContextBundle × Database) → Prop
  | .ok (bundle, db), .ok (bundle', db') => bundle = bundle' ∧ Agree o db db'
  | .error e, .error e' => e = e'
  | _, _ => False

section Alike

variable (member : retriever.principal.isSuperuser = false)
  (agree : Agree retriever.principal.orgId retriever.db db')

include member

theorem ownHits_run (loop : AgentLoop.Loop) (same : loop.principal = retriever.principal)
    (onStore : loop.db = retriever.db) (plan : QueryPlan) :
    OwnHits retriever (AgentLoop.run loop plan).candidates := by
  intro hit inside
  have start : AgentLoop.Collected loop.principal loop.db ({} : AgentLoop.LoopState).seen :=
    fun _ inside => absurd inside List.not_mem_nil
  have collected := (AgentLoop.collected_rounds start plan.steps).final
  obtain ⟨entry, present, rfl⟩ := List.mem_map.mp inside
  obtain ⟨m, row, score, rfl⟩ := collected entry present
  rw [same, onStore] at row
  exact ⟨m, mem_orgRows_of_mem_liveRows member m row, score, rfl⟩

theorem ownHits_hybridSearch (q : Retrieval.SearchQuery) : OwnHits retriever
    (Retrieval.hybridSearch retriever.engine retriever.settings retriever.principal retriever.db q) := by
  intro hit inside
  obtain ⟨m, row, _, _, score, rfl⟩ := Retrieval.mem_hybridSearch retriever.engine retriever.settings
    retriever.db q retriever.principal hit inside
  exact ⟨m, mem_orgRows_of_mem_liveRows member m row, score, rfl⟩

include agree

theorem rerankPack_alike (own : OwnHits retriever hits) :
    { retriever with db := db' }.rerankPack request hits = retriever.rerankPack request hits := by
  have packed : OwnHits retriever
      ((retriever.reranker.rerankAndPack request.query hits (packing retriever request)).1.map
        RerankedHit.hit) := by
    intro hit inside
    obtain ⟨r, present, rfl⟩ := List.mem_map.mp inside
    exact own _ (retriever.reranker.hits_rerankAndPack request.query hits _ r present)
  have notes := agree.annotateConflicts member retriever.isoformat _ packed
  rw [rerankPack_eq, rerankPack_eq]
  by_cases empty : hits = []
  · rw [if_pos empty, if_pos empty]
  · rw [if_neg empty, if_neg empty]
    simp only [annotated, notes]
    rfl

theorem execute_alike (plan : ExplainedPlan) :
    { retriever with db := db' }.execute request plan = retriever.execute request plan := by
  have run (second : Bool) (plan : QueryPlan) :
      AgentLoop.run ({ retriever with db := db' }.loop request second) plan =
        AgentLoop.run (retriever.loop request second) plan :=
    (agree.run member (retriever.loop request second) rfl rfl plan).symm
  simp only [execute, run]

omit member in
theorem recorded_alike (kept : List RerankedHit) :
    Agree retriever.principal.orgId (retriever.recorded kept) ({ retriever with db := db' }.recorded kept) :=
  (accesses retriever.now _).agree agree

theorem fallbackHybrid_alike (usage : RecallUsage) (rationale : Str) :
    ({ retriever with db := db' }.fallbackHybrid request usage rationale).1 =
        (retriever.fallbackHybrid request usage rationale).1 ∧
      Agree retriever.principal.orgId (retriever.fallbackHybrid request usage rationale).2
        ({ retriever with db := db' }.fallbackHybrid request usage rationale).2 := by
  have same := @rerankPack_alike db' retriever request _ member agree (ownHits_hybridSearch member
    { query := request.query, queryVector := retriever.embedder.map fun embed => embed request.query
      scopes := request.scopes, maxSensitivity := retriever.principal.maxSensitivity, limit := 50 })
  simp only [fallbackHybrid, ← agree.hybridSearch member, same]
  exact ⟨trivial, recorded_alike agree _⟩

omit agree in
theorem ownHits_execute (plan : ExplainedPlan) (result : AgentLoop.AgentLoopResult)
    (done : retriever.execute request plan = .ok result) : OwnHits retriever result.candidates := by
  simp only [execute] at done
  split at done
  · cases seeded : seedPlan request [] with
    | error e => simp [seeded] at done
    | ok seed =>
        simp only [seeded] at done
        rw [← Except.ok.inj done]
        exact ownHits_run member (retriever.loop request true) rfl rfl _
  · rw [← Except.ok.inj done]
    exact ownHits_run member (retriever.loop request false) rfl rfl _

theorem runPlan_alike (planner : Llm) (usage : RecallUsage) (plan : ExplainedPlan) :
    SameOutcome retriever.principal.orgId (retriever.runPlan request planner usage plan)
      ({ retriever with db := db' }.runPlan request planner usage plan) := by
  simp only [runPlan, execute_alike member agree]
  cases executed : retriever.execute request plan with
  | error e => rfl
  | ok result =>
      have same := @rerankPack_alike db' retriever request _ member agree
        (ownHits_execute member plan result executed)
      simp only [bind, Except.bind, pure, Except.pure, same]
      exact ⟨rfl, recorded_alike agree _⟩

theorem recall_alike : SameOutcome retriever.principal.orgId (retriever.recall_ request)
    ({ retriever with db := db' }.recall_ request) := by
  have fallback (usage : RecallUsage) (rationale : Str) : SameOutcome retriever.principal.orgId
      (.ok (retriever.fallbackHybrid request usage rationale))
      (.ok ({ retriever with db := db' }.fallbackHybrid request usage rationale)) := by
    obtain ⟨same, stores⟩ := fallbackHybrid_alike member agree usage rationale
    exact ⟨same.symm, stores⟩
  have skip : ({ retriever with db := db' }.skipReason request) = retriever.skipReason request := rfl
  have resolved : { retriever with db := db' }.resolvedPlanner = retriever.resolvedPlanner := rfl
  rw [recall_, recall_, skip, resolved]
  split
  · rename_i planner _ _
    have asked : { retriever with db := db' }.answerOf request planner = retriever.answerOf request planner :=
      rfl
    rw [asked]
    cases retriever.answerOf request planner with
    | error e => exact fallback _ _
    | ok response =>
        have planned : { retriever with db := db' }.planOf request response.structured =
            retriever.planOf request response.structured := rfl
        dsimp only
        rw [planned]
        cases retriever.planOf request response.structured with
        | error e => rfl
        | ok plan => exact runPlan_alike member agree planner _ plan
  · exact fallback _ _

omit member agree in
theorem recorded_own (own : OwnHits retriever hits) : ∃ ids,
    (∀ id ∈ ids, inOrg retriever.principal.orgId retriever.db id = true) ∧
      retriever.recorded (retriever.rerankPack request hits) =
        MemoryRepo.recordAccess retriever.now retriever.db ids := by
  refine ⟨_, fun id inside => ?_, rfl⟩
  obtain ⟨r, kept, rfl⟩ := List.mem_map.mp inside
  obtain ⟨hit, present, same⟩ := List.mem_map.mp (ids_rerankPack r kept)
  obtain ⟨m, row, score, rfl⟩ := own hit present
  rw [← same]
  exact inOrg_of_mem m row

omit agree in
/-- A recall changes nothing but the accesses of memories of its org. -/
theorem recall_records (bundle : ContextBundle) (after : Database)
    (done : retriever.recall_ request = .ok (bundle, after)) : ∃ ids,
    (∀ id ∈ ids, inOrg retriever.principal.orgId retriever.db id = true) ∧
      after = MemoryRepo.recordAccess retriever.now retriever.db ids := by
  have fallback (usage : RecallUsage) (rationale : Str)
      (done : Except.ok (retriever.fallbackHybrid request usage rationale) =
        (.ok (bundle, after) : Except RecallError _)) : ∃ ids,
      (∀ id ∈ ids, inOrg retriever.principal.orgId retriever.db id = true) ∧
        after = MemoryRepo.recordAccess retriever.now retriever.db ids := by
    obtain ⟨_, rfl⟩ := Prod.mk.inj (Except.ok.inj done)
    exact recorded_own (ownHits_hybridSearch member _)
  rw [recall_] at done
  split at done
  · split at done
    · exact fallback _ _ done
    · obtain ⟨plan, _, done⟩ := (bind_eq_ok _ _ _).mp done
      rw [runPlan] at done
      obtain ⟨result, executed, done⟩ := (bind_eq_ok _ _ _).mp done
      obtain ⟨_, rfl⟩ := Prod.mk.inj (Except.ok.inj done)
      exact recorded_own (ownHits_execute member plan result executed)
  · exact fallback _ _ done

end Alike

end AgenticRetriever

/-! The other reads. -/

section Reads

variable (member : p.isSuperuser = false) (agree : Agree p.orgId db db')

include member

/-- The links that leave the org lead to no memory. -/
theorem linked_eq (m : Memory) (own : inOrg p.orgId db m.id = true) :
    ((MemoryLinkRepo.neighbors db m.id []).filterMap fun link =>
      (MemoryRepo.getById p db (link.other m.id)).map fun other => (other, link.linkType)) =
    ((orgLinks p.orgId db).filter fun link => link.touches m.id).filterMap fun link =>
      (MemoryRepo.getById p db (link.other m.id)).map fun other => (other, link.linkType) := by
  have selected : ((orgLinks p.orgId db).filter fun link => link.touches m.id) =
      (MemoryLinkRepo.neighbors db m.id []).filter fun link => inOrg p.orgId db link.fromMemoryId &&
        inOrg p.orgId db link.toMemoryId := by
    rw [orgLinks, MemoryLinkRepo.neighbors, List.filter_filter, List.filter_filter]
    apply List.filter_congr
    intro link _
    simp [Bool.and_comm]
  rw [selected, List.filterMap_filter]
  apply List.filterMap_congr
  intro link inside
  have touches : link.touches m.id = true := by
    have holds := List.of_mem_filter inside
    rw [Bool.and_eq_true] at holds
    exact holds.1
  rw [inOrg_ends p.orgId m.id own link touches]
  split
  · rfl
  · rename_i outside
    rw [(AgentLoop.getById_eq_none (link.other m.id)).mpr fun known =>
      outside (inOrg_of_known member _ known), Option.map_none]

include agree

theorem get_alike (publicId : Uuid) : MemoryService.get p db publicId = MemoryService.get p db' publicId := by
  rw [MemoryService.get, MemoryService.get, agree.getByPublicId member]

theorem list_alike (r : MemoryService.ListRequest) :
    MemoryService.list_ p db r = MemoryService.list_ p db' r := by
  rw [MemoryService.list_, MemoryService.list_, agree.list_ member]

theorem listLinks_alike (publicId : Uuid) :
    MemoryService.listLinks p db publicId = MemoryService.listLinks p db' publicId := by
  rw [MemoryService.listLinks, MemoryService.listLinks, ← agree.getByPublicId member]
  congr 1
  funext _
  cases found : MemoryRepo.getByPublicId p db publicId with
  | none => rfl
  | some m =>
      have row := mem_orgRows_of_mem_liveRows member m (List.mem_of_find?_eq_some found)
      have own := inOrg_of_mem m row
      dsimp only
      rw [linked_eq member m own, linked_eq member m (agree.inOrg m.id ▸ own), agree.links,
        agree.getById member]

omit agree in
theorem hitOf_found (env : Environment) (engine : SearchEngine) (r : RetrievalService.SearchRequest) :
    ∀ hit ∈ RetrievalService.found env engine p db r, Conflicts.HitOf p.orgId db hit := by
  intro hit inside
  obtain ⟨m, row, _, _, score, rfl⟩ := Retrieval.mem_hybridSearch engine env.settings db _ p hit inside
  exact ⟨m, mem_orgRows_of_mem_liveRows member m row, score, rfl⟩

omit agree in
/-- A search changes nothing but the accesses of memories of its org. -/
theorem search_records (env : Environment) (engine : SearchEngine) (isoformat : Instant → Str)
    (now : Instant) (r : RetrievalService.SearchRequest) : ∃ ids,
    (∀ id ∈ ids, inOrg p.orgId db id = true) ∧
      (RetrievalService.search env engine isoformat p db now r).2 = MemoryRepo.recordAccess now db ids := by
  refine ⟨_, fun id inside => ?_, rfl⟩
  obtain ⟨hit, shown, rfl⟩ := List.mem_map.mp inside
  obtain ⟨old, present, same, _⟩ := RetrievalService.mem_search now r hit shown
  obtain ⟨m, row, score, rfl⟩ := hitOf_found member env engine r old present
  rw [same]
  exact inOrg_of_mem m row

theorem search_alike (env : Environment) (engine : SearchEngine) (isoformat : Instant → Str)
    (now : Instant) (r : RetrievalService.SearchRequest) :
    (RetrievalService.search env engine isoformat p db now r).1 =
        (RetrievalService.search env engine isoformat p db' now r).1 ∧
      Agree p.orgId (RetrievalService.search env engine isoformat p db now r).2
        (RetrievalService.search env engine isoformat p db' now r).2 := by
  have found : RetrievalService.found env engine p db' r = RetrievalService.found env engine p db r :=
    (agree.hybridSearch member engine env.settings _).symm
  have notes := agree.annotateConflicts member isoformat _ (hitOf_found member env engine r)
  simp only [RetrievalService.search, found, ← notes]
  exact ⟨trivial, (accesses now _).agree agree⟩

end Reads

/-! The store is shared by requests that read it and by the work of its orgs. -/

namespace SharedStore

/-- These are the requests that read memories, each with what its handler is given. -/
inductive Read where
  | get (publicId : Uuid)
  | list_ (r : MemoryService.ListRequest)
  | listLinks (publicId : Uuid)
  | search (env : Environment) (engine : SearchEngine) (isoformat : Instant → Str) (now : Instant)
      (r : RetrievalService.SearchRequest)
  | recall_ (retriever : AgenticRetriever) (r : RecallRequest)

inductive Answer where
  | memory (found : Except ServiceError (Option Memory))
  | memories (found : Except ServiceError (List Memory))
  | links (found : Except ServiceError (List (Memory × MemoryLinkType)))
  | hits (found : RetrievalService.SearchResult)
  | bundle (found : Except RecallError ContextBundle)
  | done

/-- This is a request of a principal on the store; an error rolls back. -/
def serve (p : Principal) (db : Database) : Read → Answer × Database
  | .get publicId => (.memory (MemoryService.get p db publicId), db)
  | .list_ r => (.memories (MemoryService.list_ p db r), db)
  | .listLinks publicId => (.links (MemoryService.listLinks p db publicId), db)
  | .search env engine isoformat now r =>
      let (result, db) := RetrievalService.search env engine isoformat p db now r
      (.hits result, db)
  | .recall_ retriever r =>
      match { retriever with principal := p, db := db }.recall_ r with
      | .ok (bundle, db) => (.bundle (.ok bundle), db)
      | .error e => (.bundle (.error e), db)

/-- This is work of an org that changes its own rows, by what stands in them. -/
structure Work where
  org : Nat
  run : Database → Database
  confined : ∀ o db, o ≠ org → Agree o (run db) db
  consistent : ∀ db db', Agree org db db' → Agree org (run db) (run db')

/-- An UPDATE of an org is work that it does. -/
def Work.ofEdit (org : Nat) (edit : Edit) : Work where
  org := org
  run db := { edit with chosen := fun m => m.orgId == org && edit.chosen m }.apply db
  confined o db other := by
    refine Edit.agree_other _ fun m _ chosen same => other ?_
    rw [Bool.and_eq_true, beq_iff_eq] at chosen
    exact same.symm.trans chosen.1
  consistent db db' agree := Edit.agree _ agree

inductive Input where
  | read (p : Principal) (member : p.isSuperuser = false) (r : Read)
  | work (w : Work)

def Input.org : Input → Nat
  | .read p _ _ => p.orgId
  | .work w => w.org

def act (db : Database) : Input → Answer × Database
  | .read p _ r => serve p db r
  | .work w => (.done, w.run db)

theorem serve_alike (member : p.isSuperuser = false) (agree : Agree p.orgId db db') (r : Read) :
    (serve p db r).1 = (serve p db' r).1 ∧ Agree p.orgId (serve p db r).2 (serve p db' r).2 := by
  cases r with
  | get publicId => exact ⟨congrArg Answer.memory (get_alike member agree publicId), agree⟩
  | list_ r => exact ⟨congrArg Answer.memories (list_alike member agree r), agree⟩
  | listLinks publicId => exact ⟨congrArg Answer.links (listLinks_alike member agree publicId), agree⟩
  | search env engine isoformat now r =>
      obtain ⟨same, stores⟩ := search_alike member agree env engine isoformat now r
      exact ⟨congrArg Answer.hits same, stores⟩
  | recall_ retriever r =>
      have same := @AgenticRetriever.recall_alike db' { retriever with principal := p, db := db } r
        member agree
      rw [serve, serve]
      revert same
      generalize { retriever with principal := p, db := db }.recall_ r = first
      generalize { retriever with principal := p, db := db' }.recall_ r = second
      intro same
      cases first with
      | error e =>
          cases second with
          | error e' =>
              cases same
              exact ⟨rfl, agree⟩
          | ok outcome => cases same
      | ok outcome =>
          cases second with
          | error e => cases same
          | ok outcome' =>
              obtain ⟨same, stores⟩ := same
              exact ⟨congrArg (fun bundle => Answer.bundle (.ok bundle)) same, stores⟩

/-- A read changes nothing for the other orgs. -/
theorem serve_confined (member : p.isSuperuser = false) (other : p.orgId ≠ o) (r : Read) :
    Agree o (serve p db r).2 db := by
  have same : Agree o db db := ⟨rfl, rfl, rfl⟩
  cases r with
  | get publicId => exact same
  | list_ r => exact same
  | listLinks publicId => exact same
  | search env engine isoformat now r =>
      obtain ⟨ids, own, recorded⟩ := @search_records p db member env engine isoformat now r
      rw [serve]
      dsimp only
      rw [recorded]
      exact Agree.recordAccess_other now ids p.orgId other own
  | recall_ retriever r =>
      rw [serve]
      split
      · rename_i bundle after done
        obtain ⟨ids, own, recorded⟩ := AgenticRetriever.recall_records member bundle after done
        rw [recorded]
        exact Agree.recordAccess_other _ ids p.orgId other own
      · exact same

theorem unwinding (o : Nat) : Machine.Unwinding act (fun input => input.org == o) (Agree o) where
  answers db db' input agree own := by
    obtain rfl := beq_iff_eq.mp own
    cases input with
    | read p member r => exact (serve_alike member agree r).1
    | work w => rfl
  keeps db db' input agree own := by
    obtain rfl := beq_iff_eq.mp own
    cases input with
    | read p member r => exact (serve_alike member agree r).2
    | work w => exact w.consistent db db' agree
  hides db db' input agree other := by
    have apart : input.org ≠ o := by simpa using other
    cases input with
    | read p member r => exact (serve_confined member apart r).trans agree
    | work w => exact (w.confined o db apart.symm).trans agree

/-- The other org counts an access to each of its memories before the member of the first one reads. -/
def sampleInputs : List Input :=
  [.work (.ofEdit 2 { accesses 5 [] with chosen := fun _ => true }),
    .read AgentLoop.sampleMember rfl (.list_ {}),
    .read AgentLoop.sampleMember rfl (.recall_ (AgenticRetriever.answering .null) { query := "x" })]

end SharedStore

end Kortex
