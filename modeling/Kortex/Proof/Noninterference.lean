import Kortex.Proof.AgentLoop

/-
This file proves that what a principal retrieves depends on the rows of its org alone.
-/

namespace Kortex

/-- The memory with this id belongs to the org. -/
def inOrg (o : Nat) (db : Database) (id : Nat) : Bool :=
  db.memories.rows.any fun m => m.id == id && m.orgId == o

/-- These are the links with both ends in the org. -/
def orgLinks (o : Nat) (db : Database) : List MemoryLink :=
  db.links.filter fun link => inOrg o db link.fromMemoryId && inOrg o db link.toMemoryId

/-- The two stores have the same rows of the org. -/
structure Agree (o : Nat) (db db' : Database) : Prop where
  memories : (db.memories.rows.filter fun m => m.orgId == o) =
    db'.memories.rows.filter fun m => m.orgId == o
  projects : (db.projects.filter fun project => project.orgId == o) =
    db'.projects.filter fun project => project.orgId == o
  links : orgLinks o db = orgLinks o db'

variable {p : Principal} {db db' : Database}

theorem tenantQuery_eq_filter {Row : Type} (member : p.isSuperuser = false) (orgOf : Row → Nat)
    (rows : List Row) : tenantQuery orgOf p rows = rows.filter fun row => orgOf row == p.orgId := by
  rw [tenantQuery, member]
  rfl

theorem inOrg_iff (o id : Nat) (db : Database) :
    inOrg o db id = true ↔ ∃ m ∈ db.memories.rows.filter (fun m => m.orgId == o), m.id = id := by
  simp only [inOrg, List.any_eq_true, Bool.and_eq_true, beq_iff_eq, List.mem_filter]
  constructor
  · rintro ⟨m, present, same, own⟩
    exact ⟨m, ⟨present, own⟩, same⟩
  · rintro ⟨m, ⟨present, own⟩, same⟩
    exact ⟨m, present, same, own⟩

namespace Agree

variable (member : p.isSuperuser = false) (agree : Agree p.orgId db db')

include member agree

theorem tenantRows : tenantQuery Memory.orgId p db.memories.rows =
    tenantQuery Memory.orgId p db'.memories.rows := by
  rw [tenantQuery_eq_filter member, tenantQuery_eq_filter member, agree.memories]

theorem liveRows : MemoryRepo.liveRows p db = MemoryRepo.liveRows p db' := by
  rw [MemoryRepo.liveRows, MemoryRepo.liveRows, agree.tenantRows member]

theorem getById : MemoryRepo.getById p db = MemoryRepo.getById p db' := by
  funext id
  rw [MemoryRepo.getById, MemoryRepo.getById, agree.liveRows member]

theorem getByPublicId : MemoryRepo.getByPublicId p db = MemoryRepo.getByPublicId p db' := by
  funext publicId
  rw [MemoryRepo.getByPublicId, MemoryRepo.getByPublicId, agree.liveRows member]

theorem list_ : MemoryRepo.list_ p db = MemoryRepo.list_ p db' := by
  funext scope tier kind limit offset maxSensitivity
  rw [MemoryRepo.list_, MemoryRepo.list_, agree.liveRows member]

theorem projectById : MemoryService.projectById p db = MemoryService.projectById p db' := by
  funext projectId
  rw [MemoryService.projectById, MemoryService.projectById, tenantQuery_eq_filter member,
    tenantQuery_eq_filter member, agree.projects]

/-- The raw SELECTs find the same rows under the ids of visible memories. -/
theorem rowsByIds (ids : List Nat)
    (own : ∀ id ∈ ids, ∃ m ∈ tenantQuery Memory.orgId p db.memories.rows, m.id = id) :
    Retrieval.rowsByIds db ids = Retrieval.rowsByIds db' ids := by
  have tenant (store : Database) (own : ∀ id ∈ ids,
      ∃ m ∈ tenantQuery Memory.orgId p store.memories.rows, m.id = id) :
      Retrieval.rowsByIds store ids = MemoryRepo.listByIds p store ids := by
    rw [MemoryRepo.listByIds, tenantQuery, List.filter_filter, Retrieval.rowsByIds]
    apply List.filter_congr
    intro m present
    cases listed : ids.contains m.id with
    | false => rfl
    | true =>
        obtain ⟨m', visible, same⟩ := own m.id (List.contains_iff_mem.mp listed)
        rw [mem_tenantQuery] at visible
        obtain rfl := memory_eq_of_id store m' m visible.1 present same
        simpa using visible.2
  rw [tenant db own, tenant db' (agree.tenantRows member ▸ own), MemoryRepo.listByIds,
    MemoryRepo.listByIds, agree.tenantRows member]

theorem configForScopes (scopes : List ScopeFilter) :
    Retrieval.configForScopes p db scopes = Retrieval.configForScopes p db' scopes := by
  simp only [Retrieval.configForScopes, agree.projectById member]

theorem fuse (engine : SearchEngine) (settings : Settings) (q : Retrieval.SearchQuery)
    (vectorIds bm25Ids : List Nat) (own : ∀ id, id ∈ vectorIds ∨ id ∈ bm25Ids →
      ∃ m ∈ tenantQuery Memory.orgId p db.memories.rows, m.id = id) :
    Retrieval.fuse engine settings db q vectorIds bm25Ids =
      Retrieval.fuse engine settings db' q vectorIds bm25Ids := by
  have ranked := agree.rowsByIds member (vectorIds ++ bm25Ids) fun id inside =>
    own id (List.mem_append.mp inside)
  have kept := agree.rowsByIds member (sliceTo (max (q.limit * 2) q.limit)
    (Retrieval.orderedIds (Retrieval.fusedScores engine settings db q vectorIds bm25Ids))) fun id inside =>
    own id ((Retrieval.mem_orderedIds engine settings db q vectorIds bm25Ids id).mp
      (Retrieval.mem_of_mem_sliceTo _ _ _ inside))
  have scores : Retrieval.fusedScores engine settings db q vectorIds bm25Ids =
      Retrieval.fusedScores engine settings db' q vectorIds bm25Ids := by
    simp only [Retrieval.fusedScores, ranked]
  rw [scores] at kept
  simp only [Retrieval.fuse, scores, kept]

theorem hybridSearch (engine : SearchEngine) (settings : Settings) (q : Retrieval.SearchQuery) :
    Retrieval.hybridSearch engine settings p db q = Retrieval.hybridSearch engine settings p db' q := by
  have candidates : Retrieval.candidates settings p db q = Retrieval.candidates settings p db' q := by
    rw [Retrieval.candidates, Retrieval.candidates, agree.tenantRows member]
  simp only [Retrieval.hybridSearch, ← candidates, ← agree.configForScopes member]
  split
  · rfl
  · apply agree.fuse member
    rintro id (inside | inside)
    · obtain ⟨m, candidate, same, _⟩ := Retrieval.mem_vectorIds engine _ _ _ id inside
      exact ⟨m, List.mem_of_mem_filter candidate, same⟩
    · obtain ⟨m, candidate, same, _⟩ := Retrieval.mem_bm25Ids engine _ _ _ _ id inside
      exact ⟨m, List.mem_of_mem_filter candidate, same⟩

omit member in
theorem inOrg (id : Nat) : Kortex.inOrg p.orgId db id = Kortex.inOrg p.orgId db' id := by
  rw [Bool.eq_iff_iff, inOrg_iff, inOrg_iff, agree.memories]

end Agree

theorem inOrg_of_mem (m : Memory)
    (present : m ∈ db.memories.rows.filter fun m => m.orgId == p.orgId) :
    inOrg p.orgId db m.id = true := (inOrg_iff _ _ _).mpr ⟨m, present, rfl⟩

theorem mem_orgRows_of_mem_liveRows (member : p.isSuperuser = false) (m : Memory)
    (present : m ∈ MemoryRepo.liveRows p db) :
    m ∈ db.memories.rows.filter fun m => m.orgId == p.orgId := by
  rw [← tenantQuery_eq_filter member]
  exact List.mem_of_mem_filter present

theorem inOrg_of_known (member : p.isSuperuser = false) (id : Nat)
    (known : AgentLoop.Known p db id) : inOrg p.orgId db id = true := by
  obtain ⟨m, present, rfl⟩ := known
  exact inOrg_of_mem m (mem_orgRows_of_mem_liveRows member m present)

/-- The other end of a link decides whether it stays in the org. -/
theorem inOrg_ends (o id : Nat) (own : inOrg o db id = true) (link : MemoryLink)
    (touches : link.touches id = true) :
    (inOrg o db link.fromMemoryId && inOrg o db link.toMemoryId) = inOrg o db (link.other id) := by
  simp only [MemoryLink.touches, Bool.or_eq_true, beq_iff_eq] at touches
  rw [MemoryLink.other]
  split
  · rename_i same
    rw [same, own, Bool.true_and]
  · rename_i different
    rw [touches.resolve_left different, own, Bool.and_true]

/-- The links that leave the org lead the walk nowhere. -/
theorem foldl_follow_eq (member : p.isSuperuser = false) (id : Nat) (own : inOrg p.orgId db id = true)
    (types : List MemoryLinkType) (found : Dict Nat HybridSearchHit × List Nat) :
    (MemoryLinkRepo.neighbors db id types).foldl (AgentLoop.follow p db id) found =
      ((orgLinks p.orgId db).filter fun link => link.touches id &&
        (types.isEmpty || types.contains link.linkType)).foldl (AgentLoop.follow p db id) found := by
  have selected : ((orgLinks p.orgId db).filter fun link => link.touches id &&
      (types.isEmpty || types.contains link.linkType)) =
        (MemoryLinkRepo.neighbors db id types).filter fun link => inOrg p.orgId db link.fromMemoryId &&
          inOrg p.orgId db link.toMemoryId := by
    rw [orgLinks, MemoryLinkRepo.neighbors, List.filter_filter, List.filter_filter]
    apply List.filter_congr
    intro link _
    exact Bool.and_comm _ _
  rw [selected, List.foldl_filter]
  apply List.foldl_ext
  intro found link inside
  have touches : link.touches id = true := by
    have holds := List.of_mem_filter inside
    rw [Bool.and_eq_true] at holds
    exact holds.1
  rw [inOrg_ends p.orgId id own link touches]
  split
  · rfl
  · rename_i outside
    have absent := (AgentLoop.getById_eq_none (link.other id)).mpr fun known =>
      outside (inOrg_of_known member _ known)
    simp only [AgentLoop.follow, absent, ite_self]

namespace Agree

variable (member : p.isSuperuser = false) (agree : Agree p.orgId db db')

include member agree

theorem follow (id : Nat) : AgentLoop.follow p db id = AgentLoop.follow p db' id := by
  funext found link
  rw [AgentLoop.follow, AgentLoop.follow, agree.getById member]

theorem followAll (types : List MemoryLinkType) (seen : Dict Nat HybridSearchHit) (frontier : List Nat)
    (own : ∀ id ∈ frontier, Kortex.inOrg p.orgId db id = true) :
    AgentLoop.followAll p db types seen frontier = AgentLoop.followAll p db' types seen frontier := by
  rw [AgentLoop.followAll, AgentLoop.followAll]
  apply List.foldl_ext
  intro found id inside
  rw [foldl_follow_eq member id (own id inside),
    foldl_follow_eq member id (agree.inOrg id ▸ own id inside), agree.links, agree.follow member]

theorem expandLinks (types : List MemoryLinkType) (depth : Nat) (seen : Dict Nat HybridSearchHit)
    (frontier : List Nat) (collected : AgentLoop.Collected p db seen)
    (own : ∀ id ∈ frontier, Kortex.inOrg p.orgId db id = true) :
    AgentLoop.expandLinks p db types depth seen frontier =
      AgentLoop.expandLinks p db' types depth seen frontier := by
  induction depth generalizing seen frontier with
  | zero => rfl
  | succ depth ih =>
      obtain ⟨collected', known⟩ := AgentLoop.followAll_known collected types frontier
      simp only [AgentLoop.expandLinks, ← agree.followAll member types seen frontier own]
      split
      · rfl
      · apply ih _ _ collected'
        intro id inside
        rw [List.mem_insertionSort] at inside
        exact inOrg_of_known member id (known id inside)

/-- Every step of a loop does the same on both stores. -/
theorem round (loop : AgentLoop.Loop) (same : loop.principal = p) (onStore : loop.db = db)
    (s : AgentLoop.LoopState) (collected : AgentLoop.Collected p db s.seen) (step : PlanStep) :
    AgentLoop.round loop s step = AgentLoop.round { loop with db := db' } s step := by
  subst same onStore
  have refused : AgentLoop.refusal { loop with db := db' } s = AgentLoop.refusal loop s := rfl
  have search (s : AgentLoop.LoopState) (query : Str) (topK : Nat) (vector : Option (List PyFloat)) :
      AgentLoop.searchStep { loop with db := db' } s step query topK vector =
        AgentLoop.searchStep loop s step query topK vector := by
    simp only [AgentLoop.searchStep, ← agree.hybridSearch member]
  have expand (types : List MemoryLinkType) (maxDepth : Nat) :=
    agree.expandLinks member types maxDepth s.seen (AgentLoop.keys s.seen) collected
      fun id inside => inOrg_of_known member id (collected.known id inside)
  rw [AgentLoop.round, AgentLoop.round, refused]
  split
  · rfl
  · split
    · rfl
    · cases step with
      | stopAndAnswer reason => rfl
      | timeFilter after before => rfl
      | keywordSearch query topK => simp only [AgentLoop.execute, search]
      | semanticSearch query topK => simp only [AgentLoop.execute, search]
      | linkExpand types maxDepth => simp only [AgentLoop.execute, expand]

theorem run (loop : AgentLoop.Loop) (same : loop.principal = p) (onStore : loop.db = db)
    (plan : QueryPlan) :
    AgentLoop.run loop plan = AgentLoop.run { loop with db := db' } plan := by
  have rounds (s : AgentLoop.LoopState) (steps : List PlanStep)
      (collected : AgentLoop.Collected p db s.seen) : steps.foldl (AgentLoop.round loop) s =
        steps.foldl (AgentLoop.round { loop with db := db' }) s := by
    induction steps generalizing s with
    | nil => rfl
    | cons step rest ih =>
        have next : AgentLoop.Collected p db (AgentLoop.round loop s step).seen := by
          subst same onStore
          exact (AgentLoop.round_spec collected step).1
        rw [List.foldl_cons, List.foldl_cons, ← agree.round member loop same onStore s collected step,
          ih _ next]
  simp only [AgentLoop.run]
  rw [rounds {} plan.steps fun _ inside => absurd inside List.not_mem_nil]

end Agree

namespace Conflicts

variable (isoformat : Instant → Str)

/-- A list can be searched for the entries of the links that it is filtered for. -/
theorem filterMap_flatMap_filter {A B C : Type} (keep : A → Bool) (f : A → List B) (g : B → Option C)
    (items : List A) (lost : ∀ a ∈ items, keep a = false → ∀ b ∈ f a, g b = none) :
    ((items.filter keep).flatMap f).filterMap g = (items.flatMap f).filterMap g := by
  induction items with
  | nil => rfl
  | cons a rest ih =>
      have others := ih fun x inside => lost x (List.mem_cons_of_mem _ inside)
      rw [List.flatMap_cons, List.filterMap_append, ← others]
      cases kept : keep a with
      | true => rw [List.filter_cons_of_pos kept, List.flatMap_cons, List.filterMap_append]
      | false =>
          rw [List.filter_cons_of_neg (by simp [kept]), List.filterMap_eq_nil_iff.mpr
            (lost a List.mem_cons_self kept), List.nil_append]

/-- The hit is as a search or a link expansion builds it from a row of the org. -/
def HitOf (o : Nat) (db : Database) (hit : HybridSearchHit) : Prop :=
  ∃ m ∈ db.memories.rows.filter (fun m => m.orgId == o), ∃ score, hit = hitOf m score

theorem withNotes_nil (hits : List HybridSearchHit)
    (fresh : ∀ hit ∈ hits, hit.conflicts = []) : withNotes hits [] = (hits, []) := by
  have unchanged (rest : List HybridSearchHit) (fresh : ∀ hit ∈ rest, hit.conflicts = []) :
      attach (fun _ => []) rest = rest := by
    induction rest with
    | nil => rfl
    | cons hit rest ih =>
        have own := fresh hit List.mem_cons_self
        rw [attach, ih fun other inside => fresh other (List.mem_cons_of_mem _ inside), ← own]
        simp
  simp [withNotes, unchanged hits fresh]

/-- The notes come from the links inside the org alone. -/
theorem annotateConflicts_eq (member : p.isSuperuser = false) (hits : List HybridSearchHit)
    (own : ∀ hit ∈ hits, HitOf p.orgId db hit) :
    annotateConflicts isoformat p db hits = withNotes hits (notesOf isoformat
      (tenantQuery Memory.orgId p db.memories.rows) (hits.map HybridSearchHit.memoryId)
      ((orgLinks p.orgId db).filter fun link =>
        (link.linkType == .supersedes || link.linkType == .contradicts) &&
          ((hits.map HybridSearchHit.memoryId).contains link.fromMemoryId ||
            (hits.map HybridSearchHit.memoryId).contains link.toMemoryId))) := by
  have fresh (hit : HybridSearchHit) (inside : hit ∈ hits) : hit.conflicts = [] := by
    obtain ⟨m, _, score, rfl⟩ := own hit inside
    rfl
  have presentInOrg (id : Nat) (present : id ∈ hits.map HybridSearchHit.memoryId) :
      inOrg p.orgId db id = true := by
    obtain ⟨hit, inside, rfl⟩ := List.mem_map.mp present
    obtain ⟨m, row, score, rfl⟩ := own hit inside
    exact inOrg_of_mem m row
  have kept : notesOf isoformat (tenantQuery Memory.orgId p db.memories.rows)
      (hits.map HybridSearchHit.memoryId)
      (MemoryLinkRepo.conflictLinks db (hits.map HybridSearchHit.memoryId)) =
        notesOf isoformat (tenantQuery Memory.orgId p db.memories.rows)
          (hits.map HybridSearchHit.memoryId)
          ((MemoryLinkRepo.conflictLinks db (hits.map HybridSearchHit.memoryId)).filter fun link =>
            inOrg p.orgId db link.fromMemoryId && inOrg p.orgId db link.toMemoryId) := by
    rw [notesOf, notesOf, filterMap_flatMap_filter]
    intro link _ outside entry anchored
    split
    · rename_i anchorPresent
      have anchorOwn := presentInOrg _ (List.contains_iff_mem.mp anchorPresent)
      rw [Option.map_eq_none_iff, describe, Option.map_eq_none_iff]
      cases looked : (tenantQuery Memory.orgId p db.memories.rows).find?
          (fun m => m.id == entry.other) with
      | none => rfl
      | some m =>
          have same := List.find?_some looked
          have row := List.mem_of_find?_eq_some looked
          rw [tenantQuery_eq_filter member] at row
          have otherOwn := inOrg_of_mem m row
          rw [beq_iff_eq.mp same] at otherOwn
          rcases ends_of_mem_anchorsOf link entry anchored with ⟨first, second⟩ | ⟨first, second⟩
          · rw [← first, ← second, anchorOwn, otherOwn] at outside
            exact absurd outside (by simp)
          · rw [← first, ← second, anchorOwn, otherOwn] at outside
            exact absurd outside (by simp)
    · rfl
  have selected : (orgLinks p.orgId db).filter (fun link =>
      (link.linkType == .supersedes || link.linkType == .contradicts) &&
        ((hits.map HybridSearchHit.memoryId).contains link.fromMemoryId ||
          (hits.map HybridSearchHit.memoryId).contains link.toMemoryId)) =
      (MemoryLinkRepo.conflictLinks db (hits.map HybridSearchHit.memoryId)).filter fun link =>
        inOrg p.orgId db link.fromMemoryId && inOrg p.orgId db link.toMemoryId := by
    rw [orgLinks, MemoryLinkRepo.conflictLinks, List.filter_filter, List.filter_filter]
    apply List.filter_congr
    intro link _
    exact Bool.and_comm _ _
  rw [selected, ← kept, annotateConflicts]
  split
  · rename_i none
    rw [none]
    exact (withNotes_nil hits fresh).symm
  · exact congrArg (withNotes hits) (notesOf_listByIds isoformat _ _)

end Conflicts

theorem Agree.annotateConflicts (member : p.isSuperuser = false) (agree : Agree p.orgId db db')
    (isoformat : Instant → Str) (hits : List HybridSearchHit)
    (own : ∀ hit ∈ hits, Conflicts.HitOf p.orgId db hit) :
    Conflicts.annotateConflicts isoformat p db hits =
      Conflicts.annotateConflicts isoformat p db' hits := by
  have own' : ∀ hit ∈ hits, Conflicts.HitOf p.orgId db' hit := by
    intro hit inside
    obtain ⟨m, row, built⟩ := own hit inside
    exact ⟨m, agree.memories ▸ row, built⟩
  rw [Conflicts.annotateConflicts_eq isoformat member hits own,
    Conflicts.annotateConflicts_eq isoformat member hits own', agree.links, agree.tenantRows member]

/-- A principal retrieves the same from both stores. -/
structure SameRetrieval (engine : SearchEngine) (settings : Settings) (isoformat : Instant → Str)
    (p : Principal) (db db' : Database) : Prop where
  getByPublicId : ∀ publicId, MemoryRepo.getByPublicId p db publicId =
    MemoryRepo.getByPublicId p db' publicId
  list_ : ∀ scope tier kind limit offset maxSensitivity,
    MemoryRepo.list_ p db scope tier kind limit offset maxSensitivity =
      MemoryRepo.list_ p db' scope tier kind limit offset maxSensitivity
  hybridSearch : ∀ q, Retrieval.hybridSearch engine settings p db q =
    Retrieval.hybridSearch engine settings p db' q
  run : ∀ scopes embedder headroom plan,
    AgentLoop.run ⟨settings, engine, p, db, scopes, embedder, headroom⟩ plan =
      AgentLoop.run ⟨settings, engine, p, db', scopes, embedder, headroom⟩ plan
  annotateConflicts : ∀ hits, (∀ hit ∈ hits, Conflicts.HitOf p.orgId db hit) →
    Conflicts.annotateConflicts isoformat p db hits =
      Conflicts.annotateConflicts isoformat p db' hits

/-- What a principal retrieves is the same on two stores that agree on the rows of its org. -/
theorem sameRetrieval_of_agree (engine : SearchEngine) (settings : Settings)
    (isoformat : Instant → Str) (p : Principal) (member : p.isSuperuser = false) (db db' : Database)
    (agree : Agree p.orgId db db') : SameRetrieval engine settings isoformat p db db' where
  getByPublicId publicId := congrFun (agree.getByPublicId member) publicId
  list_ scope tier kind limit offset maxSensitivity := by rw [agree.list_ member]
  hybridSearch q := agree.hybridSearch member engine settings q
  run scopes embedder headroom plan :=
    agree.run member ⟨settings, engine, p, db, scopes, embedder, headroom⟩ rfl rfl plan
  annotateConflicts hits own := agree.annotateConflicts member isoformat hits own

/-- A memory of another org, with a link to it, changes nothing. -/
def sampleForeign : Database where
  memories := AgentLoop.sampleLinked.memories.insert
    { AgentLoop.sampleMemory 3 "x" .approved with orgId := 2 } (by
      intro other present
      have rows : other = AgentLoop.sampleMemory 1 "x" .approved ∨
          other = AgentLoop.sampleMemory 2 "y" .pending := by
        simpa [AgentLoop.sampleLinked, Table.insert, Table.empty] using present
      rcases rows with rfl | rfl <;> decide)
  links := AgentLoop.sampleLinked.links ++ [⟨1, 3, .contradicts, onePointZero, 0⟩]

theorem sampleForeign_agrees : Agree 1 AgentLoop.sampleLinked sampleForeign where
  memories := rfl
  projects := rfl
  links := rfl

theorem sameRetrieval_sampleForeign : SameRetrieval AgentLoop.sampleEngine {} (fun _ => "1970-01-01")
    AgentLoop.sampleMember AgentLoop.sampleLinked sampleForeign :=
  sameRetrieval_of_agree _ _ _ _ rfl _ _ sampleForeign_agrees

end Kortex
