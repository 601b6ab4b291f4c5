import Kortex.Library.Run
import Kortex.Model.Consolidation
import Kortex.Proof.Consolidation
import Kortex.Proof.MemoryTool

/-
This file proves when every memory of a project is analysed under the configuration of its project.
-/

namespace Kortex

namespace ConsolidationTask

variable {tools : Tools} {orgId : Nat} {db db' : Database}

/-- Where no row was added, every row only decays. -/
theorem Grows.rows_eq_map (grows : Grows db db')
    (same : db'.memories.rows.map Memory.publicId = db.memories.rows.map Memory.publicId) :
    ∃ change, db'.memories.rows = db.memories.rows.map change ∧ ∀ m, OnlyDecays m (change m) := by
  obtain ⟨change, summaries, rows, only, _⟩ := grows
  have lengths := congrArg List.length same
  rw [rows, List.length_map, List.length_map, List.length_append, List.length_map] at lengths
  have none : summaries = [] := List.length_eq_zero_iff.mp (by omega)
  exact ⟨change, by rw [rows, none, List.append_nil], only⟩

/-- The summary is the only new row, and the others decay. -/
theorem writeSummary_rows (ctx : CallContext) (candidates : List Memory) (anchor summary : Memory)
    (result : ConsolidationResult)
    (done : writeSummary tools orgId ctx candidates db anchor result = some (summary, db')) :
    ∃ change id, (∀ m, OnlyDecays m (change m)) ∧ db'.memories.rows = (db.memories.rows ++
      [Memory.decayed ctx.now onePointZero (some .long)
        { summaryRow orgId ctx anchor result with id := id }]).map change := by
  simp only [writeSummary, bind, Option.bind_eq_some_iff] at done
  obtain ⟨⟨created, inserted⟩, one, final, linked, same⟩ := done
  obtain ⟨rfl, rfl⟩ := Prod.mk.inj (Option.some.inj same)
  have rows := rows_applyDecay_insert ctx.now _ created ctx.idGap inserted one onePointZero (some .long)
  obtain ⟨shape, _⟩ := insertMemory_cases db _ _ created inserted one
  obtain ⟨grows, publicIds, _⟩ := linkMembers_spec ctx.now candidates created.id _ _ final linked
  obtain ⟨change, mapped, only⟩ := grows.rows_eq_map publicIds
  exact ⟨change, created.id, only, by rw [mapped, rows, ← shape]⟩

theorem linkMembers_projects (now : Instant) (candidates : List Memory) (summaryId : Nat)
    (ids : List Nat) (db db' : Database)
    (done : linkMembers tools now candidates summaryId db ids = some db') :
    db'.projects = db.projects := by
  induction ids generalizing db with
  | nil => rw [← Option.some.inj done]
  | cons mid rest ih =>
      simp only [linkMembers, bind, Option.bind_eq_some_iff] at done
      obtain ⟨⟨link, linked⟩, one, source, _, others⟩ := done
      simp only [MemoryLinkRepo.link] at one
      split at one
      · exact absurd one (by simp)
      · rw [ih _ others, ← (Prod.mk.inj (Option.some.inj one)).2]
        rfl

theorem writeSummary_projects (ctx : CallContext) (candidates : List Memory) (anchor summary : Memory)
    (result : ConsolidationResult)
    (done : writeSummary tools orgId ctx candidates db anchor result = some (summary, db')) :
    db'.projects = db.projects := by
  simp only [writeSummary, bind, Option.bind_eq_some_iff] at done
  obtain ⟨⟨created, inserted⟩, one, final, linked, same⟩ := done
  obtain ⟨rfl, rfl⟩ := Prod.mk.inj (Option.some.inj same)
  rw [linkMembers_projects _ _ _ _ _ _ linked]
  obtain ⟨_, _, _, _, tables⟩ := insertMemory_done db _ _ created inserted one
  rw [tables]
  rfl

theorem consolidateGroups_projects (ctx : Nat → CallContext) (candidates : List Memory) (i : Nat)
    (groups : List (Int × List Memory)) (written : List Written) (db db' : Database)
    (done : consolidateGroups tools orgId ctx candidates i groups db = some (written, db')) :
    db'.projects = db.projects := by
  induction groups generalizing i db written with
  | nil => rw [(Prod.mk.inj (Option.some.inj done)).2]
  | cons group rest ih =>
      obtain ⟨label, members⟩ := group
      rcases consolidateGroups_cons ctx candidates i label members rest written db db' done with
        ⟨_, later⟩ | ⟨result, anchor, others, summary, middle, written', _, _, _, one, later⟩
      · exact ih (i + 1) written db later
      · rw [ih (i + 1) written' middle later, writeSummary_projects _ _ _ _ _ one]

variable {Q W : Memory → Prop}

/-- A run keeps a property of all rows that decay does not touch exactly when its summaries have it. -/
theorem everyMemory_consolidateGroups (decays : ∀ m m', OnlyDecays m m' → (Q m' ↔ Q m))
    (summaries : ∀ ctx anchor result id, Q (Memory.decayed ctx.now onePointZero (some .long)
      { summaryRow orgId ctx anchor result with id := id }) ↔ W anchor)
    (ctx : Nat → CallContext) (candidates : List Memory) (i : Nat) (groups : List (Int × List Memory))
    (written : List Written) (db db' : Database) (all : EveryMemory Q db)
    (done : consolidateGroups tools orgId ctx candidates i groups db = some (written, db')) :
    EveryMemory Q db' ↔ ∀ members ∈ summarised tools groups, ∀ anchor ∈ members.head?, W anchor := by
  induction groups generalizing i db written with
  | nil =>
      obtain ⟨_, rfl⟩ := Prod.mk.inj (Option.some.inj done)
      exact iff_of_true all (by simp [summarised])
  | cons group rest ih =>
      obtain ⟨label, members⟩ := group
      rw [summarised, List.map_cons]
      rcases consolidateGroups_cons ctx candidates i label members rest written db db' done with
        ⟨skipped, later⟩ | ⟨result, anchor, others, summary, middle, written', found, rfl, rfl, one, later⟩
      · rw [List.filter_cons_of_neg (by rcases skipped with none | empty <;> simp [*])]
        exact ih (i + 1) written db all later
      · rw [List.filter_cons_of_pos (by rw [found]; rfl), List.forall_mem_cons]
        obtain ⟨change, id, only, rows⟩ := writeSummary_rows (ctx i) candidates anchor summary result one
        have exactly : EveryMemory Q middle ↔ W anchor := by
          rw [EveryMemory, rows, ← summaries (ctx i) anchor result id]
          simp only [List.mem_map, List.mem_append, List.mem_singleton]
          constructor
          · exact fun every => (decays _ _ (only _)).mp (every _ ⟨_, Or.inr rfl, rfl⟩)
          · rintro own _ ⟨m, old | rfl, rfl⟩
            · exact (decays _ _ (only m)).mpr (all m old)
            · exact (decays _ _ (only _)).mpr own
        have grows := (consolidateGroups_spec ctx candidates (i + 1) rest written' middle db' later).1
        constructor
        · intro every
          have before : EveryMemory Q middle := by
            intro m present
            obtain ⟨m', inside, decayed⟩ := grows.image m present
            exact (decays m m' decayed).mp (every m' inside)
          refine ⟨fun anchor' first => ?_, (ih (i + 1) written' middle before later).mp every⟩
          rw [List.head?_cons, Option.mem_def, Option.some.injEq] at first
          exact first ▸ exactly.mp before
        · rintro ⟨first, others⟩
          exact (ih (i + 1) written' middle (exactly.mpr (first anchor rfl)) later).mpr others

end ConsolidationTask

namespace Analyser

open MemoryService

/-- The row is analysed under the configuration of its project. -/
def Matches (projects : List Project) (m : Memory) : Prop :=
  m.live = true → m.scopeType = .project → ∀ project ∈ projects, project.id = m.scopeId →
    m.tsConfig = project.textSearchConfig

/-- Every live memory of a project has the configuration of its project. -/
def Consistent (db : Database) : Prop := EveryMemory (Matches db.projects) db

/-- The service has the configuration of the project in its cache, or finds it, or falls back on it. -/
def KnowsConfig (p : Principal) (service : ServiceCache) (project : Project) : Prop :=
  match Dict.get? service.projectSettings project.id with
  | some config => config.2 = project.textSearchConfig
  | none => ((p.isSuperuser = true ∨ project.orgId = p.orgId) ∧ project.deletedAt = none) ∨
      project.textSearchConfig = defaultTsConfig

variable (env : Environment) (supported : Str → Bool)

/-- The write that stores a new memory knows the configuration of its project. -/
def WritesCurrent (s : Session) (r : Request) : Prop :=
  ∀ payload embed force, r.call = .write payload embed force →
    MemoryTool.StoresNew env r.principal r.context s payload embed force →
      payload.scope.scopeType = .project → ∀ project ∈ s.db.projects,
        project.id = payload.scope.scopeId → KnowsConfig r.principal s.service project

/-- No other org has a live memory in the project, unless it is analysed this way already. -/
def ReachesAll (p : Principal) (db : Database) (projectId : Nat) (tsConfig : Str) : Prop :=
  ∀ m ∈ db.memories.rows, m.live = true → m.scopeType = .project → m.scopeId = projectId →
    m.orgId ≠ p.orgId → m.tsConfig = tsConfig

/-- The clusters that get a summary are led by no memory of a project with another configuration than
the default one. -/
def DefaultAnchors (tools : ConsolidationTask.Tools) (db : Database) (orgId : Nat) : Prop :=
  ∀ members ∈ ConsolidationTask.summarised tools (ConsolidationTask.groupsOf tools
    (MemoryRepo.listForConsolidation db orgId)), ∀ anchor ∈ members.head?,
      anchor.scopeType = .project → ∀ project ∈ db.projects, project.id = anchor.scopeId →
        project.textSearchConfig = defaultTsConfig

/-- The step stores or keeps no memory under another configuration than that of its project. -/
def KeepsConfig (s : State) : Event → Prop
  | .call service r => WritesCurrent env (Session.renew ⟨s.db, s.services service⟩ r.newService) r
  | .setTextSearchConfig p _ projectId tsConfig => supported tsConfig = true →
      projectById p s.db projectId ≠ none → ReachesAll p s.db projectId tsConfig
  | .consolidate tools orgId ctx => ConsolidationTask.consolidateOrg tools orgId ctx s.db ≠ none →
      DefaultAnchors tools s.db orgId

variable {env supported} {p : Principal} {ctx : CallContext} {s s' : Session}

theorem projectById_of_mem (db : Database) (unique : (db.projects.map Project.id).Nodup)
    (project : Project) (inside : project ∈ db.projects) :
    projectById p db project.id =
      if (p.isSuperuser = true ∨ project.orgId = p.orgId) ∧ project.deletedAt = none then some project
      else none := by
  have own (other : Project) (listed : other ∈ db.projects) (same : other.id = project.id) :
      other = project := List.inj_on_of_nodup_map unique listed inside same
  rw [projectById]
  split
  · rename_i visible
    cases found : (tenantQuery Project.orgId p db.projects).find? _ with
    | none =>
        have absent := List.find?_eq_none.mp found project
          ((mem_tenantQuery p Project.orgId db.projects project).mpr ⟨inside, visible.1⟩)
        simp [visible.2] at absent
    | some other =>
        have listed := (mem_tenantQuery p Project.orgId db.projects other).mp
          (List.mem_of_find?_eq_some found)
        have same := List.find?_some (p := fun other : Project =>
          other.id == project.id && other.deletedAt.isNone) found
        rw [Bool.and_eq_true, beq_iff_eq] at same
        rw [own other listed.1 same.1]
  · rename_i hidden
    apply List.find?_eq_none.mpr
    intro other listed accepted
    rw [mem_tenantQuery] at listed
    rw [Bool.and_eq_true, beq_iff_eq] at accepted
    obtain rfl := own other listed.1 accepted.1
    exact hidden ⟨listed.2, Option.isNone_iff_eq_none.mp accepted.2⟩

theorem projectConfig_iff (db : Database) (service : ServiceCache) (scope : ScopeFilter)
    (unique : (db.projects.map Project.id).Nodup) (inProject : scope.scopeType = .project)
    (project : Project) (inside : project ∈ db.projects) (same : project.id = scope.scopeId) :
    (projectConfig p db service scope).1.2 = project.textSearchConfig ↔
      KnowsConfig p service project := by
  rw [projectConfig, if_neg (not_not.mpr inProject), KnowsConfig, same]
  cases Dict.get? service.projectSettings scope.scopeId with
  | some config => rfl
  | none =>
      rw [← same]
      simp only [projectById_of_mem db unique project inside]
      split
      · rename_i visible
        exact iff_of_true rfl (Or.inl visible)
      · rename_i hidden
        rw [or_iff_right hidden]
        exact eq_comm

theorem matches_patched (projects : List Project) (now : Instant) (patch : MemoryPatch) (m : Memory)
    (own : Matches projects m) : Matches projects (m.patched now patch) := own

theorem everyMemory_write_matches (projects : List Project) (payload : CreateMemoryInput)
    (embed force : Bool) (result : MemoryWrite)
    (done : write env p ctx s payload embed force = .ok (result, s'))
    (all : EveryMemory (Matches projects) s.db) :
    EveryMemory (Matches projects) s'.db ↔ (result.deduped = false →
      payload.scope.scopeType = .project → ∀ project ∈ projects, project.id = payload.scope.scopeId →
        (projectConfig p s.db s.service payload.scope).1.2 = project.textSearchConfig) := by
  rcases write_cases payload embed force result done with
    ⟨existing, folds⟩ | ⟨_, mode, tsConfig, configured, stores⟩
  · have inside := (duplicateOf_some p s.db _ _ _ _ folds.duplicate).1
    rw [MemoryRepo.mem_liveRows] at inside
    rw [folds.updated, everyMemory_updateMemory s.db all existing inside.1, folds.deduped]
    exact iff_of_true (all existing inside.1) fun fresh => absurd fresh (by simp)
  · obtain ⟨embedding, _, inserted⟩ := stores.inserted
    obtain ⟨row, _, _, members⟩ := insertMemory_cases _ _ _ _ _ inserted
    have own : Matches projects result.memory ↔ (payload.scope.scopeType = .project →
        ∀ project ∈ projects, project.id = payload.scope.scopeId →
          tsConfig = project.textSearchConfig) := by
      rw [row, Matches]
      exact forall_prop_of_true rfl
    rw [configured, ← own, stores.deduped]
    constructor
    · exact fun every _ => every _ ((members _).mpr (Or.inr rfl))
    · intro new m inside
      rcases (members m).mp inside with old | rfl
      · exact all m old
      · exact new rfl

theorem write_projects (payload : CreateMemoryInput) (embed force : Bool) (result : MemoryWrite)
    (done : write env p ctx s payload embed force = .ok (result, s')) :
    s'.db.projects = s.db.projects := by
  rcases write_cases payload embed force result done with ⟨existing, folds⟩ | ⟨_, _, _, _, stores⟩
  · rw [folds.updated]
    rfl
  · obtain ⟨embedding, _, inserted⟩ := stores.inserted
    obtain ⟨_, _, _, _, tables⟩ := insertMemory_done _ _ _ _ _ inserted
    rw [tables]

/-- A call keeps the projects, and keeps the configurations exactly when its write knows its own. -/
theorem perform_matches (call : Call) (outcome : Outcome) (unique : (s.db.projects.map Project.id).Nodup)
    (done : perform env p ctx s call = .ok (outcome, s')) (all : Consistent s.db) :
    s'.db.projects = s.db.projects ∧ (Consistent s'.db ↔ ∀ payload embed force,
      call = .write payload embed force → MemoryTool.StoresNew env p ctx s payload embed force →
        payload.scope.scopeType = .project → ∀ project ∈ s.db.projects,
          project.id = payload.scope.scopeId → KnowsConfig p s.service project) := by
  cases call with
  | write payload embed force =>
      simp only [perform, mapFst_eq_ok] at done
      obtain ⟨written, done, _⟩ := done
      have same := write_projects payload embed force written done
      refine ⟨same, ?_⟩
      rw [Consistent, same, everyMemory_write_matches _ payload embed force written done all]
      constructor
      · rintro own _ _ _ asked ⟨result, after, done', fresh⟩ inProject project inside equal
        obtain ⟨rfl, rfl, rfl⟩ := Call.write.inj asked
        obtain ⟨rfl, _⟩ := Prod.mk.inj (Except.ok.inj (done.symm.trans done'))
        exact (projectConfig_iff s.db s.service _ unique inProject project inside equal).mp
          (own fresh inProject project inside equal)
      · intro knows fresh inProject project inside equal
        exact (projectConfig_iff s.db s.service _ unique inProject project inside equal).mpr
          (knows payload embed force rfl ⟨written, s', done, fresh⟩ inProject project inside equal)
  | update publicId patch =>
      simp only [perform, mapFst_eq_ok] at done
      obtain ⟨row, done, _⟩ := done
      have kept := (everyMemory_update all publicId patch row done).mpr fun m edits =>
        matches_patched _ ctx.now patch m
          (all m (visible_of_getByPublicId p s.db publicId m edits.found).1)
      have same : s'.db.projects = s.db.projects := by
        rcases update_cases publicId patch row done with ⟨_, rfl⟩ | ⟨m, _, updated⟩
        · rfl
        · rw [updated]
          rfl
      exact ⟨same, iff_of_true (by rwa [Consistent, same]) (by simp)⟩
  | setPinned publicId pinned =>
      simp only [perform, mapFst_eq_ok] at done
      obtain ⟨row, done, _⟩ := done
      have kept := everyMemory_setPinned all publicId pinned row done fun m own => own
      have same : s'.db.projects = s.db.projects := by
        rcases setPinned_cases publicId pinned row done with rfl | ⟨m, _, updated⟩
        · rfl
        · rw [updated]
          rfl
      exact ⟨same, iff_of_true (by rwa [Consistent, same]) (by simp)⟩
  | review publicId approve =>
      simp only [perform, mapFst_eq_ok] at done
      obtain ⟨row, done, _⟩ := done
      have kept := everyMemory_review all publicId approve row done fun m status own => own
      have same : s'.db.projects = s.db.projects := by
        rcases review_cases publicId approve row done with rfl | ⟨_, _, _, _, _, same⟩
        · rfl
        · exact same
      exact ⟨same, iff_of_true (by rwa [Consistent, same]) (by simp)⟩
  | delete publicId =>
      simp only [perform, mapFst_eq_ok] at done
      obtain ⟨row, done, _⟩ := done
      have kept := everyMemory_delete all publicId row done fun m _ live =>
        absurd live (by simp [Memory.live, Memory.softDeleted])
      have same : s'.db.projects = s.db.projects := by
        rcases delete_cases publicId row done with ⟨_, rfl⟩ | ⟨_, _, _, same⟩
        · rfl
        · exact same
      exact ⟨same, iff_of_true (by rwa [Consistent, same]) (by simp)⟩

theorem withTextSearchConfig_id (projectId : Nat) (tsConfig : Str) (project : Project) :
    (project.withTextSearchConfig projectId tsConfig).id = project.id := by
  rw [Project.withTextSearchConfig]
  split <;> rfl

/-- The rewrite of a project keeps the configurations exactly when it reaches every memory of it. -/
theorem consistent_reanalysed (now : Instant) (db : Database) (projectId : Nat) (tsConfig : Str)
    (known : ∃ project ∈ db.projects, project.id = projectId) (all : Consistent db) :
    Consistent (MemoryRepo.reanalyseScope p now { db with
      projects := db.projects.map (Project.withTextSearchConfig projectId tsConfig) }
        ⟨.project, projectId⟩ tsConfig) ↔ ReachesAll p db projectId tsConfig := by
  have rows (x : Memory) : x ∈ (MemoryRepo.reanalyseScope p now { db with
      projects := db.projects.map (Project.withTextSearchConfig projectId tsConfig) }
        ⟨.project, projectId⟩ tsConfig).memories.rows ↔ ∃ m ∈ db.memories.rows, Table.changeRow
          (MemoryRepo.isReanalysed p ⟨.project, projectId⟩) (Memory.reanalysed now tsConfig) m = x :=
    Table.mem_update db.memories _ _ (Memory.reanalysed_ident now tsConfig) x
  have reached (m : Memory) : MemoryRepo.isReanalysed p ⟨.project, projectId⟩ m = true ↔
      m.orgId = p.orgId ∧ (m.scopeType = .project ∧ m.scopeId = projectId) ∧ m.live = true := by
    simp only [MemoryRepo.isReanalysed, Memory.inScope, Bool.and_eq_true, beq_iff_eq, and_assoc]
  constructor
  · intro consistent m present live inProject same other
    obtain ⟨project, inside, equal⟩ := known
    have skipped : ¬ MemoryRepo.isReanalysed p ⟨.project, projectId⟩ m = true :=
      fun picked => other ((reached m).mp picked).1
    have own := consistent m ((rows m).mpr ⟨m, present, if_neg skipped⟩) live inProject
      (project.withTextSearchConfig projectId tsConfig) (List.mem_map_of_mem inside)
      (by rw [withTextSearchConfig_id, equal, same])
    rw [own, Project.withTextSearchConfig, if_pos equal]
  · intro reaches x inside
    obtain ⟨m, present, rfl⟩ := (rows x).mp inside
    intro live inProject changed listed same
    obtain ⟨project, known', rfl⟩ := List.mem_map.mp listed
    rw [withTextSearchConfig_id] at same
    rw [Table.changeRow] at live inProject same ⊢
    by_cases picked : MemoryRepo.isReanalysed p ⟨.project, projectId⟩ m = true
    · rw [if_pos picked] at same ⊢
      have own : project.id = projectId := same.trans ((reached m).mp picked).2.1.2
      rw [Project.withTextSearchConfig, if_pos own]
      rfl
    · rw [if_neg picked] at live inProject same ⊢
      rw [Project.withTextSearchConfig]
      split
      · rename_i own
        have foreign : m.orgId ≠ p.orgId := fun equal =>
          picked ((reached m).mpr ⟨equal, ⟨inProject, same.symm.trans own⟩, live⟩)
        exact reaches m present live inProject (same.symm.trans own) foreign
      · exact all m present live inProject project known' same

theorem projectById_some (db : Database) (projectId : Nat) (project : Project)
    (found : projectById p db projectId = some project) :
    project ∈ db.projects ∧ project.id = projectId := by
  have listed := (mem_tenantQuery p Project.orgId db.projects project).mp (List.mem_of_find?_eq_some found)
  have same := List.find?_some (p := fun other : Project =>
    other.id == projectId && other.deletedAt.isNone) found
  rw [Bool.and_eq_true, beq_iff_eq] at same
  exact ⟨listed.1, same.1⟩

variable (env supported p) in
theorem setTextSearchConfig_matches (now : Instant) (db : Database) (projectId : Nat) (tsConfig : Str)
    (all : Consistent db) :
    (∀ db', setTextSearchConfig env supported p now db projectId tsConfig = .ok db' →
      db'.projects.map Project.id = db.projects.map Project.id) ∧
    ((∀ db', setTextSearchConfig env supported p now db projectId tsConfig = .ok db' → Consistent db') ↔
      (supported tsConfig = true → projectById p db projectId ≠ none →
        ReachesAll p db projectId tsConfig)) := by
  rw [setTextSearchConfig]
  split
  · rename_i accepted
    cases found : projectById p db projectId with
    | none => simp
    | some project =>
        obtain ⟨inside, rfl⟩ := projectById_some db projectId project found
        simp only [Except.ok.injEq, forall_eq', accepted, forall_true_left, ne_eq, reduceCtorEq,
          not_false_eq_true]
        refine ⟨?_, consistent_reanalysed now db project.id tsConfig ⟨project, inside, rfl⟩ all⟩
        change (db.projects.map _).map Project.id = _
        rw [List.map_map]
        exact List.map_congr_left fun other _ => withTextSearchConfig_id project.id tsConfig other
  · rename_i refused
    simp [refused]

theorem consolidate_matches (tools : ConsolidationTask.Tools) (orgId : Nat) (ctx : Nat → CallContext)
    (db : Database) (all : Consistent db) :
    (ConsolidationTask.afterRun tools orgId ctx db).projects = db.projects ∧
      (Consistent (ConsolidationTask.afterRun tools orgId ctx db) ↔
        (ConsolidationTask.consolidateOrg tools orgId ctx db ≠ none → DefaultAnchors tools db orgId)) := by
  rw [ConsolidationTask.afterRun]
  cases done : ConsolidationTask.consolidateOrg tools orgId ctx db with
  | none => exact ⟨rfl, iff_of_true all fun some => absurd rfl some⟩
  | some result =>
      obtain ⟨written, db'⟩ := result
      have same := ConsolidationTask.consolidateGroups_projects ctx _ 0 _ written db db' done
      refine ⟨same, ?_⟩
      have decays (m m' : Memory) (only : ConsolidationTask.OnlyDecays m m') :
          Matches db.projects m' ↔ Matches db.projects m := by
        rw [only]
        rfl
      have exactly := ConsolidationTask.everyMemory_consolidateGroups
        (W := fun anchor => anchor.scopeType = .project → ∀ project ∈ db.projects,
          project.id = anchor.scopeId → project.textSearchConfig = defaultTsConfig) decays
        (fun ctx anchor result id => ?_) ctx _ 0 _ written db db' all done
      · simp only [Option.map_some, Option.getD_some, ne_eq, reduceCtorEq, not_false_eq_true,
          forall_true_left, Consistent, same]
        exact exactly
      · constructor
        · exact fun own inProject project inside equal => (own rfl inProject project inside equal).symm
        · exact fun own _ inProject project inside equal => (own inProject project inside equal).symm

variable (env supported) in
/-- A step keeps the configurations exactly when it stores none but that of the project. -/
theorem consistent_step (s : State) (e : Event) (unique : (s.db.projects.map Project.id).Nodup)
    (all : Consistent s.db) :
    (step env supported s e).db.projects.map Project.id = s.db.projects.map Project.id ∧
      (Consistent (step env supported s e).db ↔ KeepsConfig env supported s e) := by
  cases e with
  | call service r =>
      have sameDb : (Session.renew ⟨s.db, s.services service⟩ r.newService).db = s.db :=
        renew_db _ r.newService
      simp only [step, MemoryService.step, respond]
      cases done : perform env r.principal r.context
          (Session.renew ⟨s.db, s.services service⟩ r.newService) r.call with
      | error e =>
          refine ⟨rfl, iff_of_true all ?_⟩
          rintro payload embed force asked ⟨result, s', stored, _⟩
          simp [asked, perform, stored, Except.map] at done
      | ok result =>
          rw [← sameDb] at unique all
          obtain ⟨same, exactly⟩ := perform_matches r.call result.1 unique done all
          rw [sameDb] at same
          exact ⟨congrArg _ same, exactly⟩
  | setTextSearchConfig p now projectId tsConfig =>
      obtain ⟨ids, exactly⟩ := setTextSearchConfig_matches env supported p now s.db
        projectId tsConfig all
      simp only [step, KeepsConfig, ← exactly]
      cases done : setTextSearchConfig env supported p now s.db projectId tsConfig with
      | error e => exact ⟨rfl, iff_of_true all fun _ other => absurd other (by simp)⟩
      | ok db' =>
          refine ⟨ids db' done, fun own db other => ?_, fun own => own db' rfl⟩
          rwa [← Except.ok.inj other]
  | consolidate tools orgId ctx =>
      obtain ⟨same, exactly⟩ := consolidate_matches tools orgId ctx s.db all
      exact ⟨congrArg _ same, exactly⟩

/-- Along a run every live memory of a project has the configuration of its project exactly when every
step keeps it. -/
theorem consistent_run_iff (env : Environment) (supported : Str → Bool) (s : State)
    (unique : (s.db.projects.map Project.id).Nodup) (start : Consistent s.db) (events : List Event) :
    Run.Always (step env supported) (fun s => Consistent s.db) s events ↔
      Run.Each (step env supported) (KeepsConfig env supported) s events :=
  Run.always_iff_each_of_strong
    (S := fun s => Consistent s.db ∧ (s.db.projects.map Project.id).Nodup) events
    (fun _ strong => strong.1)
    (fun s e _ strong => (consistent_step env supported s e strong.2 strong.1).2.mp)
    (fun s e _ strong keeps => by
      obtain ⟨ids, exactly⟩ := consistent_step env supported s e strong.2 strong.1
      exact ⟨exactly.mpr keeps, ids ▸ strong.2⟩) ⟨start, unique⟩

/-- A project of French memories has two of them in the mid tier. -/
def frenchStore : Database :=
  let mid := ConsolidationTask.twoMemories 1 .approved
  { mid with
    projects := [⟨1, 1, .off, "french", none⟩]
    memories := mid.memories.update (fun _ => true)
      (fun m => { m with scopeType := .project, tsConfig := "french" }) fun _ => rfl }

def frenchState : State := ⟨frenchStore, fun _ => {}⟩

theorem frenchStore_consistent : Consistent frenchStore := by
  have configs : ∀ m ∈ frenchStore.memories.rows, m.tsConfig = "french".toList := by decide +kernel
  intro m present _ _ project listed _
  rw [configs m present, List.mem_singleton.mp listed]

/-- Another analyser is set before the memories are summarised. -/
def simplified : List Event :=
  [.setTextSearchConfig sampleOwner 5 1 "simple", .consolidate ConsolidationTask.oneCluster 1
    ConsolidationTask.sampleContext]

theorem consistent_run_iff_of_frenchState :
    Run.Always (step (.ascii fun s => s) fun _ => true) (fun s => Consistent s.db) frenchState
        simplified ↔
      Run.Each (step (.ascii fun s => s) fun _ => true) (KeepsConfig (.ascii fun s => s) fun _ => true)
        frenchState simplified :=
  consistent_run_iff _ _ frenchState (by decide) frenchStore_consistent simplified

theorem french_summary : ("english".toList, true, ScopeType.project, 1) ∈
    (ConsolidationTask.afterRun ConsolidationTask.oneCluster 1 ConsolidationTask.sampleContext
      frenchStore).memories.rows.map (fun m => (m.tsConfig, m.live, m.scopeType, m.scopeId)) := by
  decide +kernel

/-- The summary of French memories is analysed as English. -/
theorem summary_is_english : ¬ ∀ (env : Environment) (supported : Str → Bool) (s : State),
    (s.db.projects.map Project.id).Nodup → Consistent s.db → ∀ events : List Event,
      Run.Always (step env supported) (fun s => Consistent s.db) s events := by
  intro claim
  have consistent := (claim (.ascii fun s => s) (fun _ => true) frenchState (by decide)
    frenchStore_consistent [.consolidate ConsolidationTask.oneCluster 1
      ConsolidationTask.sampleContext]).final
  obtain ⟨m, inside, values⟩ := List.mem_map.mp french_summary
  simp only [Prod.mk.injEq] at values
  obtain ⟨config, live, inProject, scopeId⟩ := values
  have same := consistent m inside live inProject ⟨1, 1, .off, "french", none⟩
    ((consolidate_matches ConsolidationTask.oneCluster 1 ConsolidationTask.sampleContext frenchStore
      frenchStore_consistent).1 ▸ List.mem_singleton_self _) scopeId.symm
  rw [config] at same
  exact absurd same (by decide)

end Analyser
end Kortex
