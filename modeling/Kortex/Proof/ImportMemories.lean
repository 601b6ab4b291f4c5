import Kortex.Proof.Archive
import Kortex.Proof.QuotaInterleaving

/-
This file proves when an import copies the memories of an archive one to one.
-/

namespace Kortex.ExportService

open MemoryService

variable {env : Environment} {p : Principal} {target : ScopeFilter} {ctx : Nat → CallContext}
variable {db : Database}

/-- The principal may write every sensitivity in the scope, whose writes need no review, and the PII
policy only tags. -/
structure Admitted (env : Environment) (p : Principal) (target : ScopeFilter) (db : Database) : Prop where
  tag : env.settings.piiPolicy = .tag
  keyScope : p.hasKeyScope "write:memory" = true
  writes : ∀ sensitivity, AccessControl.canWrite p ⟨target.ref, sensitivity⟩ = true
  ungated : (projectConfig p db {} target).1.1 = .off

/-- This is what the importer writes for a memory of the archive. -/
def copyInput (target : ScopeFilter) (m : Memory) : CreateMemoryInput where
  scope := target
  body := m.body
  title := m.title
  kind := m.kind
  sensitivity := m.sensitivity
  sourceType := .derived
  sourceRef := some [("imported_from", .str m.publicId.str)]
  importance := m.importance
  pinned := m.pinned
  metadata := some m.metadata

theorem rowInput_memoryRow (m : Memory) :
    rowInput target (memoryRow m) = some (m.publicId.str, copyInput target m) := by
  have kinds : MemoryKind.ofValue? m.kind.value = some m.kind := by cases m.kind <;> decide
  have sensitivities : Sensitivity.ofValue? m.sensitivity.value = some m.sensitivity := by
    cases m.sensitivity <;> decide
  change (do
    let kind ← MemoryKind.ofValue? m.kind.value
    let sensitivity ← Sensitivity.ofValue? m.sensitivity.value
    let metadata ← some (some m.metadata)
    return (m.publicId.str, { copyInput target m with
      kind := kind, sensitivity := sensitivity, metadata := metadata })) = _
  rw [kinds, sensitivities]
  rfl

theorem screen_tag (tag : env.settings.piiPolicy = .tag) (payload : CreateMemoryInput) :
    (screen env payload).title = payload.title ∧ (screen env payload).body = payload.body ∧
      (screen env payload).sensitivity = payload.sensitivity := by
  simp only [screen, tag]
  split <;> exact ⟨rfl, rfl, rfl⟩

/-- A derived memory is approved where no review is asked for. -/
theorem reviewDecision_copy (m : Memory) (screened : Screened) :
    reviewDecision env (copyInput target m) screened .off = { status := .approved } := by
  have trusted (text : Str) : shouldQuarantine env.unicode (trustForSource .derived) text =
      { suspicious := false } := rfl
  simp only [reviewDecision, copyInput, trusted]
  split <;> rfl

/-- The fingerprint that a write gives to the text of a memory. -/
def printOf (env : Environment) (m : Memory) : Option Str :=
  if env.settings.dedupOnWrite then some (contentHash env m.title m.body) else none

theorem fingerprint_copy (tag : env.settings.piiPolicy = .tag) (m : Memory) :
    fingerprint env (screen env (copyInput target m)) = printOf env m := by
  obtain ⟨title, body, _⟩ := screen_tag tag (copyInput target m)
  rw [fingerprint, title, body, printOf]
  rfl

/-- The live memory of the scope says what the original says. -/
structure IsCopy (target : ScopeFilter) (m m' : Memory) : Prop where
  live : m'.live = true
  inScope : m'.inScope target = true
  approved : m'.reviewStatus = .approved
  title : m'.title = m.title
  body : m'.body = m.body
  kind : m'.kind = m.kind
  sensitivity : m'.sensitivity = m.sensitivity
  importance : m'.importance = m.importance
  pinned : m'.pinned = m.pinned
  metadata : m'.metadata = m.metadata

/-- The copy belongs to the org of the principal and has the fingerprint of its text. -/
structure Copied (env : Environment) (p : Principal) (target : ScopeFilter) (m m' : Memory) : Prop
    extends IsCopy target m m' where
  orgId : m'.orgId = p.orgId
  contentHash : m'.contentHash = printOf env m

theorem copied_newRow (tag : env.settings.piiPolicy = .tag) (context : CallContext) (m : Memory)
    (tsConfig : Str) (id : Nat) : Copied env p target m
      { newRow env p context (copyInput target m) (screen env (copyInput target m))
          { status := .approved } tsConfig none with id := id } := by
  obtain ⟨title, body, sensitivity⟩ := screen_tag tag (copyInput target m)
  refine ⟨⟨rfl, ?_, rfl, title, body, rfl, sensitivity, rfl, rfl, rfl⟩, rfl, fingerprint_copy tag m⟩
  simp [newRow, Memory.inScope, copyInput]

theorem storable_newRow (tag : env.settings.piiPolicy = .tag) (context : CallContext) (m : Memory)
    (storable : m.storable = true) (tsConfig : Str) :
    (newRow env p context (copyInput target m) (screen env (copyInput target m))
      { status := .approved } tsConfig none).storable = true := by
  obtain ⟨title, body, _⟩ := screen_tag tag (copyInput target m)
  simp only [Memory.storable, Bool.and_eq_true] at storable
  obtain ⟨⟨⟨⟨⟨titles, bodies⟩, metadata⟩, _⟩, _⟩, _⟩ := storable
  have source : Json.storableMembers [("imported_from", .str m.publicId.str)] = true := by
    have accepted : PyValue.accepts m.publicId.str = true := by
      rw [PyValue.accepts, List.all_eq_true]
      intro c present
      have printable := List.all_eq_true.mp (Uuid.isPlain_str m.publicId) c present
      simp only [Json.isPlain, Bool.and_eq_true, decide_eq_true_eq] at printable
      exact decide_eq_true (by omega)
    rw [Json.storableMembers, Json.storable, accepted, Json.storableMembers]
    decide
  simp only [Memory.storable, newRow, title, body]
  simp only [copyInput, titles, bodies, metadata, source, Option.getD_some, Option.all_some,
    Bool.and_self, Bool.true_and]
  rfl

/-- This is the number of memories that the quota counts before a write. -/
def countOf (p : Principal) (s : Session) : Nat :=
  s.service.memCount.getD (MemoryRepo.countForOrg s.db p.orgId)

/-- This is the number of memories that the plan of the principal's org allows. -/
def capOf (p : Principal) (s : Session) : Int := maxMemories (orgPlan p s.db s.service)

theorem enforceMemoryQuota_eq (db : Database) (service : ServiceCache) :
    enforceMemoryQuota p db service =
      if capOf p ⟨db, service⟩ ≤ countOf p ⟨db, service⟩ then
        .error (.quotaExceeded ("memory limit reached for the " ++ orgPlan p db service ++ " plan (" ++
          Str.groupThousands (Str.ofInt (capOf p ⟨db, service⟩)) ++
            " memories). Upgrade your plan to store more."))
      else .ok { service with
        orgPlan := some (orgPlan p db service), memCount := some (countOf p ⟨db, service⟩ + 1) } := by
  have positive := WriteSessions.maxMemories_nonneg (orgPlan p db service)
  rw [enforceMemoryQuota]
  exact if_neg (by omega)

/-- A service that knows the configuration of a scope reads it again. -/
theorem projectConfig_again (db : Database) (service : ServiceCache) (scope : ScopeFilter)
    (db' : Database) (service' : ServiceCache)
    (kept : service'.projectSettings = (projectConfig p db service scope).2.projectSettings) :
    (projectConfig p db' service' scope).1 = (projectConfig p db service scope).1 := by
  unfold projectConfig at kept ⊢
  by_cases other : scope.scopeType ≠ .project
  · rw [if_pos other, if_pos other]
  · rw [if_neg other] at kept ⊢
    rw [if_neg other]
    cases cached : Dict.get? service.projectSettings scope.scopeId with
    | some config =>
        rw [cached] at kept
        simp only at kept
        rw [kept, cached]
    | none =>
        rw [cached] at kept
        simp only at kept
        rw [kept, Dict.get?_set, if_pos rfl]

/-- A write that finds no duplicate stores the memory where the plan has room for it. -/
theorem write_new (admitted : Admitted env p target db) (s : Session) (context : CallContext) (m : Memory)
    (config : (projectConfig p s.db s.service target).1.1 = .off)
    (fresh : duplicateOf env p s.db target (screen env (copyInput target m)) false = none)
    (room : countOf p s < capOf p s) (created : Memory) (db' : Database)
    (inserted : s.db.insertMemory (newRow env p context (copyInput target m)
      (screen env (copyInput target m)) { status := .approved }
        (projectConfig p s.db s.service target).1.2 none) context.idGap = some (created, db')) :
    ∃ written service', write env p context s (copyInput target m) false false =
      .ok (written, ⟨db', service'⟩) ∧ written.memory = created ∧
        service'.orgPlan = some (orgPlan p s.db s.service) ∧
        service'.memCount = some (countOf p s + 1) ∧
        service'.projectSettings = (projectConfig p s.db s.service target).2.projectSettings := by
  have scope : requireScope p "write:memory" = .ok () := if_pos admitted.keyScope
  have create : requireCreate p (copyInput target m) = .ok () := if_pos (admitted.writes _)
  obtain ⟨plan, count⟩ := WriteSessions.projectConfig_counts p s.db s.service target
  have samePlan : orgPlan p s.db (projectConfig p s.db s.service target).2 =
      orgPlan p s.db s.service := by
    rw [orgPlan, plan]
    rfl
  have sameCount : countOf p ⟨s.db, (projectConfig p s.db s.service target).2⟩ = countOf p s := by
    rw [countOf, count]
    rfl
  have enforced := enforceMemoryQuota_eq (p := p) s.db (projectConfig p s.db s.service target).2
  rw [capOf, samePlan, sameCount] at enforced
  replace enforced := enforced.trans (if_neg (not_le.mpr room))
  have sameScope : (copyInput target m).scope = target := rfl
  refine ⟨{ memory := created, deduped := false, piiFlags := (screen env (copyInput target m)).findings
            redacted := (screen env (copyInput target m)).redacted, pendingReview := false
            reviewReason := [] }, { (projectConfig p s.db s.service target).2 with
      orgPlan := some (orgPlan p s.db s.service), memCount := some (countOf p s + 1) },
    ?_, rfl, rfl, rfl, rfl⟩
  simp only [write, scope, create, sameScope, fresh, config, reviewDecision_copy, store, enforced,
    inlineEmbedding, inserted, flush, bind, Except.bind, Bool.false_eq_true, if_false]
  rfl

/-- A write that stores a memory has found no duplicate, and the plan had room for it. -/
theorem room_of_write (s s' : Session) (context : CallContext) (m : Memory) (written : MemoryWrite)
    (fresh : duplicateOf env p s.db target (screen env (copyInput target m)) false = none)
    (done : write env p context s (copyInput target m) false false = .ok (written, s')) :
    countOf p s < capOf p s := by
  obtain ⟨plan, count⟩ := WriteSessions.projectConfig_counts p s.db s.service target
  have sameScope : (copyInput target m).scope = target := rfl
  simp only [write, sameScope, fresh, bind_eq_ok, store] at done
  obtain ⟨_, _, _, _, service, enforced, _⟩ := done
  rw [enforceMemoryQuota_eq] at enforced
  split at enforced
  · exact absurd enforced (by simp)
  · rename_i below
    simp only [capOf, countOf, orgPlan, plan, count] at below ⊢
    omega

/-- The import has copied the first memories of the archive. -/
structure Progress (env : Environment) (p : Principal) (target : ScopeFilter) (ctx : Nat → CallContext)
    (db : Database) (pairs : List (Memory × Memory)) (oldToNew : OldToNew) (s : Session) : Prop where
  rows : s.db.memories.rows = db.memories.rows ++ pairs.map Prod.snd
  frame : s.db = { db with memories := s.db.memories }
  copies : ∀ pair ∈ pairs, Copied env p target pair.1 pair.2
  minted : ∀ pair ∈ pairs, ∃ i < pairs.length, pair.2.publicId = (ctx i).newPublicId
  mapped : oldToNew = pairs.map fun pair => (pair.1.publicId.str, pair.2.publicId)
  plan : capOf p s = capOf p ⟨db, {}⟩
  count : countOf p s = countOf p ⟨db, {}⟩ + pairs.length
  config : (projectConfig p s.db s.service target).1.1 = .off

variable {pairs : List (Memory × Memory)} {oldToNew oldToNew' : OldToNew} {s s' : Session}

theorem progress_start (admitted : Admitted env p target db) :
    Progress env p target ctx db [] [] ⟨db, {}⟩ where
  rows := by simp
  frame := rfl
  copies _ inside := absurd inside List.not_mem_nil
  minted _ inside := absurd inside List.not_mem_nil
  mapped := rfl
  plan := rfl
  count := rfl
  config := admitted.ungated

/-- No live memory stands in the scope. -/
def EmptyScope (target : ScopeFilter) (db : Database) : Prop :=
  ∀ m ∈ db.memories.rows, m.live = true → m.inScope target = false

/-- The live memories of the scope are the copies. -/
theorem mem_scope_iff (empty : EmptyScope target db)
    (progress : Progress env p target ctx db pairs oldToNew s) (m : Memory) :
    (m ∈ MemoryRepo.liveRows p s.db ∧ m.inScope target = true) ↔ ∃ pair ∈ pairs, pair.2 = m := by
  rw [MemoryRepo.mem_liveRows, progress.rows, List.mem_append, List.mem_map]
  constructor
  · rintro ⟨⟨old | ⟨pair, inside, rfl⟩, _, live⟩, inScope⟩
    · exact absurd inScope (by simp [empty m old live])
    · exact ⟨pair, inside, rfl⟩
  · rintro ⟨pair, inside, rfl⟩
    have copied := progress.copies pair inside
    exact ⟨⟨Or.inr ⟨pair, inside, rfl⟩, Or.inr copied.orgId, copied.live⟩, copied.inScope⟩

/-- The second memory is a verbatim repeat of the first one, and repeats are folded. -/
def Clash (env : Environment) (m m' : Memory) : Prop :=
  env.settings.dedupOnWrite = true ∧ contentHash env m.title m.body = contentHash env m'.title m'.body

theorem clash_iff (m m' : Memory) : Clash env m m' ↔ ∃ hash, printOf env m' = some hash ∧
    printOf env m = some hash := by
  simp only [Clash, printOf]
  by_cases dedup : env.settings.dedupOnWrite = true
  · simp [dedup]
  · simp [dedup]

/-- A write folds into the copy of a memory that it repeats. -/
theorem clash_of_duplicate (admitted : Admitted env p target db) (empty : EmptyScope target db)
    (progress : Progress env p target ctx db pairs oldToNew s) (m existing : Memory)
    (found : duplicateOf env p s.db target (screen env (copyInput target m)) false = some existing) :
    ∃ pair ∈ pairs, pair.2 = existing ∧ Clash env pair.1 m := by
  simp only [duplicateOf, Bool.false_eq_true, if_false, fingerprint_copy admitted.tag,
    Option.bind_eq_some_iff] at found
  obtain ⟨hash, own, found⟩ := found
  obtain ⟨inside, inScope, same⟩ := MemoryRepo.findByContentHash_some p s.db target hash existing found
  obtain ⟨pair, member, rfl⟩ := (mem_scope_iff empty progress existing).mp ⟨inside, inScope⟩
  have copied := (progress.copies pair member).contentHash
  exact ⟨pair, member, rfl, (clash_iff _ _).mpr ⟨hash, own, by rw [← copied, same]⟩⟩

/-- A memory that repeats one before it has a duplicate. -/
theorem duplicate_of_clash (admitted : Admitted env p target db) (empty : EmptyScope target db)
    (progress : Progress env p target ctx db pairs oldToNew s) (m : Memory)
    (pair : Memory × Memory) (inside : pair ∈ pairs) (clash : Clash env pair.1 m) :
    duplicateOf env p s.db target (screen env (copyInput target m)) false ≠ none := by
  intro absent
  obtain ⟨hash, own, same⟩ := (clash_iff _ _).mp clash
  obtain ⟨row, inScope⟩ := (mem_scope_iff empty progress pair.2).mpr ⟨pair, inside, rfl⟩
  simp only [duplicateOf, Bool.false_eq_true, if_false, fingerprint_copy admitted.tag, own,
    Option.bind_some] at absent
  apply findByContentHash_none p s.db target hash absent pair.2 row inScope
  rw [(progress.copies pair inside).contentHash, same]

/-- The first public ids of the import are new and different. -/
structure Mints (ctx : Nat → CallContext) (n : Nat) (db : Database) : Prop where
  fresh : ∀ i < n, ∀ row ∈ db.memories.rows, row.publicId ≠ (ctx i).newPublicId
  apart : ∀ i < n, ∀ j < n, i ≠ j → (ctx i).newPublicId ≠ (ctx j).newPublicId

/-- A memory that repeats none before it is copied where the plan has room for it. -/
theorem importMemory_new (admitted : Admitted env p target db) (empty : EmptyScope target db)
    (progress : Progress env p target ctx db pairs oldToNew s) (n : Nat) (mints : Mints ctx n db)
    (within : pairs.length < n) (m : Memory) (storable : m.storable = true)
    (absent : ∀ pair ∈ pairs, pair.1.publicId.str ≠ m.publicId.str)
    (apart : ∀ pair ∈ pairs, ¬ Clash env pair.1 m)
    (room : (countOf p ⟨db, {}⟩ + pairs.length : Int) < capOf p ⟨db, {}⟩) :
    ∃ m' oldToNew' s', importMemory env p target (ctx pairs.length) oldToNew s (.obj (memoryRow m)) =
      .ok (oldToNew', s') ∧ Progress env p target ctx db (pairs ++ [(m, m')]) oldToNew' s' := by
  have fresh : duplicateOf env p s.db target (screen env (copyInput target m)) false = none := by
    cases found : duplicateOf env p s.db target (screen env (copyInput target m)) false with
    | none => rfl
    | some existing =>
        obtain ⟨pair, inside, _, clash⟩ := clash_of_duplicate admitted empty progress m existing found
        exact absurd clash (apart pair inside)
  have minted : ∀ row ∈ s.db.memories.rows, row.publicId ≠ (ctx pairs.length).newPublicId := by
    intro row stored
    rw [progress.rows, List.mem_append, List.mem_map] at stored
    rcases stored with old | ⟨pair, inside, rfl⟩
    · exact mints.fresh _ within row old
    · obtain ⟨i, below, same⟩ := progress.minted pair inside
      rw [same]
      exact mints.apart i (below.trans within) _ within (Nat.ne_of_lt below)
  obtain ⟨m', db', inserted⟩ := insertMemory_some s.db (newRow env p (ctx pairs.length)
    (copyInput target m) (screen env (copyInput target m)) { status := .approved }
    (projectConfig p s.db s.service target).1.2 none) (ctx pairs.length).idGap minted
    (storable_newRow admitted.tag _ m storable _)
  obtain ⟨created, _, _, rows, tables⟩ := insertMemory_done _ _ _ _ _ inserted
  have roomNow : (countOf p s : Int) < capOf p s := by
    rw [progress.count, progress.plan]
    exact_mod_cast room
  obtain ⟨written, service', done, memory, plan, count, settings⟩ := write_new admitted s
    (ctx pairs.length) m progress.config fresh roomNow m' db' inserted
  refine ⟨m', Dict.set oldToNew m.publicId.str m'.publicId, ⟨db', service'⟩, ?_, ?_⟩
  · simp only [importMemory, rowInput_memoryRow, done, memory]
  · constructor
    · change db'.memories.rows = _
      rw [rows, progress.rows, List.map_append, List.append_assoc]
      rfl
    · change db' = { db with memories := db'.memories }
      rw [tables, progress.frame]
    · intro pair inside
      rcases List.mem_append.mp inside with old | new
      · exact progress.copies pair old
      · rw [List.mem_singleton.mp new, created]
        exact copied_newRow admitted.tag _ m _ _
    · intro pair inside
      rw [List.length_append, List.length_singleton]
      rcases List.mem_append.mp inside with old | new
      · obtain ⟨i, below, same⟩ := progress.minted pair old
        exact ⟨i, by omega, same⟩
      · rw [List.mem_singleton.mp new, created]
        exact ⟨pairs.length, by omega, rfl⟩
    · rw [progress.mapped, Dict.set_eq_append]
      · rw [List.map_append]
        rfl
      · simp only [List.map_map, List.mem_map, Function.comp_apply, not_exists, not_and]
        exact absent
    · change maxMemories (service'.orgPlan.getD _) = _
      rw [plan]
      exact progress.plan
    · change service'.memCount.getD _ = _
      rw [count, Option.getD_some, progress.count, List.length_append, List.length_singleton]
      rfl
    · rw [projectConfig_again s.db s.service target db' service' settings]
      exact progress.config

theorem importMemory_set (context : CallContext) (m : Memory)
    (done : importMemory env p target context oldToNew s (.obj (memoryRow m)) = .ok (oldToNew', s')) :
    ∃ written, write env p context s (copyInput target m) false false = .ok (written, s') ∧
      oldToNew' = Dict.set oldToNew m.publicId.str written.memory.publicId := by
  simp only [importMemory, rowInput_memoryRow] at done
  split at done
  · exact absurd done (by simp)
  · rename_i written after wrote
    obtain ⟨rfl, rfl⟩ := Prod.mk.inj (Except.ok.inj done)
    exact ⟨written, wrote, rfl⟩

/-- A memory is folded into the copy of one that it repeats, or it repeats none and there is room. -/
theorem importMemory_cases (admitted : Admitted env p target db) (empty : EmptyScope target db)
    (progress : Progress env p target ctx db pairs oldToNew s) (context : CallContext) (m : Memory)
    (done : importMemory env p target context oldToNew s (.obj (memoryRow m)) = .ok (oldToNew', s')) :
    (∃ pair ∈ pairs, Clash env pair.1 m ∧
      oldToNew' = Dict.set oldToNew m.publicId.str pair.2.publicId) ∨
    ((∀ pair ∈ pairs, ¬ Clash env pair.1 m) ∧
      (countOf p ⟨db, {}⟩ + pairs.length : Int) < capOf p ⟨db, {}⟩) := by
  obtain ⟨written, wrote, rfl⟩ := importMemory_set context m done
  rcases write_cases _ _ _ _ wrote with ⟨existing, folds⟩ | ⟨fresh, _⟩
  · obtain ⟨pair, inside, same, clash⟩ :=
      clash_of_duplicate admitted empty progress m existing folds.duplicate
    refine Or.inl ⟨pair, inside, clash, ?_⟩
    rw [folds.memory, same]
    rfl
  · have room := room_of_write s s' context m written fresh wrote
    rw [progress.count, progress.plan] at room
    refine Or.inr ⟨fun pair inside clash => ?_, by exact_mod_cast room⟩
    exact duplicate_of_clash admitted empty progress m pair inside clash fresh

/-- The import of later memories keeps the ids of earlier ones. -/
theorem importMemories_get? (rest : List Memory) (i : Nat) (key : Str)
    (other : ∀ m ∈ rest, m.publicId.str ≠ key)
    (done : importMemories env p target ctx i (rowsOf rest) oldToNew s = .ok (oldToNew', s')) :
    Dict.get? oldToNew' key = Dict.get? oldToNew key := by
  induction rest generalizing i oldToNew s with
  | nil => rw [(Prod.mk.inj (Except.ok.inj done)).1]
  | cons m rest ih =>
      simp only [rowsOf, List.map_cons, importMemories, bind_eq_ok] at done
      obtain ⟨⟨middle, s''⟩, one, later⟩ := done
      rw [List.forall_mem_cons] at other
      obtain ⟨written, _, rfl⟩ := importMemory_set (ctx i) m one
      rw [ih (i + 1) other.2 later, Dict.get?_set, if_neg other.1]

/-- The memories of the archive are those copied so far and the rest. -/
def Originals (pairs : List (Memory × Memory)) (rest : List Memory) : List Memory :=
  pairs.map Prod.fst ++ rest

theorem originals_cons (pairs : List (Memory × Memory)) (m m' : Memory) (rest : List Memory) :
    Originals pairs (m :: rest) = Originals (pairs ++ [(m, m')]) rest := by
  simp [Originals]

/-- This is what the loop over the memories needs of those that are not yet copied. -/
structure Loop (env : Environment) (ctx : Nat → CallContext) (db : Database)
    (pairs : List (Memory × Memory)) (rest : List Memory) : Prop where
  storable : ∀ m ∈ rest, m.storable = true
  distinct : ((Originals pairs rest).map Memory.publicId).Nodup
  mints : Mints ctx (Originals pairs rest).length db

theorem Loop.tail (m m' : Memory) (rest : List Memory) (loop : Loop env ctx db pairs (m :: rest)) :
    Loop env ctx db (pairs ++ [(m, m')]) rest where
  storable other inside := loop.storable other (List.mem_cons_of_mem _ inside)
  distinct := originals_cons pairs m m' rest ▸ loop.distinct
  mints := originals_cons pairs m m' rest ▸ loop.mints

/-- The public ids of memories copied so far are not that of the next one. -/
theorem Loop.absent (m : Memory) (rest : List Memory) (loop : Loop env ctx db pairs (m :: rest))
    (pair : Memory × Memory) (inside : pair ∈ pairs) : pair.1.publicId.str ≠ m.publicId.str := by
  intro same
  have distinct := loop.distinct
  rw [Originals, List.map_append, List.nodup_append] at distinct
  exact distinct.2.2 _ (List.mem_map.mpr ⟨pair.1, List.mem_map.mpr ⟨pair, inside, rfl⟩, rfl⟩) _
    (List.mem_map.mpr ⟨m, List.mem_cons_self, rfl⟩) (Uuid.str_injective same)

/-- Memories that do not repeat each other are all copied when the plan has room for them. -/
theorem importMemories_copies (admitted : Admitted env p target db) (empty : EmptyScope target db)
    (rest : List Memory) (progress : Progress env p target ctx db pairs oldToNew s)
    (loop : Loop env ctx db pairs rest)
    (apart : (Originals pairs rest).Pairwise fun m m' => ¬ Clash env m m')
    (room : rest ≠ [] → (countOf p ⟨db, {}⟩ + (Originals pairs rest).length : Int) ≤ capOf p ⟨db, {}⟩) :
    ∃ pairs' oldToNew' s', importMemories env p target ctx pairs.length (rowsOf rest) oldToNew s =
      .ok (oldToNew', s') ∧ pairs'.map Prod.fst = Originals pairs rest ∧
        Progress env p target ctx db pairs' oldToNew' s' := by
  induction rest generalizing pairs oldToNew s with
  | nil => exact ⟨pairs, oldToNew, s, rfl, by simp [Originals], progress⟩
  | cons m rest ih =>
      have total : (Originals pairs (m :: rest)).length = pairs.length + rest.length + 1 := by
        rw [Originals, List.length_append, List.length_map, List.length_cons, Nat.add_assoc]
      have enough := room (List.cons_ne_nil m rest)
      rw [total] at enough
      have repeats : ∀ pair ∈ pairs, ¬ Clash env pair.1 m := by
        intro pair inside
        exact (List.pairwise_append.mp apart).2.2 pair.1 (List.mem_map.mpr ⟨pair, inside, rfl⟩) m
          List.mem_cons_self
      obtain ⟨m', middle, s'', one, next⟩ := importMemory_new admitted empty progress _ loop.mints
        (by omega) m (loop.storable m List.mem_cons_self) (loop.absent m rest) repeats
        (by push_cast at enough; omega)
      have others := ih next (loop.tail m m' rest) (originals_cons pairs m m' rest ▸ apart) (fun _ => by
        rw [← originals_cons, total]
        exact enough)
      obtain ⟨pairs', oldToNew', s', later, firsts, final⟩ := others
      rw [List.length_append, List.length_singleton] at later
      refine ⟨pairs', oldToNew', s', ?_, by rw [firsts, originals_cons pairs m m'], final⟩
      simp only [rowsOf, List.map_cons, importMemories, bind_eq_ok]
      exact ⟨(middle, s''), one, later⟩

/-- Different memories have different copies. -/
def Separates (memories : List Memory) (oldToNew : OldToNew) : Prop :=
  ∀ m ∈ memories, ∀ m' ∈ memories,
    Dict.get? oldToNew m.publicId.str = Dict.get? oldToNew m'.publicId.str → m = m'

theorem Progress.get? (progress : Progress env p target ctx db pairs oldToNew s)
    (distinct : ((pairs.map Prod.fst).map Memory.publicId).Nodup) (pair : Memory × Memory)
    (inside : pair ∈ pairs) : Dict.get? oldToNew pair.1.publicId.str = some pair.2.publicId := by
  have keys : (pairs.map fun pair => pair.1.publicId.str).Nodup := by
    rw [List.map_map] at distinct
    have texts := distinct.map Uuid.str_injective
    rwa [List.map_map] at texts
  rw [progress.mapped, Dict.get?_pairs, (find?_key _ pairs keys _ pair).mpr ⟨inside, rfl⟩]
  rfl

/-- Memories that are copied one to one do not repeat each other, and the plan has room for them. -/
theorem apart_of_separates (admitted : Admitted env p target db) (empty : EmptyScope target db)
    (rest : List Memory) (progress : Progress env p target ctx db pairs oldToNew s)
    (loop : Loop env ctx db pairs rest)
    (apart : (pairs.map Prod.fst).Pairwise fun m m' => ¬ Clash env m m')
    (done : importMemories env p target ctx pairs.length (rowsOf rest) oldToNew s = .ok (oldToNew', s'))
    (separates : Separates (Originals pairs rest) oldToNew') :
    ((Originals pairs rest).Pairwise fun m m' => ¬ Clash env m m') ∧
      (rest ≠ [] →
        (countOf p ⟨db, {}⟩ + (Originals pairs rest).length : Int) ≤ capOf p ⟨db, {}⟩) := by
  induction rest generalizing pairs oldToNew s with
  | nil => exact ⟨by rwa [Originals, List.append_nil], fun some => absurd rfl some⟩
  | cons m rest ih =>
      have total : (Originals pairs (m :: rest)).length = pairs.length + rest.length + 1 := by
        rw [Originals, List.length_append, List.length_map, List.length_cons, Nat.add_assoc]
      simp only [rowsOf, List.map_cons, importMemories, bind_eq_ok] at done
      obtain ⟨⟨middle, s''⟩, one, later⟩ := done
      have distinct := loop.distinct
      rw [Originals, List.map_append, List.map_cons, List.nodup_append, List.nodup_cons] at distinct
      obtain ⟨firsts, ⟨notLater, _⟩, across⟩ := distinct
      rcases importMemory_cases admitted empty progress _ m one with
        ⟨pair, inside, _, rfl⟩ | ⟨repeats, room⟩
      · have original : pair.1 ∈ pairs.map Prod.fst := List.mem_map.mpr ⟨pair, inside, rfl⟩
        have other := loop.absent m rest pair inside
        have kept : Dict.get? oldToNew' pair.1.publicId.str = some pair.2.publicId := by
          rw [importMemories_get? rest _ _ ?_ later, Dict.get?_set, if_neg (Ne.symm other)]
          · exact progress.get? firsts pair inside
          · intro next present same
            exact across _ (List.mem_map.mpr ⟨_, original, rfl⟩) _
              (List.mem_cons_of_mem _ (List.mem_map.mpr ⟨next, present, rfl⟩))
              (Uuid.str_injective same).symm
        have folded : Dict.get? oldToNew' m.publicId.str = some pair.2.publicId := by
          rw [importMemories_get? rest _ _ ?_ later, Dict.get?_set, if_pos rfl]
          intro next present same
          exact notLater (List.mem_map.mpr ⟨next, present, Uuid.str_injective same⟩)
        have equal := separates pair.1 (List.mem_append_left _ original) m
          (List.mem_append_right _ List.mem_cons_self) (kept.trans folded.symm)
        exact absurd (congrArg (fun m => m.publicId.str) equal) other
      · obtain ⟨m', copied, after, same, next⟩ := importMemory_new admitted empty progress _ loop.mints
          (by omega) m (loop.storable m List.mem_cons_self) (loop.absent m rest) repeats room
        obtain ⟨rfl, rfl⟩ := Prod.mk.inj (Except.ok.inj (same.symm.trans one))
        have firstApart : ((pairs ++ [(m, m')]).map Prod.fst).Pairwise fun m m' => ¬ Clash env m m' := by
          rw [List.map_append, List.pairwise_append]
          refine ⟨apart, List.pairwise_singleton _ _, fun earlier present only new => ?_⟩
          obtain ⟨pair, inside, rfl⟩ := List.mem_map.mp present
          rw [List.mem_singleton.mp new]
          exact repeats pair inside
        rw [originals_cons pairs m m'] at separates ⊢
        have lengths : (pairs ++ [(m, m')]).length = pairs.length + 1 := List.length_append
        rw [← lengths] at later
        obtain ⟨all, enough⟩ := ih next (loop.tail m m' rest) firstApart later separates
        refine ⟨all, fun _ => ?_⟩
        rw [originals_cons pairs m m'] at total
        cases rest with
        | nil =>
            rw [total]
            push_cast
            simp only [List.length_nil, Nat.cast_zero]
            omega
        | cons other rest => exact enough (List.cons_ne_nil _ _)

end Kortex.ExportService
