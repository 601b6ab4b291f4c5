import Kortex.Proof.MemoryTool

/-
This file proves what a turn makes of each row of the memories.
-/

namespace Kortex

/-- Each row of the later table comes from a row of the earlier one, or its id is a new one. -/
structure Evolves (R : Memory → Memory → Prop) (db db' : Database) : Prop where
  origin : ∀ m' ∈ db'.memories.rows, (∃ m ∈ db.memories.rows, m'.id = m.id ∧ R m m') ∨
    ∀ m ∈ db.memories.rows, m.id < m'.id
  stays : ∀ m ∈ db.memories.rows, ∃ m' ∈ db'.memories.rows, m'.id = m.id ∧ R m m'

namespace Evolves

variable {R R' : Memory → Memory → Prop} {db db' db'' : Database}

theorem mono (weaker : ∀ m m', R m m' → R' m m') (evolves : Evolves R db db') : Evolves R' db db' where
  origin m' inside := by
    rcases evolves.origin m' inside with ⟨m, present, same, changed⟩ | new
    · exact Or.inl ⟨m, present, same, weaker m m' changed⟩
    · exact Or.inr new
  stays m present := by
    obtain ⟨m', inside, same, changed⟩ := evolves.stays m present
    exact ⟨m', inside, same, weaker m m' changed⟩

theorem of_memories (refl : ∀ m, R m m) (same : db'.memories = db.memories) : Evolves R db db' where
  origin m' inside := Or.inl ⟨m', same ▸ inside, rfl, refl m'⟩
  stays m present := ⟨m, same ▸ present, rfl, refl m⟩

theorem trans (chain : ∀ a b c, R a b → R b c → R a c) (first : Evolves R db db')
    (second : Evolves R db' db'') : Evolves R db db'' where
  origin m'' inside := by
    rcases second.origin m'' inside with ⟨m', between, same', changed'⟩ | new
    · rcases first.origin m' between with ⟨m, present, same, changed⟩ | new
      · exact Or.inl ⟨m, present, same'.trans same, chain m m' m'' changed changed'⟩
      · exact Or.inr fun m present => same' ▸ new m present
    · refine Or.inr fun m present => ?_
      obtain ⟨m', between, same, _⟩ := first.stays m present
      exact same ▸ new m' between
  stays m present := by
    obtain ⟨m', between, same, changed⟩ := first.stays m present
    obtain ⟨m'', inside, same', changed'⟩ := second.stays m' between
    exact ⟨m'', inside, same'.trans same, chain m m' m'' changed changed'⟩

/-- An UPDATE changes the chosen rows and keeps the others. -/
theorem of_update (chosen : Memory → Bool) (change : Memory → Memory)
    (keeps : ∀ m, ((change m).id, (change m).publicId) = (m.id, m.publicId)) (refl : ∀ m, R m m)
    (changes : ∀ m ∈ db.memories.rows, chosen m = true → R m (change m))
    (same : db'.memories = db.memories.update chosen change keeps) : Evolves R db db' := by
  have own (m : Memory) (present : m ∈ db.memories.rows) :
      (Table.changeRow chosen change m).id = m.id ∧ R m (Table.changeRow chosen change m) := by
    rw [Table.changeRow]
    split
    · rename_i picked
      exact ⟨(Prod.mk.inj (keeps m)).1, changes m present picked⟩
    · exact ⟨rfl, refl m⟩
  constructor
  · intro m' inside
    rw [same, Table.mem_update] at inside
    obtain ⟨m, present, rfl⟩ := inside
    exact Or.inl ⟨m, present, own m present⟩
  · intro m present
    refine ⟨Table.changeRow chosen change m, ?_, own m present⟩
    rw [same, Table.mem_update]
    exact ⟨m, present, rfl⟩

theorem of_updateMemory (m : Memory) (present : m ∈ db.memories.rows) (change : Memory → Memory)
    (keeps : ∀ m, ((change m).id, (change m).publicId) = (m.id, m.publicId)) (refl : ∀ m, R m m)
    (changed : R m (change m))
    (same : db'.memories = (db.updateMemory m.id change keeps).memories) : Evolves R db db' := by
  refine of_update (fun other => other.id == m.id) change keeps refl (fun other inside picked => ?_) same
  rw [memory_eq_of_id db other m inside present (by simpa using picked)]
  exact changed

theorem of_insert (m created : Memory) (gap : Nat) (refl : ∀ m, R m m)
    (done : db.insertMemory m gap = some (created, db')) : Evolves R db db' := by
  obtain ⟨rfl, _, _, rows, _⟩ := insertMemory_done db m gap created db' done
  constructor
  · intro m' inside
    rw [rows, List.mem_append, List.mem_singleton] at inside
    rcases inside with old | rfl
    · exact Or.inl ⟨m', old, rfl, refl m'⟩
    · refine Or.inr fun other present => ?_
      have bound := id_le_lastMemoryId db other present
      change other.id < lastMemoryId db + 1 + gap
      omega
  · exact fun other present => ⟨other, by rw [rows]; exact List.mem_append_left _ present, rfl, refl other⟩

end Evolves

/-- These columns of a row never change, and a deleted row stays deleted. -/
structure SameOrigin (m m' : Memory) : Prop where
  orgId : m'.orgId = m.orgId
  scopeType : m'.scopeType = m.scopeType
  scopeId : m'.scopeId = m.scopeId
  tsConfig : m'.tsConfig = m.tsConfig
  createdAt : m'.createdAt = m.createdAt
  live : m'.live = true → m.live = true

theorem SameOrigin.refl (m : Memory) : SameOrigin m m := ⟨rfl, rfl, rfl, rfl, rfl, fun live => live⟩

theorem SameOrigin.trans {a b c : Memory} (first : SameOrigin a b) (second : SameOrigin b c) :
    SameOrigin a c where
  orgId := second.orgId.trans first.orgId
  scopeType := second.scopeType.trans first.scopeType
  scopeId := second.scopeId.trans first.scopeId
  tsConfig := second.tsConfig.trans first.tsConfig
  createdAt := second.createdAt.trans first.createdAt
  live alive := first.live (second.live alive)

/-- These columns of a row change by an edit, by a review and by an embedding. -/
def content (m : Memory) : Str × Str × MemoryKind × Option (List PyFloat) × ReviewStatus :=
  (m.title, m.body, m.kind, m.embedding, m.reviewStatus)

/-- Only the bookkeeping of the row has changed. -/
def Touched (m m' : Memory) : Prop := SameOrigin m m' ∧ content m' = content m

theorem Touched.refl (m : Memory) : Touched m m := ⟨SameOrigin.refl m, rfl⟩

theorem Touched.trans (a b c : Memory) (first : Touched a b) (second : Touched b c) : Touched a c :=
  ⟨first.1.trans second.1, second.2.trans first.2⟩

theorem touched_softDeleted (now : Instant) (m : Memory) : Touched m (m.softDeleted now) :=
  ⟨⟨rfl, rfl, rfl, rfl, rfl, fun live => absurd live (by simp [Memory.live, Memory.softDeleted])⟩, rfl⟩

theorem touched_withPinned (now : Instant) (pinned : Bool) (m : Memory) :
    Touched m (m.withPinned now pinned) := ⟨⟨rfl, rfl, rfl, rfl, rfl, fun live => live⟩, rfl⟩

theorem touched_duplicated (now : Instant) (metadata : Option JsonDict) (m : Memory) :
    Touched m (m.duplicated now metadata) := ⟨⟨rfl, rfl, rfl, rfl, rfl, fun live => live⟩, rfl⟩

/-- A turn touches a row, edits it or reviews it. -/
inductive TurnChange (edits : MemoryPatch → Memory → Prop) (reviews : Bool → Memory → Prop)
    (now : Instant) : Memory → Memory → Prop
  | touched {m m'} (touched : Touched m m') : TurnChange edits reviews now m m'
  | patched {m} (patch : MemoryPatch) (asked : edits patch m) :
      TurnChange edits reviews now m (m.patched now patch)
  | reviewed {m} (approve : Bool) (reviewerId : Option Nat) (asked : reviews approve m) :
      TurnChange edits reviews now m
        (m.withReview now (if approve then .approved else .rejected) reviewerId)

theorem TurnChange.sameOrigin {edits : MemoryPatch → Memory → Prop} {reviews : Bool → Memory → Prop}
    {now : Instant} {m m' : Memory} (change : TurnChange edits reviews now m m') : SameOrigin m m' := by
  cases change with
  | touched touched => exact touched.1
  | patched patch asked => exact ⟨rfl, rfl, rfl, rfl, rfl, fun live => live⟩
  | reviewed approve reviewerId asked => exact ⟨rfl, rfl, rfl, rfl, rfl, fun live => live⟩

namespace MemoryTool

open MemoryService

variable {env : Environment} {b : Backend} {p : Principal} {ctx : CallContext} {s s' : Session}
variable {edits : MemoryPatch → Memory → Prop} {reviews : Bool → Memory → Prop}

theorem evolves_found {R : Memory → Memory → Prop} {db db' : Database} (publicId : Uuid) (m : Memory)
    (found : MemoryRepo.getByPublicId p db publicId = some m) (change : Memory → Memory)
    (keeps : ∀ m, ((change m).id, (change m).publicId) = (m.id, m.publicId)) (refl : ∀ m, R m m)
    (changed : R m (change m))
    (same : db'.memories = (db.updateMemory m.id change keeps).memories) : Evolves R db db' :=
  Evolves.of_updateMemory m (visible_of_getByPublicId p db publicId m found).1 change keeps refl
    changed same

theorem evolves_write (payload : CreateMemoryInput) (embed force : Bool) (result : MemoryWrite)
    (done : write env p ctx s payload embed force = .ok (result, s')) :
    Evolves Touched s.db s'.db := by
  rcases write_cases payload embed force result done with ⟨existing, folds⟩ | ⟨_, _, _, _, stores⟩
  · have present := (duplicateOf_some _ _ _ _ _ _ folds.duplicate).1
    rw [MemoryRepo.mem_liveRows] at present
    exact Evolves.of_updateMemory existing present.1 _ _ Touched.refl
      (touched_duplicated ctx.now payload.metadata existing) (congrArg Database.memories folds.updated)
  · obtain ⟨embedding, _, inserted⟩ := stores.inserted
    exact Evolves.of_insert _ _ _ Touched.refl inserted

theorem evolves_delete (publicId : Uuid) (result : Bool)
    (done : MemoryService.delete env p ctx s publicId = .ok (result, s')) :
    Evolves Touched s.db s'.db := by
  rcases delete_cases publicId result done with ⟨_, rfl⟩ | ⟨m, found, updated, _⟩
  · exact Evolves.of_memories Touched.refl rfl
  · exact evolves_found publicId m found _ _ Touched.refl (touched_softDeleted ctx.now m) updated

theorem evolves_deleteAll (found : List Memory) (done : deleteAll b ctx s found = .ok s') :
    Evolves Touched s.db s'.db := by
  induction found generalizing s with
  | nil => exact Except.ok.inj done ▸ Evolves.of_memories Touched.refl rfl
  | cons m rest ih =>
      simp only [deleteAll, bind_eq_ok] at done
      obtain ⟨⟨deleted, next⟩, first, others⟩ := done
      exact (evolves_delete m.publicId deleted first).trans Touched.trans (ih others)

theorem evolves_update (publicId : Uuid) (patch : MemoryPatch) (result : Option Memory)
    (done : update p ctx s publicId patch = .ok (result, s'))
    (asked : ∀ m, Edits p ctx.now s.db publicId patch m → edits patch m) :
    Evolves (TurnChange edits reviews ctx.now) s.db s'.db := by
  have refl (m : Memory) : TurnChange edits reviews ctx.now m m := .touched (Touched.refl m)
  rcases update_cases publicId patch result done with ⟨_, rfl⟩ | ⟨m, edited, updated⟩
  · exact Evolves.of_memories refl rfl
  · exact evolves_found publicId m edited.found _ _ refl (.patched patch (asked m edited))
      (congrArg Database.memories updated)

/-- A call touches the rows, edits the row that it names or reviews it. -/
theorem evolves_perform (call : Call) (outcome : Outcome)
    (done : perform env p ctx s call = .ok (outcome, s'))
    (asksEdit : ∀ publicId patch m, call = .update publicId patch →
      Edits p ctx.now s.db publicId patch m → edits patch m)
    (asksReview : ∀ publicId approve m, call = .review publicId approve →
      MemoryRepo.getByPublicId p s.db publicId = some m → reviews approve m) :
    Evolves (TurnChange edits reviews ctx.now) s.db s'.db := by
  have weaken (m m' : Memory) (touched : Touched m m') : TurnChange edits reviews ctx.now m m' :=
    .touched touched
  have refl (m : Memory) := weaken m m (Touched.refl m)
  cases call with
  | write payload embed force =>
      simp only [perform, mapFst_eq_ok] at done
      obtain ⟨written, done, _⟩ := done
      exact (evolves_write payload embed force written done).mono weaken
  | update publicId patch =>
      simp only [perform, mapFst_eq_ok] at done
      obtain ⟨row, done, _⟩ := done
      exact evolves_update publicId patch row done fun m edited => asksEdit publicId patch m rfl edited
  | setPinned publicId pinned =>
      simp only [perform, mapFst_eq_ok] at done
      obtain ⟨row, done, _⟩ := done
      rcases setPinned_cases publicId pinned row done with rfl | ⟨m, found, updated⟩
      · exact Evolves.of_memories refl rfl
      · exact evolves_found publicId m found _ _ refl (weaken _ _ (touched_withPinned ctx.now pinned m))
          (congrArg Database.memories updated)
  | review publicId approve =>
      simp only [perform, mapFst_eq_ok] at done
      obtain ⟨row, done, _⟩ := done
      rcases review_cases publicId approve row done with rfl | ⟨m, status, found, rfl, updated, _⟩
      · exact Evolves.of_memories refl rfl
      · exact evolves_found publicId m found _ _ refl
          (.reviewed approve p.userId (asksReview publicId approve m rfl found)) updated
  | delete publicId =>
      simp only [perform, mapFst_eq_ok] at done
      obtain ⟨row, done, _⟩ := done
      exact (evolves_delete publicId row done).mono weaken

theorem evolves_execute (command : JsonDict) (result : ToolResult)
    (done : execute b ctx s command = .ok (result, s'))
    (asksEdit : ∀ found patch content m, Plans b s.db command (.update found patch content) →
      Edits b.principal ctx.now s.db found.publicId patch m → edits patch m) :
    Evolves (TurnChange edits reviews ctx.now) s.db s'.db := by
  have weaken (m m' : Memory) (touched : Touched m m') : TurnChange edits reviews ctx.now m m' :=
    .touched touched
  rcases execute_cases command result done with ⟨rfl, _⟩ | ⟨plan, plans, carried⟩
  · exact Evolves.of_memories (fun m => weaken m m (Touched.refl m)) rfl
  · cases plan with
    | reply answer =>
        obtain ⟨_, rfl⟩ := Prod.mk.inj (Except.ok.inj carried)
        exact Evolves.of_memories (fun m => weaken m m (Touched.refl m)) rfl
    | update found patch content =>
        obtain ⟨_, row, updated⟩ := carryOut_update found patch content result carried
        exact evolves_update found.publicId patch row updated fun m edited =>
          asksEdit found patch content m plans edited
    | write path text =>
        obtain ⟨written, wrote, _⟩ := carryOut_write path text result carried
        exact (evolves_write _ false false written wrote).mono weaken
    | delete found content =>
        exact (evolves_deleteAll found (carryOut_delete found content result carried)).mono weaken

/-- The turn edits the memory by the patch. -/
def EditsRow (env : Environment) (s : Session) (t : Turn) (patch : MemoryPatch) (m : Memory) : Prop :=
  ∃ publicId, Asks env s t publicId patch ∧
    Edits t.principal t.context.now s.db publicId patch m

/-- The turn decides on the memory. -/
def ReviewsRow (s : Session) (t : Turn) (approve : Bool) (m : Memory) : Prop :=
  ∃ publicId, t.action = .call (.review publicId approve) ∧
    MemoryRepo.getByPublicId t.principal s.db publicId = some m

/-- A turn touches the rows, edits one of them or decides on it. -/
theorem evolves_turn (env : Environment) (s : Session) (t : Turn) :
    Evolves (TurnChange (EditsRow env s t) (ReviewsRow s t) t.context.now) s.db (turn env s t).db := by
  have unchanged : Evolves (TurnChange (EditsRow env s t) (ReviewsRow s t) t.context.now) s.db s.db :=
    Evolves.of_memories (fun m => .touched (Touched.refl m)) rfl
  have sameDb := renew_db s t.newService
  simp only [turn]
  cases action : t.action with
  | call call =>
      simp only
      cases done : perform env t.principal t.context (Session.renew s t.newService) call with
      | error e => exact unchanged
      | ok result =>
          rw [← sameDb]
          refine evolves_perform call result.1 done ?_ ?_
          · intro publicId patch m equal edited
            rw [sameDb] at edited
            exact ⟨publicId, by simp [Asks, action, equal], edited⟩
          · intro publicId approve m equal found
            rw [sameDb] at found
            exact ⟨publicId, by rw [action, equal], found⟩
  | command scope sensitivity command =>
      simp only
      cases done : execute ⟨env, t.principal, scope, sensitivity⟩ t.context
          (Session.renew s t.newService) command with
      | error e => exact unchanged
      | ok result =>
          rw [← sameDb]
          refine evolves_execute command result.1 done ?_
          intro found patch content m plans edited
          rw [sameDb] at plans edited
          refine ⟨found.publicId, ?_, edited⟩
          simp only [Asks, action]
          exact ⟨found, content, plans, rfl⟩

/-- A turn that edits a memory stores the row that the patch makes. -/
theorem turn_of_editsRow (env : Environment) (s : Session) (t : Turn) (patch : MemoryPatch) (m : Memory)
    (edited : EditsRow env s t patch m) : (turn env s t).db =
      s.db.updateMemory m.id (Memory.patched t.context.now patch)
        (Memory.patched_ident t.context.now patch) := by
  obtain ⟨publicId, asks, edits⟩ := edited
  have sameDb := renew_db s t.newService
  rw [← sameDb] at edits
  have succeeds := update_of_edits publicId patch m edits
  rw [Asks] at asks
  simp only [turn]
  cases action : t.action with
  | call c =>
      rw [action] at asks
      subst asks
      simp only [perform, succeeds, Except.map, afterCall, sameDb]
  | command scope sensitivity command =>
      rw [action, ← sameDb] at asks
      obtain ⟨found, content, plans, rfl⟩ := asks
      simp only [execute_of_plans command _ plans, carryOut, succeeds, bind, Except.bind, afterCall,
        sameDb]
      rfl

end MemoryTool
end Kortex
