import Kortex.Library.Run
import Kortex.Model.WriteSessions
import Kortex.Proof.MemoryService

/-
This file proves what one step of the concurrent sessions can do.
-/

namespace Kortex

namespace WriteSessions

open MemoryService

/-- A change of a write session keeps the org and the fingerprint of a row, and revives no row. -/
structure Plain (c : MemoryChange) : Prop where
  orgId : ∀ m, (c.change m).orgId = m.orgId
  scopeType : ∀ m, (c.change m).scopeType = m.scopeType
  scopeId : ∀ m, (c.change m).scopeId = m.scopeId
  contentHash : ∀ m, (c.change m).contentHash = m.contentHash
  live : ∀ m, (c.change m).live = true → m.live = true
  mono : ∀ m m' : Memory, (m.live = true → m'.live = true) → (c.change m).live = true →
    (c.change m').live = true

theorem plain_foldInto (existing : Memory) (now : Instant) (metadata : Option JsonDict) :
    Plain (existing.foldInto now metadata) :=
  ⟨fun _ => rfl, fun _ => rfl, fun _ => rfl, fun _ => rfl, fun _ live => live,
    fun _ _ implied live => implied live⟩

theorem plain_softDeletion (m : Memory) (now : Instant) : Plain (m.softDeletion now) where
  orgId _ := rfl
  scopeType _ := rfl
  scopeId _ := rfl
  contentHash _ := rfl
  live _ live := absurd live (by simp [Memory.softDeletion, Memory.softDeleted, Memory.live])
  mono _ _ _ live := absurd live (by simp [Memory.softDeletion, Memory.softDeleted, Memory.live])

/-- The write whose insert is still to come. -/
def Phase.pending : Phase → Option PendingWrite
  | .missed w | .counted w => some w
  | _ => none

/-- A call takes its instance to another phase; it keeps the count of the memories. -/
structure Passes (i i' : Instance) : Prop where
  principal : i'.principal = i.principal
  orgPlan : i'.service.orgPlan = i.service.orgPlan
  memCount : i'.service.memCount = i.service.memCount

variable (env : Environment)

/-- This is all that a step can do. -/
inductive Effect (s : State) : Event → State → Prop
  | stays (e : Event) : Effect s e s
  | rolledBack (e : Event) (id : Nat) : Effect s e (s.rollback id)
  | begun (id : Nat) (principal : Principal) (closed : s.instances id = none) :
      Effect s (.begin id principal) (s.setInstance id { principal := principal })
  | passed (e : Event) (id : Nat) (i i' : Instance) (current : s.instances id = some i)
      (passes : Passes i i') (idle : i'.phase.pending = none) : Effect s e (s.setInstance id i')
  | missed (id : Nat) (i i' : Instance) (context : CallContext) (payload : CreateMemoryInput)
      (embed force : Bool) (w : PendingWrite) (current : s.instances id = some i)
      (ready : i.phase = .ready) (passes : Passes i i') (phase : i'.phase = .missed w)
      (own : w.payload = payload)
      (missing : duplicateOf env i.principal (s.seen id) payload.scope (screen env payload) force = none) :
      Effect s (.lookUp id context payload embed force) (s.setInstance id i')
  | counted (id : Nat) (i i' : Instance) (w : PendingWrite) (current : s.instances id = some i)
      (phase : i.phase = .missed w) (next : i'.phase = .counted w)
      (principal : i'.principal = i.principal)
      (quota : enforceMemoryQuota i.principal (s.seen id) i.service = .ok i'.service) :
      Effect s (.enforceQuota id) (s.setInstance id i')
  | changed (e : Event) (id : Nat) (i : Instance) (c : MemoryChange)
      (current : s.instances id = some i) (idle : i.phase.pending = none) (plain : Plain c) :
      Effect s e ({ s with versions := s.versions.change id c }.setInstance id { i with phase := .ready })
  | inserted (id : Nat) (i : Instance) (w : PendingWrite) (row : Memory) (heap : MemoryTable)
      (current : s.instances id = some i) (phase : i.phase = .counted w)
      (grows : heap.rows = s.versions.heap.rows ++ [row])
      (fresh : ∀ other ∈ s.versions.heap.rows, (other.id, other.publicId) ≠ (row.id, row.publicId))
      (orgId : row.orgId = i.principal.orgId) (scopeType : row.scopeType = w.payload.scope.scopeType)
      (scopeId : row.scopeId = w.payload.scope.scopeId)
      (contentHash : row.contentHash = fingerprint env (screen env w.payload))
      (live : row.live = true) :
      Effect s (.insert id) ({ s with versions := s.versions.insert id heap row }.setInstance id
        { i with phase := .ready })
  | committed (id : Nat) (i : Instance) (current : s.instances id = some i) (ready : i.phase = .ready) :
      Effect s (.commit id) { s with versions := s.versions.commit id }

theorem projectConfig_counts (p : Principal) (db : Database) (service : ServiceCache)
    (scope : ScopeFilter) : (projectConfig p db service scope).2.orgPlan = service.orgPlan ∧
      (projectConfig p db service scope).2.memCount = service.memCount := by
  unfold projectConfig
  split
  · exact ⟨rfl, rfl⟩
  · split <;> exact ⟨rfl, rfl⟩

theorem effect_lookUp (s : State) (id : Nat) (i : Instance) (current : s.instances id = some i)
    (ready : i.phase = .ready) (context : CallContext) (payload : CreateMemoryInput)
    (embed force : Bool) : Effect env s (.lookUp id context payload embed force)
      (lookUp env s id i context payload embed force) := by
  have counts := projectConfig_counts i.principal (s.seen id) i.service payload.scope
  unfold lookUp
  split
  · simp only
    split
    · exact .passed _ id i _ current ⟨rfl, counts.1, counts.2⟩ rfl
    · rename_i missing
      exact .missed id i _ context payload embed force _ current ready ⟨rfl, counts.1, counts.2⟩ rfl rfl
        missing
  · exact .rolledBack _ id

theorem effect_change (s : State) (e : Event) (id : Nat) (i : Instance) (c : MemoryChange)
    (current : s.instances id = some i) (idle : i.phase.pending = none) (plain : Plain c) :
    Effect env s e (s.change id i c) := by
  unfold State.change
  split
  · exact .changed e id i c current idle plain
  · exact .stays e

theorem effect_insert (s : State) (id : Nat) (i : Instance) (w : PendingWrite)
    (current : s.instances id = some i) (phase : i.phase = .counted w) :
    Effect env s (.insert id) (insert env s id i w) := by
  simp only [insert]
  split
  · exact .rolledBack _ id
  · split
    · exact .rolledBack _ id
    · rename_i created db done
      obtain ⟨grows, fresh⟩ := insertMemory_rows _ db _ created _ done
      have row := (insertMemory_cases _ _ _ created db done).1
      apply Effect.inserted id i w created db.memories current phase grows fresh
      all_goals rw [row]
      · rfl
      · rfl
      · rfl
      · rfl
      · rfl

theorem effect_step (s : State) (e : Event) : Effect env s e (step env s e) := by
  cases e with
  | begin id principal =>
      simp only [step]
      split
      · exact .begun id principal (by assumption)
      · exact .stays _
  | lookUp id context payload embed force =>
      simp only [step]
      split
      · rename_i current
        exact effect_lookUp env s id _ current rfl context payload embed force
      · exact .stays _
  | fold id =>
      simp only [step]
      split
      · rename_i current
        unfold fold
        split
        · exact effect_change env s _ id _ _ current rfl (plain_foldInto _ _ _)
        · exact .rolledBack _ id
      · exact .stays _
  | enforceQuota id =>
      simp only [step]
      split
      · rename_i principal service w current
        split
        · exact .rolledBack _ id
        · rename_i quota
          exact .counted id _ ⟨principal, _, .counted w⟩ w current rfl rfl rfl quota
      · exact .stays _
  | insert id =>
      simp only [step]
      split
      · rename_i current
        exact effect_insert env s id _ _ current rfl
      · exact .stays _
  | delete id context publicId =>
      simp only [step]
      split
      · rename_i current
        unfold delete
        split
        · exact .rolledBack _ id
        · split
          · exact .stays _
          · split
            · exact .rolledBack _ id
            · exact .passed _ id _ _ current ⟨rfl, rfl, rfl⟩ rfl
      · exact .stays _
  | softDelete id =>
      simp only [step]
      split
      · rename_i current
        exact effect_change env s _ id _ _ current rfl (plain_softDeletion _ _)
      · exact .stays _
  | commit id =>
      simp only [step]
      split
      · rename_i current
        exact .committed id _ current rfl
      · exact .stays _
  | rollback id => exact .rolledBack _ id

section

variable (env : Environment) {s : State} {id : Nat} {i : Instance} {w : PendingWrite}

theorem step_enforceQuota (service : ServiceCache) (current : s.instances id = some i)
    (phase : i.phase = .missed w)
    (quota : enforceMemoryQuota i.principal (s.seen id) i.service = .ok service) :
    step env s (.enforceQuota id) = s.setInstance id ⟨i.principal, service, .counted w⟩ := by
  obtain ⟨principal, cache, _⟩ := i
  cases phase
  simp only [step, current, quota]

theorem step_insert (embedding : Option (List PyFloat)) (current : s.instances id = some i)
    (phase : i.phase = .counted w)
    (embeds : inlineEmbedding env w.payload w.embed = .ok embedding)
    (fresh : ∀ other ∈ s.versions.heap.rows, other.publicId ≠ w.context.newPublicId)
    (storable : (newRow env i.principal w.context w.payload (screen env w.payload)
      (reviewDecision env w.payload (screen env w.payload) w.config.1) w.config.2
      embedding).storable = true) :
    ∃ heap row, heap.rows = s.versions.heap.rows ++ [row] ∧ row.orgId = i.principal.orgId ∧
      row.live = true ∧ row.publicId = w.context.newPublicId ∧
      step env s (.insert id) = { s with versions := s.versions.insert id heap row }.setInstance id
        { i with phase := .ready } := by
  obtain ⟨principal, cache, _⟩ := i
  cases phase
  obtain ⟨row, db, done⟩ := insertMemory_some { s.base with memories := s.versions.heap } _
    w.context.idGap fresh storable
  have shape := (insertMemory_cases _ _ _ row db done).1
  refine ⟨db.memories, row, (insertMemory_rows _ db _ row _ done).1, ?_, ?_, ?_, ?_⟩
  · rw [shape]
    rfl
  · rw [shape]
    rfl
  · rw [shape]
    rfl
  · simp only [step, current, insert, embeds, done]

theorem step_commit (current : s.instances id = some i) (ready : i.phase = .ready) :
    step env s (.commit id) = { s with versions := s.versions.commit id } := by
  obtain ⟨principal, cache, _⟩ := i
  cases ready
  simp only [step, current]

end

/-- These are the steps of a write that stores its memory. -/
def storingWrite (id key : Nat) (body : Str) : List Event :=
  [.lookUp id { now := key, newPublicId := BitVec.ofNat 128 key } { scope := sampleScope, body := body }
    false false, .enforceQuota id, .insert id]

end WriteSessions
end Kortex
