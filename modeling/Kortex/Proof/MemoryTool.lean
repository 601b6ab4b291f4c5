import Kortex.Model.MemoryTool
import Kortex.Proof.MemoryService

/-
This file proves what a command of the memory tool does to the memories.
-/

namespace Kortex.MemoryTool

open MemoryService

variable {env : Environment} {b : Backend} {p : Principal} {ctx : CallContext} {s s' : Session}

/-- The command is going to carry out the plan. -/
def Plans (b : Backend) (db : Database) (command : JsonDict) (plan : Plan) : Prop :=
  ∃ name, commandOf (Dict.get? command "command".toList) = some name ∧
    handler b name db command = .ok plan

/-- A command either leaves the session as it is, or carries out its plan. -/
theorem execute_cases (command : JsonDict) (result : ToolResult)
    (done : execute b ctx s command = .ok (result, s')) :
    (s' = s ∧ result.isError = true) ∨
      ∃ plan, Plans b s.db command plan ∧ carryOut b ctx s plan = .ok (result, s') := by
  simp only [execute] at done
  split at done
  · obtain ⟨rfl, rfl⟩ := Prod.mk.inj (Except.ok.inj done)
    exact Or.inl ⟨rfl, rfl⟩
  · rename_i name known
    split at done
    · rename_i plan decided
      exact Or.inr ⟨plan, ⟨name, known, decided⟩, done⟩
    · obtain ⟨rfl, rfl⟩ := Prod.mk.inj (Except.ok.inj done)
      exact Or.inl ⟨rfl, rfl⟩
    · exact absurd done (by simp)

theorem execute_of_plans (command : JsonDict) (plan : Plan) (plans : Plans b s.db command plan) :
    execute b ctx s command = carryOut b ctx s plan := by
  obtain ⟨name, known, decided⟩ := plans
  simp only [execute, known, decided]

theorem plans_unique (db : Database) (command : JsonDict) (plan plan' : Plan)
    (first : Plans b db command plan) (second : Plans b db command plan') : plan = plan' := by
  obtain ⟨name, known, decided⟩ := first
  obtain ⟨name', known', decided'⟩ := second
  rw [known] at known'
  rw [Option.some.inj known', decided'] at decided
  exact (Except.ok.inj decided).symm

theorem carryOut_update (m : Memory) (patch : MemoryPatch) (content : Str) (result : ToolResult)
    (done : carryOut b ctx s (.update m patch content) = .ok (result, s')) :
    result = { content := content } ∧
      ∃ row, MemoryService.update b.principal ctx s m.publicId patch = .ok (row, s') := by
  simp only [carryOut, bind_eq_ok] at done
  obtain ⟨⟨row, s''⟩, updated, same⟩ := done
  obtain ⟨rfl, rfl⟩ := Prod.mk.inj (Except.ok.inj same)
  exact ⟨rfl, row, updated⟩

theorem carryOut_write (path text : Str) (result : ToolResult)
    (done : carryOut b ctx s (.write path text) = .ok (result, s')) :
    ∃ written, MemoryService.write b.env b.principal ctx s (filePayload b path text) false false =
      .ok (written, s') ∧
        result = { content := stored "File created successfully at" path written } := by
  simp only [carryOut, bind_eq_ok] at done
  obtain ⟨⟨written, s''⟩, wrote, same⟩ := done
  obtain ⟨rfl, rfl⟩ := Prod.mk.inj (Except.ok.inj same)
  exact ⟨written, wrote, rfl⟩

theorem carryOut_delete (found : List Memory) (content : Str) (result : ToolResult)
    (done : carryOut b ctx s (.delete found content) = .ok (result, s')) :
    deleteAll b ctx s found = .ok s' := by
  simp only [carryOut, bind_eq_ok] at done
  obtain ⟨s'', deleted, same⟩ := done
  obtain ⟨_, rfl⟩ := Prod.mk.inj (Except.ok.inj same)
  exact deleted

theorem everyMemory_deleteAll {Q : Memory → Prop} (found : List Memory) (all : EveryMemory Q s.db)
    (done : deleteAll b ctx s found = .ok s') (softDeleted : ∀ m, Q m → Q (m.softDeleted ctx.now)) :
    EveryMemory Q s'.db := by
  induction found generalizing s with
  | nil => exact Except.ok.inj done ▸ all
  | cons m rest ih =>
      simp only [deleteAll, bind_eq_ok] at done
      obtain ⟨⟨deleted, next⟩, first, others⟩ := done
      exact ih (everyMemory_delete all m.publicId deleted first softDeleted) others

/-- The write goes through, and stores a new memory. -/
def StoresNew (env : Environment) (p : Principal) (ctx : CallContext) (s : Session)
    (payload : CreateMemoryInput) (embed force : Bool) : Prop :=
  ∃ result s', write env p ctx s payload embed force = .ok (result, s') ∧ result.deduped = false

/-- The changes of a row other than an edit and a review keep the property, and a new row has it
exactly when its payload has another one. -/
structure StableFor (env : Environment) (Q : Memory → Prop) (W : CreateMemoryInput → Bool → Prop) :
    Prop where
  duplicated : ∀ now metadata m, Q m → Q (m.duplicated now metadata)
  softDeleted : ∀ now m, Q m → Q (m.softDeleted now)
  withPinned : ∀ now pinned m, Q m → Q (m.withPinned now pinned)
  created : ∀ p ctx payload embed mode tsConfig embedding id,
    inlineEmbedding env payload embed = .ok embedding → (Q { newRow env p ctx payload
      (screen env payload) (reviewDecision env payload (screen env payload) mode) tsConfig embedding
        with id := id } ↔ W payload embed)

/-- A review keeps the property. -/
def Reviewable (Q : Memory → Prop) : Prop :=
  ∀ now status reviewerId m, Q m → Q (m.withReview now status reviewerId)

variable {Q : Memory → Prop} {W : CreateMemoryInput → Bool → Prop}

theorem everyMemory_storesNew (stable : StableFor env Q W) (all : EveryMemory Q s.db)
    (payload : CreateMemoryInput) (embed force : Bool) (written : MemoryWrite)
    (done : write env p ctx s payload embed force = .ok (written, s')) :
    EveryMemory Q s'.db ↔ (StoresNew env p ctx s payload embed force → W payload embed) := by
  rw [everyMemory_write_iff all payload embed force written done (stable.duplicated _ _)
    (W := W payload embed) fun mode tsConfig embedding id embedded =>
      stable.created p ctx payload embed mode tsConfig embedding id embedded]
  constructor
  · rintro own ⟨result, after, done', fresh⟩
    obtain ⟨rfl, rfl⟩ := Prod.mk.inj (Except.ok.inj (done.symm.trans done'))
    exact own fresh
  · exact fun own fresh => own ⟨written, s', done, fresh⟩

variable (p ctx) in
/-- A call keeps a stable property exactly when its edit does, or the row that it stores has it. -/
theorem everyMemory_perform (stable : StableFor env Q W) (all : EveryMemory Q s.db) (before : Session)
    (same : before.db = s.db) (c : Call)
    (reviewable : ∀ publicId approve, c = .review publicId approve → Reviewable Q) :
    EveryMemory Q (afterCall before (perform env p ctx s c)).db ↔ (∀ publicId patch m,
      c = .update publicId patch → Edits p ctx.now s.db publicId patch m →
        Q (m.patched ctx.now patch)) ∧ ∀ payload embed force, c = .write payload embed force →
          StoresNew env p ctx s payload embed force → W payload embed := by
  cases done : perform env p ctx s c with
  | error e =>
      rw [afterCall, same]
      refine ⟨fun _ => ⟨fun publicId patch m asked edits => ?_, ?_⟩, fun _ => all⟩
      · have succeeds := update_of_edits publicId patch m edits
        simp [asked, perform, succeeds, Except.map] at done
      · rintro payload embed force asked ⟨result, after, succeeds, _⟩
        simp [asked, perform, succeeds, Except.map] at done
  | ok result =>
      obtain ⟨outcome, s'⟩ := result
      rw [afterCall]
      cases c with
      | write payload embed force =>
          simp only [perform, mapFst_eq_ok] at done
          obtain ⟨written, done, _⟩ := done
          rw [everyMemory_storesNew stable all payload embed force written done]
          constructor
          · refine fun own => ⟨fun _ _ _ asked => absurd asked (by simp), ?_⟩
            rintro payload' embed' force' asked
            obtain ⟨rfl, rfl, rfl⟩ := Call.write.inj asked
            exact own
          · exact fun own => own.2 payload embed force rfl
      | update publicId patch =>
          simp only [perform, mapFst_eq_ok] at done
          obtain ⟨row, done, _⟩ := done
          rw [everyMemory_update all publicId patch row done]
          constructor
          · refine fun own => ⟨?_, fun _ _ _ asked => absurd asked (by simp)⟩
            rintro publicId' patch' m asked edits
            obtain ⟨rfl, rfl⟩ := Call.update.inj asked
            exact own m edits
          · exact fun own m edits => own.1 publicId patch m rfl edits
      | setPinned publicId pinned =>
          simp only [perform, mapFst_eq_ok] at done
          obtain ⟨row, done, _⟩ := done
          have kept := everyMemory_setPinned all publicId pinned row done (stable.withPinned _ _)
          simp [kept]
      | review publicId approve =>
          simp only [perform, mapFst_eq_ok] at done
          obtain ⟨row, done, _⟩ := done
          have kept := everyMemory_review all publicId approve row done fun m status =>
            reviewable publicId approve rfl _ status _ m
          simp [kept]
      | delete publicId =>
          simp only [perform, mapFst_eq_ok] at done
          obtain ⟨row, done, _⟩ := done
          have kept := everyMemory_delete all publicId row done (stable.softDeleted _)
          simp [kept]

/-- A command keeps a stable property exactly when its edit does, or the row that it stores has it. -/
theorem everyMemory_execute (stable : StableFor b.env Q W) (all : EveryMemory Q s.db)
    (before : Session) (same : before.db = s.db) (command : JsonDict) :
    EveryMemory Q (afterCall before (execute b ctx s command)).db ↔ (∀ found patch content m,
      Plans b s.db command (.update found patch content) →
        Edits b.principal ctx.now s.db found.publicId patch m → Q (m.patched ctx.now patch)) ∧
      ∀ path text, Plans b s.db command (.write path text) →
        StoresNew b.env b.principal ctx s (filePayload b path text) false false →
          W (filePayload b path text) false := by
  cases done : execute b ctx s command with
  | error e =>
      rw [afterCall, same]
      refine ⟨fun _ => ⟨fun found patch content m plans edits => ?_, ?_⟩, fun _ => all⟩
      · have succeeds := update_of_edits found.publicId patch m edits
        rw [execute_of_plans command _ plans, carryOut, succeeds] at done
        exact absurd done (by simp [bind, Except.bind, pure, Except.pure])
      · rintro path text plans ⟨result, after, succeeds, _⟩
        rw [execute_of_plans command _ plans, carryOut, succeeds] at done
        exact absurd done (by simp [bind, Except.bind, pure, Except.pure])
  | ok result =>
      obtain ⟨reply, s'⟩ := result
      rw [afterCall]
      rcases execute_cases command reply done with ⟨rfl, _⟩ | ⟨plan, plans, done'⟩
      · refine ⟨fun _ => ⟨fun found patch content m plans edits => ?_, ?_⟩, fun _ => all⟩
        · rw [execute_of_plans command _ plans] at done
          obtain ⟨_, row, updated⟩ := carryOut_update found patch content reply done
          exact (everyMemory_update all found.publicId patch row updated).mp all m edits
        · intro path text plans
          rw [execute_of_plans command _ plans] at done
          obtain ⟨written, wrote, _⟩ := carryOut_write path text reply done
          exact (everyMemory_storesNew stable all _ false false written wrote).mp all
      · have only (other : Plan) (plans' : Plans b s.db command other) := plans_unique _ _ _ _ plans plans'
        cases plan with
        | reply answer =>
            obtain ⟨_, rfl⟩ := Prod.mk.inj (Except.ok.inj done')
            refine ⟨fun _ => ⟨fun found patch content m plans' _ => ?_, fun path text plans' _ => ?_⟩,
              fun _ => all⟩
            · exact absurd (only _ plans') (by simp)
            · exact absurd (only _ plans') (by simp)
        | update found patch content =>
            obtain ⟨_, row, updated⟩ := carryOut_update found patch content reply done'
            rw [everyMemory_update all found.publicId patch row updated]
            constructor
            · refine fun own => ⟨?_, fun path text plans' _ => absurd (only _ plans') (by simp)⟩
              rintro found' patch' content' m plans' edits
              obtain ⟨rfl, rfl, rfl⟩ := Plan.update.inj (only _ plans')
              exact own m edits
            · exact fun own m edits => own.1 found patch content m plans edits
        | write path text =>
            obtain ⟨written, wrote, _⟩ := carryOut_write path text reply done'
            rw [everyMemory_storesNew stable all _ false false written wrote]
            constructor
            · refine fun own => ⟨fun _ _ _ _ plans' _ => absurd (only _ plans') (by simp), ?_⟩
              rintro path' text' plans'
              obtain ⟨rfl, rfl⟩ := Plan.write.inj (only _ plans')
              exact own
            · exact fun own => own.2 path text plans
        | delete found content =>
            have kept := everyMemory_deleteAll found all (carryOut_delete found content reply done')
              (stable.softDeleted _)
            refine ⟨fun _ => ⟨fun found' patch content m plans' _ => ?_, fun path text plans' _ => ?_⟩,
              fun _ => kept⟩
            · exact absurd (only _ plans') (by simp)
            · exact absurd (only _ plans') (by simp)

/-- The turn asks the service for an update. -/
def Asks (env : Environment) (s : Session) (t : Turn) (publicId : Uuid) (patch : MemoryPatch) : Prop :=
  match t.action with
  | .call c => c = .update publicId patch
  | .command scope sensitivity command => ∃ found content,
      Plans ⟨env, t.principal, scope, sensitivity⟩ s.db command (.update found patch content) ∧
        found.publicId = publicId

/-- The turn stores a new memory. -/
def Writes (env : Environment) (s : Session) (t : Turn) (payload : CreateMemoryInput) (embed : Bool) :
    Prop :=
  match t.action with
  | .call c => ∃ force, c = .write payload embed force ∧
      StoresNew env t.principal t.context (Session.renew s t.newService) payload embed force
  | .command scope sensitivity command => ∃ path text,
      Plans ⟨env, t.principal, scope, sensitivity⟩ s.db command (.write path text) ∧
        payload = filePayload ⟨env, t.principal, scope, sensitivity⟩ path text ∧ embed = false ∧
          StoresNew env t.principal t.context (Session.renew s t.newService) payload false false

def IsReview (t : Turn) : Prop := ∃ publicId approve, t.action = .call (.review publicId approve)

/-- A turn keeps a stable property exactly when its edit does, or the row that it stores has it. -/
theorem everyMemory_turn_iff (stable : StableFor env Q W) (t : Turn)
    (reviewable : IsReview t → Reviewable Q) (all : EveryMemory Q s.db) :
    EveryMemory Q (turn env s t).db ↔ (∀ publicId patch m, Asks env s t publicId patch →
      Edits t.principal t.context.now s.db publicId patch m → Q (m.patched t.context.now patch)) ∧
        ∀ payload embed, Writes env s t payload embed → W payload embed := by
  have sameDb := renew_db s t.newService
  rw [← sameDb] at all
  simp only [turn, Asks, Writes]
  cases action : t.action with
  | call c =>
      have exactly := everyMemory_perform t.principal t.context stable all s sameDb.symm c
        fun publicId approve equal => reviewable ⟨publicId, approve, by rw [action, equal]⟩
      simp only [exactly, sameDb]
      constructor
      · rintro ⟨edits, writes⟩
        refine ⟨edits, ?_⟩
        intro payload embed asked
        obtain ⟨force, asked, stores⟩ := asked
        exact writes payload embed force asked stores
      · rintro ⟨edits, writes⟩
        exact ⟨edits, fun payload embed force asked stores => writes payload embed ⟨force, asked, stores⟩⟩
  | command scope sensitivity command =>
      have exactly := @everyMemory_execute ⟨env, t.principal, scope, sensitivity⟩ t.context _ _ _
        stable all s sameDb.symm command
      simp only [sameDb] at exactly
      simp only [exactly]
      constructor
      · rintro ⟨edits, writes⟩
        refine ⟨?_, ?_⟩
        · rintro publicId patch m ⟨found, content, plans, rfl⟩ edited
          exact edits found patch content m plans edited
        · rintro payload embed ⟨path, text, plans, rfl, rfl, stores⟩
          exact writes path text plans stores
      · rintro ⟨edits, writes⟩
        exact ⟨fun found patch content m plans edited =>
            edits found.publicId patch m ⟨found, content, plans, rfl⟩ edited,
          fun path text plans stores => writes _ false ⟨path, text, plans, rfl, rfl, stores⟩⟩

/-- The changes of a row other than an edit keep the property, and new rows have it. -/
structure Stable (env : Environment) (Q : Memory → Prop) : Prop where
  duplicated : ∀ now metadata m, Q m → Q (m.duplicated now metadata)
  softDeleted : ∀ now m, Q m → Q (m.softDeleted now)
  withPinned : ∀ now pinned m, Q m → Q (m.withPinned now pinned)
  created : ∀ p ctx payload mode tsConfig embedding id, Q { newRow env p ctx payload
    (screen env payload) (reviewDecision env payload (screen env payload) mode) tsConfig embedding
      with id := id }

/-- A turn that is no review keeps a stable property exactly when its edit keeps it. -/
theorem everyMemory_turn (stable : Stable env Q) (t : Turn) (noReview : ¬ IsReview t)
    (all : EveryMemory Q s.db) :
    EveryMemory Q (turn env s t).db ↔ ∀ publicId patch m, Asks env s t publicId patch →
      Edits t.principal t.context.now s.db publicId patch m → Q (m.patched t.context.now patch) := by
  have general : StableFor env Q fun _ _ => True :=
    ⟨stable.duplicated, stable.softDeleted, stable.withPinned,
      fun p ctx payload _ mode tsConfig embedding id _ =>
        iff_true_intro (stable.created p ctx payload mode tsConfig embedding id)⟩
  rw [everyMemory_turn_iff general t (fun review => absurd review noReview) all]
  exact and_iff_left fun _ _ _ => trivial

end Kortex.MemoryTool
