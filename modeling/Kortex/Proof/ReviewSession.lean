import Kortex.Library.Run
import Kortex.Model.ReviewSession
import Kortex.Proof.MemoryService

/-
This file proves in which interleavings of `review` a memory gets one decision.
-/

namespace Kortex

/-- Two changes that agree on a row are the same update of this row. -/
theorem updateMemory_congr (db : Database) (m : Memory) (present : m ∈ db.memories.rows)
    (change change' : Memory → Memory)
    (keeps : ∀ m, ((change m).id, (change m).publicId) = (m.id, m.publicId))
    (keeps' : ∀ m, ((change' m).id, (change' m).publicId) = (m.id, m.publicId))
    (same : change m = change' m) :
    db.updateMemory m.id change keeps = db.updateMemory m.id change' keeps' := by
  have rows : db.memories.rows.map (Table.changeRow (fun row => row.id == m.id) change) =
      db.memories.rows.map (Table.changeRow (fun row => row.id == m.id) change') := by
    apply List.map_congr_left
    intro row inside
    unfold Table.changeRow
    by_cases hit : row.id = m.id
    · rw [memory_eq_of_id db row m inside present hit, same]
    · rw [if_neg (by simpa using hit), if_neg (by simpa using hit)]
  simp only [Database.updateMemory, Table.update, rows]

namespace MemoryService

/-- The entry is the last row of the log. -/
theorem auditMemory_audit (env : Environment) (p : Principal) (ctx : CallContext) (db db' : Database)
    (action : Str) (m : Memory) (metadata : JsonDict)
    (done : auditMemory env p ctx db action m metadata = .ok db') :
    ∃ entry : AuditLog JsonDict, db'.audit.rows = db.audit.rows ++ [entry] ∧ entry.action = action ∧
      entry.targetType = some "memory" ∧ entry.targetId = some m.id := by
  simp only [auditMemory] at done
  split at done
  · rename_i audit appended
    cases done
    simp only [Audit.append] at appended
    split at appended
    · cases appended
    · split at appended
      · cases appended
      · rename_i columns stored
        cases appended
        refine ⟨_, rfl, ?_⟩
        simp only [Audit.entryFields] at stored
        split at stored
        · cases stored
          exact ⟨rfl, rfl, rfl⟩
        · obtain ⟨canonical, _, same⟩ := Option.map_eq_some_iff.mp stored
          rw [← same]
          exact ⟨rfl, rfl, rfl⟩
  · cases done
  · cases done

end MemoryService

namespace ReviewSession

variable (env : Environment) (publicId : Uuid) (requests : Nat → Request)

/-- The flush of a row that nobody has changed stores what `set_review_status` makes of it. -/
theorem reviewed_self (now : Instant) (status : ReviewStatus) (reviewerId : Option Nat) (m : Memory) :
    Memory.reviewed m now status reviewerId m = m.withReview now status reviewerId := by
  unfold Memory.reviewed Memory.withReview
  congr 1
  · split
    · assumption
    · rfl
  · split
    · assumption
    · rfl

theorem decided_eq (r : Request) (db : Database) (m : Memory) (present : m ∈ db.memories.rows) :
    decided r db m = MemoryRepo.setReviewStatus r.context.now db m r.status r.principal.userId :=
  updateMemory_congr db m present _ _ _ _ (reviewed_self _ _ _ m)

/-- A call that runs alone goes through the steps of a session. -/
theorem review_eq_steps (r : Request) (s : Session) :
    MemoryService.review env r.principal r.context s publicId r.approve = (do
      match ← reviewable r.principal s.db publicId with
      | (some m, true) =>
          let db ← recorded env r (decided r s.db m) m
          return (some (m.withReview r.context.now r.status r.principal.userId), { s with db := db })
      | (m, _) => return (m, s)) := by
  unfold MemoryService.review reviewable
  cases MemoryService.requireScope r.principal "write:memory" with
  | error e => rfl
  | ok _ =>
      cases looked : MemoryRepo.getByPublicId r.principal s.db publicId with
      | none => rfl
      | some m =>
          have present := (MemoryService.visible_of_getByPublicId _ _ _ m looked).1
          have same := decided_eq r s.db m present
          change (MemoryService.requireWrite r.principal m >>= _) =
            (MemoryService.requireWrite r.principal m >>= _) >>= _
          cases MemoryService.requireWrite r.principal m with
          | error e => rfl
          | ok _ =>
              by_cases pending : m.reviewStatus = .pending
              · simp only [pending]
                change _ = (recorded env r (decided r s.db m) m >>= _)
                rw [same]
                rfl
              · simp only [pending, ne_eq, not_false_eq_true, if_true, decide_false]
                rfl

/-- The entry records a decision on the memory with this id. -/
def isDecision (id : Nat) (entry : AuditLog JsonDict) : Bool :=
  entry.targetType == some "memory".toList && entry.targetId == some id &&
    (entry.action == "memory.review.approved".toList || entry.action == "memory.review.rejected".toList)

def decisions (db : Database) (id : Nat) : List (AuditLog JsonDict) :=
  db.audit.rows.filter (isDecision id)

/-- The entry names the status. -/
def Names (entry : AuditLog JsonDict) (status : ReviewStatus) : Prop :=
  (entry.action = "memory.review.approved".toList ∧ status = .approved) ∨
    (entry.action = "memory.review.rejected".toList ∧ status = .rejected)

/-- There is at most one decision on the memory, and it names the status of the row. -/
def Settled (db : Database) : Prop :=
  ∀ m ∈ db.memories.rows, m.publicId = publicId →
    (decisions db m.id).length ≤ 1 ∧ ∀ entry ∈ decisions db m.id, Names entry m.reviewStatus

/-- A status other than pending stays. -/
def Final (db db' : Database) : Prop :=
  ∀ m ∈ db.memories.rows, m.publicId = publicId → m.reviewStatus ≠ .pending →
    ∀ m' ∈ db'.memories.rows, m'.publicId = publicId → m'.reviewStatus = m.reviewStatus

/-- A call commits its decision when the memory is still pending in the committed rows. -/
def StillPending (s : State) : Event → Prop
  | .commit i => ∀ loaded db, s.phase i = .appended loaded db →
      ∀ m ∈ s.db.memories.rows, m.publicId = publicId → m.reviewStatus = .pending
  | _ => True

/-- This is what a step does to the state. -/
inductive StepOf (s : State) : Event → State → Prop
  | stays (e : Event) : StepOf s e s
  | loaded (i : Nat) (m : Memory) (arrived : s.phase i = .arrived) (present : m ∈ s.db.memories.rows)
      (own : m.publicId = publicId) (pending : m.reviewStatus = .pending) :
      StepOf s (.load i) (s.setPhase i (.loaded m))
  | returned (i : Nat) (m : Option Memory) (arrived : s.phase i = .arrived) :
      StepOf s (.load i) (s.setPhase i (.returned m))
  | updated (i : Nat) (m : Memory) (loaded : s.phase i = .loaded m) (free : s.holder = none) :
      StepOf s (.update i)
        { s.setPhase i (.updated m (decided (requests i) s.db m)) with holder := some i }
  | appended (i : Nat) (m : Memory) (db db' : Database) (updated : s.phase i = .updated m db)
      (done : recorded env (requests i) db m = .ok db') :
      StepOf s (.append i) (s.setPhase i (.appended m db'))
  | committed (i : Nat) (m : Memory) (db : Database) (appended : s.phase i = .appended m db) :
      StepOf s (.commit i)
        { db := db, holder := none, phase := Function.update s.phase i (.decided m) }
  | failed (e : Event) (i : Nat) : StepOf s e (s.fail i)

theorem reviewable_true (p : Principal) (db : Database) (m : Option Memory)
    (done : reviewable p db publicId = .ok (m, true)) :
    ∃ found, m = some found ∧ found ∈ db.memories.rows ∧ found.publicId = publicId ∧
      found.reviewStatus = .pending := by
  simp only [reviewable, bind_eq_ok] at done
  obtain ⟨_, _, done⟩ := done
  split at done
  · cases done
  · rename_i found looked
    simp only [bind_eq_ok] at done
    obtain ⟨_, _, same⟩ := done
    obtain ⟨rfl, pending⟩ := Prod.mk.inj (Except.ok.inj same)
    exact ⟨found, rfl, (MemoryService.visible_of_getByPublicId p db publicId found looked).1,
      (MemoryRepo.getByPublicId_some p db publicId found looked).2, of_decide_eq_true pending⟩

theorem step_cases (s : State) (e : Event) :
    StepOf env publicId requests s e (step env publicId requests s e) := by
  cases e with
  | load i =>
      cases phase : s.phase i <;> simp only [step, phase] <;> try exact .stays _
      rw [load]
      split
      · rename_i m done
        obtain ⟨found, same, present, own, pending⟩ := reviewable_true publicId _ _ _ done
        cases same
        exact .loaded i m phase present own pending
      · exact .returned i _ phase
      · exact .failed _ i
  | update i =>
      cases phase : s.phase i <;> simp only [step, phase] <;> try exact .stays _
      rw [update]
      split
      · exact .stays _
      · rename_i free
        split
        · exact .updated i _ phase (by simpa using free)
        · exact .failed _ i
  | append i =>
      cases phase : s.phase i <;> simp only [step, phase] <;> try exact .stays _
      rw [append]
      split
      · rename_i done
        exact .appended i _ _ _ phase done
      · exact .failed _ i
  | commit i =>
      cases phase : s.phase i <;> simp only [step, phase] <;> try exact .stays _
      exact .committed i _ _ phase
  | abort i =>
      cases phase : s.phase i <;> simp only [step, phase] <;>
        first | exact .stays _ | exact .failed _ i

/-- A decided row of the memory that a call has loaded has its entry. -/
def Tracked (db : Database) (loaded row : Memory) : Prop :=
  row ∈ db.memories.rows ∧ row.id = loaded.id ∧ row.publicId = publicId ∧
    (row.reviewStatus ≠ .pending → decisions db row.id ≠ [])

/-- This is what the phase of a call says about the database. -/
def Admits (db : Database) (holder : Option Nat) (i : Nat) : Phase → Prop
  | .loaded m => ∃ row, Tracked publicId db m row
  | .updated m db' => holder = some i ∧ (∃ row, Tracked publicId db m row) ∧
      db' = decided (requests i) db m
  | .appended m db' => holder = some i ∧ (∃ row, Tracked publicId db m row) ∧
      recorded env (requests i) (decided (requests i) db m) m = .ok db'
  | _ => True

structure Consistent (s : State) : Prop where
  settled : Settled publicId s.db
  phases : ∀ i, Admits env publicId requests s.db s.holder i (s.phase i)

variable {env publicId requests} {s : State}

theorem Consistent.setPhase (consistent : Consistent env publicId requests s) (i : Nat) (phase : Phase)
    (holder : Option Nat) (admits : Admits env publicId requests s.db holder i phase)
    (others : ∀ j ≠ i, s.holder = some j → holder = some j) :
    Consistent env publicId requests { s.setPhase i phase with holder := holder } where
  settled := consistent.settled
  phases := by
    intro j
    change Admits env publicId requests s.db holder j (Function.update s.phase i phase j)
    by_cases same : j = i
    · rw [same, Function.update_self]
      exact admits
    · rw [Function.update_of_ne same]
      have before := consistent.phases j
      cases phase' : s.phase j with
      | updated m db =>
          rw [phase'] at before
          exact ⟨others j same before.1, before.2⟩
      | appended m db =>
          rw [phase'] at before
          exact ⟨others j same before.1, before.2⟩
      | loaded m =>
          rw [phase'] at before
          exact before
      | _ => trivial

/-- This is the database that a call commits. -/
structure Commits (r : Request) (db db' : Database) (loaded row : Memory) : Prop where
  members : ∀ x, x ∈ db'.memories.rows ↔ (x ∈ db.memories.rows ∧ x ≠ row) ∨
    x = Memory.reviewed loaded r.context.now r.status r.principal.userId row
  entry : ∃ entry : AuditLog JsonDict, decisions db' row.id = decisions db row.id ++ [entry] ∧
    Names entry r.status

theorem commits_of_recorded (r : Request) (db db' : Database) (loaded row : Memory)
    (tracked : Tracked publicId db loaded row)
    (done : recorded env r (decided r db loaded) loaded = .ok db') :
    Commits r db db' loaded row := by
  obtain ⟨present, same, _, _⟩ := tracked
  constructor
  · intro x
    rw [MemoryService.auditMemory_memories _ _ _ _ _ done, decided, ← same]
    exact mem_updateMemory db row present _ (Memory.reviewed_ident _ _ _ _) x
  · obtain ⟨entry, rows, action, target, targetId⟩ :=
      MemoryService.auditMemory_audit env _ _ _ db' _ _ _ done
    have named : Names entry r.status := by
      unfold Names
      rw [action, Request.action, Request.status]
      cases r.approve with
      | true => exact Or.inl ⟨rfl, rfl⟩
      | false => exact Or.inr ⟨rfl, rfl⟩
    have counted : isDecision row.id entry = true := by
      unfold isDecision
      rw [target, targetId, same]
      rcases named with ⟨approved, _⟩ | ⟨rejected, _⟩
      · simp [approved]
      · simp [rejected]
    refine ⟨entry, ?_, named⟩
    rw [decisions, rows, List.filter_append, List.filter_cons_of_pos counted]
    rfl

/-- A pending memory has no decision. -/
theorem Settled.decisions_of_pending {db : Database} (settled : Settled publicId db) (m : Memory)
    (present : m ∈ db.memories.rows) (own : m.publicId = publicId) (pending : m.reviewStatus = .pending) :
    decisions db m.id = [] := by
  rw [List.eq_nil_iff_forall_not_mem]
  intro entry inside
  rcases (settled m present own).2 entry inside with ⟨_, status⟩ | ⟨_, status⟩
  · exact absurd (pending.symm.trans status) (by simp)
  · exact absurd (pending.symm.trans status) (by simp)

namespace Commits

variable {r : Request} {db db' : Database} {loaded row : Memory}

/-- The committed row of the memory is the reviewed one. -/
theorem eq_reviewed (commits : Commits r db db' loaded row) (tracked : Tracked publicId db loaded row)
    (x : Memory) (inside : x ∈ db'.memories.rows) (own : x.publicId = publicId) :
    x = Memory.reviewed loaded r.context.now r.status r.principal.userId row := by
  rcases (commits.members x).mp inside with ⟨old, other⟩ | same
  · exact absurd (memory_eq_of_publicId db x row old tracked.1 (own.trans tracked.2.2.1.symm)) other
  · exact same

theorem settled (commits : Commits r db db' loaded row) (tracked : Tracked publicId db loaded row)
    (before : Settled publicId db) (pending : row.reviewStatus = .pending) : Settled publicId db' := by
  intro x inside own
  rw [commits.eq_reviewed tracked x inside own]
  obtain ⟨entry, after, named⟩ := commits.entry
  change (decisions db' row.id).length ≤ 1 ∧ ∀ e ∈ decisions db' row.id, Names e r.status
  rw [after, before.decisions_of_pending row tracked.1 tracked.2.2.1 pending, List.nil_append]
  refine ⟨le_rfl, fun e single => ?_⟩
  rw [List.mem_singleton.mp single]
  exact named

/-- A second decision on the memory unsettles it. -/
theorem not_settled (commits : Commits r db db' loaded row) (tracked : Tracked publicId db loaded row)
    (final : row.reviewStatus ≠ .pending) : ¬ Settled publicId db' := by
  intro after
  obtain ⟨entry, rows, _⟩ := commits.entry
  have stored := (commits.members _).mpr (Or.inr rfl)
  have few : (decisions db' row.id).length ≤ 1 := (after _ stored tracked.2.2.1).1
  have before := List.length_pos_iff.mpr (tracked.2.2.2 final)
  rw [rows, List.length_append, List.length_singleton] at few
  omega

/-- The calls that have loaded the memory find its row with the decision. -/
theorem tracked (commits : Commits r db db' loaded row) (tracked : Tracked publicId db loaded row)
    (other row' : Memory) (before : Tracked publicId db other row') :
    ∃ x, Tracked publicId db' other x := by
  have same := memory_eq_of_publicId db row' row before.1 tracked.1
    (before.2.2.1.trans tracked.2.2.1.symm)
  refine ⟨_, (commits.members _).mpr (Or.inr rfl), ?_, tracked.2.2.1, fun _ => ?_⟩
  · change row.id = other.id
    rw [← same, before.2.1]
  · obtain ⟨entry, rows, _⟩ := commits.entry
    change decisions db' row.id ≠ []
    rw [rows]
    simp

end Commits

/-- The call that is about to commit has tracked the row. -/
theorem Consistent.commits (consistent : Consistent env publicId requests s) (i : Nat) (loaded : Memory)
    (db : Database) (appended : s.phase i = .appended loaded db) : s.holder = some i ∧
      ∃ row, Tracked publicId s.db loaded row ∧ Commits (requests i) s.db db loaded row := by
  have holds := consistent.phases i
  rw [appended] at holds
  obtain ⟨held, ⟨row, tracked⟩, done⟩ := holds
  exact ⟨held, row, tracked, commits_of_recorded (requests i) s.db db loaded row tracked done⟩

theorem consistent_step (consistent : Consistent env publicId requests s) (e : Event)
    (pending : StillPending publicId s e) :
    Consistent env publicId requests (step env publicId requests s e) := by
  have did := step_cases env publicId requests s e
  generalize step env publicId requests s e = s' at did ⊢
  cases did with
  | stays => exact consistent
  | loaded i m arrived present own waiting =>
      exact consistent.setPhase i _ s.holder
        ⟨m, present, rfl, own, fun final => absurd waiting final⟩ fun j _ held => held
  | returned i m arrived => exact consistent.setPhase i _ s.holder trivial fun j _ held => held
  | updated i m loaded free =>
      have before := consistent.phases i
      rw [loaded] at before
      refine consistent.setPhase i _ (some i) ⟨rfl, before, rfl⟩ fun j _ held => ?_
      rw [free] at held
      cases held
  | appended i m db db' updated done =>
      have before := consistent.phases i
      rw [updated] at before
      obtain ⟨held, tracked, same⟩ := before
      rw [same] at done
      exact consistent.setPhase i _ s.holder ⟨held, tracked, done⟩ fun j _ held => held
  | committed i m db appended =>
      obtain ⟨held, row, tracked, commits⟩ := consistent.commits i m db appended
      refine ⟨commits.settled tracked consistent.settled
        (pending m db appended row tracked.1 tracked.2.2.1), fun j => ?_⟩
      change Admits env publicId requests db none j (Function.update s.phase i (.decided m) j)
      by_cases same : j = i
      · rw [same, Function.update_self]
        trivial
      · rw [Function.update_of_ne same]
        have before := consistent.phases j
        rw [held] at before
        cases phase : s.phase j with
        | loaded other =>
            rw [phase] at before
            obtain ⟨row', tracked'⟩ := before
            exact commits.tracked tracked other row' tracked'
        | updated other db' =>
            rw [phase] at before
            exact absurd (Option.some.inj before.1).symm same
        | appended other db' =>
            rw [phase] at before
            exact absurd (Option.some.inj before.1).symm same
        | _ => trivial
  | failed e i =>
      refine consistent.setPhase i .failed _ trivial fun j other held => ?_
      rw [held, if_neg (by simpa using other)]

/-- The commit of a second decision shows in the log. -/
theorem stillPending_of_settled (consistent : Consistent env publicId requests s) (e : Event)
    (settled : Settled publicId (step env publicId requests s e).db) : StillPending publicId s e := by
  cases e with
  | commit i =>
      intro loaded db appended m present own
      obtain ⟨_, row, tracked, commits⟩ := consistent.commits i loaded db appended
      rw [memory_eq_of_publicId s.db m row present tracked.1 (own.trans tracked.2.2.1.symm)]
      by_contra final
      rw [step, appended] at settled
      exact commits.not_settled tracked final settled
  | _ => trivial

/-- A step that meets the condition changes the status of a pending row only. -/
theorem final_step (e : Event) (pending : StillPending publicId s e) :
    Final publicId s.db (step env publicId requests s e).db := by
  have did := step_cases env publicId requests s e
  generalize step env publicId requests s e = s' at did ⊢
  intro m present own decided m' present' own'
  cases did with
  | committed i loaded db appended =>
      exact absurd (pending loaded db appended m present own) decided
  | _ => rw [memory_eq_of_publicId s.db m' m present' present (own'.trans own.symm)]

/-- A memory gets at most one decision, which its row names and which stays, exactly when each call that
commits finds it still pending. -/
theorem settled_run_iff (env : Environment) (publicId : Uuid) (requests : Nat → Request)
    (start : Database) (events : List Event) (settled : Settled publicId start) :
    (Run.Always (step env publicId requests) (fun s => Settled publicId s.db) { db := start } events ∧
      Run.Each (step env publicId requests)
        (fun s e => Final publicId s.db (step env publicId requests s e).db) { db := start } events) ↔
      Run.Each (step env publicId requests) (StillPending publicId) { db := start } events := by
  have exact : Run.Always (step env publicId requests) (fun s => Settled publicId s.db)
      { db := start } events ↔
        Run.Each (step env publicId requests) (StillPending publicId) { db := start } events :=
    Run.always_iff_each_of_strong events (fun s holds => holds.settled)
      (fun s e _ holds => stillPending_of_settled holds e)
      (fun s e _ holds => consistent_step holds e) (⟨settled, fun _ => trivial⟩ : Consistent env publicId
        requests { db := start })
  constructor
  · intro both
    exact exact.mp both.1
  · intro each
    have always := exact.mpr each
    exact ⟨always, Run.Each.imp always (fun s e _ _ => final_step e) each⟩

def heldRow : Memory :=
  { MemoryService.newRow MemoryService.sampleEnvironment MemoryService.sampleOwner
      { now := 0, newPublicId := 1 } { scope := MemoryService.sampleScope, body := "x" }
      { title := [], body := "x", sensitivity := .internal } ⟨.pending, "low confidence"⟩ "english" none
    with id := 1 }

def oneHeld : Database where
  memories := Table.empty.insert heldRow (Table.fresh_empty _)

theorem settled_oneHeld : Settled 1 oneHeld :=
  fun _ _ _ => ⟨Nat.zero_le 1, fun _ inside => absurd inside List.not_mem_nil⟩

/-- The first reviewer approves and the others reject. -/
def reviewers (i : Nat) : Request where
  principal := MemoryService.sampleOwner
  context := { now := i + 1, newPublicId := 2 }
  approve := i == 0

/-- The second reviewer comes after the first has decided. -/
def oneAfterAnother : List Event := [.load 0, .update 0, .append 0, .commit 0, .load 1, .update 1]

/-- Both reviewers find the memory pending, and the second waits for the first. -/
def bothFindPending : List Event :=
  [.load 0, .load 1, .update 0, .update 1, .append 0, .commit 0, .update 1, .append 1, .commit 1]

theorem settled_run_iff_oneAfterAnother :
    let run := step MemoryService.sampleEnvironment 1 reviewers
    (Run.Always run (fun s => Settled 1 s.db) { db := oneHeld } oneAfterAnother ∧
      Run.Each run (fun s e => Final 1 s.db (run s e).db) { db := oneHeld } oneAfterAnother) ↔
      Run.Each run (StillPending 1) { db := oneHeld } oneAfterAnother :=
  settled_run_iff MemoryService.sampleEnvironment 1 reviewers oneHeld oneAfterAnother settled_oneHeld

/-- The memory is approved and rejected. -/
theorem both_decisions_are_committed :
    ¬ ∀ (env : Environment) (publicId : Uuid) (requests : Nat → Request) (start : Database)
        (events : List Event), Settled publicId start →
      Run.Always (step env publicId requests) (fun s => Settled publicId s.db) { db := start } events ∧
        Run.Each (step env publicId requests)
          (fun s e => Final publicId s.db (step env publicId requests s e).db) { db := start } events := by
  intro claim
  have settled := (claim MemoryService.sampleEnvironment 1 reviewers oneHeld bothFindPending
    settled_oneHeld).1.final
  have stored : ∃ m ∈ (Run.final (step MemoryService.sampleEnvironment 1 reviewers) { db := oneHeld }
      bothFindPending).db.memories.rows, m.publicId = 1 ∧ m.id = 1 :=
    ⟨_, List.mem_cons_self, rfl, rfl⟩
  obtain ⟨m, inside, own, id⟩ := stored
  have few := (settled m inside own).1
  rw [id] at few
  have two : (decisions (Run.final (step MemoryService.sampleEnvironment 1 reviewers) { db := oneHeld }
      bothFindPending).db 1).length = 2 := by
    decide +kernel
  omega

end ReviewSession
end Kortex
