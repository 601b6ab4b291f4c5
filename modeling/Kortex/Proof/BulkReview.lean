import Kortex.Model.ReviewSession
import Kortex.Proof.ReviewSession

/-
This file proves when a bulk review reports what it did.
-/

namespace Kortex.ReviewRouter

open MemoryService

variable {env : Environment} {p : Principal} {ctx : Nat → CallContext} {approve : Bool}
  {s s' : Session} {db db' : Database} {f : Memory → Memory}

/-- The memory waits for a review. -/
def waits (m : Memory) : Bool := m.reviewStatus == .pending

/-- This is the number of memories whose status has changed from pending. -/
def changed (db db' : Database) : Nat :=
  db.memories.rows.countP fun m => waits m &&
    db'.memories.rows.any fun m' => m'.id == m.id && !waits m'

/-- This is the number of memories that wait. -/
def waiting (db : Database) : Nat := db.memories.rows.countP waits

/-- Each row is where it was, and one that has been decided does not wait again. -/
structure Advances (db db' : Database) (f : Memory → Memory) : Prop where
  rows : db'.memories.rows = db.memories.rows.map f
  ids : ∀ m, (f m).id = m.id
  final : ∀ m, waits (f m) = true → waits m = true

/-- What counts for the first condition alone or for the second one counts for a weaker condition. -/
theorem countP_split {A : Type} (weak strong : A → Bool) (items : List A)
    (implies : ∀ a, strong a = true → weak a = true) :
    (items.countP fun a => weak a && !strong a) + items.countP strong = items.countP weak := by
  induction items with
  | nil => rfl
  | cons a rest ih =>
      rw [List.countP_cons, List.countP_cons, List.countP_cons, ← ih]
      cases second : strong a with
      | true =>
          rw [implies a second]
          simp only [Bool.not_true, Bool.and_false, Bool.false_eq_true, if_false, if_true]
          omega
      | false =>
          simp only [Bool.not_false, Bool.and_true, Bool.false_eq_true, if_false]
          omega

theorem changed_add_waiting (advances : Advances db db' f) :
    changed db db' + waiting db' = waiting db := by
  have each : ∀ m ∈ db.memories.rows, (waits m && db'.memories.rows.any fun m' =>
      m'.id == m.id && !waits m') = (waits m && !waits (f m)) := by
    intro m inside
    congr 1
    rw [Bool.eq_iff_iff, List.any_eq_true, advances.rows]
    constructor
    · rintro ⟨m', present, holds⟩
      obtain ⟨other, stored, rfl⟩ := List.mem_map.mp present
      rw [Bool.and_eq_true, beq_iff_eq, advances.ids] at holds
      rw [← memory_eq_of_id db other m stored inside holds.1]
      exact holds.2
    · intro decided
      exact ⟨f m, List.mem_map_of_mem inside, by simp [advances.ids, decided]⟩
  have count : changed db db' = db.memories.rows.countP fun m => waits m && !waits (f m) :=
    List.countP_congr fun m inside => by rw [each m inside]
  rw [count, waiting, waiting, advances.rows, List.countP_map]
  exact countP_split waits (waits ∘ f) db.memories.rows advances.final

/-- The call changes no row, because it finds none that waits. -/
structure Stays (p : Principal) (s s' : Session) (publicId : Uuid) (memory : Option Memory) : Prop where
  found : MemoryRepo.getByPublicId p s.db publicId = memory
  decided : ∀ m, memory = some m → m.reviewStatus ≠ .pending
  same : s' = s

/-- The call decides on a memory that waits, and says so in the log. -/
structure Decides (p : Principal) (now : Instant) (s s' : Session) (publicId : Uuid)
    (memory : Option Memory) (m : Memory) (status : ReviewStatus) : Prop where
  found : MemoryRepo.getByPublicId p s.db publicId = some m
  pending : m.reviewStatus = .pending
  final : status ≠ .pending
  memory : memory = some (m.withReview now status p.userId)
  rows : s'.db.memories = (s.db.updateMemory m.id (Memory.withReview now status p.userId)
    (Memory.withReview_ident now status p.userId)).memories
  recorded : ∃ entry, s'.db.audit.rows = s.db.audit.rows ++ [entry] ∧
    ReviewSession.isDecision m.id entry = true

theorem review_stays_or_decides (context : CallContext) (publicId : Uuid) (memory : Option Memory)
    (done : review env p context s publicId approve = .ok (memory, s')) :
    Stays p s s' publicId memory ∨
      ∃ m status, Decides p context.now s s' publicId memory m status := by
  simp only [review, bind_eq_ok] at done
  obtain ⟨_, _, done⟩ := done
  split at done
  · rename_i absent
    obtain ⟨rfl, rfl⟩ := Prod.mk.inj (Except.ok.inj done)
    exact Or.inl ⟨absent, fun m none => absurd none (by simp), rfl⟩
  · rename_i m found
    simp only [bind_eq_ok] at done
    obtain ⟨_, _, done⟩ := done
    split at done
    · rename_i decided
      obtain ⟨rfl, rfl⟩ := Prod.mk.inj (Except.ok.inj done)
      refine Or.inl ⟨found, fun m' same => ?_, rfl⟩
      rw [← Option.some.inj same]
      exact decided
    · rename_i waiting
      simp only [bind_eq_ok] at done
      obtain ⟨db', audited, same⟩ := done
      obtain ⟨rfl, rfl⟩ := Prod.mk.inj (Except.ok.inj same)
      obtain ⟨entry, log, action, targetType, target⟩ := auditMemory_audit _ _ _ _ _ _ _ _ audited
      refine Or.inr ⟨m, _, found, not_not.mp waiting, ?_, rfl,
        auditMemory_memories _ _ _ _ _ audited, entry, log, ?_⟩
      · cases approve <;> decide
      · cases approve <;> simp [ReviewSession.isDecision, action, targetType, target]

theorem Decides.advances {now : Instant} {publicId : Uuid} {memory : Option Memory} {m : Memory}
    {status : ReviewStatus} (decides : Decides p now s s' publicId memory m status) :
    Advances s.db s'.db
      (Table.changeRow (fun row => row.id == m.id) (Memory.withReview now status p.userId)) where
  rows := by
    rw [decides.rows]
    rfl
  ids row := id_changeRow _ _ (Memory.withReview_ident now status p.userId) row
  final row := by
    rw [Table.changeRow]
    split
    · intro after
      rw [waits, beq_iff_eq] at after
      exact absurd after decides.final
    · exact id

theorem Decides.waiting {now : Instant} {publicId : Uuid} {memory : Option Memory} {m : Memory}
    {status : ReviewStatus} (decides : Decides p now s s' publicId memory m status) :
    waiting s'.db + 1 = waiting s.db := by
  have stored := (visible_of_getByPublicId p s.db publicId m decides.found).1
  have one : (s.db.memories.rows.countP fun row => row.id == m.id) = 1 := by
    have single := List.count_eq_one_of_mem (memoryIds_nodup s.db) (List.mem_map_of_mem stored)
    rwa [List.count, List.countP_map] at single
  have only : ∀ row ∈ s.db.memories.rows, (waits row && !waits (Table.changeRow
      (fun row => row.id == m.id) (Memory.withReview now status p.userId) row)) = (row.id == m.id) := by
    intro row inside
    by_cases hit : row.id = m.id
    · have decided : waits (row.withReview now status p.userId) = false := by
        rw [waits, beq_eq_false_iff_ne]
        exact decides.final
      have waited : waits row = true := by
        rw [memory_eq_of_id s.db row m inside stored hit, waits, decides.pending]
        rfl
      simp [Table.changeRow, hit, decided, waited]
    · simp [Table.changeRow, hit]
  have split := countP_split waits (waits ∘ Table.changeRow (fun row => row.id == m.id)
    (Memory.withReview now status p.userId)) s.db.memories.rows decides.advances.final
  rw [ReviewRouter.waiting, ReviewRouter.waiting, decides.advances.rows, List.countP_map, ← split,
    Nat.add_comm, ← one]
  congr 1
  exact (List.countP_congr fun row inside => by rw [Function.comp_apply, only row inside]).symm

/-- No id of a memory that waits is repeated, and no memory that has been decided has a time of review. -/
def EachOnce (p : Principal) (db : Database) (publicIds : List Uuid) : Prop :=
  ∀ publicId ∈ publicIds, ∀ m, MemoryRepo.getByPublicId p db publicId = some m →
    (m.reviewStatus = .pending → publicIds.count publicId = 1) ∧
      (m.reviewStatus ≠ .pending → m.reviewedAt = none)

theorem eachOnce_stays (publicId : Uuid) (rest : List Uuid) (memory : Option Memory)
    (stays : Stays p s s' publicId memory) :
    EachOnce p s.db (publicId :: rest) ↔ counts memory = false ∧ EachOnce p s.db rest := by
  have other (x : Uuid) (m : Memory) (found : MemoryRepo.getByPublicId p s.db x = some m)
      (pending : m.reviewStatus = .pending) : publicId ≠ x := by
    rintro rfl
    exact stays.decided m (stays.found.symm.trans found) pending
  constructor
  · intro once
    constructor
    · cases memory with
      | none => rfl
      | some m =>
          have untimed := (once publicId List.mem_cons_self m stays.found).2 (stays.decided m rfl)
          simp [counts, untimed]
    · intro x inside m found
      obtain ⟨single, untimed⟩ := once x (List.mem_cons_of_mem _ inside) m found
      refine ⟨fun pending => ?_, untimed⟩
      rw [← single pending, List.count_cons_of_ne (other x m found pending)]
  · rintro ⟨uncounted, once⟩ x inside m found
    constructor
    · intro pending
      have apart := other x m found pending
      rw [List.count_cons_of_ne apart]
      exact (once x (List.mem_of_ne_of_mem apart.symm inside) m found).1 pending
    · intro decided
      rcases List.mem_cons.mp inside with rfl | later
      · rw [← stays.found, found] at uncounted
        simpa [counts] using uncounted
      · exact (once x later m found).2 decided

theorem eachOnce_decides {now : Instant} (publicId : Uuid) (rest : List Uuid) (memory : Option Memory)
    (m : Memory) (status : ReviewStatus) (decides : Decides p now s s' publicId memory m status) :
    EachOnce p s.db (publicId :: rest) ↔ EachOnce p s'.db rest := by
  have lookup (x : Uuid) := MemoryRepo.getByPublicId_update p s.db s'.db (fun row => row.id == m.id)
    (Memory.withReview now status p.userId) (Memory.withReview_ident now status p.userId) decides.rows
    (fun _ => ⟨rfl, rfl⟩) x
  have named := (MemoryRepo.getByPublicId_some p s.db publicId m decides.found).2
  have stored := (visible_of_getByPublicId p s.db publicId m decides.found).1
  have apart (x : Uuid) (different : publicId ≠ x) :
      MemoryRepo.getByPublicId p s'.db x = MemoryRepo.getByPublicId p s.db x := by
    rw [lookup]
    cases found : MemoryRepo.getByPublicId p s.db x with
    | none => rfl
    | some m' =>
        have missed : ¬ m'.id = m.id := by
          intro hit
          have inside := (visible_of_getByPublicId p s.db x m' found).1
          rw [memory_eq_of_id s.db m' m inside stored hit] at found
          exact different (named.symm.trans (MemoryRepo.getByPublicId_some p s.db x m found).2)
        simp [Table.changeRow, missed]
  have own : MemoryRepo.getByPublicId p s'.db publicId = some (m.withReview now status p.userId) := by
    rw [lookup, decides.found]
    simp [Table.changeRow]
  constructor
  · intro once x inside m' found
    have single := (once publicId List.mem_cons_self m decides.found).1 decides.pending
    have different : publicId ≠ x := by
      rintro rfl
      rw [List.count_cons_self] at single
      exact absurd inside (List.count_eq_zero.mp (by omega))
    rw [apart x different] at found
    obtain ⟨first, second⟩ := once x (List.mem_cons_of_mem _ inside) m' found
    rw [List.count_cons_of_ne different] at first
    exact ⟨first, second⟩
  · intro once x inside m' found
    by_cases different : publicId = x
    · subst different
      obtain rfl := Option.some.inj (decides.found.symm.trans found)
      refine ⟨fun _ => ?_, fun decided => absurd decides.pending decided⟩
      rw [List.count_cons_self, List.count_eq_zero.mpr]
      intro again
      have untimed := (once publicId again _ own).2 decides.final
      exact absurd untimed (by simp [Memory.withReview])
    · rw [List.count_cons_of_ne different]
      rw [← apart x different] at found
      exact once x (List.mem_of_ne_of_mem (Ne.symm different) inside) m' found

theorem Advances.comp {db'' : Database} {g : Memory → Memory} (first : Advances db db' f)
    (second : Advances db' db'' g) : Advances db db'' (g ∘ f) where
  rows := by rw [second.rows, first.rows, List.map_map]
  ids m := (second.ids (f m)).trans (first.ids m)
  final m after := first.final m (second.final (f m) after)

/-- These are entries about decisions. -/
def Decisions (entries : List (AuditLog JsonDict)) : Prop :=
  ∀ entry ∈ entries, ∃ id, ReviewSession.isDecision id entry = true

/-- This is what the loop does to the rows, to its counter and to the log. -/
structure Ran (p : Principal) (s s' : Session) (publicIds : List Uuid) (reviewed : Nat) : Prop where
  advances : ∃ f, Advances s.db s'.db f
  few : reviewed ≤ publicIds.length
  atLeast : waiting s.db ≤ waiting s'.db + reviewed
  exactly : waiting s.db = waiting s'.db + reviewed ↔ EachOnce p s.db publicIds
  recorded : ∃ entries, s'.db.audit.rows = s.db.audit.rows ++ entries ∧
    entries.length + waiting s'.db = waiting s.db ∧ Decisions entries

theorem ran_reviewAll (i : Nat) (publicIds : List Uuid) (reviewed : Nat)
    (done : reviewAll env p ctx approve i publicIds s = .ok (reviewed, s')) :
    Ran p s s' publicIds reviewed := by
  induction publicIds generalizing i s reviewed with
  | nil =>
      obtain ⟨rfl, rfl⟩ := Prod.mk.inj (Except.ok.inj done)
      refine ⟨⟨id, by simp, fun _ => rfl, fun _ => id⟩, le_rfl, le_rfl, ?_, [], by simp, by simp, ?_⟩
      · exact iff_of_true rfl fun _ none => absurd none List.not_mem_nil
      · exact fun _ none => absurd none List.not_mem_nil
  | cons publicId rest ih =>
      simp only [reviewAll, bind_eq_ok] at done
      obtain ⟨⟨memory, middle⟩, one, ⟨others, final⟩, later, same⟩ := done
      obtain ⟨rfl, rfl⟩ := Prod.mk.inj (Except.ok.inj same)
      change reviewAll env p ctx approve (i + 1) rest middle = .ok (others, final) at later
      change Ran p s final (publicId :: rest) ((if counts memory then 1 else 0) + others)
      have tail : Ran p middle final rest others := ih (i + 1) others later
      obtain ⟨g, following⟩ := tail.advances
      have few := tail.few
      have atLeast := tail.atLeast
      obtain ⟨entries, log, number, decisions⟩ := tail.recorded
      rcases review_stays_or_decides (ctx i) publicId memory one with stays | ⟨m, status, decides⟩
      · obtain rfl := stays.same
        refine ⟨tail.advances, ?_, ?_, ?_, tail.recorded⟩
        · rw [List.length_cons]
          split <;> omega
        · omega
        · rw [eachOnce_stays publicId rest memory stays, ← tail.exactly]
          cases counted : counts memory with
          | true =>
              simp only [if_true]
              exact iff_of_false (by omega) (fun both => absurd both.1 (by simp))
          | false => simp
      · have counted : counts memory = true := by
          rw [decides.memory]
          rfl
        have fewer := decides.waiting
        obtain ⟨entry, written, decision⟩ := decides.recorded
        rw [counted, if_pos rfl]
        refine ⟨⟨_, decides.advances.comp following⟩, ?_, ?_, ?_, entry :: entries, ?_, ?_, ?_⟩
        · rw [List.length_cons]
          omega
        · omega
        · rw [eachOnce_decides publicId rest memory m status decides, ← tail.exactly]
          omega
        · rw [log, written, List.append_assoc]
          rfl
        · rw [List.length_cons]
          omega
        · exact List.forall_mem_cons.mpr ⟨⟨m.id, decision⟩, decisions⟩

/-- The response says how many memories the request decided, and the log has an entry for each. -/
structure Reports (s s' : Session) (publicIds : List Uuid) (out : BulkReviewOut) : Prop where
  reviewed : out.reviewed = changed s.db s'.db
  skipped : out.skipped + changed s.db s'.db = publicIds.length
  recorded : ∃ entries, s'.db.audit.rows = s.db.audit.rows ++ entries ∧
    entries.length = out.reviewed ∧ Decisions entries

/-- A bulk review reports what it did exactly when it is asked for each waiting memory once, and for no
memory that was reviewed before. -/
theorem bulk_reports_iff (publicIds : List Uuid) (out : BulkReviewOut)
    (done : bulk env p ctx approve s publicIds = .ok (out, s')) :
    Reports s s' publicIds out ↔ EachOnce p s.db publicIds := by
  simp only [bulk, bind_eq_ok] at done
  obtain ⟨⟨reviewed, final⟩, looped, same⟩ := done
  obtain ⟨rfl, rfl⟩ := Prod.mk.inj (Except.ok.inj same)
  have ran := ran_reviewAll 0 publicIds reviewed looped
  obtain ⟨f, advances⟩ := ran.advances
  have total := changed_add_waiting advances
  have few := ran.few
  rw [← ran.exactly]
  constructor
  · intro reports
    have counted : reviewed = changed s.db final.db := reports.reviewed
    omega
  · intro exactly
    obtain ⟨entries, log, number, decisions⟩ := ran.recorded
    have counted : reviewed = changed s.db final.db := by omega
    refine ⟨counted, ?_, entries, log, ?_, decisions⟩
    · change publicIds.length - reviewed + changed s.db final.db = publicIds.length
      omega
    · change entries.length = reviewed
      omega

/-- A memory is held because it was written by an agent under a project that reviews everything. -/
def heldMemory : Memory :=
  { newRow sampleEnvironment sampleOwner { now := 0, newPublicId := 7 }
      { scope := sampleScope, body := "x" } { title := [], body := "x", sensitivity := .internal }
      { status := .pending } defaultTsConfig none with id := 1 }

def heldDatabase : Database where
  memories := Table.empty.insert heldMemory (Table.fresh_empty heldMemory)

/-- The samples review with an owner and approve. -/
def sampleBulk (publicIds : List Uuid) : Except ServiceError (BulkReviewOut × Session) :=
  bulk sampleEnvironment sampleOwner (fun i => { now := i, newPublicId := 9 }) true ⟨heldDatabase, {}⟩
    publicIds

/-- The memory is decided once, and both calls count it. -/
theorem repeated_id_counts_twice :
    ¬ ∀ (env : Environment) (p : Principal) (ctx : Nat → CallContext) (approve : Bool) (s s' : Session)
      (publicIds : List Uuid) (out : BulkReviewOut),
      bulk env p ctx approve s publicIds = .ok (out, s') → Reports s s' publicIds out := by
  intro claim
  have done := eq_ok_afterCall ⟨heldDatabase, {}⟩ (sampleBulk [7, 7]) ⟨2, 0⟩ (by rfl)
  have reviewed := (claim _ _ _ _ _ _ [7, 7] _ done).reviewed
  have one : changed heldDatabase (afterCall ⟨heldDatabase, {}⟩ (sampleBulk [7, 7])).db = 1 := by rfl
  rw [one] at reviewed
  exact absurd reviewed (by decide)

theorem bulk_reports_iff_held : ∃ s', sampleBulk [7, 8] = .ok (⟨1, 1⟩, s') ∧
    Reports ⟨heldDatabase, {}⟩ s' [7, 8] ⟨1, 1⟩ := by
  have done := eq_ok_afterCall ⟨heldDatabase, {}⟩ (sampleBulk [7, 8]) ⟨1, 1⟩ (by rfl)
  refine ⟨_, done, (bulk_reports_iff [7, 8] ⟨1, 1⟩ done).mpr ?_⟩
  intro publicId inside m found
  rcases List.mem_cons.mp inside with rfl | later
  · have same : m = heldMemory := (Option.some.inj found).symm
    subst same
    exact ⟨fun _ => rfl, fun decided => absurd rfl decided⟩
  · rw [List.mem_singleton.mp later] at found
    cases found

end Kortex.ReviewRouter
