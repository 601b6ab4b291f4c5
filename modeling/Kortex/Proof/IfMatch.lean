import Kortex.Library.Run
import Kortex.Model.IfMatch
import Kortex.Proof.MemoryService

/-
This file proves when a successful PATCH has found the version that its `If-Match` names.
-/

namespace Kortex

namespace MemoryService

/-- The handler makes the call of the service in two steps. -/
theorem update_eq_editable (p : Principal) (ctx : CallContext) (s : Session) (publicId : Uuid)
    (patch : MemoryPatch) : update p ctx s publicId patch = (do
      match ← editable p s.db publicId patch with
      | none => return (none, s)
      | some m =>
          let (row, db) ← flush (MemoryRepo.updateFields ctx.now s.db m patch)
          return (some row, { s with db := db })) := by
  unfold update editable
  cases requireScope p "write:memory" with
  | error e => rfl
  | ok _ =>
      cases MemoryRepo.getByPublicId p s.db publicId with
      | none => rfl
      | some m =>
          change (requireWrite p m >>= _) = (requireWrite p m >>= _) >>= _
          cases requireWrite p m with
          | error e => rfl
          | ok _ =>
              change (requireSensitivity p m patch.sensitivity >>= _) =
                (requireSensitivity p m patch.sensitivity >>= _) >>= _
              cases requireSensitivity p m patch.sensitivity <;> rfl

theorem editable_some (p : Principal) (db : Database) (publicId : Uuid) (patch : MemoryPatch)
    (m : Memory) (done : editable p db publicId patch = .ok (some m)) :
    m ∈ db.memories.rows ∧ m.publicId = publicId := by
  simp only [editable, bind_eq_ok] at done
  obtain ⟨_, _, done⟩ := done
  split at done
  · exact absurd (Except.ok.inj done) (by simp)
  · rename_i found loaded
    simp only [bind_eq_ok] at done
    obtain ⟨_, _, _, _, same⟩ := done
    rw [← Option.some.inj (Except.ok.inj same)]
    exact ⟨(visible_of_getByPublicId p db publicId found loaded).1,
      (MemoryRepo.getByPublicId_some p db publicId found loaded).2⟩

end MemoryService

namespace IfMatch

variable {parse : Str → Option Uuid} {publicId : Uuid}
variable (sha1 : Str → Str) (cast : Str → Option Uuid)
variable (requests : Nat → PatchRequest parse publicId)

/-- The header of the request, but for the whitespace around it, is the ETag of the version. -/
def Names (i : Nat) (updatedAt : Instant) : Prop :=
  Str.strip (requests i).ifMatch = rowEtag sha1 updatedAt

/-- This is what a step does to the state. -/
inductive StepOf (s : State) : Event → State → Prop
  | stays (e : Event) : StepOf s e s
  | dispatched (i : Nat) (fails : Bool) (checked : Option Instant) (arrived : s.phase i = .arrived)
      (named : ∀ updatedAt ∈ checked, Names sha1 requests i updatedAt ∧
        ∃ m ∈ s.db.memories.rows, m.updatedAt = updatedAt) :
      StepOf s (.lookUp i fails) (s.setPhase i (.dispatched checked))
  | loaded (i : Nat) (now : Instant) (checked : Option Instant) (m : Memory)
      (dispatched : s.phase i = .dispatched checked) (present : m ∈ s.db.memories.rows)
      (own : m.publicId = publicId) : StepOf s (.load i now) (s.setPhase i (.loaded checked now m))
  | updated (i : Nat) (checked : Option Instant) (now : Instant) (m found : Memory)
      (loaded : s.phase i = .loaded checked now m) (free : s.holder = none)
      (present : found ∈ s.db.memories.rows) (same : found.id = m.id) :
      StepOf s (.update i)
        { s.setPhase i (.updated checked found (s.db.updateMemory found.id
            (Memory.patched now (requests i).patch) (Memory.patched_ident now (requests i).patch)))
          with holder := some i }
  | committed (i : Nat) (checked : Option Instant) (found : Memory) (db : Database)
      (updated : s.phase i = .updated checked found db) :
      StepOf s (.commit i)
        { db := db, holder := none, phase := Function.update s.phase i (.succeeded found) }
  | failed (e : Event) (i : Nat) : StepOf s e (s.setPhase i .failed)
  | released (e : Event) (i : Nat) (checked : Option Instant) (found : Memory) (db : Database)
      (updated : s.phase i = .updated checked found db) :
      StepOf s e { s.setPhase i .failed with holder := none }

/-- The version that the middleware lets pass is named by the header. -/
theorem dispatch_callNext (db : Database) (fails : Bool) (path ifMatch : Str)
    (checked : Option Instant) (done : dispatch sha1 cast db fails path ifMatch = .callNext checked) :
    ∀ updatedAt ∈ checked, Str.strip ifMatch = rowEtag sha1 updatedAt ∧
      ∃ m ∈ db.memories.rows, m.updatedAt = updatedAt := by
  intro updatedAt named
  cases named
  simp only [dispatch] at done
  split at done
  · cases done
  · split at done
    · cases done
    · split at done
      · cases done
      · rename_i version looked
        split at done
        · cases done
        · rename_i equal
          cases done
          refine ⟨not_not.mp equal, ?_⟩
          simp only [currentUpdatedAt] at looked
          split at looked
          · cases looked
          · obtain ⟨_, _, found⟩ := Option.bind_eq_some_iff.mp looked
            obtain ⟨m, first, same⟩ := Option.map_eq_some_iff.mp found
            exact ⟨m, List.mem_of_find?_eq_some first, same⟩

theorem step_cases (s : State) (e : Event) :
    StepOf sha1 requests s e (step sha1 cast requests s e) := by
  cases e with
  | lookUp i fails =>
      cases phase : s.phase i <;> simp only [step, phase] <;> try exact .stays _
      split
      · rename_i checked done
        exact .dispatched i fails checked phase (dispatch_callNext sha1 cast _ _ _ _ checked done)
      · exact .failed _ i
  | load i now =>
      cases phase : s.phase i <;> simp only [step, phase] <;> try exact .stays _
      rename_i checked
      rw [load]
      split
      · rename_i m done
        obtain ⟨present, own⟩ := MemoryService.editable_some _ _ _ _ m done
        exact .loaded i now checked m phase present own
      · exact .failed _ i
  | update i =>
      cases phase : s.phase i <;> simp only [step, phase] <;> try exact .stays _
      rename_i checked now m
      rw [update]
      split
      · exact .stays _
      · rename_i free
        split
        · exact .failed _ i
        · rename_i found looked
          simp only [MemoryRepo.updateFields]
          split
          · exact .failed _ i
          · rename_i done
            split at done
            · obtain ⟨_, rfl⟩ := Prod.mk.inj (Option.some.inj done)
              exact .updated i checked now m found phase (by simpa using free)
                (List.mem_of_find?_eq_some looked) (by simpa using List.find?_some looked)
            · cases done
  | commit i =>
      cases phase : s.phase i <;> simp only [step, phase] <;> try exact .stays _
      exact .committed i _ _ _ phase
  | abort i =>
      cases phase : s.phase i <;> simp only [step, phase]
      · exact .failed _ i
      · exact .failed _ i
      · exact .failed _ i
      · exact .released _ i _ _ _ phase
      · exact .stays _
      · exact .stays _

/-- Every request that succeeded has found the version that its header names, and no two of them have
the same header. -/
def Matched (s : State) : Prop :=
  (∀ i found, s.phase i = .succeeded found → Names sha1 requests i found.updatedAt) ∧
    ∀ i j found found', i ≠ j → s.phase i = .succeeded found → s.phase j = .succeeded found' →
      Str.strip (requests i).ifMatch ≠ Str.strip (requests j).ifMatch

/-- A request that commits has updated the version that the middleware compared. Where the middleware
compared none, the header happens to name the version. -/
def Unchanged (s : State) : Event → Prop
  | .commit i => ∀ checked found db, s.phase i = .updated checked found db →
      match checked with
      | some updatedAt => found.updatedAt = updatedAt
      | none => Names sha1 requests i found.updatedAt
  | _ => True

/-- An update that takes effect gives the row a later `updated_at`. -/
def Newer (s : State) : Event → Prop
  | .update i => ∀ checked now m, s.phase i = .loaded checked now m → s.holder = none →
      ∀ found ∈ s.db.memories.rows, found.id = m.id → found.updatedAt < now
  | _ => True

/-- These are the versions that the rows have at the start and those that the updates give them. -/
def versions (start : Database) (inputs : List Event) : Set Instant :=
  {t | (∃ m ∈ start.memories.rows, m.updatedAt = t) ∨ ∃ i, .load i t ∈ inputs}

variable (V : Set Instant)

/-- What the middleware compared is a version that the header names. -/
def Compared (i : Nat) (checked : Option Instant) : Prop :=
  ∀ updatedAt ∈ checked, updatedAt ∈ V ∧ Names sha1 requests i updatedAt

/-- This is what the phase of a request says about the database. -/
def Admits (db : Database) (holder : Option Nat) (i : Nat) : Phase → Prop
  | .dispatched checked => Compared sha1 requests V i checked
  | .loaded checked now m => Compared sha1 requests V i checked ∧ now ∈ V ∧ m.publicId = publicId ∧
      ∃ row ∈ db.memories.rows, (row.id, row.publicId) = (m.id, m.publicId)
  | .updated checked found db' => Compared sha1 requests V i checked ∧ holder = some i ∧
      found ∈ db.memories.rows ∧ found.publicId = publicId ∧ ∃ now ∈ V, found.updatedAt < now ∧
        db' = db.updateMemory found.id (Memory.patched now (requests i).patch)
          (Memory.patched_ident now (requests i).patch)
  | .succeeded found => found.updatedAt ∈ V ∧ Names sha1 requests i found.updatedAt ∧
      ∀ row ∈ db.memories.rows, row.publicId = publicId → found.updatedAt < row.updatedAt
  | _ => True

/-- All phases agree with the database, and the requests that succeeded have found different versions. -/
structure Consistent (s : State) : Prop where
  rows : ∀ m ∈ s.db.memories.rows, m.updatedAt ∈ V
  phases : ∀ i, Admits sha1 requests V s.db s.holder i (s.phase i)
  apart : ∀ i j found found', i ≠ j → s.phase i = .succeeded found → s.phase j = .succeeded found' →
    found.updatedAt ≠ found'.updatedAt

variable {sha1 cast requests V} {s : State}

theorem Consistent.matched (distinct : Set.InjOn (rowEtag sha1) V)
    (consistent : Consistent sha1 requests V s) : Matched sha1 requests s := by
  have named (i : Nat) (found : Memory) (succeeded : s.phase i = .succeeded found) :
      found.updatedAt ∈ V ∧ Names sha1 requests i found.updatedAt := by
    have holds := consistent.phases i
    rw [succeeded] at holds
    exact ⟨holds.1, holds.2.1⟩
  refine ⟨fun i found succeeded => (named i found succeeded).2, ?_⟩
  intro i j found found' different first second same
  have sameEtag := (named i found first).2.symm.trans (same.trans (named j found' second).2)
  exact consistent.apart i j found found' different first second
    (distinct (named i found first).1 (named j found' second).1 sameEtag)

/-- A step that leaves the database alone and gives one request another phase keeps the invariant. -/
theorem Consistent.setPhase (consistent : Consistent sha1 requests V s) (i : Nat) (phase : Phase)
    (holder : Option Nat) (admits : Admits sha1 requests V s.db holder i phase)
    (running : ∀ found, phase ≠ .succeeded found)
    (others : ∀ j ≠ i, Admits sha1 requests V s.db holder j (s.phase j)) :
    Consistent sha1 requests V { s.setPhase i phase with holder := holder } where
  rows := consistent.rows
  phases := by
    change ∀ j, Admits sha1 requests V s.db holder j (Function.update s.phase i phase j)
    intro j
    by_cases same : j = i
    · rw [same, Function.update_self]
      exact admits
    · rw [Function.update_of_ne same]
      exact others j same
  apart := by
    have succeeded (j : Nat) (found : Memory)
        (done : Function.update s.phase i phase j = .succeeded found) :
        s.phase j = .succeeded found := by
      by_cases same : j = i
      · rw [same, Function.update_self] at done
        exact absurd done (running found)
      · rwa [Function.update_of_ne same] at done
    intro j k found found' different first second
    exact consistent.apart j k found found' different (succeeded j found first)
      (succeeded k found' second)

/-- Where no other request holds the lock, the lock says nothing about the phase of a request. -/
theorem admits_of_holder (db : Database) (holder holder' : Option Nat) (i : Nat) (phase : Phase)
    (free : holder ≠ some i) (admits : Admits sha1 requests V db holder i phase) :
    Admits sha1 requests V db holder' i phase := by
  cases phase with
  | updated checked found db' => exact absurd admits.2.1 free
  | _ => exact admits

/-- A commit changes the row of the memory to a later version, and the other phases still agree. -/
theorem admits_of_commit (db : Database) (i j : Nat) (found : Memory) (phase : Phase) (now : Instant)
    (present : found ∈ db.memories.rows) (own : found.publicId = publicId)
    (newer : found.updatedAt < now) (different : j ≠ i)
    (admits : Admits sha1 requests V db (some i) j phase) :
    Admits sha1 requests V (db.updateMemory found.id (Memory.patched now (requests i).patch)
      (Memory.patched_ident now (requests i).patch)) none j phase := by
  have members := mem_updateMemory db found present (Memory.patched now (requests i).patch)
    (Memory.patched_ident now (requests i).patch)
  cases phase with
  | updated checked other db' => exact absurd (Option.some.inj admits.2.1).symm different
  | loaded checked now' m =>
      obtain ⟨compared, inside, same, row, stored, ident⟩ := admits
      refine ⟨compared, inside, same, ?_⟩
      by_cases current : row = found
      · exact ⟨found.patched now (requests i).patch, (members _).mpr (Or.inr rfl),
          by rw [← ident, current]; rfl⟩
      · exact ⟨row, (members _).mpr (Or.inl ⟨stored, current⟩), ident⟩
  | succeeded other =>
      obtain ⟨inside, named, older⟩ := admits
      refine ⟨inside, named, fun row stored same => ?_⟩
      rcases (members row).mp stored with ⟨old, _⟩ | rfl
      · exact older row old same
      · exact (older found present own).trans newer
  | _ => exact admits

/-- The phases of the other requests agree with a state in which a request gets or frees the lock. -/
theorem Consistent.others (consistent : Consistent sha1 requests V s) (i : Nat)
    (holder : Option Nat) (free : ∀ j ≠ i, s.holder ≠ some j) (j : Nat) (different : j ≠ i) :
    Admits sha1 requests V s.db holder j (s.phase j) :=
  admits_of_holder s.db s.holder holder j _ (free j different) (consistent.phases j)

/-- A request that has updated the row holds the lock alone. -/
theorem Consistent.free_of_updated (consistent : Consistent sha1 requests V s) (i : Nat)
    (checked : Option Instant) (found : Memory) (db : Database)
    (updated : s.phase i = .updated checked found db) : ∀ j ≠ i, s.holder ≠ some j := by
  have holds := consistent.phases i
  rw [updated] at holds
  intro j different held
  exact different (Option.some.inj (held.symm.trans holds.2.1))

/-- A commit publishes a version that is later than all that have succeeded. -/
theorem consistent_committed (consistent : Consistent sha1 requests V s) (i : Nat) (checked : Option Instant)
    (found : Memory) (db : Database) (updated : s.phase i = .updated checked found db)
    (unchanged : Unchanged sha1 requests s (.commit i)) :
    Consistent sha1 requests V
      { db := db, holder := none, phase := Function.update s.phase i (.succeeded found) } := by
  have holds := consistent.phases i
  rw [updated] at holds
  obtain ⟨compared, held, present, own, now, known, later, rfl⟩ := holds
  have members := mem_updateMemory s.db found present (Memory.patched now (requests i).patch)
    (Memory.patched_ident now (requests i).patch)
  have names : Names sha1 requests i found.updatedAt := by
    have asked := unchanged checked found _ updated
    cases checked with
    | none => exact asked
    | some updatedAt =>
        rw [show found.updatedAt = updatedAt from asked]
        exact (compared updatedAt rfl).2
  constructor
  · intro row stored
    rcases (members row).mp stored with ⟨old, _⟩ | rfl
    · exact consistent.rows row old
    · exact known
  · change ∀ j, Admits sha1 requests V _ none j (Function.update s.phase i (.succeeded found) j)
    intro j
    by_cases same : j = i
    · rw [same, Function.update_self]
      refine ⟨consistent.rows found present, names, fun row stored samePublicId => ?_⟩
      rcases (members row).mp stored with ⟨old, other⟩ | rfl
      · exact absurd (memory_eq_of_publicId s.db row found old present (samePublicId.trans own.symm))
          other
      · exact later
    · rw [Function.update_of_ne same]
      have other := consistent.phases j
      rw [held] at other
      exact admits_of_commit s.db i j found _ now present own later same other
  · have earlier (j : Nat) (found' : Memory) (succeeded : s.phase j = .succeeded found') :
        found'.updatedAt < found.updatedAt := by
      have holds := consistent.phases j
      rw [succeeded] at holds
      exact holds.2.2 found present own
    have either (j : Nat) (found' : Memory)
        (succeeded : Function.update s.phase i (.succeeded found) j = .succeeded found') :
        j = i ∧ found = found' ∨ s.phase j = .succeeded found' := by
      by_cases same : j = i
      · rw [same, Function.update_self] at succeeded
        exact Or.inl ⟨same, Phase.succeeded.inj succeeded⟩
      · rw [Function.update_of_ne same] at succeeded
        exact Or.inr succeeded
    intro j k found' found'' different first second
    rcases either j found' first with ⟨rfl, rfl⟩ | before <;>
      rcases either k found'' second with ⟨rfl, rfl⟩ | before'
    · exact absurd rfl different
    · exact (earlier k found'' before').ne'
    · exact (earlier j found' before).ne
    · exact consistent.apart j k found' found'' different before before'

theorem consistent_step (consistent : Consistent sha1 requests V s) (e : Event)
    (inside : ∀ i now, e = .load i now → now ∈ V) (newer : Newer s e)
    (unchanged : Unchanged sha1 requests s e) :
    Consistent sha1 requests V (step sha1 cast requests s e) := by
  have did := step_cases sha1 cast requests s e
  generalize step sha1 cast requests s e = s' at did ⊢
  cases did with
  | stays => exact consistent
  | dispatched i fails checked arrived named =>
      refine consistent.setPhase i _ s.holder ?_ (by simp) fun j _ => consistent.phases j
      intro updatedAt compared
      obtain ⟨names, m, present, same⟩ := named updatedAt compared
      exact ⟨same ▸ consistent.rows m present, names⟩
  | loaded i now checked m dispatched present own =>
      have compared := consistent.phases i
      rw [dispatched] at compared
      exact consistent.setPhase i _ s.holder ⟨compared, inside i now rfl, own, m, present, rfl⟩ (by simp)
        fun j _ => consistent.phases j
  | updated i checked now m found loaded free present same =>
      have holds := consistent.phases i
      rw [loaded] at holds
      obtain ⟨compared, known, own, row, stored, ident⟩ := holds
      obtain ⟨sameId, samePublicId⟩ := Prod.mk.inj ident
      have sameRow := memory_eq_of_id s.db found row present stored (same.trans sameId.symm)
      have publicIds : found.publicId = publicId := by rw [sameRow, samePublicId, own]
      have later := newer checked now m loaded free found present same
      refine consistent.setPhase i _ (some i)
        ⟨compared, rfl, present, publicIds, now, known, later, rfl⟩ (by simp) ?_
      exact consistent.others i (some i) fun j _ => by rw [free]; simp
  | committed i checked found db updated =>
      exact consistent_committed consistent i checked found db updated unchanged
  | failed e i =>
      exact consistent.setPhase i .failed s.holder trivial (by simp) fun j _ => consistent.phases j
  | released e i checked found db updated =>
      exact consistent.setPhase i .failed none trivial (by simp)
        (consistent.others i none (consistent.free_of_updated i checked found db updated))

/-- The commit of a request that succeeds needs the condition. -/
theorem unchanged_of_matched (distinct : Set.InjOn (rowEtag sha1) V)
    (consistent : Consistent sha1 requests V s) (e : Event)
    (matched : Matched sha1 requests (step sha1 cast requests s e)) :
    Unchanged sha1 requests s e := by
  cases e with
  | commit i =>
      intro checked found db updated
      have holds := consistent.phases i
      rw [updated] at holds
      have names : Names sha1 requests i found.updatedAt := by
        apply matched.1 i found
        rw [step, updated]
        exact Function.update_self _ _ _
      cases checked with
      | none => exact names
      | some updatedAt =>
          obtain ⟨known, compared⟩ := holds.1 updatedAt rfl
          exact distinct (consistent.rows found holds.2.2.1) known (names.symm.trans compared)
  | _ => trivial

/-- These are the SHA-1 hashes of the versions of the sample. -/
def versionHashes : Dict Str Str :=
  [("1970-01-01 00:00:00+00:00", "ce2e107e7fdcb07109a6f8b26a15b0e0ff098dd4"),
    ("1970-01-01 00:00:00.000001+00:00", "bdf79472a083bc4c8fdcb525267e98f79a3bf70a"),
    ("1970-01-01 00:00:00.000002+00:00", "f684b8cf8d895bdb44beebd4b802539482c7ef9f")]

def sampleRow : Memory :=
  { MemoryService.newRow (.ascii fun s => s) MemoryService.sampleOwner { now := 0, newPublicId := 1 }
      { scope := MemoryService.sampleScope, body := "x" }
      { title := [], body := "x", sensitivity := .internal } ⟨.approved, []⟩ "english" none with
    id := 1 }

def oneMemory : Database where
  memories := Table.empty.insert sampleRow (Table.fresh_empty _)

def readSample (text : Str) : Option Uuid := if text = Uuid.str 1 then some 1 else none

/-- The requests send the ETag of the first version. -/
def sampleRequests (_ : Nat) : PatchRequest readSample 1 where
  id := Uuid.str 1
  routed := by decide +kernel
  ifMatch := "W/\"ce2e107e7fdcb071\""
  principal := MemoryService.sampleOwner
  patch := { title := some "y" }

def sampleStep : State → Event → State :=
  step (MemoryService.tableHash versionHashes) readSample sampleRequests

/-- The requests run one after the other. -/
def inTurn : List Event :=
  [.lookUp 0 false, .load 0 1, .update 0, .commit 0, .lookUp 1 false]

/-- Both requests are compared before one of them commits. -/
def interleaved : List Event :=
  [.lookUp 0 false, .lookUp 1 false, .load 0 1, .load 1 2, .update 0, .commit 0, .update 1, .commit 1]

def Phase.loadedAt : Phase → Option Instant
  | .loaded _ now _ => some now
  | _ => none

def Phase.foundAt : Phase → Option Instant
  | .succeeded found => some found.updatedAt
  | _ => none

def Event.loadTime : Event → Option Instant
  | .load _ now => some now
  | _ => none

def isNewer (s : State) : Event → Bool
  | .update i => (s.phase i).loadedAt.all fun now => s.db.memories.rows.all fun m => m.updatedAt < now
  | _ => true

theorem newer_of_isNewer (s : State) (e : Event) (newer : isNewer s e = true) : Newer s e := by
  cases e with
  | update i =>
      intro checked now m loaded _ found present _
      simp only [isNewer, loaded, Phase.loadedAt, Option.all_some, List.all_eq_true,
        decide_eq_true_eq] at newer
      exact newer found present
  | _ => trivial

/-- The ETags of the first three versions are different. -/
theorem distinct_of_loads (inputs : List Event)
    (loads : ∀ e ∈ inputs, ∀ t ∈ e.loadTime, t ∈ [(1 : Instant), 2]) :
    Set.InjOn (rowEtag (MemoryService.tableHash versionHashes)) (versions oneMemory inputs) := by
  have known : ∀ t ∈ versions oneMemory inputs, t ∈ [(0 : Instant), 1, 2] := by
    rintro t (⟨m, present, rfl⟩ | ⟨i, loaded⟩)
    · rw [List.mem_singleton.mp present]
      exact List.mem_cons_self
    · exact List.mem_cons_of_mem _ (loads _ loaded t rfl)
  have apart : ∀ t ∈ [(0 : Instant), 1, 2], ∀ u ∈ [(0 : Instant), 1, 2],
      rowEtag (MemoryService.tableHash versionHashes) t =
        rowEtag (MemoryService.tableHash versionHashes) u → t = u := by
    decide +kernel
  exact fun t first u second => apart t (known t first) u (known u second)

theorem interleaved_found : ((Run.final sampleStep { db := oneMemory } interleaved).phase 1).foundAt =
    some 1 := by
  decide +kernel

end IfMatch
end Kortex
