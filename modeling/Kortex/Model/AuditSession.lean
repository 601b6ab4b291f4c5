import Kortex.Model.Audit

/-
This file models concurrent calls of `AuditRepository.append` for one org, and `export_audit`, which reads the
log of an org page by page while entries are appended. Each call is a transaction that selects the newest
committed row for update, inserts its entry and commits.
-/

namespace Kortex.Audit

variable {M : Type}

/-- A transaction waits for the lock of the row that its statement picked, or knows the previous
hash, or has inserted its entry, or has committed it. -/
inductive Phase (M : Type) where
  | idle
  | waiting (picked : AuditLog M) (fields : AuditFields M)
  | granted (prevHash : Str) (fields : AuditFields M)
  | inserted (row : AuditLog M) (positive : 0 < row.id)
  | committed (row : AuditLog M)

/-- The state holds the committed rows, the last id of the sequence, the phase of each transaction
and the transaction that holds the lock of each row. -/
structure Sessions (M : Type) where
  table : AuditTable M
  lastId : Nat
  phase : Nat → Phase M
  holder : Nat → Option Nat

inductive SessionEvent (M : Type) where
  | select (tx : Nat) (fields : AuditFields M)
  | resume (tx : Nat)
  | insert (tx gap : Nat)
  | commit (tx : Nat)

def SessionEvent.tx : SessionEvent M → Nat
  | .select tx _ | .resume tx | .insert tx _ | .commit tx => tx

/-- A committed row takes its place in the order of the ids. -/
def addRow (table : AuditTable M) (row : AuditLog M) (positive : 0 < row.id) :
    AuditTable M where
  rows := table.rows.filter (fun r => r.id < row.id) ++
    row :: table.rows.filter fun r => row.id < r.id
  sorted := by
    rw [List.pairwise_append, List.pairwise_cons]
    refine ⟨table.sorted.filter _, ⟨?_, table.sorted.filter _⟩, ?_⟩
    · intro r present
      simpa using (List.mem_filter.mp present).2
    · intro a before b after
      have less : a.id < row.id := by simpa using (List.mem_filter.mp before).2
      rcases List.mem_cons.mp after with rfl | later
      · exact less
      · have greater : row.id < b.id := by simpa using (List.mem_filter.mp later).2
        omega
  positive := by
    intro r present
    rcases List.mem_append.mp present with before | after
    · exact table.positive r (List.mem_of_mem_filter before)
    · rcases List.mem_cons.mp after with rfl | later
      · exact positive
      · exact table.positive r (List.mem_of_mem_filter later)

namespace Sessions

def setPhase (s : Sessions M) (tx : Nat) (phase : Phase M) : Sessions M :=
  { s with phase := Function.update s.phase tx phase }

def lock (s : Sessions M) (tx row : Nat) : Sessions M :=
  { s with holder := Function.update s.holder row (some tx) }

def unlock (s : Sessions M) (tx : Nat) : Sessions M :=
  { s with holder := fun r => if s.holder r = some tx then none else s.holder r }

variable (digest : AuditFields M → Str → Str) (org : Nat)

/-- The statement picks the newest committed row of the org. It locks the row or waits for it,
and without a row it has nothing to lock. A waiter gets the row that it picked. -/
def step (s : Sessions M) : SessionEvent M → Sessions M
  | .select tx fields =>
      match s.phase tx with
      | .idle =>
          let fields := { fields with orgId := org }
          match (ofOrg s.table org).getLast? with
          | none => s.setPhase tx (.granted (rowHead (none : Option (AuditLog M))) fields)
          | some row =>
              if s.holder row.id = none then
                (s.lock tx row.id).setPhase tx (.granted (rowHead (some row)) fields)
              else s.setPhase tx (.waiting row fields)
      | _ => s
  | .resume tx =>
      match s.phase tx with
      | .waiting row fields =>
          if s.holder row.id = none then
            (s.lock tx row.id).setPhase tx (.granted (rowHead (some row)) fields)
          else s
      | _ => s
  | .insert tx gap =>
      match s.phase tx with
      | .granted prevHash fields =>
          let row := { sealRow digest fields fields prevHash with id := s.lastId + 1 + gap }
          { s.setPhase tx (.inserted row (by simp only [row]; omega)) with lastId := row.id }
      | _ => s
  | .commit tx =>
      match s.phase tx with
      | .inserted row positive =>
          { (s.setPhase tx (.committed row)).unlock tx with table := addRow s.table row positive }
      | _ => s

/-- No transaction has started before the first event. -/
def start (table : AuditTable M) : Sessions M where
  table := table
  lastId := Audit.lastId table
  phase := fun _ => .idle
  holder := fun _ => none

end Sessions
end Kortex.Audit

namespace Kortex.Audit

variable {M : Type}

def exportPage : Nat := 1000

/-- This is an export between the appends. It holds the entries that it has sent. -/
structure Export (M : Type) where
  sessions : Sessions M
  exported : List (AuditLog M) := []
  after : Nat := 0
  finished : Bool := false

inductive ExportEvent (M : Type) where
  | append (e : SessionEvent M)
  | page

namespace Export

variable (digest : AuditFields M → Str → Str) (org : Nat) (since until' : Option Instant)
variable (pageSize : Nat)

/-- This is what the loop of `stream` reads next; each read sees the committed rows. -/
def nextPage (s : Export M) : List (AuditLog M) :=
  if s.finished then [] else read s.sessions.table org since until' s.after pageSize

def step (s : Export M) : ExportEvent M → Export M
  | .append e => { s with sessions := s.sessions.step digest org e }
  | .page =>
      let page := s.nextPage org since until' pageSize
      match page.getLast? with
      | none => { s with finished := true }
      | some last => { s with exported := s.exported ++ page, after := last.id }

end Export
end Kortex.Audit
