import Mathlib.Data.List.Pairwise
import Mathlib.Tactic

/-
This file models a database table whose rows have identities that never clash, and request handlers whose
writes last only when the handler commits them.
-/

namespace Kortex

/-- The identity of a row stands apart from the identity of every later row. -/
structure Table {Row Ident : Type} (ident : Row → Ident) (apart : Ident → Ident → Prop) where
  rows : List Row
  pairwise : rows.Pairwise fun a b => apart (ident a) (ident b)

namespace Table

variable {Row Ident : Type} {ident : Row → Ident} {apart : Ident → Ident → Prop}

def empty : Table ident apart := ⟨[], List.Pairwise.nil⟩

theorem fresh_empty (row : Row) :
    ∀ other ∈ (empty : Table ident apart).rows, apart (ident other) (ident row) :=
  fun _ present => absurd present List.not_mem_nil

/-- This is an INSERT of a row whose identity stands apart from all others. -/
def insert (t : Table ident apart) (row : Row)
    (fresh : ∀ other ∈ t.rows, apart (ident other) (ident row)) : Table ident apart where
  rows := t.rows ++ [row]
  pairwise := by
    rw [List.pairwise_append]
    refine ⟨t.pairwise, List.pairwise_singleton _ _, fun other present new single => ?_⟩
    rw [List.mem_singleton.mp single]
    exact fresh other present

/-- This is an INSERT under the constraints of the table, which refuse a row that clashes. -/
def insert? [DecidableRel apart] (t : Table ident apart) (row : Row) : Option (Table ident apart) :=
  if fresh : ∀ other ∈ t.rows, apart (ident other) (ident row) then some (t.insert row fresh)
  else none

theorem insert?_eq_some [DecidableRel apart] (t t' : Table ident apart) (row : Row)
    (done : t.insert? row = some t') : t'.rows = t.rows ++ [row] ∧
      ∀ other ∈ t.rows, apart (ident other) (ident row) := by
  rw [insert?] at done
  split at done
  · rename_i fresh
    rw [← Option.some.inj done]
    exact ⟨rfl, fresh⟩
  · exact absurd done (by simp)

/-- This is a DELETE of the chosen rows. -/
def delete (t : Table ident apart) (chosen : Row → Bool) : Table ident apart where
  rows := t.rows.filter fun row => !chosen row
  pairwise := t.pairwise.filter _

def changeRow (chosen : Row → Bool) (change : Row → Row) (row : Row) : Row :=
  if chosen row then change row else row

/-- This is an UPDATE of the chosen rows that keeps every identity. -/
def update (t : Table ident apart) (chosen : Row → Bool) (change : Row → Row)
    (keeps : ∀ row, ident (change row) = ident row) : Table ident apart where
  rows := t.rows.map (changeRow chosen change)
  pairwise := by
    rw [List.pairwise_map]
    have same (row : Row) : ident (changeRow chosen change row) = ident row := by
      rw [changeRow]
      split
      · exact keeps row
      · rfl
    apply t.pairwise.imp
    intro a b separate
    rwa [same, same]

theorem mem_update (t : Table ident apart) (chosen : Row → Bool) (change : Row → Row)
    (keeps : ∀ row, ident (change row) = ident row) (x : Row) :
    x ∈ (t.update chosen change keeps).rows ↔
      ∃ row ∈ t.rows, changeRow chosen change row = x := by
  simp [update]

/-- Two rows of a table are the same row or stand apart in one of the two orders. -/
theorem eq_or_apart (t : Table ident apart) (a b : Row) (first : a ∈ t.rows)
    (second : b ∈ t.rows) : a = b ∨ apart (ident a) (ident b) ∨ apart (ident b) (ident a) := by
  by_cases same : a = b
  · exact Or.inl same
  · have symmetric : Std.Symm fun a b : Row => apart (ident a) (ident b) ∨ apart (ident b) (ident a) :=
      ⟨fun _ _ => Or.symm⟩
    have apartBoth := t.pairwise.imp fun {a b} separate =>
      (Or.inl separate : apart (ident a) (ident b) ∨ apart (ident b) (ident a))
    exact Or.inr (apartBoth.forall first second same)

end Table
end Kortex

namespace Kortex

/-- A unit of work is done on its own state of the database. -/
structure UnitOfWork (S : Type) where
  working : S
  committed : S

/-- A service reads and writes the working state, and may raise. -/
abbrev Service (S E A : Type) := ExceptT E (StateM S) A

/-- A handler decides in addition when to commit. -/
abbrev Handler (S E A : Type) := ExceptT E (StateM (UnitOfWork S)) A

variable {S E A B : Type}

theorem Service.run_bind (service : Service S E A) (next : A → Service S E B) (s : S) :
    ExceptT.run (service >>= next) s = match service.run s with
      | (.ok a, s) => (next a).run s
      | (.error e, s) => (.error e, s) := by
  unfold ExceptT.run
  simp only [bind, ExceptT.bind, ExceptT.mk, StateT.bind, ExceptT.bindCont]
  rcases service s with ⟨e | a, s⟩ <;> rfl

theorem Service.run_get_bind (next : S → Service S E B) (s : S) :
    ExceptT.run (get >>= next) s = (next s).run s := rfl

namespace Handler

def commit : Handler S E Unit := modify fun work => { work with committed := work.working }

/-- The handler calls a service in its unit of work. -/
def call (service : Service S E A) : Handler S E A := ExceptT.mk fun work =>
  let (result, working) := service.run work.working
  (result, { work with working := working })

/-- The work starts on the committed state, and what was not committed is rolled back. -/
def serve (handler : Handler S E A) (db : S) : Except E A × S :=
  let (result, work) := (ExceptT.run handler).run ⟨db, db⟩
  (result, work.committed)

theorem serve_bind_call (service : Service S E A) (next : A → Handler S E B) (db : S) :
    serve (call service >>= next) db = match service.run db with
      | (.ok a, working) =>
          (((next a).run.run ⟨working, db⟩).1, ((next a).run.run ⟨working, db⟩).2.committed)
      | (.error e, _) => (.error e, db) := by
  have outcome : (call service).run.run ⟨db, db⟩ =
      ((service.run db).1, ⟨(service.run db).2, db⟩) := rfl
  rw [serve, ExceptT.run_bind, StateT.run_bind, outcome]
  rcases service.run db with ⟨e | a, working⟩ <;> rfl

/-- Without a commit the database stays as it was, whatever the service wrote. -/
theorem serve_call_pure (service : Service S E A) (f : A → B) (db : S) :
    serve (do let a ← call service; return f a) db = ((service.run db).1.map f, db) := by
  rw [serve_bind_call]
  rcases service.run db with ⟨e | a, working⟩ <;> rfl

/-- A commit after the service keeps its writes, and a service that raises never reaches it. -/
theorem serve_call_commit (service : Service S E A) (f : A → B) (db : S) :
    serve (do let a ← call service; commit; return f a) db = match service.run db with
      | (.ok a, working) => (.ok (f a), working)
      | (.error e, _) => (.error e, db) := by
  rw [serve_bind_call]
  rcases service.run db with ⟨e | a, working⟩ <;> rfl

end Handler
end Kortex
