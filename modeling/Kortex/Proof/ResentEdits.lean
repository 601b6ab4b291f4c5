import Kortex.Library.Renaming
import Kortex.Proof.HeldWrites
import Kortex.Proof.Resend
import Mathlib.Data.Char

/-
This file proves what a second execution of an edit of a file does to the tables.
-/

namespace Kortex.MemoryTool

open MemoryService

variable {b : Backend} {db : Database} {ctx ctx' : CallContext} {command : JsonDict} {m : Memory}

/-- The command finds the file, and asks to give it the text. -/
inductive EditsTo (b : Backend) (db : Database) (command : JsonDict) : Memory → Str → Prop
  | replaces {path m old new} (asks : AsksToReplace b db command path m old new)
      (one : Str.count old m.body = 1) : EditsTo b db command m (Str.replaceFirst old new m.body)
  | inserts {path m n text} (asks : AsksToInsert b db command path m n text) :
      EditsTo b db command m (inserted m.body n text)

/-- The service lets through what the command asks for. -/
def EditsFile (b : Backend) (ctx : CallContext) (db : Database) (command : JsonDict) : Prop :=
  ∃ m text, EditsTo b db command m text ∧
    Edits b.principal ctx.now db m.publicId { body := some text } m

/-- This is the database after a command that commits or rolls back. -/
def toolAfter (b : Backend) (command : JsonDict) (ctx : CallContext) (db : Database) : Database :=
  dbAfter db (execute b ctx ⟨db, {}⟩ command)

theorem plans_of_editsTo (text : Str) (editsTo : EditsTo b db command m text) :
    ∃ content, Plans b db command (.update m { body := some text } content) := by
  cases editsTo with
  | replaces asks one => exact ⟨_, plans_of_asksFor _ (.replaces asks one)⟩
  | inserts asks => exact ⟨_, plans_of_asksFor _ (.inserts asks)⟩

theorem editsTo_unique (m' : Memory) (text text' : Str) (first : EditsTo b db command m text)
    (second : EditsTo b db command m' text') : m = m' ∧ text = text' := by
  obtain ⟨content, plans⟩ := plans_of_editsTo text first
  obtain ⟨content', plans'⟩ := plans_of_editsTo text' second
  have same := plans_unique db command _ _ plans plans'
  simp only [Plan.update.injEq, MemoryPatch.mk.injEq, Option.some.injEq] at same
  exact ⟨same.1, same.2.1.2.1⟩

/-- The file of an edit is a row that the principal sees. -/
theorem getByPublicId_of_editsTo (text : Str) (editsTo : EditsTo b db command m text) :
    MemoryRepo.getByPublicId b.principal db m.publicId = some m := by
  cases editsTo with
  | replaces asks one => exact getByPublicId_of_file (s := ⟨db, {}⟩) asks.found
  | inserts asks => exact getByPublicId_of_file (s := ⟨db, {}⟩) asks.found

theorem toolAfter_eq_update (text : Str) (editsTo : EditsTo b db command m text) :
    toolAfter b command ctx db =
      dbAfter db (update b.principal ctx ⟨db, {}⟩ m.publicId { body := some text }) := by
  obtain ⟨content, plans⟩ := plans_of_editsTo text editsTo
  rw [toolAfter, execute_of_plans command _ plans, carryOut]
  cases update b.principal ctx ⟨db, {}⟩ m.publicId { body := some text } with
  | error e => rfl
  | ok result => rfl

variable (ctx) in
/-- An edit changes the tables exactly when the service lets it through. -/
theorem toolAfter_of_editsTo (text : Str) (editsTo : EditsTo b db command m text) :
    (Edits b.principal ctx.now db m.publicId { body := some text } m ∧ toolAfter b command ctx db =
      db.updateMemory m.id (Memory.patched ctx.now { body := some text })
        (Memory.patched_ident ctx.now { body := some text })) ∨
    (¬ Edits b.principal ctx.now db m.publicId { body := some text } m ∧
      toolAfter b command ctx db = db) := by
  rw [toolAfter_eq_update text editsTo]
  by_cases edits : Edits b.principal ctx.now db m.publicId { body := some text } m
  · left
    rw [update_of_edits (s := ⟨db, {}⟩) m.publicId _ m edits]
    exact ⟨edits, rfl⟩
  · right
    refine ⟨edits, ?_⟩
    cases done : update b.principal ctx ⟨db, {}⟩ m.publicId { body := some text } with
    | error e => rfl
    | ok result =>
        rcases update_cases (s := ⟨db, {}⟩) m.publicId _ result.1 done with ⟨_, same⟩ | ⟨m', edits', _⟩
        · show result.2.db = db
          rw [same]
        · have found := getByPublicId_of_editsTo text editsTo
          have equal := Option.some.inj (edits'.found.symm.trans found)
          rw [equal] at edits'
          exact absurd edits' edits

/-- A command that edits files leaves the tables alone when it finds none. -/
theorem toolAfter_of_none
    (editing : commandOf (Dict.get? command "command".toList) ∈ [some Command.insert, some .strReplace])
    (none : ¬ ∃ m text, EditsTo b db command m text) : toolAfter b command ctx db = db := by
  show dbAfter db (execute b ctx ⟨db, {}⟩ command) = db
  cases done : execute b ctx ⟨db, {}⟩ command with
  | error e => rfl
  | ok result =>
      obtain ⟨reply, s'⟩ := result
      show s'.db = db
      rcases execute_cases command reply done with ⟨rfl, _⟩ | ⟨plan, plans, carried⟩
      · rfl
      · rcases plan_cases plan plans with ⟨answer, rfl⟩ | asksFor
        · rw [carryOut] at carried
          rw [← (Prod.mk.inj (Except.ok.inj carried)).2]
        · have other (name : Command)
              (known : commandOf (Dict.get? command "command".toList) = some name) :
              name = .insert ∨ name = .strReplace := by
            rw [known] at editing
            simpa using editing
          cases asksFor with
          | replaces asks one => exact absurd ⟨_, _, .replaces asks one⟩ none
          | inserts asks => exact absurd ⟨_, _, .inserts asks⟩ none
          | overwrites creates _ _ => exact absurd (other .create creates.known) (by simp)
          | creates creates _ _ => exact absurd (other .create creates.known) (by simp)
          | moves moves _ _ => exact absurd (other .rename moves.known) (by simp)
          | deletes deletes _ => exact absurd (other .delete deletes.known) (by simp)
          | deletesAll deletes _ _ => exact absurd (other .delete deletes.known) (by simp)

/-- These are the texts of all rows. -/
def texts (db : Database) : Str := db.memories.rows.flatMap Memory.body

/-- A new text of a row stands where the old one stood. -/
theorem texts_updateMemory (present : m ∈ db.memories.rows) (text : Str) :
    ∃ front back, texts db = front ++ m.body ++ back ∧ ∀ now,
      texts (db.updateMemory m.id (Memory.patched now { body := some text })
        (Memory.patched_ident now { body := some text })) = front ++ text ++ back := by
  obtain ⟨before, after, rows⟩ := List.append_of_mem present
  have apart := db.memories.pairwise
  rw [rows, List.pairwise_append, List.pairwise_cons] at apart
  obtain ⟨_, ⟨later, _⟩, earlier⟩ := apart
  have kept (now : Instant) (part : List Memory) (others : ∀ row ∈ part, row.id ≠ m.id) :
      part.map (Table.changeRow (fun row => row.id == m.id)
        (Memory.patched now { body := some text })) = part := by
    rw [List.map_congr_left (g := id), List.map_id]
    intro row inside
    rw [Table.changeRow, if_neg (by simpa using others row inside)]
    rfl
  refine ⟨before.flatMap Memory.body, after.flatMap Memory.body, ?_, ?_⟩
  · rw [texts, rows, List.flatMap_append, List.flatMap_cons, List.append_assoc]
  · intro now
    have frontKept := kept now before fun row inside =>
      Nat.ne_of_lt (earlier row inside m List.mem_cons_self).1
    have backKept := kept now after fun row inside => Nat.ne_of_gt (later row inside).1
    rw [texts, Database.updateMemory, Table.update]
    simp only
    rw [rows, List.map_append, List.map_cons, frontKept, backKept, Table.changeRow, if_pos (by simp),
      List.flatMap_append, List.flatMap_cons, List.append_assoc]
    rfl

/-- An execution edits the file that the command finds, or changes nothing. -/
theorem toolAfter_cases (ctx : CallContext) (db : Database)
    (editing : commandOf (Dict.get? command "command".toList) ∈ [some Command.insert, some .strReplace]) :
    (EditsFile b ctx db command ∧ ∃ m text, EditsTo b db command m text ∧ toolAfter b command ctx db =
      db.updateMemory m.id (Memory.patched ctx.now { body := some text })
        (Memory.patched_ident ctx.now { body := some text })) ∨
    (¬ EditsFile b ctx db command ∧ toolAfter b command ctx db = db) := by
  by_cases some : ∃ m text, EditsTo b db command m text
  · obtain ⟨m, text, editsTo⟩ := some
    rcases toolAfter_of_editsTo ctx text editsTo with ⟨edits, done⟩ | ⟨refused, same⟩
    · exact Or.inl ⟨⟨m, text, editsTo, edits⟩, m, text, editsTo, done⟩
    · refine Or.inr ⟨?_, same⟩
      intro ⟨m', text', editsTo', edits⟩
      obtain ⟨rfl, rfl⟩ := editsTo_unique m' text text' editsTo editsTo'
      exact refused edits
  · refine Or.inr ⟨?_, toolAfter_of_none editing some⟩
    intro ⟨m, text, editsTo, _⟩
    exact some ⟨m, text, editsTo⟩

theorem mem_of_editsTo (text : Str) (editsTo : EditsTo b db command m text) : m ∈ db.memories.rows :=
  (visible_of_getByPublicId b.principal db m.publicId m (getByPublicId_of_editsTo text editsTo)).1

/-- Where every edit raises a measure of the text, an execution raises it or changes nothing. -/
theorem raises_toolAfter {M : Type} [Preorder M] (measure : Str → M)
    (raises : ∀ db m text front back, EditsTo b db command m text →
      measure (front ++ m.body ++ back) < measure (front ++ text ++ back))
    (editing : commandOf (Dict.get? command "command".toList) ∈ [some Command.insert, some .strReplace])
    (ctx : CallContext) (db : Database) :
    (EditsFile b ctx db command ∧ measure (texts db) < measure (texts (toolAfter b command ctx db))) ∨
    (¬ EditsFile b ctx db command ∧ toolAfter b command ctx db = db) := by
  rcases toolAfter_cases ctx db editing with ⟨accepted, m, text, editsTo, done⟩ | refused
  · obtain ⟨front, back, whole, edited⟩ := texts_updateMemory (mem_of_editsTo text editsTo) text
    refine Or.inl ⟨accepted, ?_⟩
    rw [done, edited, whole]
    exact raises db m text front back editsTo
  · exact Or.inr refused

/-- The text that a command gives a file is the same in every execution. -/
theorem texts_toolAfter
    (editing : commandOf (Dict.get? command "command".toList) ∈ [some Command.insert, some .strReplace])
    (moved : toolAfter b command ctx db ≠ db) (moved' : toolAfter b command ctx' db ≠ db) :
    texts (toolAfter b command ctx db) = texts (toolAfter b command ctx' db) := by
  rcases toolAfter_cases ctx db editing with ⟨_, m, text, editsTo, done⟩ | ⟨_, same⟩
  · rcases toolAfter_cases ctx' db editing with ⟨_, m', text', editsTo', done'⟩ | ⟨_, same⟩
    · obtain ⟨rfl, rfl⟩ := editsTo_unique m' text text' editsTo editsTo'
      obtain ⟨front, back, _, edited⟩ := texts_updateMemory (mem_of_editsTo text editsTo) text
      rw [done, done', edited, edited]
    · exact absurd same moved'
  · exact absurd same moved

theorem raises_insert (known : commandOf (Dict.get? command "command".toList) = some .insert)
    (text front back : Str) (editsTo : EditsTo b db command m text) :
    weight (front ++ m.body ++ back) < weight (front ++ text ++ back) := by
  apply weight_replace
  rw [weight_lt_iff]
  left
  cases editsTo with
  | replaces asks one => exact absurd (known.symm.trans asks.known) (by simp)
  | inserts asks =>
      rename_i path n part
      have longer := Split.length_intercalate_insertIdx '\n' (linesOf m.body)
        (List.splitOn_ne_nil '\n' m.body) (Str.rstripChar '\n' part) n asks.inside
      have whole : ['\n'].intercalate (linesOf m.body) = m.body := List.intercalate_splitOn '\n'
      rw [whole] at longer
      rw [inserted, Str.join, longer]
      omega

/-- A replacement stands between the same parts of the text. -/
theorem parts_of_editsTo (known : commandOf (Dict.get? command "command".toList) = some .strReplace)
    (text : Str) (editsTo : EditsTo b db command m text) : ∃ path old new before after,
      AsksToReplace b db command path m old new ∧ m.body = before ++ old ++ after ∧
        text = before ++ new ++ after := by
  cases editsTo with
  | replaces asks one =>
      rename_i path old new
      obtain ⟨before, after, body, replaced⟩ := Str.replaceFirst_parts old asks.filled m.body (by omega)
      exact ⟨path, old, new, before, after, asks, body, replaced new⟩
  | inserts asks => exact absurd (known.symm.trans asks.known) (by simp)

/-- The command replaces a text by itself. -/
def ReplacesItself (command : JsonDict) : Prop :=
  commandOf (Dict.get? command "command".toList) = some .strReplace ∧
    Dict.get? command "old_str".toList = Dict.get? command "new_str".toList

theorem replacesItself_iff (path : Str) (old new : Str)
    (asks : AsksToReplace b db command path m old new) : ReplacesItself command ↔ old = new := by
  have replacement := asks.replacement
  constructor
  · intro same
    rw [← same.2, asks.given] at replacement
    exact replacement
  · intro same
    refine ⟨asks.known, ?_⟩
    rw [asks.given]
    split at replacement
    · rename_i given
      rw [given, same, replacement]
    · rw [← same] at replacement
      exact absurd replacement.symm asks.filled

/-- The weight of the text goes one way with every edit of the command. -/
theorem toolAfter_goes
    (editing : commandOf (Dict.get? command "command".toList) ∈ [some Command.insert, some .strReplace])
    (other : ¬ ReplacesItself command) :
    (∀ db m text front back, EditsTo b db command m text →
      weight (front ++ m.body ++ back) < weight (front ++ text ++ back)) ∨
    ∀ db m text front back, EditsTo b db command m text →
      OrderDual.toDual (weight (front ++ m.body ++ back)) <
        OrderDual.toDual (weight (front ++ text ++ back)) := by
  rw [List.mem_cons, List.mem_singleton] at editing
  rcases editing with known | known
  · exact Or.inl fun db m text front back => raises_insert known text front back
  · by_cases some : ∃ db m text, EditsTo b db command m text
    · obtain ⟨db, m, text, editsTo⟩ := some
      obtain ⟨path, old, new, _, _, asks, _⟩ := parts_of_editsTo known text editsTo
      have distinct : old ≠ new := fun same => other ((replacesItself_iff path old new asks).mpr same)
      -- every other edit of the command has the same two texts
      have parts (db : Database) (m : Memory) (text : Str) (editsTo : EditsTo b db command m text) :
          ∃ before after, m.body = before ++ old ++ after ∧ text = before ++ new ++ after := by
        obtain ⟨path', old', new', before, after, asks', body, replaced⟩ :=
          parts_of_editsTo known text editsTo
        have sameOld : old' = old := by
          simpa using asks'.given.symm.trans asks.given
        have sameNew : new' = new := asks'.replacement.symm.trans asks.replacement
        rw [sameOld] at body
        rw [sameNew] at replaced
        exact ⟨before, after, body, replaced⟩
      rcases lt_or_gt_of_ne fun same => distinct (weight_injective same) with lighter | heavier
      · left
        intro db m text front back editsTo
        obtain ⟨before, after, body, replaced⟩ := parts db m text editsTo
        rw [body, replaced]
        exact weight_replace front back _ _ (weight_replace before after old new lighter)
      · right
        intro db m text front back editsTo
        obtain ⟨before, after, body, replaced⟩ := parts db m text editsTo
        rw [body, replaced]
        exact OrderDual.toDual_lt_toDual.mpr
          (weight_replace front back _ _ (weight_replace before after new old heavier))
    · exact Or.inl fun db m text _ _ editsTo => absurd ⟨db, m, text, editsTo⟩ some

/-- A second execution of a command that replaces a text by itself hides the first one. -/
theorem toolAfter_twice (itself : ReplacesItself command) (ctx ctx' : CallContext) (db : Database) :
    toolAfter b command ctx' (toolAfter b command ctx db) = toolAfter b command ctx db ∨
      toolAfter b command ctx' (toolAfter b command ctx db) = toolAfter b command ctx' db := by
  have editing : commandOf (Dict.get? command "command".toList) ∈
      [some Command.insert, some .strReplace] := by
    rw [itself.1]
    simp
  by_cases some : ∃ m text, EditsTo b db command m text
  · obtain ⟨m, text, editsTo⟩ := some
    rcases toolAfter_of_editsTo ctx text editsTo with ⟨edits, done⟩ | ⟨_, same⟩
    · cases editsTo with
      | inserts asks => exact absurd (itself.1.symm.trans asks.known) (by simp)
      | replaces asks one =>
          rename_i path old new
          obtain rfl := (replacesItself_iff path old new asks).mp itself
          have body : Str.replaceFirst old old m.body = m.body :=
            (Str.replaceFirst_eq_self_iff old old m.body (by omega)).mpr rfl
          have asks' : AsksToReplace b (toolAfter b command ctx db) command path
              (m.patched ctx.now { body := Option.some (Str.replaceFirst old old m.body) }) old old := by
            refine ⟨asks.known, asks.normal, ?_, asks.notHeld, asks.filled, asks.given, asks.replacement⟩
            rw [done]
            exact file_of_patched (s := ⟨db, {}⟩) m asks.found _ rfl
          have again : EditsTo b (toolAfter b command ctx db) command
              (m.patched ctx.now { body := Option.some (Str.replaceFirst old old m.body) })
                (Str.replaceFirst old old m.body) := by
            have repeated := EditsTo.replaces asks' (by
              show Str.count old (Str.replaceFirst old old m.body) = 1
              rw [body]
              exact one)
            have kept : Str.replaceFirst old old (m.patched ctx.now
                { body := Option.some (Str.replaceFirst old old m.body) }).body =
                  Str.replaceFirst old old m.body := congrArg (Str.replaceFirst old old) body
            rwa [kept] at repeated
          have twice := update_twice (p := b.principal) ctx ctx' db m.publicId
            { body := Option.some (Str.replaceFirst old old m.body) }
          rw [toolAfter_eq_update _ again, toolAfter_eq_update _ (.replaces asks one),
            toolAfter_eq_update _ (.replaces asks one)]
          exact twice
    · rw [same]
      exact Or.inr rfl
  · rw [toolAfter_of_none editing some]
    exact Or.inr rfl

end Kortex.MemoryTool
