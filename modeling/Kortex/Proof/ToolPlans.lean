import Kortex.Proof.ToolLines

/-
This file proves which changes the commands of the tool plan, and when they plan none.
-/

namespace Kortex.MemoryTool

open MemoryService

/-- The command deletes what lies under the path. -/
structure Deletes (command : JsonDict) (path : Str) : Prop where
  known : commandOf (Dict.get? command "command".toList) = some .delete
  normal : normalisePath (Dict.get? command "path".toList) = .ok path
  below : path ≠ memoryRoot

/-- The command gives a file another path. -/
structure Moves (command : JsonDict) (oldPath newPath : Str) : Prop where
  known : commandOf (Dict.get? command "command".toList) = some .rename
  old : normalisePath (Dict.get? command "old_path".toList) = .ok oldPath
  new : normalisePath (Dict.get? command "new_path".toList) = .ok newPath
  below : oldPath ≠ memoryRoot

/-- The command asks for the change, and finds what the change needs. -/
inductive AsksFor (b : Backend) (db : Database) (command : JsonDict) : Plan → Prop
  | overwrites {path text m} (creates : Creates command path text) (below : path ≠ memoryRoot)
      (found : file b db path = .ok (some m)) : AsksFor b db command (overwrite path text m)
  | creates {path text} (creates : Creates command path text) (below : path ≠ memoryRoot)
      (free : file b db path = .ok none) : AsksFor b db command (.write path text)
  | replaces {path m old new} (asks : AsksToReplace b db command path m old new)
      (one : Str.count old m.body = 1) : AsksFor b db command
        (.update m { body := some (Str.replaceFirst old new m.body) }
          (editedReply (Str.replaceFirst old new m.body)).content)
  | inserts {path m n text} (asks : AsksToInsert b db command path m n text) :
      AsksFor b db command (.update m { body := some (inserted m.body n text) }
        ("The file " ++ path ++ " has been edited."))
  | moves {oldPath newPath m} (moves : Moves command oldPath newPath)
      (found : file b db oldPath = .ok (some m)) (free : file b db newPath = .ok none) :
      AsksFor b db command (moveTo oldPath newPath m)
  | deletes {path m} (deletes : Deletes command path) (found : file b db path = .ok (some m)) :
      AsksFor b db command (.delete [m] ("Successfully deleted " ++ path))
  | deletesAll {path} (deletes : Deletes command path) (free : file b db path = .ok none)
      (some : children b db path ≠ []) :
      AsksFor b db command (.delete (children b db path) ("Successfully deleted " ++ path))

/-- The command asks the database for a file under the path. -/
inductive LooksUp (b : Backend) (db : Database) (command : JsonDict) (path : Str) : Prop
  | edits (name : Command) (edits : name ∈ [Command.view, .strReplace, .insert])
      (known : commandOf (Dict.get? command "command".toList) = some name)
      (normal : normalisePath (Dict.get? command "path".toList) = .ok path)
  | creates (text : Str) (creates : Creates command path text) (below : path ≠ memoryRoot)
  | deletes (deletes : Deletes command path)
  | movesFrom (newPath : Str) (moves : Moves command path newPath)
  | movesTo (oldPath : Str) (m : Memory) (moves : Moves command oldPath path)
      (found : file b db oldPath = .ok (some m))

/-- The number is infinite. -/
def Infinite (value : Json) : Prop := ∃ negative, value = .float (.inf negative)

/-- The command asks to see a file through a window with an infinite bound, which `int` raises on
before any other exception. -/
structure ViewsInfinitely (b : Backend) (db : Database) (command : JsonDict) (path : Str) (m : Memory)
    (first last : Json) : Prop where
  views : Views command path
  found : file b db path = .ok (some m)
  notHeld : m.reviewStatus ≠ .pending
  few : Str.count ['\n'] m.body + 1 ≤ maxLines
  range : Dict.get? command "view_range".toList = some (.arr [first, last])
  infinite : Infinite first ∨ (Infinite last ∧ ∃ i, pyInt b.env.unicode first = .ok i)

/-- The handler raises: the database refuses a path, or a bound of a window is infinite. -/
inductive Blocked (b : Backend) (db : Database) (command : JsonDict) : Prop
  | lookup (path : Str) (looks : LooksUp b db command path) (null : PyValue.accepts path = false)
  | infinite (path : Str) (m : Memory) (first last : Json)
      (views : ViewsInfinitely b db command path m first last)

variable {b : Backend} {db : Database} {command : JsonDict}

theorem plans_of_asksFor (plan : Plan) (asksFor : AsksFor b db command plan) :
    Plans b db command plan := by
  cases asksFor with
  | overwrites creates below found =>
      refine ⟨.create, creates.known, ?_⟩
      simp only [handler, create, creates.normal, requireFilePath, if_neg below, creates.given, found,
        bind, Except.bind]
      rfl
  | creates creates below free =>
      refine ⟨.create, creates.known, ?_⟩
      simp only [handler, create, creates.normal, requireFilePath, if_neg below, creates.given, free,
        bind, Except.bind]
      rfl
  | replaces asks one =>
      have planned := plans_of_asksToReplace asks
      simp only [replaceIn, one, Nat.one_ne_zero, Nat.lt_irrefl, if_false] at planned
      exact planned
  | inserts asks => exact plans_of_asksToInsert _ _ asks
  | moves moves found free =>
      refine ⟨.rename, moves.known, ?_⟩
      simp only [handler, rename, moves.old, moves.new, requireFilePath, if_neg moves.below, found, free,
        bind, Except.bind]
      rfl
  | deletes deletes found =>
      refine ⟨.delete, deletes.known, ?_⟩
      simp only [handler, delete, deletes.normal, requireFilePath, if_neg deletes.below, found, bind,
        Except.bind]
      rfl
  | deletesAll deletes free some =>
      obtain ⟨m, rest, found⟩ := List.exists_cons_of_ne_nil some
      refine ⟨.delete, deletes.known, ?_⟩
      simp only [handler, delete, deletes.normal, requireFilePath, if_neg deletes.below, free, bind,
        Except.bind, found]
      rfl

theorem file_of_refused (path : Str) (null : PyValue.accepts path = false) :
    file b db path = .error (.service .databaseError) := by
  rw [file, null]
  rfl

theorem requireFile_of_refused (path missing : Str) (null : PyValue.accepts path = false) :
    requireFile b db path missing = .error (.service .databaseError) := by
  rw [requireFile, file_of_refused path null]
  rfl

theorem pyInt_overflow (u : Unicode) (value : Json) :
    pyInt u value = .error .overflow ↔ Infinite value := by
  constructor
  · intro overflows
    cases value with
    | float x =>
        cases x with
        | inf negative => exact ⟨negative, rfl⟩
        | finite x => simp [pyInt] at overflows
        | nan => simp [pyInt] at overflows
    | str s =>
        simp only [pyInt, parseInt] at overflows
        repeat' split at overflows
        all_goals simp at overflows
    | null => simp [pyInt] at overflows
    | bool b => simp [pyInt] at overflows
    | int i => simp [pyInt] at overflows
    | arr items => simp [pyInt] at overflows
    | obj members => simp [pyInt] at overflows
  · rintro ⟨negative, rfl⟩
    rfl

/-- A window raises exactly when one of its bounds is infinite and the first one is no other error. -/
theorem slice_error_iff (u : Unicode) (body : Str) (first last : Json) :
    (∃ e, slice u body first last = .error e) ↔
      Infinite first ∨ (Infinite last ∧ ∃ i, pyInt u first = .ok i) := by
  rw [← pyInt_overflow u, ← pyInt_overflow u]
  simp only [slice]
  cases pyInt u first with
  | error e =>
      cases e with
      | invalid => simp [bind, Except.bind, pure, Except.pure]
      | overflow => simp [bind, Except.bind, throw, throwThe, MonadExceptOf.throw]
  | ok start =>
      cases pyInt u last with
      | error e =>
          cases e with
          | invalid => simp [bind, Except.bind, pure, Except.pure]
          | overflow => simp [bind, Except.bind, throw, throwThe, MonadExceptOf.throw]
      | ok stop =>
          simp only [bind, Except.bind, pure, Except.pure]
          repeat' split
          all_goals simp

/-- This is the part of the text that a view shows. -/
def window (u : Unicode) (body : Str) (range : Option Json) : Except IntError (Str × Int) :=
  match range with
  | some (.arr [first, last]) => slice u body first last
  | _ => .ok (body, 1)

/-- The reply to a view shows a part of the text. -/
def partReply (path part : Str) (first : Int) : ToolResult where
  content := "Here's the content of " ++ path ++ " with line numbers:\n" ++ numbered part first

theorem viewText_eq (u : Unicode) (path body : Str) (range : Option Json) :
    viewText u path body range =
      if maxLines < Str.count ['\n'] body + 1 then
        .ok (.failure ("File " ++ path ++ " exceeds maximum line limit of " ++
          Str.groupThousands (Str.ofNat maxLines) ++ " lines."))
      else match window u body range with
        | .ok (part, first) => .ok (partReply path part first)
        | .error _ => .error (.service (.valueError "cannot convert float infinity to integer")) := rfl

theorem requireFile_cases (db : Database) (path missing : Str) (m : Memory)
    (done : requireFile b db path missing = .ok m) :
    file b db path = .ok (some m) ∧ m.reviewStatus ≠ .pending := by
  simp only [requireFile, bind_eq_ok] at done
  obtain ⟨found, looked, done⟩ := done
  split at done
  · exact absurd done (throw_ne_ok _ _)
  · split at done
    · exact absurd done (throw_ne_ok _ _)
    · rename_i notHeld
      obtain rfl := Except.ok.inj done
      exact ⟨looked, notHeld⟩

/-- A handler ends with a reply or a change, rejects its command or raises. -/
inductive Decides (b : Backend) (db : Database) (command : JsonDict) : Except ToolError Plan → Prop
  | reply (result : ToolResult) : Decides b db command (.ok (.reply result))
  | change (plan : Plan) (asksFor : AsksFor b db command plan) : Decides b db command (.ok plan)
  | rejected (message : Str) : Decides b db command (.error (.rejected message))
  | blocked (error : ServiceError) (blocked : Blocked b db command) :
      Decides b db command (.error (.service error))

variable {A : Type} {path : Str}

theorem normalisePath_cases (raw : Option Json) : (∃ path, normalisePath raw = .ok path) ∨
    ∃ message, normalisePath raw = .error (.rejected message) := by
  unfold normalisePath
  split
  · simp only
    split
    · exact Or.inr ⟨_, rfl⟩
    · split
      · exact Or.inr ⟨_, rfl⟩
      · split
        · exact Or.inr ⟨_, rfl⟩
        · split
          · exact Or.inr ⟨_, rfl⟩
          · exact Or.inl ⟨_, rfl⟩
  · exact Or.inr ⟨_, rfl⟩

theorem decides_normalise (raw : Option Json) (next : Str → Except ToolError Plan)
    (rest : ∀ path, normalisePath raw = .ok path → Decides b db command (next path)) :
    Decides b db command (normalisePath raw >>= next) := by
  rcases normalisePath_cases raw with ⟨path, normal⟩ | ⟨message, refused⟩
  · rw [normal]
    exact rest path normal
  · rw [refused]
    exact .rejected message

theorem decides_file (looks : LooksUp b db command path)
    (next : Option Memory → Except ToolError Plan)
    (rest : ∀ found, file b db path = .ok found → Decides b db command (next found)) :
    Decides b db command (file b db path >>= next) := by
  cases accepted : PyValue.accepts path with
  | true =>
      have found : file b db path =
          .ok (MemoryRepo.findByMetadata b.principal db b.scope pathKey path) := by
        rw [file, if_pos accepted]
      rw [found]
      exact rest _ found
  | false =>
      rw [file_of_refused path accepted]
      exact .blocked _ (.lookup path looks accepted)

theorem decides_requireFile (looks : LooksUp b db command path) (missing : Str)
    (next : Memory → Except ToolError Plan) (rest : ∀ m, file b db path = .ok (some m) →
      m.reviewStatus ≠ .pending → Decides b db command (next m)) :
    Decides b db command (requireFile b db path missing >>= next) := by
  rw [requireFile, bind_assoc]
  apply decides_file looks
  intro found looked
  cases found with
  | none => exact .rejected missing
  | some m =>
      by_cases held : m.reviewStatus = .pending
      · simp only [if_pos held]
        exact .rejected _
      · simp only [if_neg held]
        exact rest m looked held

theorem decides_filePath (message : Str) (next : Unit → Except ToolError Plan)
    (rest : path ≠ memoryRoot → Decides b db command (next ())) :
    Decides b db command (requireFilePath path message >>= next) := by
  rw [requireFilePath]
  split
  · exact .rejected message
  · exact rest ‹_›

theorem window_error (u : Unicode) (body : Str) (range : Option Json) (e : IntError)
    (raises : window u body range = .error e) :
    ∃ first last, range = some (.arr [first, last]) ∧ slice u body first last = .error e := by
  unfold window at raises
  split at raises
  · exact ⟨_, _, rfl, raises⟩
  · exact absurd raises (by simp)

theorem decides_viewFile (views : Views command path) (m : Memory)
    (found : file b db path = .ok (some m)) : Decides b db command
      (viewFile b path m (Dict.get? command "view_range".toList) >>= fun reply => pure (.reply reply)) := by
  rw [viewFile]
  split
  · exact .reply _
  · rename_i notHeld
    rw [viewText_eq]
    split
    · exact .reply _
    · rename_i many
      cases opened : window b.env.unicode m.body (Dict.get? command "view_range".toList) with
      | ok part => exact .reply _
      | error e =>
          obtain ⟨first, last, range, sliced⟩ := window_error _ m.body _ e opened
          have infinite := (slice_error_iff b.env.unicode m.body first last).mp ⟨e, sliced⟩
          exact .blocked _ (.infinite path m first last
            ⟨views, found, notHeld, Nat.not_lt.mp many, range, infinite⟩)

theorem decides_replaceIn {m : Memory} {old new : Str}
    (asks : AsksToReplace b db command path m old new) :
    Decides b db command (.ok (replaceIn path m old new)) := by
  rw [replaceIn]
  simp only
  split
  · exact .reply _
  · split
    · exact .reply _
    · exact .change _ (.replaces asks (by omega))

theorem decides_insertAt (known : commandOf (Dict.get? command "command".toList) = some .insert)
    (normal : normalisePath (Dict.get? command "path".toList) = .ok path) (m : Memory)
    (found : file b db path = .ok (some m)) (notHeld : m.reviewStatus ≠ .pending) (lineNo : Int)
    (line : Dict.get? command "insert_line".toList = some (.int lineNo)) :
    Decides b db command (insertAt path m lineNo (Dict.get? command "insert_text".toList)) := by
  simp only [insertAt]
  split
  · exact .reply _
  · rename_i inside
    obtain ⟨n, rfl⟩ : ∃ n : Nat, lineNo = n := Int.eq_ofNat_of_zero_le (by omega)
    have bound : n ≤ (linesOf m.body).length := by
      rw [linesOf]
      omega
    split
    · rename_i text given
      exact .change _ (.inserts ⟨known, normal, found, notHeld, line, bound, given⟩)
    · exact .rejected _

/-- Every handler decides so. -/
theorem decides (name : Command) (known : commandOf (Dict.get? command "command".toList) = some name) :
    Decides b db command (handler b name db command) := by
  cases name with
  | view =>
      apply decides_normalise
      intro path normal
      apply decides_file (.edits .view (by simp) known normal)
      intro found looked
      cases found with
      | none =>
          simp only
          split
          · exact .reply _
          · exact .reply _
      | some m => exact decides_viewFile ⟨known, normal⟩ m looked
  | create =>
      apply decides_normalise
      intro path normal
      apply decides_filePath
      intro below
      split
      · rename_i text given
        have creates : Creates command path text := ⟨known, normal, given⟩
        apply decides_file (.creates text creates below)
        intro found looked
        cases found with
        | none => exact .change _ (.creates creates below looked)
        | some m => exact .change _ (.overwrites creates below looked)
      · exact .rejected _
  | strReplace =>
      apply decides_normalise
      intro path normal
      apply decides_requireFile (.edits .strReplace (by simp) known normal)
      intro m looked notHeld
      split
      · rename_i c rest given
        have asks : AsksToReplace b db command path m (c :: rest) _ :=
          ⟨known, normal, looked, notHeld, by simp, given, rfl⟩
        exact decides_replaceIn asks
      · exact .rejected _
  | insert =>
      apply decides_normalise
      intro path normal
      apply decides_requireFile (.edits .insert (by simp) known normal)
      intro m looked notHeld
      split
      · rename_i lineNo line
        exact decides_insertAt known normal m looked notHeld lineNo line
      · exact .rejected _
  | delete =>
      apply decides_normalise
      intro path normal
      apply decides_filePath
      intro below
      have deletes : Deletes command path := ⟨known, normal, below⟩
      apply decides_file (.deletes deletes)
      intro found looked
      cases found with
      | some m => exact .change _ (.deletes deletes looked)
      | none =>
          simp only
          split
          · exact .reply _
          · rename_i other
            exact .change _ (.deletesAll deletes looked other)
  | rename =>
      apply decides_normalise
      intro oldPath old
      apply decides_normalise
      intro newPath new
      apply decides_filePath
      intro below
      have moves : Moves command oldPath newPath := ⟨known, old, new, below⟩
      apply decides_file (.movesFrom newPath moves)
      intro found looked
      cases found with
      | none => exact .reply _
      | some m =>
          apply decides_file (.movesTo oldPath m moves looked)
          intro taken free
          cases taken with
          | some _ => exact .reply _
          | none => exact .change _ (.moves moves looked free)

/-- A plan is a reply or a change that the command asks for. -/
theorem plan_cases (plan : Plan) (plans : Plans b db command plan) :
    (∃ result, plan = .reply result) ∨ AsksFor b db command plan := by
  obtain ⟨name, known, decided⟩ := plans
  have decision : Decides b db command (handler b name db command) := decides name known
  rw [decided] at decision
  cases decision with
  | reply result => exact Or.inl ⟨result, rfl⟩
  | change _ asksFor => exact Or.inr asksFor

end Kortex.MemoryTool
