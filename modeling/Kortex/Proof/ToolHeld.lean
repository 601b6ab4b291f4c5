import Kortex.Library.Lines
import Kortex.Library.Renaming
import Kortex.Proof.RowHistory
import Kortex.Proof.ToolPlans

/-
This file proves when the commands of the tool keep the text of files that no reviewer approved.
-/

namespace Kortex

/-- A memory that no reviewer approved has its text renamed. -/
def Memory.renameHeld (rename : Char → Char) (m : Memory) : Memory :=
  if m.reviewStatus = .approved then m else { m with body := m.body.map rename }

/-- The store has the text of every memory renamed that no reviewer approved. -/
def Database.renameHeld (rename : Char → Char) (db : Database) : Database :=
  let memories := db.memories.update (fun m => m.reviewStatus != .approved)
    (fun m => { m with body := m.body.map rename }) fun _ => rfl
  { db with memories := memories }

namespace MemoryTool

open MemoryService

/-- A renaming leaves these characters of a command alone. -/
def keptBy (command : JsonDict) : List Char :=
  '\n' :: '\x00' :: match Dict.get? command "old_str".toList with
    | some (.str old) => old
    | _ => []

/-- These commands may show text. -/
def Shows (command : JsonDict) : Prop :=
  ∃ name ∈ [Command.view, .strReplace, .insert],
    commandOf (Dict.get? command "command".toList) = some name

/-- The answers have no character of a text that no reviewer approved, and no such text changes. -/
structure KeepsHeld (b : Backend) (ctx : CallContext) (s : Session) (command : JsonDict) : Prop where
  hides : Shows command → ∀ rename, Renaming (keptBy command) rename →
    shown b ctx { s with db := s.db.renameHeld rename } command = shown b ctx s command
  keeps : ∀ result s', execute b ctx s command = .ok (result, s') →
    ∀ m ∈ s.db.memories.rows, m.reviewStatus ≠ .approved →
      ∀ m' ∈ s'.db.memories.rows, m'.id = m.id → m'.body = m.body

variable {b : Backend} {ctx : CallContext} {s s' : Session} {rename : Char → Char}

/-! The renamed store. -/

@[simp] theorem renameHeld_rows (db : Database) :
    (db.renameHeld rename).memories.rows = db.memories.rows.map (Memory.renameHeld rename) := by
  rw [Database.renameHeld, Table.update]
  apply List.map_congr_left
  intro m _
  rw [Table.changeRow, Memory.renameHeld]
  by_cases approved : m.reviewStatus = .approved
  · rw [if_neg (by simp [approved]), if_pos approved]
  · rw [if_pos (by simp [approved]), if_neg approved]

/-- A renamed memory differs in its text alone. -/
theorem renameHeld_eq (m : Memory) :
    m.renameHeld rename = { m with body := (m.renameHeld rename).body } := by
  rw [Memory.renameHeld]
  split <;> rfl

theorem renameHeld_approved (m : Memory) (approved : m.reviewStatus = .approved) :
    m.renameHeld rename = m := if_pos approved

variable (rename) in
theorem renameHeld_body (m : Memory) (held : m.reviewStatus ≠ .approved) :
    (m.renameHeld rename).body = m.body.map rename := by
  rw [Memory.renameHeld, if_neg held]

theorem renameHeld_liveRows (p : Principal) (db : Database) :
    MemoryRepo.liveRows p (db.renameHeld rename) =
      (MemoryRepo.liveRows p db).map (Memory.renameHeld rename) := by
  have orgId (m : Memory) : (m.renameHeld rename).orgId = m.orgId := by
    rw [renameHeld_eq]
  have live (m : Memory) : (m.renameHeld rename).live = m.live := by
    rw [renameHeld_eq]
    rfl
  rw [MemoryRepo.liveRows, MemoryRepo.liveRows, tenantQuery, tenantQuery, renameHeld_rows,
    List.filter_map, List.filter_map]
  simp only [Function.comp_def, orgId, live]

theorem renameHeld_find (p : Principal) (db : Database) (chosen : Memory → Bool)
    (blind : ∀ m body, chosen { m with body := body } = chosen m) :
    (MemoryRepo.liveRows p (db.renameHeld rename)).find? chosen =
      ((MemoryRepo.liveRows p db).find? chosen).map (Memory.renameHeld rename) := by
  have same : chosen ∘ Memory.renameHeld rename = chosen := by
    funext m
    rw [Function.comp_apply, renameHeld_eq, blind]
  rw [renameHeld_liveRows, List.find?_map, same]

theorem renameHeld_file (db : Database) (path : Str) :
    file b (db.renameHeld rename) path =
      (file b db path).map (Option.map (Memory.renameHeld rename)) := by
  rw [file, file]
  split
  · exact congrArg Except.ok (renameHeld_find _ _ _ fun _ _ => rfl)
  · rfl

theorem renameHeld_requireFile (db : Database) (path missing : Str) :
    requireFile b (db.renameHeld rename) path missing =
      (requireFile b db path missing).map (Memory.renameHeld rename) := by
  simp only [requireFile, renameHeld_file]
  cases file b db path with
  | error e => rfl
  | ok found =>
      cases found with
      | none => rfl
      | some m =>
          have status : (m.renameHeld rename).reviewStatus = m.reviewStatus := by
            rw [renameHeld_eq]
          simp only [bind, Except.bind, Except.map, Option.map_some, status]
          split <;> rfl

theorem renameHeld_children (db : Database) (path : Str) :
    children b (db.renameHeld rename) path =
      (children b db path).map (Memory.renameHeld rename) := by
  have named (m : Memory) : pathOf (m.renameHeld rename) = pathOf m := by
    rw [renameHeld_eq]
    rfl
  have ours (m : Memory) : (m.renameHeld rename).inScope b.scope = m.inScope b.scope := by
    rw [renameHeld_eq]
    rfl
  have metadata (m : Memory) : (m.renameHeld rename).metadata = m.metadata := by
    rw [renameHeld_eq]
  rw [children, children, MemoryRepo.listByMetadataKey, MemoryRepo.listByMetadataKey,
    renameHeld_liveRows, List.filter_map, ← List.map_take, List.filter_map]
  simp only [Function.comp_def, named, ours, metadata]

theorem renameHeld_listing {kept : List Char} (renames : Renaming kept rename) (db : Database)
    (path : Str) : listing b (db.renameHeld rename) path = listing b db path := by
  have named (m : Memory) : pathOf (m.renameHeld rename) = pathOf m := by
    rw [renameHeld_eq]
    rfl
  have length (m : Memory) : Str.utf8Length (m.renameHeld rename).body = Str.utf8Length m.body := by
    by_cases approved : m.reviewStatus = .approved
    · rw [renameHeld_approved m approved]
    · rw [renameHeld_body rename m approved, renames.utf8Length]
  have size (m : Memory) : humanSize (m.renameHeld rename).body = humanSize m.body := by
    simp only [humanSize, length]
  have total (files : List Memory) :
      humanSize ((files.map (Memory.renameHeld rename)).flatMap Memory.body) =
        humanSize (files.flatMap Memory.body) := by
    have same : Str.utf8Length ((files.map (Memory.renameHeld rename)).flatMap Memory.body) =
        Str.utf8Length (files.flatMap Memory.body) := by
      induction files with
      | nil => rfl
      | cons m files ih =>
          simp only [Str.utf8Length] at length ih
          simp only [List.map_cons, List.flatMap_cons, Str.utf8Length, List.map_append,
            List.sum_append, length, ih]
    simp only [humanSize, same]
  have sorted (files : List Memory) : (files.map (Memory.renameHeld rename)).insertionSort
      (fun m m' => Str.le ((pathOf m).getD []) ((pathOf m').getD []) = true) =
        (files.insertionSort fun m m' =>
          Str.le ((pathOf m).getD []) ((pathOf m').getD []) = true).map
            (Memory.renameHeld rename) := by
    symm
    apply List.map_insertionSort
    intro m _ m' _
    rw [named, named]
  simp only [listing, renameHeld_children, List.map_eq_nil_iff, total, sorted, List.map_map,
    Function.comp_def, named, size]

/-! What a view shows of a renamed text. -/

theorem subset_keptBy (command : JsonDict) : ['\n'] ⊆ keptBy command := by
  intro c inside
  rw [List.mem_singleton.mp inside]
  exact List.mem_cons_self

theorem newline_keptBy (command : JsonDict) : '\n' ∈ keptBy command := List.mem_cons_self

variable {command : JsonDict} {path : Str} {m : Memory} {old new text : Str} {n : Nat}
variable (renames : Renaming (keptBy command) rename)

include renames in
theorem window_rename (u : Unicode) (body : Str) (range : Option Json) :
    window u (body.map rename) range =
      (window u body range).map fun opened => (opened.1.map rename, opened.2) := by
  have newline := newline_keptBy command
  unfold window
  split
  · rename_i first last
    simp only [slice, renames.split '\n' newline, List.length_map]
    generalize (do
      let start ← pyInt u first
      let stop ← pyInt u last
      return (start, stop) : Except IntError (Int × Int)) = bounds
    cases bounds with
    | error e => cases e <;> rfl
    | ok bounds =>
        obtain ⟨start, stop⟩ := bounds
        simp only [← List.map_take, ← List.map_drop, renames.join '\n' newline]
        split
        · split <;> rfl
        · split <;> rfl
  · rfl

theorem newline_notMem_lineNumber (first : Int) (i : Nat) (line : Str) (free : '\n' ∉ line) :
    '\n' ∉ lineNumber first i line := by
  have plain := List.all_eq_true.mp (Json.plain_ofInt (first + i))
  rw [lineNumber, Str.padLeft]
  simp only [List.mem_append, List.mem_replicate, not_or]
  refine ⟨⟨⟨fun padded => absurd padded.2 (by decide), fun digit => ?_⟩, by decide⟩, free⟩
  exact absurd (plain '\n' digit) (by decide)

/-- The lines of a numbered text are its numbered lines. -/
theorem linesOf_numbered (body : Str) (first : Int) :
    linesOf (numbered body first) = (linesOf body).mapIdx (lineNumber first) := by
  rw [linesOf, numbered]
  apply List.splitOn_intercalate '\n'
  · intro line inside
    rw [List.mem_mapIdx] at inside
    obtain ⟨i, below, rfl⟩ := inside
    exact newline_notMem_lineNumber first i _ (newline_notMem body _ (List.getElem_mem below))
  · intro none
    exact List.splitOn_ne_nil '\n' body (List.mapIdx_eq_nil_iff.mp none)

theorem numbered_injective (first : Int) (body body' : Str)
    (same : numbered body first = numbered body' first) : body = body' := by
  have lines := congrArg linesOf same
  rw [linesOf_numbered, linesOf_numbered] at lines
  have equal : linesOf body = linesOf body' := by
    have length := congrArg List.length lines
    rw [List.length_mapIdx, List.length_mapIdx] at length
    apply List.ext_getElem length
    intro i below below'
    have line := List.getElem_of_eq lines (by simpa using below)
    rw [List.getElem_mapIdx, List.getElem_mapIdx] at line
    exact List.append_cancel_left line
  calc body = ['\n'].intercalate (body.splitOn '\n') := (List.intercalate_splitOn '\n').symm
    _ = ['\n'].intercalate (body'.splitOn '\n') := congrArg _ equal
    _ = body' := List.intercalate_splitOn '\n'

include renames in
/-- A renamed text is shown as the text itself when the shown part is left alone. -/
theorem viewText_rename (u : Unicode) (path body : Str) (range : Option Json)
    (fixed : ∀ part first, window u body range = .ok (part, first) →
      Str.count ['\n'] body + 1 ≤ maxLines → part.map rename = part) :
    viewText u path (body.map rename) range = viewText u path body range := by
  rw [viewText_eq, viewText_eq, renames.count ['\n'] (subset_keptBy command)]
  split
  · rfl
  · rename_i few
    rw [window_rename renames]
    cases opened : window u body range with
    | error e => rfl
    | ok opened' =>
        obtain ⟨part, first⟩ := opened'
        simp only [Except.map, fixed part first opened (Nat.not_lt.mp few)]

/-- A view shows its part of the text. -/
theorem viewText_of_window (u : Unicode) (path body part : Str) (first : Int) (range : Option Json)
    (few : Str.count ['\n'] body + 1 ≤ maxLines) (opened : window u body range = .ok (part, first)) :
    viewText u path body range = .ok (partReply path part first) := by
  rw [viewText_eq, if_neg (Nat.not_lt.mpr few), opened]

/-! What the commands answer about a renamed store. -/

/-- The handler has the same answer for the store and for the renamed one. -/
def SameAnswer (b : Backend) (db : Database) (rename : Char → Char) (name : Command)
    (command : JsonDict) : Prop :=
  ∃ result : Except ToolError ToolResult, handler b name db command = result.map .reply ∧
    handler b name (db.renameHeld rename) command = result.map .reply

theorem shown_of_same (name : Command)
    (known : commandOf (Dict.get? command "command".toList) = some name)
    (same : SameAnswer b s.db rename name command) :
    shown b ctx { s with db := s.db.renameHeld rename } command = shown b ctx s command := by
  obtain ⟨result, own, renamed⟩ := same
  simp only [shown, execute, known, own, renamed]
  cases result with
  | ok reply => rfl
  | error e => cases e <;> rfl

include renames in
theorem view_rename (fixed : ∀ path m part first, normalisePath (Dict.get? command "path".toList) =
      .ok path → file b s.db path = .ok (some m) → m.reviewStatus = .rejected →
        window b.env.unicode m.body (Dict.get? command "view_range".toList) = .ok (part, first) →
          Str.count ['\n'] m.body + 1 ≤ maxLines → part.map rename = part) :
    SameAnswer b s.db rename .view command := by
  simp only [SameAnswer, handler, view, renameHeld_file]
  cases normal : normalisePath (Dict.get? command "path".toList) with
  | error e => exact ⟨.error e, rfl, rfl⟩
  | ok path =>
      simp only [bind, Except.bind]
      cases found : file b s.db path with
      | error e => exact ⟨.error e, rfl, rfl⟩
      | ok found' =>
          cases found' with
          | none =>
              simp only [Except.map, Option.map_none, renameHeld_listing renames]
              cases listing b s.db path with
              | none => exact ⟨.ok _, rfl, rfl⟩
              | some text => exact ⟨.ok _, rfl, rfl⟩
          | some m =>
              have same : viewFile b path (m.renameHeld rename)
                  (Dict.get? command "view_range".toList) =
                    viewFile b path m (Dict.get? command "view_range".toList) := by
                rw [viewFile, viewFile, renameHeld_eq]
                cases status : m.reviewStatus with
                | pending => rfl
                | approved =>
                    rw [renameHeld_approved m status]
                | rejected =>
                    rw [renameHeld_body rename m (by simp [status])]
                    exact viewText_rename renames _ path m.body _ fun part first opened few =>
                      fixed path m part first normal found status opened few
              simp only [Except.map, Option.map_some, same]
              refine ⟨viewFile b path m (Dict.get? command "view_range".toList), ?_, ?_⟩
              · cases viewFile b path m (Dict.get? command "view_range".toList) <;> rfl
              · cases viewFile b path m (Dict.get? command "view_range".toList) <;> rfl

theorem null_keptBy (command : JsonDict) : '\x00' ∈ keptBy command :=
  List.mem_cons_of_mem _ List.mem_cons_self

theorem accepts_iff (text : Str) : PyValue.accepts text = true ↔ '\x00' ∉ text := by
  have zero (c : Char) : c.toNat = 0 ↔ c = '\x00' :=
    ⟨fun zero => Char.toNat_inj.mp zero, fun zero => zero ▸ rfl⟩
  simp only [PyValue.accepts, ne_eq, zero, List.all_eq_true, decide_eq_true_eq]
  exact ⟨fun all inside => all _ inside rfl, fun absent c inside same => absent (same ▸ inside)⟩

include renames in
theorem null_rename (text : Str) : '\x00' ∈ text.map rename ↔ '\x00' ∈ text := by
  simp only [List.mem_map, renames.eq_iff _ _ (null_keptBy command), exists_eq_right]

variable (ctx s rename) in
/-- An update of the renamed store does what it does to the store itself. -/
theorem update_rename (p : Principal) (publicId : Uuid) (text text' : Str)
    (accepted : PyValue.accepts text' = PyValue.accepts text) :
    (MemoryService.update p ctx { s with db := s.db.renameHeld rename } publicId
        { body := some text' }).map (fun _ => ()) =
      (MemoryService.update p ctx s publicId { body := some text }).map fun _ => () := by
  have found : MemoryRepo.getByPublicId p (s.db.renameHeld rename) publicId =
      (MemoryRepo.getByPublicId p s.db publicId).map (Memory.renameHeld rename) :=
    renameHeld_find p s.db _ fun _ _ => rfl
  simp only [MemoryService.update, found]
  cases requireScope p "write:memory" with
  | error e => rfl
  | ok _ =>
      cases MemoryRepo.getByPublicId p s.db publicId with
      | none => rfl
      | some m =>
          have write : requireWrite p (m.renameHeld rename) = requireWrite p m := by
            rw [renameHeld_eq]
            rfl
          have storable : ((m.renameHeld rename).patched ctx.now { body := some text' }).storable =
              (m.patched ctx.now { body := some text }).storable := by
            rw [renameHeld_eq]
            simp only [Memory.storable, Memory.patched, Option.getD_some, accepted]
            rfl
          simp only [bind, Except.bind, Option.map_some, write, requireSensitivity,
            MemoryRepo.updateFields, storable]
          cases requireWrite p m with
          | error e => rfl
          | ok _ =>
              cases (m.patched ctx.now { body := some text }).storable <;> rfl

theorem map_fst {A B S : Type} (result : Except ServiceError (A × S)) (reply : B) :
    (result.map fun row => (reply, row.2)).map Prod.fst =
      (result.map fun _ => ()).map fun _ => reply := by
  cases result <;> rfl

theorem publicId_rename (m : Memory) : (m.renameHeld rename).publicId = m.publicId := by
  rw [renameHeld_eq]

theorem carryOut_update_fst (s : Session) (m : Memory) (patch : MemoryPatch) (content : Str) :
    (carryOut b ctx s (.update m patch content)).map Prod.fst =
      ((MemoryService.update b.principal ctx s m.publicId patch).map fun _ => ()).map
        fun _ => ({ content := content } : ToolResult) := by
  rw [carryOut]
  cases MemoryService.update b.principal ctx s m.publicId patch <;> rfl

/-- An edit of a renamed file has the same answer when its text is accepted alike. -/
theorem carryOut_rename (m : Memory) (text text' content : Str)
    (accepted : PyValue.accepts text' = PyValue.accepts text) :
    (carryOut b ctx { s with db := s.db.renameHeld rename }
        (.update (m.renameHeld rename) { body := some text' } content)).map Prod.fst =
      (carryOut b ctx s (.update m { body := some text } content)).map Prod.fst := by
  rw [carryOut_update_fst, carryOut_update_fst, publicId_rename,
    update_rename ctx s rename _ _ text text' accepted]

theorem carryOut_rename_error (m : Memory) (text text' content' : Str)
    (accepted : PyValue.accepts text' = PyValue.accepts text) (e : ServiceError)
    (refused : MemoryService.update b.principal ctx s m.publicId { body := some text } = .error e) :
    (carryOut b ctx { s with db := s.db.renameHeld rename }
        (.update (m.renameHeld rename) { body := some text' } content')).map Prod.fst = .error e := by
  rw [carryOut_update_fst, publicId_rename, update_rename ctx s rename _ _ text text' accepted, refused]
  rfl

variable (rename) in
theorem handler_strReplace (db : Database) (known : commandOf (Dict.get? command "command".toList) =
      some .strReplace) : SameAnswer b db rename .strReplace command ∨
    ∃ path m old new, AsksToReplace b db command path m old new := by
  simp only [SameAnswer, handler, strReplace, renameHeld_requireFile]
  cases normal : normalisePath (Dict.get? command "path".toList) with
  | error e => exact Or.inl ⟨.error e, rfl, rfl⟩
  | ok path =>
      simp only [bind, Except.bind]
      cases required : requireFile b db path (noPath path) with
      | error e => exact Or.inl ⟨.error e, rfl, rfl⟩
      | ok m =>
          obtain ⟨found, notHeld⟩ := requireFile_cases _ path _ m required
          simp only [Except.map]
          split
          · rename_i c rest given
            exact Or.inr ⟨path, m, c :: rest, _, known, normal, found, notHeld, by simp, given, rfl⟩
          · exact Or.inl ⟨.error _, rfl, rfl⟩

variable (rename) in
theorem body_rename (m : Memory) : (m.renameHeld rename).body = m.body ∨
    (m.renameHeld rename).body = m.body.map rename := by
  by_cases approved : m.reviewStatus = .approved
  · exact Or.inl (congrArg Memory.body (renameHeld_approved m approved))
  · exact Or.inr (renameHeld_body rename m approved)

include renames in
theorem length_lines_rename (m : Memory) :
    (Str.split '\n' (m.renameHeld rename).body).length = (Str.split '\n' m.body).length := by
  rcases body_rename rename m with same | renamed
  · rw [same]
  · rw [renamed, renames.split '\n' (newline_keptBy command), List.length_map]

include renames in
theorem handler_insert (db : Database) (known : commandOf (Dict.get? command "command".toList) =
      some .insert) : SameAnswer b db rename .insert command ∨
    ∃ path m n text, AsksToInsert b db command path m n text := by
  simp only [SameAnswer, handler, insert, renameHeld_requireFile]
  cases normal : normalisePath (Dict.get? command "path".toList) with
  | error e => exact Or.inl ⟨.error e, rfl, rfl⟩
  | ok path =>
      simp only [bind, Except.bind]
      cases required : requireFile b db path
          ("Error: The path ".toList ++ path ++ " does not exist".toList) with
      | error e => exact Or.inl ⟨.error e, rfl, rfl⟩
      | ok m =>
          obtain ⟨found, notHeld⟩ := requireFile_cases _ path _ m required
          simp only [Except.map]
          split
          · rename_i lineNo line
            simp only [insertAt, length_lines_rename renames m]
            split
            · exact Or.inl ⟨.ok _, rfl, rfl⟩
            · rename_i inside
              obtain ⟨n, rfl⟩ : ∃ n : Nat, lineNo = n := Int.eq_ofNat_of_zero_le (by omega)
              have bound : n ≤ (linesOf m.body).length := by
                rw [linesOf]
                omega
              split
              · rename_i text given
                exact Or.inr ⟨path, m, n, text, known, normal, found, notHeld, line, bound, given⟩
              · exact Or.inl ⟨.error _, rfl, rfl⟩
          · exact Or.inl ⟨.error _, rfl, rfl⟩


theorem found_rename {db : Database} (found : file b db path = .ok (some m)) :
    file b (db.renameHeld rename) path = .ok (some (m.renameHeld rename)) := by
  rw [renameHeld_file, found]
  rfl

theorem notHeld_rename (notHeld : m.reviewStatus ≠ .pending) :
    (m.renameHeld rename).reviewStatus ≠ .pending := by
  rw [renameHeld_eq]
  exact notHeld

theorem mem_linesOf (c : Char) (other : c ≠ '\n') (body : Str) :
    c ∈ body ↔ ∃ line ∈ linesOf body, c ∈ line := by
  rw [← Split.mem_intercalate c other, linesOf, Str.split, List.intercalate_splitOn]

theorem mem_inserted (c : Char) (other : c ≠ '\n') (body : Str) (n : Nat) (text : Str)
    (inside : n ≤ (linesOf body).length) :
    c ∈ inserted body n text ↔ c ∈ body ∨ c ∈ Str.rstripChar '\n' text := by
  have member (line : Str) : line ∈ linesOf body ↔
      line ∈ (linesOf body).take n ∨ line ∈ (linesOf body).drop n := by
    rw [← List.mem_append, List.take_append_drop]
  rw [inserted, Str.join, Split.mem_intercalate c other, insertIdx_eq_append _ n _ inside,
    mem_linesOf c other body]
  simp only [List.mem_append, List.mem_cons, member]
  constructor
  · rintro ⟨line, front | rfl | back, own⟩
    · exact Or.inl ⟨line, Or.inl front, own⟩
    · exact Or.inr own
    · exact Or.inl ⟨line, Or.inr back, own⟩
  · rintro (⟨line, front | back, own⟩ | own)
    · exact ⟨line, Or.inl front, own⟩
    · exact ⟨line, Or.inr (Or.inr back), own⟩
    · exact ⟨_, Or.inr (Or.inl rfl), own⟩

include renames in
/-- An insert answers nothing about the text of the file but the number of its lines. -/
theorem shown_insert (asks : AsksToInsert b s.db command path m n text) :
    shown b ctx { s with db := s.db.renameHeld rename } command = shown b ctx s command := by
  have length : (linesOf (m.renameHeld rename).body).length = (linesOf m.body).length :=
    length_lines_rename renames m
  have asks' : AsksToInsert b (s.db.renameHeld rename) command path (m.renameHeld rename) n text :=
    ⟨asks.known, asks.normal, found_rename asks.found, notHeld_rename asks.notHeld, asks.line,
      length ▸ asks.inside, asks.given⟩
  have accepted : PyValue.accepts (inserted (m.renameHeld rename).body n text) =
      PyValue.accepts (inserted m.body n text) := by
    rw [Bool.eq_iff_iff, accepts_iff, accepts_iff, mem_inserted _ (by decide) _ n text asks'.inside,
      mem_inserted _ (by decide) _ n text asks.inside]
    rcases body_rename rename m with same | renamed
    · rw [same]
    · rw [renamed, null_rename renames]
  have updated := update_rename ctx s rename b.principal m.publicId _ _ accepted
  rw [shown, shown, execute_of_asksToInsert n text asks, execute_of_asksToInsert n text asks',
    publicId_rename, map_fst, map_fst, updated]

theorem asksToReplace_rename (asks : AsksToReplace b s.db command path m old new) :
    AsksToReplace b (s.db.renameHeld rename) command path (m.renameHeld rename) old new :=
  ⟨asks.known, asks.normal, found_rename asks.found, notHeld_rename asks.notHeld, asks.filled,
    asks.given, asks.replacement⟩

theorem subset_of_given (given : Dict.get? command "old_str".toList = some (.str old)) :
    old ⊆ keptBy command := by
  intro c inside
  simp only [keptBy, given]
  exact List.mem_cons_of_mem _ (List.mem_cons_of_mem _ inside)

include renames in
theorem linesWith_rename (given : old ⊆ keptBy command) (body : Str) :
    linesWith (body.map rename) old = linesWith body old := by
  rw [linesWith, linesWith, renames.split '\n' (newline_keptBy command), List.zipIdx_map,
    List.filterMap_map]
  congr 1
  funext line
  simp only [Function.comp_apply, Prod.map_fst, Prod.map_snd, renames.contains old given, id_eq]

include renames in
theorem accepts_replaceFirst (given : old ⊆ keptBy command) (new body : Str) :
    PyValue.accepts (Str.replaceFirst old new (body.map rename)) =
      PyValue.accepts (Str.replaceFirst old new body) := by
  rw [Bool.eq_iff_iff, accepts_iff, accepts_iff]
  rcases renames.replaceFirst old new given body with
    ⟨before, after, replaced, renamed, _⟩ | ⟨same, renamed⟩
  · rw [replaced, renamed]
    simp only [List.mem_append, null_rename renames]
  · rw [same, renamed, null_rename renames]

include renames in
/-- A replacement answers nothing about the text of the file unless it is made. -/
theorem shown_strReplace (asks : AsksToReplace b s.db command path m old new)
    (fixed : Str.count old m.body = 1 → Edits b.principal ctx.now s.db m.publicId
      { body := some (Str.replaceFirst old new m.body) } m → (m.renameHeld rename).body = m.body) :
    shown b ctx { s with db := s.db.renameHeld rename } command = shown b ctx s command := by
  have given := subset_of_given asks.given
  have blind : Str.count old (m.renameHeld rename).body = Str.count old m.body ∧
      linesWith (m.renameHeld rename).body old = linesWith m.body old ∧
        PyValue.accepts (Str.replaceFirst old new (m.renameHeld rename).body) =
          PyValue.accepts (Str.replaceFirst old new m.body) := by
    rcases body_rename rename m with same | renamed
    · rw [same]
      exact ⟨rfl, rfl, rfl⟩
    · rw [renamed]
      exact ⟨renames.count old given m.body, linesWith_rename renames given m.body,
        accepts_replaceFirst renames given new m.body⟩
  obtain ⟨count, lines, accepted⟩ := blind
  rw [shown, shown, execute_of_asksToReplace asks,
    execute_of_asksToReplace (asksToReplace_rename asks)]
  simp only [replaceIn, count, lines]
  split
  · rfl
  · split
    · rfl
    · have one : Str.count old m.body = 1 := by omega
      by_cases edits : Edits b.principal ctx.now s.db m.publicId
          { body := some (Str.replaceFirst old new m.body) } m
      · rw [fixed one edits]
        exact carryOut_rename m _ _ _ rfl
      · have refused : ∃ e, MemoryService.update b.principal ctx s m.publicId
            { body := some (Str.replaceFirst old new m.body) } = .error e := by
          cases done : MemoryService.update b.principal ctx s m.publicId
              { body := some (Str.replaceFirst old new m.body) } with
          | error e => exact ⟨e, rfl⟩
          | ok result => exact absurd (edits_of_update asks.found _ _ done).1 edits
        obtain ⟨e, refused⟩ := refused
        rw [carryOut_rename_error m _ _ _ accepted e refused, carryOut, refused]
        rfl

/-! The commands that reach the text of a file that no reviewer approved. -/

/-- The command shows or changes the text of a file that no reviewer approved. -/
inductive TouchesHeld (b : Backend) (ctx : CallContext) (s : Session) (command : JsonDict) : Prop
  | shows (path : Str) (m : Memory) (part : Str) (first : Int)
      (known : commandOf (Dict.get? command "command".toList) = some .view)
      (normal : normalisePath (Dict.get? command "path".toList) = .ok path)
      (found : file b s.db path = .ok (some m)) (rejected : m.reviewStatus = .rejected)
      (few : Str.count ['\n'] m.body + 1 ≤ maxLines)
      (opened : window b.env.unicode m.body (Dict.get? command "view_range".toList) = .ok (part, first))
      (readable : ∃ c ∈ part, Movable (keptBy command) c)
  | replaces (path : Str) (m : Memory) (old new : Str)
      (asks : AsksToReplace b s.db command path m old new) (rejected : m.reviewStatus = .rejected)
      (one : Str.count old m.body = 1)
      (edits : Edits b.principal ctx.now s.db m.publicId
        { body := some (Str.replaceFirst old new m.body) } m)
      (readable : new ≠ old ∨ ∃ c ∈ m.body, Movable (keptBy command) c)
  | inserts (path : Str) (m : Memory) (n : Nat) (text : Str)
      (asks : AsksToInsert b s.db command path m n text) (rejected : m.reviewStatus = .rejected)
      (edits : Edits b.principal ctx.now s.db m.publicId { body := some (inserted m.body n text) } m)
  | overwrites (path : Str) (m : Memory) (text : Str) (creates : Creates command path text)
      (below : path ≠ memoryRoot) (found : file b s.db path = .ok (some m))
      (held : m.reviewStatus ≠ .approved)
      (edits : Edits b.principal ctx.now s.db m.publicId
        { body := some text, title := some path } m)
      (changes : text ≠ m.body)

theorem rejected_of_held (notHeld : m.reviewStatus ≠ .pending) (unapproved : m.reviewStatus ≠ .approved) :
    m.reviewStatus = .rejected := by
  cases status : m.reviewStatus with
  | pending => exact absurd status notHeld
  | approved => exact absurd status unapproved
  | rejected => rfl

include renames in
/-- A text without movable characters is left alone by every renaming. -/
theorem map_eq_of_not_movable (text : Str) (fixed : ¬ ∃ c ∈ text, Movable (keptBy command) c) :
    text.map rename = text := by
  by_contra changed
  exact fixed ((exists_renaming_iff _ text).mp ⟨rename, renames, changed⟩)

include renames in
theorem hides_of_untouched (untouched : ¬ TouchesHeld b ctx s command) (shows : Shows command) :
    shown b ctx { s with db := s.db.renameHeld rename } command = shown b ctx s command := by
  obtain ⟨name, showing, known⟩ := shows
  simp only [List.mem_cons, List.not_mem_nil, or_false] at showing
  rcases showing with rfl | rfl | rfl
  · apply shown_of_same .view known
    apply view_rename renames
    intro path m part first normal found rejected opened few
    apply map_eq_of_not_movable renames
    exact fun readable => untouched (.shows path m part first known normal found rejected few opened readable)
  · rcases handler_strReplace rename s.db known with same | ⟨path, m, old, new, asks⟩
    · exact shown_of_same .strReplace known same
    · apply shown_strReplace renames asks
      intro one edits
      by_cases approved : m.reviewStatus = .approved
      · rw [renameHeld_approved m approved]
      · rw [renameHeld_body rename m approved]
        apply map_eq_of_not_movable renames
        exact fun readable => untouched (.replaces path m old new asks
          (rejected_of_held asks.notHeld approved) one edits (Or.inr readable))
  · rcases handler_insert renames s.db known with same | ⟨path, m, n, text, asks⟩
    · exact shown_of_same .insert known same
    · exact shown_insert renames asks

/-- An edit that a command plans gives a file a new text, replaces a text of it or inserts one, or it
keeps the text. -/
theorem plans_update_cases (db : Database) (patch : MemoryPatch) (content : Str)
    (plans : Plans b db command (.update m patch content)) :
    (∃ path text, Creates command path text ∧ path ≠ memoryRoot ∧ file b db path = .ok (some m) ∧
      patch = { body := some text, title := some path }) ∨
    (∃ path old new, AsksToReplace b db command path m old new ∧ Str.count old m.body = 1 ∧
      patch = { body := some (Str.replaceFirst old new m.body) }) ∨
    (∃ path n text, AsksToInsert b db command path m n text ∧
      patch = { body := some (inserted m.body n text) }) ∨ patch.body = none := by
  rcases plan_cases _ plans with ⟨_, reply⟩ | asksFor
  · exact absurd reply (by simp)
  · generalize planned : Plan.update m patch content = plan at asksFor
    cases asksFor with
    | overwrites creates below found =>
        obtain ⟨rfl, rfl, _⟩ := Plan.update.inj planned
        exact Or.inl ⟨_, _, creates, below, found, rfl⟩
    | replaces asks one =>
        obtain ⟨rfl, rfl, _⟩ := Plan.update.inj planned
        exact Or.inr (Or.inl ⟨_, _, _, asks, one, rfl⟩)
    | inserts asks =>
        obtain ⟨rfl, rfl, _⟩ := Plan.update.inj planned
        exact Or.inr (Or.inr (Or.inl ⟨_, _, _, asks, rfl⟩))
    | moves moves found free =>
        obtain ⟨rfl, rfl, _⟩ := Plan.update.inj planned
        exact Or.inr (Or.inr (Or.inr rfl))
    | creates => exact absurd planned (by simp)
    | deletes => exact absurd planned (by simp)
    | deletesAll => exact absurd planned (by simp)

theorem keeps_of_untouched (untouched : ¬ TouchesHeld b ctx s command) (result : ToolResult)
    (done : execute b ctx s command = .ok (result, s')) (m : Memory) (present : m ∈ s.db.memories.rows)
    (held : m.reviewStatus ≠ .approved) (m' : Memory) (inside : m' ∈ s'.db.memories.rows)
    (same : m'.id = m.id) : m'.body = m.body := by
  have evolves : Evolves (TurnChange (fun patch m => m.reviewStatus ≠ .approved →
      patch.body.getD m.body = m.body) (fun _ _ => True) ctx.now) s.db s'.db := by
    apply evolves_execute command result done
    intro found patch content m plans edits held
    have own {path : Str} (looked : file b s.db path = .ok (some found)) : found = m :=
      Option.some.inj ((getByPublicId_of_file looked).symm.trans edits.found)
    rcases plans_update_cases s.db patch content plans with
      ⟨path, text, creates, below, looked, rfl⟩ | ⟨path, old, new, asks, one, rfl⟩ |
        ⟨path, n, text, asks, rfl⟩ | kept
    · obtain rfl := own looked
      by_contra changed
      exact untouched (.overwrites path found text creates below looked held edits changed)
    · obtain rfl := own asks.found
      have rejected := rejected_of_held asks.notHeld held
      by_contra changed
      refine untouched (.replaces path found old new asks rejected one edits (Or.inl ?_))
      exact fun equal => changed ((Str.replaceFirst_eq_self_iff old new _ (by omega)).mpr equal)
    · obtain rfl := own asks.found
      have rejected := rejected_of_held asks.notHeld held
      exact absurd (.inserts path found n text asks rejected edits) untouched
    · rw [kept]
      rfl
  rcases evolves.origin m' inside with ⟨m₀, before, own, changed⟩ | new
  · obtain rfl := memory_eq_of_id s.db m₀ m before present (own.symm.trans same)
    cases changed with
    | touched touched => exact (Prod.mk.inj (Prod.mk.inj touched.2).2).1
    | patched patch asked => exact asked held
    | reviewed approve reviewerId asked => rfl
  · exact absurd same (Nat.ne_of_gt (new m present))

/-- An accepted edit of a held file to another text does not keep it. -/
theorem not_keepsHeld_of_edits (found : file b s.db path = .ok (some m))
    (held : m.reviewStatus ≠ .approved) (patch : MemoryPatch) (reply : ToolResult)
    (runs : execute b ctx s command = (MemoryService.update b.principal ctx s m.publicId patch).map
      fun result => (reply, result.2))
    (edits : Edits b.principal ctx.now s.db m.publicId patch m)
    (changes : patch.body.getD m.body ≠ m.body) : ¬ KeepsHeld b ctx s command := by
  intro keepsHeld
  have updated := update_of_edits m.publicId patch m edits
  rw [updated] at runs
  have present := (visible_of_getByPublicId b.principal s.db m.publicId m (getByPublicId_of_file found)).1
  exact changes (keepsHeld.keeps _ _ runs m present held (m.patched ctx.now patch)
    (edits_of_update found patch _ updated).2 rfl)

theorem execute_of_overwrites (creates : Creates command path text) (below : path ≠ memoryRoot)
    (found : file b s.db path = .ok (some m)) : execute b ctx s command =
      (MemoryService.update b.principal ctx s m.publicId { body := some text, title := some path }).map
        fun result => ({ content := "File created successfully at: " ++ path }, result.2) := by
  rw [execute_of_plans command _ (plans_of_asksFor _ (.overwrites creates below found)), overwrite,
    carryOut]
  cases MemoryService.update b.principal ctx s m.publicId
    { body := some text, title := some path } <;> rfl

/-- A view of a rejected file answers with its text. -/
theorem shown_view (known : commandOf (Dict.get? command "command".toList) = some .view)
    (normal : normalisePath (Dict.get? command "path".toList) = .ok path)
    (found : file b s.db path = .ok (some m)) (notHeld : m.reviewStatus ≠ .pending)
    (few : Str.count ['\n'] m.body + 1 ≤ maxLines) (part : Str) (first : Int)
    (opened : window b.env.unicode m.body (Dict.get? command "view_range".toList) = .ok (part, first)) :
    shown b ctx s command = .ok (partReply path part first) := by
  have text := viewText_of_window b.env.unicode path m.body part first _ few opened
  have planned : Plans b s.db command (.reply (partReply path part first)) := by
    refine ⟨.view, known, ?_⟩
    simp only [handler, view, normal, found, bind, Except.bind, viewFile, if_neg notHeld, text]
    rfl
  rw [shown, execute_of_plans command _ planned, carryOut]
  rfl

/-- A command that touches a held text shows or changes it. -/
theorem not_keepsHeld_of_touches (touches : TouchesHeld b ctx s command) :
    ¬ KeepsHeld b ctx s command := by
  cases touches with
  | shows path m part first known normal found rejected few opened readable =>
      intro keepsHeld
      obtain ⟨rename, renames, changed⟩ := (exists_renaming_iff _ part).mpr readable
      have notHeld : m.reviewStatus ≠ .pending := by
        simp [rejected]
      have body := renameHeld_body rename m (by simp [rejected])
      have renamed : shown b ctx { s with db := s.db.renameHeld rename } command =
          .ok (partReply path (part.map rename) first) :=
        shown_view known normal (found_rename found) (notHeld_rename notHeld)
          (by rwa [body, renames.count ['\n'] (subset_keptBy command)]) (part.map rename) first
          (by rw [body, window_rename renames, opened]; rfl)
      have same := keepsHeld.hides ⟨.view, by simp, known⟩ rename renames
      rw [renamed, shown_view known normal found notHeld few part first opened] at same
      have content := congrArg ToolResult.content (Except.ok.inj same)
      exact changed (numbered_injective first _ _ (List.append_cancel_left content))
  | replaces path m old new asks rejected one edits readable =>
      have held : m.reviewStatus ≠ .approved := by
        simp [rejected]
      by_cases equal : new = old
      · subst equal
        intro keepsHeld
        obtain ⟨rename, renames, changed⟩ := (exists_renaming_iff _ m.body).mpr
          (readable.resolve_left fun different => different rfl)
        have body := renameHeld_body rename m held
        have same := keepsHeld.hides ⟨.strReplace, by simp, asks.known⟩ rename renames
        have kept (text : Str) (some : 0 < Str.count new text) : Str.replaceFirst new new text = text :=
          (Str.replaceFirst_eq_self_iff new new text some).mpr rfl
        have one' : Str.count new (m.renameHeld rename).body = 1 := by
          rw [body, renames.count new (subset_of_given asks.given) m.body, one]
        have accepted : PyValue.accepts (m.body.map rename) = PyValue.accepts m.body := by
          rw [Bool.eq_iff_iff, accepts_iff, accepts_iff, null_rename renames]
        have updated := update_rename ctx s rename b.principal m.publicId
          m.body (m.body.map rename) accepted
        have given := subset_of_given asks.given
        have own := kept m.body (by omega)
        have renamed := kept (m.body.map rename) (by rw [renames.count new given]; omega)
        rw [own] at edits
        rw [shown, shown, execute_of_count_eq_one asks one,
          execute_of_count_eq_one (asksToReplace_rename asks) one', body, publicId_rename,
          renamed, own, map_fst, map_fst, updated, update_of_edits _ _ _ edits] at same
        have content := congrArg ToolResult.content (Except.ok.inj same)
        exact changed (numbered_injective 1 _ _ (List.append_cancel_left content))
      · apply not_keepsHeld_of_edits asks.found held _ _ (execute_of_count_eq_one asks one) edits
        exact (Str.replaceFirst_eq_self_iff old new _ (by omega)).not.mpr equal
  | inserts path m n text asks rejected edits =>
      have held : m.reviewStatus ≠ .approved := by
        simp [rejected]
      apply not_keepsHeld_of_edits asks.found held _ _ (execute_of_asksToInsert n text asks) edits
      intro same
      have lines := linesOf_inserted m.body n text asks.inside
      have length := congrArg List.length lines
      have some := List.length_pos_of_ne_nil (List.splitOn_ne_nil '\n' (Str.rstripChar '\n' text))
      rw [Option.getD_some] at same
      rw [same, List.length_append, List.length_append, List.length_take, List.length_drop] at length
      change 0 < (linesOf (Str.rstripChar '\n' text)).length at some
      omega
  | overwrites path m text creates below found held edits changes =>
      exact not_keepsHeld_of_edits found held _ _ (execute_of_overwrites creates below found) edits changes

end MemoryTool
end Kortex
