import Kortex.Library.Occurrences
import Kortex.Proof.ToolMap

/-
This file proves when `str_replace` edits the only occurrence of a text.
-/

namespace Kortex.MemoryTool

open MemoryService

/-- The command asks to replace a text in the file under its path. -/
structure AsksToReplace (b : Backend) (db : Database) (command : JsonDict) (path : Str) (m : Memory)
    (old new : Str) : Prop where
  known : commandOf (Dict.get? command "command".toList) = some .strReplace
  normal : normalisePath (Dict.get? command "path".toList) = .ok path
  found : file b db path = .ok (some m)
  notHeld : m.reviewStatus ≠ .pending
  filled : old ≠ []
  given : Dict.get? command "old_str".toList = some (.str old)
  replacement : (match Dict.get? command "new_str".toList with
    | some (.str new) => new
    | _ => []) = new

/-- The reply to an edit shows the new text. -/
def editedReply (text : Str) : ToolResult where
  content := "The memory file has been edited.\n" ++ numbered text 1

/-- The edit is made where the text has one position, and only there. -/
structure EditsOnlyOccurrence (b : Backend) (ctx : CallContext) (s : Session) (command : JsonDict)
    (m : Memory) (old new : Str) : Prop where
  edits : ∀ i, Str.OnlyAt old m.body i → execute b ctx s command =
    (MemoryService.update b.principal ctx s m.publicId
      { body := some (m.body.take i ++ new ++ m.body.drop (i + old.length)) }).map fun result =>
        (editedReply (m.body.take i ++ new ++ m.body.drop (i + old.length)), result.2)
  stores : ∀ result s', execute b ctx s command = .ok (result, s') → result.isError = false →
    ∃ i, Str.OnlyAt old m.body i ∧ ∃ m' ∈ s'.db.memories.rows, m'.id = m.id ∧
      m'.body = m.body.take i ++ new ++ m.body.drop (i + old.length)
  keeps : (∀ i, ¬ Str.OnlyAt old m.body i) →
    ∃ message, execute b ctx s command = .ok (.failure message, s)

/-- The text has at most one position, or two that do not overlap. -/
def Untangled (old body : Str) : Prop :=
  (∀ i j, Str.OccursAt old body i → Str.OccursAt old body j → i = j) ∨
    ∃ i j, Str.OccursAt old body i ∧ Str.OccursAt old body j ∧ i + old.length ≤ j

variable {b : Backend} {ctx : CallContext} {s s' : Session} {command : JsonDict} {path : Str}
variable {m : Memory} {old new : Str}

theorem plans_of_asksToReplace {db : Database} (asks : AsksToReplace b db command path m old new) :
    Plans b db command (replaceIn path m old new) := by
  have required : requireFile b db path (noPath path) = .ok m := by
    simp only [requireFile, asks.found, bind, Except.bind, if_neg asks.notHeld]
    rfl
  obtain ⟨c, rest, rfl⟩ := List.exists_cons_of_ne_nil asks.filled
  refine ⟨.strReplace, asks.known, ?_⟩
  simp only [handler, strReplace, asks.normal, required, asks.given, bind, Except.bind]
  exact congrArg (fun new => Except.ok (replaceIn path m (c :: rest) new)) asks.replacement

theorem execute_of_asksToReplace (asks : AsksToReplace b s.db command path m old new) :
    execute b ctx s command = carryOut b ctx s (replaceIn path m old new) :=
  execute_of_plans command _ (plans_of_asksToReplace asks)

/-- A text that does not count as one occurrence is refused. -/
theorem execute_of_count_ne_one (asks : AsksToReplace b s.db command path m old new)
    (other : Str.count old m.body ≠ 1) :
    ∃ message, execute b ctx s command = .ok (.failure message, s) := by
  rw [execute_of_asksToReplace asks, replaceIn]
  split
  · exact ⟨_, rfl⟩
  · rename_i some
    rw [if_pos (by omega)]
    exact ⟨_, rfl⟩

/-- A text that counts as one occurrence is replaced where it stands first. -/
theorem execute_of_count_eq_one (asks : AsksToReplace b s.db command path m old new)
    (one : Str.count old m.body = 1) :
    execute b ctx s command = (MemoryService.update b.principal ctx s m.publicId
      { body := some (Str.replaceFirst old new m.body) }).map fun result =>
        (editedReply (Str.replaceFirst old new m.body), result.2) := by
  rw [execute_of_asksToReplace asks, replaceIn]
  simp only [one, Nat.one_ne_zero, Nat.lt_irrefl, if_false, carryOut]
  cases MemoryService.update b.principal ctx s m.publicId
    { body := some (Str.replaceFirst old new m.body) } <;> rfl

theorem update_of_done (asks : AsksToReplace b s.db command path m old new)
    (one : Str.count old m.body = 1) (result : ToolResult)
    (done : execute b ctx s command = .ok (result, s')) : result.isError = false ∧
      ∃ row, MemoryService.update b.principal ctx s m.publicId
        { body := some (Str.replaceFirst old new m.body) } = .ok (row, s') := by
  rw [execute_of_asksToReplace asks, replaceIn] at done
  simp only [one, Nat.one_ne_zero, Nat.lt_irrefl, if_false] at done
  obtain ⟨rfl, updated⟩ := carryOut_update m _ _ result done
  exact ⟨rfl, updated⟩

/-- The public id of a file finds it again. -/
theorem getByPublicId_of_file (found : file b s.db path = .ok (some m)) :
    MemoryRepo.getByPublicId b.principal s.db m.publicId = some m :=
  MemoryRepo.getByPublicId_of_mem _ _ m
    (List.mem_of_find?_eq_some ((file_eq_ok path (some m)).mp found).2)

/-- A done update of a file was accepted, and has stored the patched file. -/
theorem edits_of_update (found : file b s.db path = .ok (some m)) (patch : MemoryPatch)
    (row : Option Memory)
    (done : MemoryService.update b.principal ctx s m.publicId patch = .ok (row, s')) :
    Edits b.principal ctx.now s.db m.publicId patch m ∧
      m.patched ctx.now patch ∈ s'.db.memories.rows := by
  have own := getByPublicId_of_file found
  rcases update_cases m.publicId patch row done with ⟨absent, _⟩ | ⟨other, edits, updated⟩
  · rw [own] at absent
    exact absurd absent (by simp)
  · obtain rfl := Option.some.inj (own.symm.trans edits.found)
    have inside := (visible_of_getByPublicId b.principal s.db m.publicId m own).1
    refine ⟨edits, ?_⟩
    rw [updated, mem_updateMemory s.db m inside]
    exact Or.inr rfl

/-- A done update of a file has stored its text. -/
theorem stored_of_update (found : file b s.db path = .ok (some m)) (text : Str) (row : Option Memory)
    (done : MemoryService.update b.principal ctx s m.publicId { body := some text } = .ok (row, s')) :
    ∃ m' ∈ s'.db.memories.rows, m'.id = m.id ∧ m'.body = text :=
  ⟨_, (edits_of_update found _ row done).2, rfl, rfl⟩

/-- A command edits the only occurrence of a text, and refuses every other text, exactly when the
positions of the text are not tangled. -/
theorem editsOnlyOccurrence_iff (b : Backend) (ctx : CallContext) (s : Session) (command : JsonDict)
    (path : Str) (m : Memory) (old new : Str) (asks : AsksToReplace b s.db command path m old new) :
    EditsOnlyOccurrence b ctx s command m old new ↔ Untangled old m.body := by
  have filled := asks.filled
  have positive := List.length_pos_of_ne_nil filled
  constructor
  · intro holds
    by_contra tangled
    rw [Untangled, not_or] at tangled
    obtain ⟨several, overlap⟩ := tangled
    have nowhere : ∀ i, ¬ Str.OnlyAt old m.body i := fun i only =>
      several fun j k before after => (only.2 j before).trans (only.2 k after).symm
    have one : Str.count old m.body = 1 := by
      have some : 0 < Str.count old m.body := by
        rw [Str.count_pos_iff old filled]
        by_contra none
        exact several fun i _ before => absurd ⟨i, before⟩ none
      have few := (Str.one_lt_count_iff old filled m.body).not.mpr overlap
      omega
    obtain ⟨message, refused⟩ := holds.keeps nowhere
    have success := (update_of_done asks one _ refused).1
    exact absurd success (by simp [ToolResult.failure])
  · intro untangled
    have only_of_one (one : Str.count old m.body = 1) : ∃ i, Str.OnlyAt old m.body i := by
      have few := (Str.one_lt_count_iff old filled m.body).not.mp (by omega)
      obtain ⟨i, occurs⟩ := (Str.count_pos_iff old filled m.body).mp (by omega)
      rcases untangled with same | apart
      · exact ⟨i, occurs, fun j before => same j i before occurs⟩
      · exact absurd apart few
    refine ⟨fun i only => ?_, fun result s' done success => ?_, fun nowhere => ?_⟩
    · rw [execute_of_count_eq_one asks (Str.count_eq_one old filled m.body i only),
        Str.replaceFirst_onlyAt old new m.body i only filled]
    · by_cases one : Str.count old m.body = 1
      · obtain ⟨i, only⟩ := only_of_one one
        obtain ⟨_, row, updated⟩ := update_of_done asks one result done
        rw [Str.replaceFirst_onlyAt old new m.body i only filled] at updated
        exact ⟨i, only, stored_of_update asks.found _ row updated⟩
      · obtain ⟨message, refused⟩ : ∃ message, execute b ctx s command = .ok (.failure message, s) :=
          execute_of_count_ne_one asks one
        rw [refused] at done
        obtain ⟨rfl, _⟩ := Prod.mk.inj (Except.ok.inj done)
        exact absurd success (by simp [ToolResult.failure])
    · apply execute_of_count_ne_one asks
      intro one
      obtain ⟨i, only⟩ := only_of_one one
      exact nowhere i only

def replaceCommand (old new : Str) : JsonDict :=
  [("command", .str "str_replace"), ("path", .str "/memories/a"), ("old_str", .str old),
    ("new_str", .str new)]

theorem asksToReplace_oneFile (text old new : Str) (filled : old ≠ []) :
    AsksToReplace sampleBackend (oneFile text .approved).db (replaceCommand old new) "/memories/a"
      (fileRow text .approved) old new where
  known := rfl
  normal := rfl
  found := rfl
  notHeld := by simp [fileRow, newRow]
  filled := filled
  given := rfl
  replacement := rfl

theorem editsOnlyOccurrence_iff_aba :
    EditsOnlyOccurrence sampleBackend { now := 1, newPublicId := 2 } (oneFile "abaaba" .approved)
      (replaceCommand "aba" "x") (fileRow "abaaba" .approved) "aba" "x" ↔ Untangled "aba" "abaaba" :=
  editsOnlyOccurrence_iff _ _ _ _ "/memories/a" _ _ _ (asksToReplace_oneFile _ _ _ (by decide))

/-- The text has two positions that overlap, and the first one is edited. -/
theorem overlapping_text_is_edited :
    ¬ ∀ (b : Backend) (ctx : CallContext) (s : Session) (command : JsonDict) (path : Str) (m : Memory)
      (old new : Str), AsksToReplace b s.db command path m old new →
        EditsOnlyOccurrence b ctx s command m old new := by
  intro claim
  have holds := claim sampleBackend { now := 1, newPublicId := 2 } (oneFile "ababa" .approved)
    (replaceCommand "aba" "x") "/memories/a" (fileRow "ababa" .approved) "aba" "x"
    (asksToReplace_oneFile _ _ _ (by decide))
  have first : Str.OccursAt "aba" "ababa" 0 := List.isPrefixOf_iff_prefix.mp (by decide)
  have second : Str.OccursAt "aba" "ababa" 2 := List.isPrefixOf_iff_prefix.mp (by decide)
  obtain ⟨message, refused⟩ := holds.keeps fun i only =>
    absurd ((only.2 0 first).trans (only.2 2 second).symm) (by decide)
  have success : (execute sampleBackend { now := 1, newPublicId := 2 } (oneFile "ababa" .approved)
      (replaceCommand "aba" "x")).map (fun result => result.1.isError) = .ok false := by rfl
  rw [refused] at success
  exact absurd success (by simp [Except.map, ToolResult.failure])

end Kortex.MemoryTool
