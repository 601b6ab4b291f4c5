import Kortex.Library.Split
import Kortex.Proof.ToolEdits

/-
This file proves that a view and an insert have the same notion of a line.
-/

namespace Kortex.MemoryTool

open MemoryService

/-- These are the lines of a text. -/
abbrev linesOf (text : Str) : List Str := Str.split '\n' text

/-- The line with the number is in the range; the number -1 stands for the last line. -/
def InRange (lines : Nat) (first last : Int) (n : Nat) : Prop :=
  1 ≤ n ∧ n ≤ lines ∧ first ≤ n ∧ (last = -1 ∨ n ≤ last)

/-- A printed line has its number before a tabulator. -/
def printed (line : Nat × Str) : Str := Str.padLeft 6 (Str.ofNat line.1) ++ "\t" ++ line.2

/-- The printed lines are consecutive lines of the text: those in the range, or all where it is empty. -/
structure ShowsLines (text : Str) (first last : Int) (shown : List (Nat × Str)) : Prop where
  own : ∀ line ∈ shown, 1 ≤ line.1 ∧ (linesOf text)[line.1 - 1]? = some line.2
  consecutive : ∃ start, shown.map Prod.fst = List.range' start shown.length
  ranged : ∀ n, InRange (linesOf text).length first last n →
    ∀ k, k ∈ shown.map Prod.fst ↔ InRange (linesOf text).length first last k
  whole : (∀ n, ¬ InRange (linesOf text).length first last n) →
    shown.map Prod.snd = linesOf text

/-- The command asks for a window of the file under its path. -/
structure AsksToView (b : Backend) (db : Database) (command : JsonDict) (path : Str) (m : Memory)
    (first last : Int) : Prop where
  known : commandOf (Dict.get? command "command".toList) = some .view
  normal : normalisePath (Dict.get? command "path".toList) = .ok path
  found : file b db path = .ok (some m)
  approved : m.reviewStatus = .approved
  window : Dict.get? command "view_range".toList = some (.arr [.int first, .int last])

/-- The command asks to insert a text behind the line with the number. -/
structure AsksToInsert (b : Backend) (db : Database) (command : JsonDict) (path : Str) (m : Memory)
    (n : Nat) (text : Str) : Prop where
  known : commandOf (Dict.get? command "command".toList) = some .insert
  normal : normalisePath (Dict.get? command "path".toList) = .ok path
  found : file b db path = .ok (some m)
  notHeld : m.reviewStatus ≠ .pending
  line : Dict.get? command "insert_line".toList = some (.int n)
  inside : n ≤ (linesOf m.body).length
  given : Dict.get? command "insert_text".toList = some (.str text)

/-- The lines from a number on, with their numbers. -/
def numberedFrom (start : Nat) (lines : List Str) : List (Nat × Str) :=
  lines.mapIdx fun i line => (start + i, line)

theorem numberedFrom_numbers (start : Nat) (lines : List Str) :
    (numberedFrom start lines).map Prod.fst = List.range' start lines.length := by
  apply List.ext_getElem
  · simp [numberedFrom]
  · intro i _ _
    simp [numberedFrom]

theorem numberedFrom_lines (start : Nat) (lines : List Str) :
    (numberedFrom start lines).map Prod.snd = lines := by
  apply List.ext_getElem
  · simp [numberedFrom]
  · intro i _ _
    simp [numberedFrom]

/-- The numbered text of lines prints each of them. -/
theorem numbered_join (start : Nat) (lines : List Str) (some : lines ≠ [])
    (free : ∀ line ∈ lines, '\n' ∉ line) :
    numbered (Str.join ['\n'] lines) start =
      Str.join ['\n'] ((numberedFrom start lines).map printed) := by
  have split : Str.split '\n' (Str.join ['\n'] lines) = lines := List.splitOn_intercalate '\n' free some
  rw [numbered, split]
  congr 1
  apply List.ext_getElem
  · simp [numberedFrom]
  · intro i _ _
    simp only [numberedFrom, List.getElem_mapIdx, List.getElem_map, printed, lineNumber]
    rfl

theorem mem_numberedFrom (start : Nat) (lines : List Str) (line : Nat × Str)
    (inside : line ∈ numberedFrom start lines) :
    ∃ i, lines[i]? = some line.2 ∧ line.1 = start + i := by
  rw [numberedFrom, List.mem_mapIdx] at inside
  obtain ⟨i, below, rfl⟩ := inside
  exact ⟨i, List.getElem?_eq_getElem below, rfl⟩

theorem newline_notMem (text line : Str) (inside : line ∈ linesOf text) : '\n' ∉ line :=
  Split.separator_notMem text line inside

theorem length_linesOf (text : Str) : (linesOf text).length = Str.count ['\n'] text + 1 := by
  rw [linesOf, Str.split, Split.length_splitOn, Str.count_singleton]

/-- The lines of a window that is not empty are shown with their numbers. -/
theorem showsLines_window (text : Str) (first last : Int) (start stop : Nat) (positive : 1 ≤ start)
    (nonempty : start ≤ stop) (bounded : stop ≤ (linesOf text).length)
    (range : ∀ n, InRange (linesOf text).length first last n ↔ start ≤ n ∧ n ≤ stop) :
    ShowsLines text first last
      (numberedFrom start (((linesOf text).take stop).drop (start - 1))) := by
  have length : (((linesOf text).take stop).drop (start - 1)).length = stop + 1 - start := by
    simp only [List.length_drop, List.length_take]
    omega
  have numbers := numberedFrom_numbers start (((linesOf text).take stop).drop (start - 1))
  refine ⟨fun line inside => ?_, ⟨start, ?_⟩, fun n _ k => ?_, fun none => ?_⟩
  · obtain ⟨i, own, number⟩ := mem_numberedFrom _ _ line inside
    refine ⟨by omega, ?_⟩
    rw [List.getElem?_drop, List.getElem?_take] at own
    split at own
    · rw [← own, number]
      congr 1
      omega
    · exact absurd own (by simp)
  · rw [numbers]
    simp [numberedFrom]
  · rw [numbers, length, List.mem_range'_1, range]
    omega
  · exact absurd ((range start).mpr ⟨Nat.le_refl _, nonempty⟩) (none start)

theorem showsLines_all (text : Str) (first last : Int)
    (none : ∀ n, ¬ InRange (linesOf text).length first last n) :
    ShowsLines text first last (numberedFrom 1 (linesOf text)) := by
  refine ⟨fun line inside => ?_, ⟨1, ?_⟩, fun n range => absurd range (none n),
    fun _ => numberedFrom_lines 1 _⟩
  · obtain ⟨i, own, number⟩ := mem_numberedFrom _ _ line inside
    exact ⟨by omega, by rw [← own, number]; congr 1; omega⟩
  · rw [numberedFrom_numbers]
    simp [numberedFrom]

/-- A window shows the lines in its range, or the whole text. -/
theorem slice_shows (u : Unicode) (text : Str) (first last : Int) :
    ∃ part start shown, slice u text (.int first) (.int last) = .ok (part, start) ∧
      numbered part start = Str.join ['\n'] (shown.map printed) ∧ ShowsLines text first last shown := by
  have some : linesOf text ≠ [] := List.splitOn_ne_nil _ _
  have whole : Str.join ['\n'] (linesOf text) = text := List.intercalate_splitOn '\n'
  set stop : Int := if last = -1 then ((linesOf text).length : Int) else
    min last (linesOf text).length with stopEq
  have range (n : Nat) : InRange (linesOf text).length first last n ↔ max 1 first ≤ n ∧ n ≤ stop := by
    rw [InRange, stopEq]
    split
    · omega
    · omega
  have bounded : stop ≤ (linesOf text).length := by
    rw [stopEq]
    split
    · omega
    · omega
  have sliced : slice u text (.int first) (.int last) =
      if stop < max 1 first then .ok (text, 1)
      else .ok (Str.join ['\n'] (((linesOf text).take stop.toNat).drop (max 1 first - 1).toNat),
        max 1 first) := by
    simp only [slice, pyInt, bind, Except.bind]
    rfl
  rw [sliced]
  by_cases empty : stop < max 1 first
  · rw [if_pos empty]
    refine ⟨text, 1, numberedFrom 1 (linesOf text), rfl, ?_, showsLines_all text first last ?_⟩
    · have text' := numbered_join 1 (linesOf text) some (newline_notMem text)
      rwa [whole] at text'
    · intro n inside
      have bounds := (range n).mp inside
      omega
  · rw [if_neg empty]
    obtain ⟨start, startEq⟩ : ∃ start : Nat, max 1 first = start := Int.eq_ofNat_of_zero_le (by omega)
    obtain ⟨stop', stop'Eq⟩ : ∃ stop' : Nat, stop = stop' := Int.eq_ofNat_of_zero_le (by omega)
    have positive : 1 ≤ start := by omega
    have index : (max 1 first - 1).toNat = start - 1 := by omega
    rw [index, startEq, stop'Eq, Int.toNat_natCast]
    refine ⟨_, start, _, rfl, ?_, showsLines_window text first last start stop' positive (by omega)
      (by omega) fun n => ?_⟩
    · apply numbered_join
      · apply List.ne_nil_of_length_pos
        simp only [List.length_drop, List.length_take]
        omega
      · exact fun line inside => newline_notMem text line
          (List.mem_of_mem_take (List.mem_of_mem_drop inside))
    · rw [range, startEq, stop'Eq]
      omega

variable {b : Backend} {ctx : CallContext} {s : Session} {command : JsonDict} {path : Str}
variable {m : Memory}

def viewReply (path : Str) (shown : List (Nat × Str)) : ToolResult where
  content := "Here's the content of " ++ path ++ " with line numbers:\n" ++
    Str.join ['\n'] (shown.map printed)

/-- A view of a window shows lines of the file with their numbers. -/
theorem execute_of_asksToView (first last : Int) (asks : AsksToView b s.db command path m first last)
    (few : (linesOf m.body).length ≤ maxLines) :
    ∃ shown, execute b ctx s command = .ok (viewReply path shown, s) ∧
      ShowsLines m.body first last shown := by
  obtain ⟨part, start, shown, sliced, text, shows⟩ := slice_shows b.env.unicode m.body first last
  rw [length_linesOf] at few
  have notHeld : m.reviewStatus ≠ .pending := by
    rw [asks.approved]
    decide
  have planned : Plans b s.db command (.reply (viewReply path shown)) := by
    refine ⟨.view, asks.known, ?_⟩
    simp only [handler, view, asks.normal, asks.found, asks.window, bind, Except.bind, viewFile,
      if_neg notHeld, viewText, if_neg (Nat.not_lt.mpr few), sliced, text]
    rfl
  exact ⟨shown, (execute_of_plans command _ planned).trans rfl, shows⟩

theorem insertIdx_eq_append {A : Type} (items : List A) (n : Nat) (a : A) (inside : n ≤ items.length) :
    items.insertIdx n a = items.take n ++ a :: items.drop n := by
  induction items generalizing n with
  | nil =>
      obtain rfl := Nat.le_zero.mp inside
      rfl
  | cons first rest ih =>
      cases n with
      | zero => rfl
      | succ n =>
          rw [List.insertIdx_succ_cons, ih n (Nat.le_of_succ_le_succ inside)]
          rfl

/-- This is the text after an insert. -/
def inserted (body : Str) (n : Nat) (text : Str) : Str :=
  Str.join ['\n'] ((linesOf body).insertIdx n (Str.rstripChar '\n' text))

theorem linesOf_inserted (body : Str) (n : Nat) (text : Str) (inside : n ≤ (linesOf body).length) :
    linesOf (inserted body n text) =
      (linesOf body).take n ++ linesOf (Str.rstripChar '\n' text) ++ (linesOf body).drop n := by
  rw [inserted, insertIdx_eq_append _ n _ inside, linesOf, Str.split, Str.join,
    Split.splitOn_intercalate_flatMap _ (by simp), List.flatMap_append, List.flatMap_cons,
    Split.flatMap_splitOn_of_free _ fun line taken =>
      newline_notMem body line (List.mem_of_mem_take taken),
    Split.flatMap_splitOn_of_free _ fun line left =>
      newline_notMem body line (List.mem_of_mem_drop left),
    List.append_assoc]
  rfl

theorem plans_of_asksToInsert {db : Database} (n : Nat) (text : Str)
    (asks : AsksToInsert b db command path m n text) :
    Plans b db command (.update m { body := some (inserted m.body n text) }
      ("The file " ++ path ++ " has been edited.")) := by
  have required : requireFile b db path ("Error: The path " ++ path ++ " does not exist") = .ok m := by
    simp only [requireFile, asks.found, bind, Except.bind, if_neg asks.notHeld]
    rfl
  have inside : ¬ ((n : Int) < 0 ∨ ((Str.split '\n' m.body).length : Int) < n) := by
    have bound := asks.inside
    rw [linesOf] at bound
    omega
  refine ⟨.insert, asks.known, ?_⟩
  simp only [handler, insert, asks.normal, required, asks.line, bind, Except.bind, insertAt,
    if_neg inside, asks.given, Int.toNat_natCast]
  rfl

theorem execute_of_asksToInsert (n : Nat) (text : Str)
    (asks : AsksToInsert b s.db command path m n text) :
    execute b ctx s command = (MemoryService.update b.principal ctx s m.publicId
      { body := some (inserted m.body n text) }).map fun result =>
        ({ content := "The file " ++ path ++ " has been edited." }, result.2) := by
  rw [execute_of_plans command _ (plans_of_asksToInsert n text asks), carryOut]
  cases MemoryService.update b.principal ctx s m.publicId
    { body := some (inserted m.body n text) } <;> rfl

/-- The insert keeps the lines of the file in their order around the lines of the text. -/
structure InsertsLines (b : Backend) (ctx : CallContext) (s : Session) (command : JsonDict)
    (m : Memory) (n : Nat) (text : Str) : Prop where
  stores : ∀ result s', execute b ctx s command = .ok (result, s') → result.isError = false ∧
    ∃ m' ∈ s'.db.memories.rows, m'.id = m.id ∧ linesOf m'.body =
      (linesOf m.body).take n ++ linesOf (Str.rstripChar '\n' text) ++ (linesOf m.body).drop n
  succeeds : Edits b.principal ctx.now s.db m.publicId { body := some (inserted m.body n text) } m →
    ∃ result s', execute b ctx s command = .ok (result, s')

/-- A view and an insert of a file have the same lines. -/
theorem view_and_insert_agree (b : Backend) (ctx : CallContext) (s : Session) (command : JsonDict)
    (path : Str) (m : Memory) :
    (∀ first last, AsksToView b s.db command path m first last →
      (linesOf m.body).length ≤ maxLines →
      ∃ shown, execute b ctx s command = .ok (viewReply path shown, s) ∧
        ShowsLines m.body first last shown) ∧
    ∀ n text, AsksToInsert b s.db command path m n text →
      InsertsLines b ctx s command m n text := by
  refine ⟨fun first last asks few => execute_of_asksToView first last asks few,
    fun n text asks => ⟨fun result s' done => ?_, fun edits => ?_⟩⟩
  · rw [execute_of_asksToInsert n text asks] at done
    cases updated : MemoryService.update b.principal ctx s m.publicId
        { body := some (inserted m.body n text) } with
    | error e =>
        rw [updated] at done
        exact absurd done (by simp [Except.map])
    | ok row =>
    rw [updated] at done
    obtain ⟨rfl, rfl⟩ := Prod.mk.inj (Except.ok.inj done)
    obtain ⟨m', inside, own, body⟩ := stored_of_update asks.found _ row.1 updated
    refine ⟨rfl, m', inside, own, ?_⟩
    rw [body, linesOf_inserted m.body n text asks.inside]
  · rw [execute_of_asksToInsert n text asks, update_of_edits _ _ _ edits]
    exact ⟨_, _, rfl⟩

def viewCommand (first last : Int) : JsonDict :=
  [("command", .str "view"), ("path", .str "/memories/a"), ("view_range", .arr [.int first, .int last])]

def insertCommand (n : Nat) (text : Str) : JsonDict :=
  [("command", .str "insert"), ("path", .str "/memories/a"), ("insert_line", .int n),
    ("insert_text", .str text)]

theorem asksToView_oneFile (text : Str) (first last : Int) :
    AsksToView sampleBackend (oneFile text .approved).db (viewCommand first last) "/memories/a"
      (fileRow text .approved) first last where
  known := rfl
  normal := rfl
  found := rfl
  approved := rfl
  window := rfl

theorem asksToInsert_oneFile (body : Str) (n : Nat) (text : Str) (inside : n ≤ (linesOf body).length) :
    AsksToInsert sampleBackend (oneFile body .approved).db (insertCommand n text) "/memories/a"
      (fileRow body .approved) n text where
  known := rfl
  normal := rfl
  found := rfl
  notHeld := by simp [fileRow, newRow]
  line := rfl
  inside := inside
  given := rfl

theorem view_and_insert_agree_ab :
    (∃ shown, execute sampleBackend { now := 1, newPublicId := 2 } (oneFile "a\nb" .approved)
        (viewCommand 2 (-1)) =
          .ok (viewReply "/memories/a" shown, oneFile "a\nb" .approved) ∧
        ShowsLines "a\nb" 2 (-1) shown) ∧
      InsertsLines sampleBackend { now := 1, newPublicId := 2 } (oneFile "a\nb" .approved)
        (insertCommand 1 "c\n") (fileRow "a\nb" .approved) 1 "c\n" :=
  ⟨(view_and_insert_agree _ _ _ _ _ _).1 2 (-1) (asksToView_oneFile "a\nb" 2 (-1)) (by decide),
    (view_and_insert_agree _ _ _ _ _ _).2 1 "c\n" (asksToInsert_oneFile "a\nb" 1 "c\n" (by decide))⟩

/-- A text of too many lines is not shown. -/
theorem not_shown_of_many_lines (first last : Int)
    (asks : AsksToView b s.db command path m first last) (many : maxLines < (linesOf m.body).length) :
    ¬ ∃ shown, execute b ctx s command = .ok (viewReply path shown, s) ∧
      ShowsLines m.body first last shown := by
  rw [length_linesOf] at many
  have notHeld : m.reviewStatus ≠ .pending := by
    rw [asks.approved]
    decide
  obtain ⟨message, reply⟩ : ∃ message,
      viewFile b path m (some (.arr [.int first, .int last])) = .ok (.failure message) := by
    rw [viewFile, if_neg notHeld, viewText, if_pos many]
    exact ⟨_, rfl⟩
  have planned : Plans b s.db command (.reply (.failure message)) := by
    refine ⟨.view, asks.known, ?_⟩
    simp only [handler, view, asks.normal, asks.found, asks.window, bind, Except.bind, reply]
    rfl
  rintro ⟨shown, done, _⟩
  rw [execute_of_plans command _ planned, carryOut] at done
  obtain ⟨same, _⟩ := Prod.mk.inj (Except.ok.inj done)
  have wrong : true = false := congrArg ToolResult.isError same
  exact absurd wrong (by decide)

theorem linesOf_replicate (n : Nat) : (linesOf (List.replicate n '\n')).length = n + 1 := by
  rw [length_linesOf, Str.count_singleton, List.count_replicate_self]

/-- A file of a million lines is not shown. -/
theorem million_lines_are_not_shown :
    ¬ ∀ (b : Backend) (ctx : CallContext) (s : Session) (command : JsonDict) (path : Str) (m : Memory)
      (first last : Int), AsksToView b s.db command path m first last →
        ∃ shown, execute b ctx s command = .ok (viewReply path shown, s) ∧
          ShowsLines m.body first last shown := by
  intro claim
  obtain ⟨body, many⟩ : ∃ body : Str, maxLines < (linesOf body).length :=
    ⟨_, Nat.lt_of_lt_of_eq (Nat.lt_succ_self maxLines) (linesOf_replicate maxLines).symm⟩
  have asks := asksToView_oneFile body 2 1
  exact not_shown_of_many_lines 2 1 asks many
    (claim sampleBackend { now := 1, newPublicId := 2 } (oneFile body .approved) _ _ _ 2 1 asks)

end Kortex.MemoryTool
