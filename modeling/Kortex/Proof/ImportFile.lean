import Kortex.Library.JsonLines
import Kortex.Proof.Importers

/-
This file proves when JSON Lines and JSON with the same records give the same import.
-/

namespace Kortex.Importers

open Json

variable {reader : Reader}

/-! The texts are read back. -/

/-- These are the records as JSON Lines. -/
def linesOf (style : Style) (rows : List JsonDict) : Str :=
  Str.join "\n" (rows.map fun row => dumps style (.obj row))

/-- These are the records as an array. -/
def arrayOf (style : Style) (rows : List JsonDict) : Str := dumps style (.arr (rows.map .obj))

/-- A string or a key of the record has a line break that the encoder writes as it is. -/
def breaks (style : Style) (row : JsonDict) : Bool :=
  !style.ensureAscii && anyChar isRawBreak (.obj row)

theorem breaks_eq (style : Style) (row : JsonDict) :
    breaks style row = (dumps style (.obj row)).any Str.isLineBreak := by
  obtain ⟨ensureAscii, compact⟩ := style
  cases ensureAscii with
  | true => exact (any_dumps_ascii exotic_isLineBreak compact _).symm
  | false =>
      rw [any_dumps exotic_isLineBreak compact, ← funext isRawBreak_eq]
      rfl

theorem loadLines_toOption (number : Nat) (lines : List Str) :
    (loadLines reader number lines).toOption = readLines reader.round lines := by
  induction lines generalizing number with
  | nil => rfl
  | cons line rest ih =>
      rw [loadLines, readLines]
      split
      · exact ih (number + 1)
      · cases loads reader.round (Str.strip line) with
        | none => rfl
        | some row =>
            simp only
            rw [← ih (number + 1)]
            cases loadLines reader (number + 1) rest <;> rfl

theorem loadJsonl_linesOf (style : Style) (rows : List JsonDict)
    (proper : ∀ row ∈ rows, Proper reader.round (.obj row)) (nonempty : rows ≠ []) :
    (loadJsonl reader (linesOf style rows)).toOption =
      if rows.all fun row => !breaks style row then some (rows.map .obj) else none := by
  have read := readLines_join style rows proper
  rw [← linesOf, ← loadLines_toOption 1] at read
  simp only [breaks_eq]
  rw [loadJsonl]
  cases loaded : loadLines reader 1 (Str.splitlines (linesOf style rows)) with
  | error e =>
      rw [loaded] at read
      exact read
  | ok values =>
      rw [loaded] at read
      rw [← read]
      split at read
      · obtain rfl := Option.some.inj read
        have filled : (rows.map Value.obj : List Json).isEmpty = false := by simpa using nonempty
        change (if (rows.map Value.obj : List Json).isEmpty = true then _ else _ :
          Except Str (List Json)).toOption = _
        rw [if_neg (by simp [filled])]
        rfl
      · cases read

/-- The text of more than one record is no JSON. -/
theorem loads_linesOf (style : Style) (first second : JsonDict) (rest : List JsonDict)
    (proper : Proper reader.round (.obj first)) :
    loads reader.round (linesOf style (first :: second :: rest)) = none := by
  have text : linesOf style (first :: second :: rest) =
      dumps style (.obj first) ++ '\n' :: linesOf style (second :: rest) := rfl
  obtain ⟨body, head⟩ := dumps_obj_head style second
  have filled : skipWhitespace ('\n' :: linesOf style (second :: rest)) ≠ [] := by
    have start : linesOf style (second :: rest) =
        '{' :: (linesOf style (second :: rest)).tail := by
      cases rest with
      | nil => rw [linesOf, List.map_cons, head]; rfl
      | cons third rest => rw [linesOf, List.map_cons, head]; rfl
    rw [start]
    exact List.cons_ne_nil _ _
  have read := @parse_dumps reader.round style ((linesOf style (first :: second :: rest)).length + 1)
    (.obj first) ('\n' :: linesOf style (second :: rest)) proper
    (by rw [text, List.length_append]; omega) rfl
  rw [← text] at read
  have start := skipWhitespace_dumps style (.obj first) ('\n' :: linesOf style (second :: rest))
  rw [← text] at start
  rw [loads, start, read]
  simp [filled]

/-! What the parsers make of a list of records and of a single one. -/

/-- These are the sources whose parser refuses a document without a memory. -/
def needsMemory : Source → Bool
  | .mem0 | .zep => false
  | .letta | .json => true

/-- This is the memory that a record of a list gives. -/
def memoryOfRow : Source → JsonDict → Option SourceMemory
  | .mem0, row => memoryOf mem0 row
  | .zep, row => if invalidated row then none else memoryOf zep row
  | .letta, row => memoryOf lettaPassage row
  | .json, row => memoryOf json row

/-- These are the memories of the records inside an object, where its parser looks for them. -/
def memoriesInside (source : Source) (row : JsonDict) : List SourceMemory :=
  (recordsOf source (.obj row)).filterMap fun read => memoryOf read.1 read.2

/-- These are the keys where a parser looks for records. -/
def containers : Source → List Str
  | .mem0 => ["results", "memories", "data"]
  | .zep => ["facts", "edges", "relevant_facts", "results", "memories"]
  | .letta => []
  | .json => ["memories", "results", "items", "data", "records"]

/-- These are the records under a key. -/
def recordsAt (row : JsonDict) (key : Str) : Option (List JsonDict) :=
  match Dict.get? row key with
  | some (.arr items) => some (objects items)
  | some (.obj byId) => some (objects (byId.map Prod.snd))
  | _ => none

/-- A list or an object stands under one of the keys. -/
def holdsRecords (keys : List Str) (row : JsonDict) : Bool := keys.any fun key => (recordsAt row key).isSome

/-- This is what a parser returns for the memories that it has found. -/
def returned (source : Source) (memories : List SourceMemory) : Option (List SourceMemory) :=
  if needsMemory source = true ∧ memories = [] then none else some memories

theorem objects_map (rows : List JsonDict) : objects (rows.map .obj) = rows := by
  induction rows with
  | nil => rfl
  | cons row rest ih => exact congrArg (row :: ·) ih

theorem toOption_records (keys : List Str) (row : JsonDict) :
    (records (.obj row) keys).toOption = keys.findSome? (recordsAt row) := by
  change ((keys.findSome? (recordsAt row)).elim _ _ : Except Str (List JsonDict)).toOption = _
  cases keys.findSome? (recordsAt row) <;> rfl

theorem records_object (keys : List Str) (row : JsonDict) :
    (records (.obj row) keys).toOption.isSome = holdsRecords keys row := by
  rw [toOption_records, List.isSome_findSome?, holdsRecords]

/-- The parsers that need no memory return a list when they find the records. -/
theorem parse_isSome (source : Source) (plain : ¬ needsMemory source = true) (doc : Json) :
    (parse source doc).toOption.isSome = (records doc (containers source)).toOption.isSome := by
  cases source with
  | mem0 =>
      rw [parse, parseMem0, containers]
      cases records doc ["results", "memories", "data"] <;> rfl
  | zep =>
      rw [parse, parseZep, containers]
      cases records doc ["facts", "edges", "relevant_facts", "results", "memories"] <;> rfl
  | letta => exact absurd rfl plain
  | json => exact absurd rfl plain

/-- The other parsers return no empty list. -/
theorem parse_needsMemory (source : Source) (needs : needsMemory source = true) (doc : Json) :
    (parse source doc).toOption = returned source ((parse source doc).toOption.getD []) := by
  cases source with
  | mem0 => cases needs
  | zep => cases needs
  | letta =>
      rw [parse, parseLetta]
      split
      · rfl
      · rename_i some
        exact (if_neg fun both => some both.2).symm
  | json =>
      rw [parse, parseJson]
      cases found : records doc ["memories", "results", "items", "data", "records"] with
      | error e => rfl
      | ok rows =>
          change (if rows.filterMap (memoryOf json) = [] then _ else _ : Except Str _).toOption =
            returned .json ((if rows.filterMap (memoryOf json) = [] then _ else _ :
              Except Str _).toOption.getD [])
          split
          · rfl
          · rename_i some
            exact (if_neg fun both => some both.2).symm

/-- A parser that needs a memory returns none of its empty lists. -/
theorem parse_returned (source : Source) (doc : Json)
    (accepted : needsMemory source = true ∨ (records doc (containers source)).toOption.isSome = true) :
    (parse source doc).toOption =
      returned source ((recordsOf source doc).filterMap fun read => memoryOf read.1 read.2) := by
  rw [← parse_eq source doc]
  by_cases needs : needsMemory source = true
  · exact parse_needsMemory source needs doc
  · have present := accepted.resolve_left needs
    rw [← parse_isSome source needs] at present
    obtain ⟨memories, found⟩ := Option.isSome_iff_exists.mp present
    rw [found, returned, if_neg fun both => needs both.1]
    rfl

theorem parse_list (source : Source) (rows : List JsonDict) :
    (parse source (.arr (rows.map .obj))).toOption =
      returned source (rows.filterMap (memoryOfRow source)) := by
  rw [parse_returned source _ (Or.inr rfl)]
  have pairs (f : Format) (rows : List JsonDict) :
      (rows.map (f, ·)).filterMap (fun read => memoryOf read.1 read.2) = rows.filterMap (memoryOf f) := by
    rw [List.filterMap_map]
    rfl
  congr 1
  cases source with
  | mem0 =>
      rw [recordsOf, records, objects_map]
      exact pairs mem0 rows
  | zep =>
      rw [recordsOf, records, objects_map]
      change ((rows.filter fun record => !invalidated record).map (zep, ·)).filterMap _ = _
      rw [pairs, List.filterMap_filter]
      congr 1
      funext row
      cases outdated : invalidated row <;> simp [memoryOfRow, outdated]
  | letta =>
      have blocks : lettaBlocks (.arr (rows.map .obj)) = [] := by simp [lettaBlocks]
      rw [recordsOf, blocks, lettaPassages, objects_map]
      exact pairs lettaPassage rows
  | json =>
      rw [recordsOf, records, objects_map]
      exact pairs json rows

theorem parse_object (source : Source) (row : JsonDict) :
    (parse source (.obj row)).toOption =
      if needsMemory source = true ∨ holdsRecords (containers source) row = true then
        returned source (memoriesInside source row)
      else none := by
  by_cases accepted : needsMemory source = true ∨ holdsRecords (containers source) row = true
  · rw [if_pos accepted]
    exact parse_returned source (.obj row) (by rwa [records_object])
  · rw [if_neg accepted]
    obtain ⟨plain, none⟩ := not_or.mp accepted
    have refused := parse_isSome source plain (.obj row)
    rw [records_object, Bool.eq_false_of_not_eq_true none] at refused
    exact Option.isNone_iff_eq_none.mp (Option.isSome_eq_false_iff.mp refused)

/-! A record that stands inside another one gives another memory. -/

theorem sizeOf_objects (items : List Json) (inner : JsonDict) (inside : inner ∈ objects items) :
    sizeOf inner < sizeOf items := by
  obtain ⟨item, present, same⟩ := List.mem_filterMap.mp inside
  cases item with
  | obj members =>
      obtain rfl := Option.some.inj same
      have smaller := List.sizeOf_lt_of_mem present
      rw [Value.obj.sizeOf_spec] at smaller
      omega
  | _ => cases same

theorem sizeOf_values (members : JsonDict) : sizeOf (members.map Prod.snd) ≤ sizeOf members := by
  induction members with
  | nil => exact Nat.le_refl _
  | cons member rest ih =>
      obtain ⟨key, value⟩ := member
      rw [List.map_cons, List.cons.sizeOf_spec, List.cons.sizeOf_spec, Prod.mk.sizeOf_spec]
      change 1 + sizeOf value + _ ≤ _
      omega

/-- The record stands below a field of the other one, under one of the keys. -/
def Below (keys : List Str) (row inner : JsonDict) : Prop :=
  ∃ key ∈ keys, ∃ value, (key, value) ∈ row ∧ blank value = false ∧ sizeOf inner < sizeOf value

theorem below_array (row : JsonDict) (key : Str) (items : List Json)
    (found : Dict.get? row key = some (.arr items)) (inner : JsonDict) (inside : inner ∈ objects items) :
    Below [key] row inner := by
  have smaller := sizeOf_objects items inner inside
  refine ⟨key, List.mem_cons_self, .arr items, Dict.mem_of_get? row key _ found, ?_, ?_⟩
  · cases items with
    | nil => cases inside
    | cons item rest => rfl
  · rw [Value.arr.sizeOf_spec]
    omega

theorem below_recordsAt (row : JsonDict) (key : Str) (found : List JsonDict)
    (at_key : recordsAt row key = some found) (inner : JsonDict) (inside : inner ∈ found) :
    Below [key] row inner := by
  rw [recordsAt] at at_key
  split at at_key
  · rename_i items value
    obtain rfl := Option.some.inj at_key
    exact below_array row key items value inner inside
  · rename_i byId value
    obtain rfl := Option.some.inj at_key
    have smaller := sizeOf_objects _ inner inside
    have values := sizeOf_values byId
    refine ⟨key, List.mem_cons_self, .obj byId, Dict.mem_of_get? row key _ value, ?_, ?_⟩
    · cases byId with
      | nil => cases inside
      | cons member rest => rfl
    · rw [Value.obj.sizeOf_spec]
      omega
  · cases at_key

theorem Below.mono {keys more : List Str} {row inner : JsonDict} (below : Below keys row inner)
    (subset : keys ⊆ more) : Below more row inner := by
  obtain ⟨key, member, found⟩ := below
  exact ⟨key, subset member, found⟩

theorem below_records (keys : List Str) (row : JsonDict) (found : List JsonDict)
    (read : (records (.obj row) keys).toOption = some found) (inner : JsonDict) (inside : inner ∈ found) :
    Below keys row inner := by
  rw [toOption_records] at read
  obtain ⟨key, member, at_key⟩ := List.exists_of_findSome?_eq_some read
  exact (below_recordsAt row key found at_key inner inside).mono (by simpa using member)

/-- What the two records leave over is the same, when they give the same memory. -/
theorem leftovers_eq (f : Format) (free : f.Free) (plain : ∀ record, f.extra record = [])
    (row inner : JsonDict) (m : SourceMemory) (own : memoryOf f row = some m)
    (other : memoryOf f inner = some m) : leftovers row f.consumed = leftovers inner f.consumed := by
  obtain ⟨_, rfl⟩ := (memoryOf_eq_some f row _).mp own
  obtain ⟨_, same⟩ := (memoryOf_eq_some f inner _).mp other
  have stamps := congrArg (fun m => Dict.get? m.metadata f.source) same
  simp only [plain, Dict.merge, List.foldl_nil, get?_stamp _ free.stamp] at stamps
  by_cases first : leftovers row f.consumed = []
  · by_cases second : leftovers inner f.consumed = []
    · rw [first, second]
    · rw [if_pos first, if_neg second] at stamps
      cases stamps
  · by_cases second : leftovers inner f.consumed = []
    · rw [if_neg first, if_pos second] at stamps
      cases stamps
    · rw [if_neg first, if_neg second] at stamps
      exact Value.obj.inj (Option.some.inj stamps)

/-- A field that is not consumed is left over in its own record only, so that the record inside gives
another memory. -/
theorem memoryOf_below (f : Format) (free : f.Free) (plain : ∀ record, f.extra record = [])
    (keys : List Str) (kept : ∀ key ∈ keys, key ∉ f.consumed) (row inner : JsonDict)
    (below : Below keys row inner) (m : SourceMemory) (own : memoryOf f row = some m) :
    memoryOf f inner ≠ some m := by
  intro other
  obtain ⟨key, member, value, field, filled, smaller⟩ := below
  have left : (key, value) ∈ leftovers row f.consumed :=
    List.mem_filter.mpr ⟨field, by simp [kept key member, filled]⟩
  rw [leftovers_eq f free plain row inner m own other] at left
  have larger := List.sizeOf_lt_of_mem (List.mem_of_mem_filter left)
  rw [Prod.mk.sizeOf_spec] at larger
  omega

/-- These are the keys under which the passages of an agent stand. -/
def passageKeys : List Str :=
  ["archival_passages".toList, "archival_memory".toList, "passages".toList, "agents".toList]

theorem below_own_passages (members inner : JsonDict) (inside : inner ∈ lettaPassages (.obj members)) :
    Below passageKeys members inner ∨ inner ∈ passagesOfAgents members := by
  rw [lettaPassages] at inside
  generalize own : List.findSome? _ _ = found at inside
  cases found with
  | none => exact Or.inr inside
  | some passages =>
      obtain ⟨key, member, at_key⟩ := List.exists_of_findSome?_eq_some own
      left
      split at at_key
      · rename_i items value
        obtain rfl := Option.some.inj at_key
        apply (below_array members key items value inner inside).mono
        rw [List.cons_subset]
        exact ⟨List.mem_of_mem_take (i := 3) member, List.nil_subset _⟩
      · cases at_key

mutual
theorem sizeOf_lettaPassages (inner : JsonDict) : (doc : Json) → inner ∈ lettaPassages doc →
    sizeOf inner < sizeOf doc
  | .arr items, inside => by
      rw [lettaPassages] at inside
      have smaller := sizeOf_objects items inner inside
      rw [Value.arr.sizeOf_spec]
      omega
  | .obj members, inside => by
      have below : Below passageKeys members inner := by
        rcases below_own_passages members inner inside with own | agents
        · exact own
        · exact (below_passagesOfAgents inner members agents).mono (by decide)
      obtain ⟨key, _, value, field, _, smaller⟩ := below
      have larger := List.sizeOf_lt_of_mem field
      rw [Prod.mk.sizeOf_spec] at larger
      rw [Value.obj.sizeOf_spec]
      omega
  | .null, inside | .bool _, inside | .int _, inside | .float _, inside | .str _, inside => by
      simp [lettaPassages] at inside

theorem below_passagesOfAgents (inner : JsonDict) : (members : JsonDict) →
    inner ∈ passagesOfAgents members → Below ["agents".toList] members inner
  | [], inside => by simp [passagesOfAgents] at inside
  | (key, .arr agents) :: rest, inside => by
      rw [passagesOfAgents] at inside
      split at inside
      · rename_i same
        have smaller := sizeOf_passagesOfEach inner agents inside
        refine ⟨key, by simp [same], .arr agents, List.mem_cons_self, ?_, ?_⟩
        · cases agents with
          | nil => simp [passagesOfEach] at inside
          | cons agent others => rfl
        · rw [Value.arr.sizeOf_spec]
          omega
      · obtain ⟨k, member, value, field, found⟩ := below_passagesOfAgents inner rest inside
        exact ⟨k, member, value, List.mem_cons_of_mem _ field, found⟩
  | (key, .null) :: rest, inside | (key, .bool _) :: rest, inside | (key, .int _) :: rest, inside
  | (key, .float _) :: rest, inside | (key, .str _) :: rest, inside | (key, .obj _) :: rest, inside => by
      rw [passagesOfAgents] at inside
      · split at inside
        · cases inside
        · obtain ⟨k, member, value, field, found⟩ := below_passagesOfAgents inner rest inside
          exact ⟨k, member, value, List.mem_cons_of_mem _ field, found⟩
      · simp

theorem sizeOf_passagesOfEach (inner : JsonDict) : (agents : List Json) →
    inner ∈ passagesOfEach agents → sizeOf inner < sizeOf agents
  | [], inside => by simp [passagesOfEach] at inside
  | .obj agent :: rest, inside => by
      rw [passagesOfEach] at inside
      rw [List.cons.sizeOf_spec]
      rcases List.mem_append.mp inside with own | later
      · have smaller := sizeOf_lettaPassages inner (.obj agent) own
        omega
      · have smaller := sizeOf_passagesOfEach inner rest later
        omega
  | .null :: rest, inside | .bool _ :: rest, inside | .int _ :: rest, inside | .float _ :: rest, inside
  | .str _ :: rest, inside | .arr _ :: rest, inside => by
      rw [passagesOfEach] at inside
      · have smaller := sizeOf_passagesOfEach inner rest inside
        rw [List.cons.sizeOf_spec]
        omega
      · simp
end

/-- A passage of an agent stands below one of these keys. -/
theorem below_lettaPassages (members inner : JsonDict) (inside : inner ∈ lettaPassages (.obj members)) :
    Below passageKeys members inner := by
  rcases below_own_passages members inner inside with own | agents
  · exact own
  · exact (below_passagesOfAgents inner members agents).mono (by decide)

/-- These are the records inside an object. -/
theorem below_getD_records (keys : List Str) (row inner : JsonDict)
    (inside : inner ∈ (records (.obj row) keys).toOption.getD []) : Below keys row inner := by
  cases found : (records (.obj row) keys).toOption with
  | none =>
      rw [found] at inside
      cases inside
  | some rows =>
      rw [found] at inside
      exact below_records keys row rows found inner inside

/-- Only the memory of a block has the label of one. -/
theorem get?_letta_block (row : JsonDict) : Dict.get? (Dict.merge (stamp lettaPassage.source row
    lettaPassage.consumed) (lettaPassage.extra row)) "letta_block".toList = none := by
  change Dict.get? (stamp "letta" row lettaPassage.consumed) "letta_block".toList = none
  rw [stamp, Dict.get?, if_neg (by decide)]
  split
  · rfl
  · rw [Dict.get?, if_neg (by decide)]
    rfl

/-- No record inside gives the memory of the record itself, but for one under `data` in an export of
mem0, whose parser consumes this key. -/
theorem memoriesInside_ne (source : Source) (row : JsonDict) (m : SourceMemory)
    (own : memoryOfRow source row = some m)
    (other : source = .mem0 → holdsRecords ["results", "memories"] row = true) :
    m ∉ memoriesInside source row := by
  intro inside
  obtain ⟨read, present, gives⟩ := List.mem_filterMap.mp inside
  cases source with
  | mem0 =>
      obtain ⟨inner, found, rfl⟩ := List.mem_map.mp present
      have front := other rfl
      rw [holdsRecords, ← List.isSome_findSome?] at front
      obtain ⟨rows, front⟩ := Option.isSome_iff_exists.mp front
      have whole : (records (.obj row) ["results", "memories", "data"]).toOption = some rows := by
        rw [toOption_records]
        change (["results".toList, "memories".toList] ++ ["data".toList]).findSome? (recordsAt row) = _
        rw [List.findSome?_append, front]
        rfl
      rw [whole] at found
      rw [← toOption_records] at front
      have below := below_records _ row rows front inner found
      exact memoryOf_below mem0 mem0_free (fun _ => rfl) _ (by decide) row inner below m own gives
  | zep =>
      obtain ⟨inner, found, rfl⟩ := List.mem_map.mp present
      have below := below_getD_records _ row inner (List.mem_of_mem_filter found)
      rw [memoryOfRow] at own
      split at own
      · cases own
      · exact memoryOf_below zep zep_free (fun _ => rfl) _ (by decide) row inner below m own gives
  | letta =>
      rcases List.mem_append.mp present with block | passage
      · obtain ⟨inner, _, rfl⟩ := List.mem_map.mp block
        obtain ⟨_, rfl⟩ := (memoryOf_eq_some lettaPassage row _).mp own
        obtain ⟨_, same⟩ := (memoryOf_eq_some lettaBlock inner _).mp gives
        have labels := congrArg (fun m => Dict.get? m.metadata "letta_block".toList) same
        rw [get?_letta_block row] at labels
        have labelled : Dict.get? (Dict.merge (stamp lettaBlock.source inner lettaBlock.consumed)
            (lettaBlock.extra inner)) "letta_block".toList = some (.str (blockLabel inner)) :=
          Dict.get?_merge_of_mem _ _ _ _
            (by decide : ["letta_block".toList, "pinned_hint".toList].Nodup) List.mem_cons_self
        exact absurd (labels.trans labelled) (by simp)
      · obtain ⟨inner, found, rfl⟩ := List.mem_map.mp passage
        have below := below_lettaPassages row inner found
        exact memoryOf_below lettaPassage lettaPassage_free (fun _ => rfl) _ (by decide) row inner below m
          own gives
  | json =>
      obtain ⟨inner, found, rfl⟩ := List.mem_map.mp present
      have below := below_getD_records _ row inner found
      exact memoryOf_below json json_free (fun _ => rfl) _ (by decide) row inner below m own gives

/-- The two files with the records give the same memories, or both are refused. -/
def SameImport (reader : Reader) (name : Str) (style style' : Style) (rows : List JsonDict) : Prop :=
  (parseFile reader name (linesOf style rows)).toOption =
    (parseFile reader name (arrayOf style' rows)).toOption

/-- A single record gives no memory, neither as one nor by what is inside it, or it is one of mem0 whose
`data` holds a record that gives the same memory, and no other one that gives a memory. -/
def AloneAgrees (source : Source) (row : JsonDict) : Prop :=
  (memoryOfRow source row = none ∧ memoriesInside source row = [] ∧
      (needsMemory source = true ∨ holdsRecords (containers source) row = true)) ∨
    (source = .mem0 ∧ holdsRecords ["results", "memories"] row = false ∧
      ∃ m, memoryOfRow source row = some m ∧ memoriesInside source row = [m])

/-- No text of more than one record is broken, or the records give no memory and the source needs one. -/
def Agrees (source : Source) (style : Style) : List JsonDict → Prop
  | [row] => AloneAgrees source row
  | rows => (∀ row ∈ rows, breaks style row = false) ∨
      (needsMemory source = true ∧ ∀ row ∈ rows, memoryOfRow source row = none)

theorem properItems_map (rows : List JsonDict) (proper : ∀ row ∈ rows, Proper reader.round (.obj row)) :
    ProperItems reader.round (rows.map .obj) := by
  rw [properItems_iff]
  intro item inside
  obtain ⟨row, present, rfl⟩ := List.mem_map.mp inside
  exact proper row present

theorem parseFile_array (name : Str) (source : Source) (known : Dict.get? parsers name = some source)
    (style : Style) (rows : List JsonDict) (proper : ∀ row ∈ rows, Proper reader.round (.obj row)) :
    (parseFile reader name (arrayOf style rows)).toOption =
      returned source (rows.filterMap (memoryOfRow source)) := by
  rw [parseFile, known]
  simp only [arrayOf, loads_dumps style (.arr (rows.map .obj)) (properItems_map rows proper)]
  exact parse_list source rows

theorem parseFile_alone (name : Str) (source : Source) (known : Dict.get? parsers name = some source)
    (style : Style) (row : JsonDict) (proper : Proper reader.round (.obj row)) :
    (parseFile reader name (linesOf style [row])).toOption = (parse source (.obj row)).toOption := by
  have text : linesOf style [row] = dumps style (.obj row) := by simp [linesOf, Str.join]
  rw [parseFile, known, text]
  simp only [loads_dumps style (.obj row) proper]

theorem parseFile_lines (name : Str) (source : Source) (known : Dict.get? parsers name = some source)
    (style : Style) (first second : JsonDict) (rest : List JsonDict)
    (proper : ∀ row ∈ first :: second :: rest, Proper reader.round (.obj row)) :
    (parseFile reader name (linesOf style (first :: second :: rest))).toOption =
      if ∀ row ∈ first :: second :: rest, breaks style row = false then
        returned source ((first :: second :: rest).filterMap (memoryOfRow source))
      else none := by
  have read := loadJsonl_linesOf style _ proper (List.cons_ne_nil _ _)
  rw [parseFile, known]
  simp only [loads_linesOf style first second rest (proper first List.mem_cons_self)]
  simp only [List.all_eq_true, Bool.not_eq_true'] at read
  cases loaded : loadJsonl reader (linesOf style (first :: second :: rest)) with
  | error e =>
      rw [loaded] at read
      split at read
      · cases read
      · rename_i broken
        rw [if_neg broken]
        rfl
  | ok values =>
      rw [loaded] at read
      split at read
      · rename_i whole
        obtain rfl := Option.some.inj read
        rw [if_pos whole]
        exact parse_list source _
      · cases read

theorem returned_inj (source : Source) (first second : List SourceMemory)
    (same : returned source first = returned source second) : first = second := by
  simp only [returned] at same
  split at same
  · rename_i both
    split at same
    · rename_i both'
      rw [both.2, both'.2]
    · cases same
  · split at same
    · cases same
    · exact Option.some.inj same

theorem memoriesInside_mem0 (row : JsonDict) (none : holdsRecords (containers .mem0) row = false) :
    memoriesInside .mem0 row = [] := by
  have refused := records_object (containers .mem0) row
  rw [none, Option.isSome_eq_false_iff, Option.isNone_iff_eq_none] at refused
  rw [memoriesInside, recordsOf]
  simp only [containers] at refused
  rw [refused]
  rfl

theorem alone_agrees_iff (source : Source) (row : JsonDict) :
    (if needsMemory source = true ∨ holdsRecords (containers source) row = true then
        returned source (memoriesInside source row) else none) =
      returned source ([row].filterMap (memoryOfRow source)) ↔ AloneAgrees source row := by
  have listed : [row].filterMap (memoryOfRow source) = (memoryOfRow source row).toList := by
    cases own : memoryOfRow source row <;> simp [own]
  rw [listed, AloneAgrees]
  by_cases accepted : needsMemory source = true ∨ holdsRecords (containers source) row = true
  · rw [if_pos accepted]
    have lists : returned source (memoriesInside source row) =
          returned source (memoryOfRow source row).toList ↔
        memoriesInside source row = (memoryOfRow source row).toList :=
      ⟨returned_inj source _ _, fun same => by rw [same]⟩
    rw [lists]
    cases own : memoryOfRow source row with
    | none => simp [accepted]
    | some m =>
        simp only [reduceCtorEq, false_and, false_or, Option.toList_some]
        constructor
        · intro inside
          have present : m ∈ memoriesInside source row := inside ▸ List.mem_singleton_self m
          have special : ¬ (source = .mem0 → holdsRecords ["results", "memories"] row = true) :=
            fun other => memoriesInside_ne source row m own other present
          obtain ⟨mem0, front⟩ := Classical.not_imp.mp special
          exact ⟨mem0, Bool.not_eq_true _ ▸ front, m, rfl, inside⟩
        · rintro ⟨_, _, m', same, inside⟩
          rw [inside, Option.some.inj same]
  · rw [if_neg accepted]
    obtain ⟨plain, none⟩ := not_or.mp accepted
    constructor
    · intro refused
      rw [returned, if_neg fun both => plain both.1] at refused
      cases refused
    · rintro (⟨_, _, holds⟩ | ⟨rfl, _, m, _, inside⟩)
      · exact absurd holds accepted
      · rw [memoriesInside_mem0 row (by simpa using none)] at inside
        cases inside

/-- JSON Lines and an array of the same records give the same import exactly when no string of two or more
records breaks a line (unless no record gives a memory and the source needs one), or a single record gives
nothing that a list would not give. -/
theorem sameImport_iff (name : Str) (source : Source) (known : Dict.get? parsers name = some source)
    (style style' : Style) (rows : List JsonDict) (nonempty : rows ≠ [])
    (proper : ∀ row ∈ rows, Proper reader.round (.obj row)) :
    SameImport reader name style style' rows ↔ Agrees source style rows := by
  rw [SameImport, parseFile_array name source known style' rows proper]
  match rows, nonempty, proper with
  | [row], _, proper =>
      rw [parseFile_alone name source known style row (proper row List.mem_cons_self), parse_object]
      exact alone_agrees_iff source row
  | first :: second :: rest, _, proper =>
      rw [parseFile_lines name source known style first second rest proper, Agrees]
      · by_cases whole : ∀ row ∈ first :: second :: rest, breaks style row = false
        · rw [if_pos whole]
          exact iff_of_true rfl (Or.inl whole)
        · rw [if_neg whole, returned]
          have empty : (first :: second :: rest).filterMap (memoryOfRow source) = [] ↔
              ∀ row ∈ first :: second :: rest, memoryOfRow source row = none :=
            List.filterMap_eq_nil_iff
          constructor
          · intro same
            right
            by_contra other
            rw [if_neg fun both => other ⟨both.1, empty.mp both.2⟩] at same
            cases same
          · rintro (unbroken | needs)
            · exact absurd unbroken whole
            · rw [if_pos ⟨needs.1, empty.mpr needs.2⟩]
      · exact fun row same => by cases same

/-- This is a reader that keeps every float literal as it is. -/
def plainReader : Reader := ⟨.finite, fun _ => [], fun text => text⟩

def recordOf (text : Str) : JsonDict := [("memory", .str text)]

theorem proper_recordOf (texts : List Str) :
    ∀ row ∈ texts.map recordOf, Proper plainReader.round (.obj row) := by
  intro row present
  obtain ⟨text, _, rfl⟩ := List.mem_map.mp present
  simp [recordOf, Proper, ProperMembers]

/-- The text of a single record is an object, which has no list of memories for the parser of mem0. -/
theorem single_record_is_refused :
    ¬ ∀ (reader : Reader) (name : Str) (source : Source), Dict.get? parsers name = some source →
      ∀ (style style' : Style) (rows : List JsonDict), rows ≠ [] →
        (∀ row ∈ rows, Proper reader.round (.obj row)) → SameImport reader name style style' rows := by
  intro claim
  have same := claim plainReader "mem0" .mem0 rfl ⟨true, false⟩ ⟨true, false⟩ [recordOf "x"]
    (List.cons_ne_nil _ _) (proper_recordOf ["x"])
  have lines :
      (parseFile plainReader "mem0" (linesOf ⟨true, false⟩ [recordOf "x"])).toOption.isSome = false := by
    decide +kernel
  have array :
      (parseFile plainReader "mem0" (arrayOf ⟨true, false⟩ [recordOf "x"])).toOption.isSome = true := by
    decide +kernel
  rw [SameImport] at same
  rw [same, array] at lines
  cases lines

theorem sameImport_iff_two :
    SameImport plainReader "mem0" ⟨false, false⟩ ⟨true, true⟩ (["x", "y"].map recordOf) ↔
      Agrees .mem0 ⟨false, false⟩ (["x", "y"].map recordOf) :=
  sameImport_iff "mem0" .mem0 rfl ⟨false, false⟩ ⟨true, true⟩ _ (List.cons_ne_nil _ _)
    (proper_recordOf ["x", "y"])

end Kortex.Importers
