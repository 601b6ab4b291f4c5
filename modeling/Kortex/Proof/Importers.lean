import Kortex.Model.Importers

/-
This file proves which fields of a foreign record an import keeps.
-/

namespace Kortex.Importers

/-- The value is a text that the memory shows, where only its identifier shows every space. -/
def Shown (body title kind sourceId : Str) (value : Json) : Prop :=
  ∃ s, value = .str s ∧ (Str.strip s = Str.strip body ∨ Str.strip s = Str.strip title ∨
    Str.strip s = Str.strip kind ∨ s = sourceId)

/-- The field is kept under its own key in the metadata of the memory. -/
def KeptIn (source : Str) (metadata : JsonDict) (key : Str) (value : Json) : Prop :=
  ∃ extra, Dict.get? metadata source = some (.obj extra) ∧ Dict.get? extra key = some value

def Represented (source : Str) (m : SourceMemory) (key : Str) (value : Json) : Prop :=
  Shown m.body m.title m.kind m.sourceId value ∨ KeptIn source m.metadata key value

/-- These are the records that a parser looks at, each with how it is read. -/
def recordsOf : Source → Json → List (Format × JsonDict)
  | .mem0, doc => ((records doc ["results", "memories", "data"]).toOption.getD []).map (mem0, ·)
  | .zep, doc =>
      (((records doc ["facts", "edges", "relevant_facts", "results", "memories"]).toOption.getD []).filter
        fun record => !invalidated record).map (zep, ·)
  | .letta, doc => (lettaBlocks doc).map (lettaBlock, ·) ++ (lettaPassages doc).map (lettaPassage, ·)
  | .json, doc =>
      ((records doc ["memories", "results", "items", "data", "records"]).toOption.getD []).map (json, ·)

/-- Every field of every record that gives a memory is represented in it. -/
def Lossless (source : Source) (doc : Json) : Prop :=
  ∀ read ∈ recordsOf source doc, ∀ m, memoryOf read.1 read.2 = some m →
    ∀ key value, Dict.get? read.2 key = some value → blank value = false →
      Represented read.1.source m key value

/-- The texts that a record gives show what stands under the keys that its parser consumes. -/
def Covers (f : Format) (record : JsonDict) : Prop :=
  ∀ key ∈ f.consumed, ∀ value, Dict.get? record key = some value → blank value = false →
    Shown (first record f.bodyNames) (f.title record (first record f.bodyNames)) (f.kind record)
      (first record f.idNames) value

/-- The memories of an import are those of the records. -/
theorem parse_eq (source : Source) (doc : Json) :
    ((parse source doc).toOption.getD []) =
      (recordsOf source doc).filterMap fun read => memoryOf read.1 read.2 := by
  have same (f : Format) (found : List JsonDict) :
      (found.map (f, ·)).filterMap (fun read => memoryOf read.1 read.2) =
        found.filterMap (memoryOf f) := by
    rw [List.filterMap_map]
    rfl
  cases source with
  | mem0 =>
      rw [parse, parseMem0, recordsOf, same]
      cases records doc ["results", "memories", "data"] <;> rfl
  | zep =>
      rw [parse, parseZep, recordsOf, same]
      cases records doc ["facts", "edges", "relevant_facts", "results", "memories"] <;> rfl
  | letta =>
      rw [parse, parseLetta, recordsOf, List.filterMap_append, same, same]
      split
      · next none => rw [none]; rfl
      · rfl
  | json =>
      rw [parse, parseJson, recordsOf, same]
      cases records doc ["memories", "results", "items", "data", "records"] with
      | error e => rfl
      | ok found =>
          change (Except.toOption (if found.filterMap (memoryOf json) = [] then _ else _)).getD [] = _
          split
          · next none => exact none.symm
          · rfl

/-- A dictionary comprehension keeps what it does not filter out. -/
theorem get?_filter (d : JsonDict) (keeps : Str × Json → Bool) (key : Str) (value : Json)
    (found : Dict.get? d key = some value) (kept : keeps (key, value) = true) :
    Dict.get? (d.filter keeps) key = some value := by
  induction d with
  | nil => exact absurd found (by simp [Dict.get?])
  | cons field rest ih =>
      obtain ⟨k, v⟩ := field
      rw [Dict.get?] at found
      by_cases same : k = key
      · rw [if_pos same, Option.some.injEq] at found
        rw [List.filter_cons_of_pos (by rw [same, found]; exact kept), Dict.get?, if_pos same, found]
      · rw [if_neg same] at found
        rw [List.filter_cons]
        split
        · rw [Dict.get?, if_neg same]
          exact ih found
        · exact ih found

theorem get?_leftovers (record : JsonDict) (consumed : List Str) (key : Str) (value : Json)
    (found : Dict.get? record key = some value) (filled : blank value = false)
    (free : key ∉ consumed) : Dict.get? (leftovers record consumed) key = some value :=
  get?_filter record _ key value found (by simp [filled, free])

theorem get?_leftovers_consumed (record : JsonDict) (consumed : List Str) (key : Str)
    (taken : key ∈ consumed) : Dict.get? (leftovers record consumed) key = none := by
  rw [← Option.not_isSome_iff_eq_none, Dict.isSome_get?]
  intro inside
  obtain ⟨field, kept, rfl⟩ := List.mem_map.mp inside
  have own := List.of_mem_filter kept
  simp [taken] at own

/-- The name of the source stands in the metadata for what is left over. -/
theorem get?_stamp (source : Str) (other : source ≠ "imported_from") (record : JsonDict)
    (consumed : List Str) : Dict.get? (stamp source record consumed) source =
      if leftovers record consumed = [] then none else some (.obj (leftovers record consumed)) := by
  rw [stamp, Dict.get?, if_neg (fun same => other same.symm)]
  split <;> simp [Dict.get?]

/-- Nothing else in the metadata has the name of the source. -/
structure Format.Free (f : Format) : Prop where
  stamp : f.source ≠ "imported_from"
  extra : ∀ record, f.source ∉ (f.extra record).map Prod.fst

theorem mem0_free : mem0.Free := ⟨by decide, fun _ => List.not_mem_nil⟩

theorem zep_free : zep.Free := ⟨by decide, fun _ => List.not_mem_nil⟩

theorem lettaBlock_free : lettaBlock.Free := ⟨by decide, fun _ => (by decide :
  "letta".toList ∉ ["letta_block".toList, "pinned_hint".toList])⟩

theorem lettaPassage_free : lettaPassage.Free := ⟨by decide, fun _ => List.not_mem_nil⟩

theorem json_free : json.Free := ⟨by decide, fun _ => List.not_mem_nil⟩

theorem free_of_mem (source : Source) (doc : Json) (read : Format × JsonDict)
    (inside : read ∈ recordsOf source doc) : read.1.Free := by
  cases source with
  | mem0 =>
      obtain ⟨record, _, rfl⟩ := List.mem_map.mp inside
      exact mem0_free
  | zep =>
      obtain ⟨record, _, rfl⟩ := List.mem_map.mp inside
      exact zep_free
  | letta =>
      rcases List.mem_append.mp inside with block | passage
      · obtain ⟨record, _, rfl⟩ := List.mem_map.mp block
        exact lettaBlock_free
      · obtain ⟨record, _, rfl⟩ := List.mem_map.mp passage
        exact lettaPassage_free
  | json =>
      obtain ⟨record, _, rfl⟩ := List.mem_map.mp inside
      exact json_free

theorem memoryOf_eq_some (f : Format) (record : JsonDict) (m : SourceMemory) :
    memoryOf f record = some m ↔ first record f.bodyNames ≠ [] ∧
      m = ⟨first record f.bodyNames, f.title record (first record f.bodyNames), f.kind record,
        first record f.idNames, Dict.merge (stamp f.source record f.consumed) (f.extra record)⟩ := by
  rw [memoryOf]
  by_cases empty : first record f.bodyNames = []
  · simp [empty]
  · simp [empty, eq_comm]

/-- Exactly the fields that the parser does not consume are kept under their own keys. -/
theorem keptIn_iff (f : Format) (free : f.Free) (record : JsonDict) (key : Str) (value : Json)
    (found : Dict.get? record key = some value) (filled : blank value = false) :
    KeptIn f.source (Dict.merge (stamp f.source record f.consumed) (f.extra record)) key value ↔
      key ∉ f.consumed := by
  rw [KeptIn, Dict.get?_merge_of_notMem _ _ _ (free.extra record), get?_stamp _ free.stamp]
  constructor
  · rintro ⟨extra, same, kept⟩ taken
    split at same
    · exact absurd same (by simp)
    · rw [Option.some.injEq, Value.obj.injEq] at same
      rw [← same, get?_leftovers_consumed record f.consumed key taken] at kept
      exact absurd kept (by simp)
  · intro left
    have kept := get?_leftovers record f.consumed key value found filled left
    have some_left : leftovers record f.consumed ≠ [] := by
      intro none
      rw [none] at kept
      exact absurd kept (by simp [Dict.get?])
    rw [if_neg some_left]
    exact ⟨_, rfl, kept⟩

/-- A record loses nothing exactly when its texts show what stands under the consumed keys. -/
theorem represented_iff (f : Format) (free : f.Free) (record : JsonDict) (m : SourceMemory)
    (read : memoryOf f record = some m) :
    (∀ key value, Dict.get? record key = some value → blank value = false →
      Represented f.source m key value) ↔ Covers f record := by
  obtain ⟨_, rfl⟩ := (memoryOf_eq_some f record m).mp read
  constructor
  · intro all key taken value found filled
    rcases all key value found filled with shown | kept
    · exact shown
    · exact absurd taken ((keptIn_iff f free record key value found filled).mp kept)
  · intro covers key value found filled
    by_cases taken : key ∈ f.consumed
    · exact Or.inl (covers key taken value found filled)
    · exact Or.inr ((keptIn_iff f free record key value found filled).mpr taken)

/-- An import loses nothing exactly when, of each record that gives a memory, the body, the title, the
kind and the identifier show what stands under the keys that the parser consumes. -/
theorem lossless_iff (source : Source) (doc : Json) : Lossless source doc ↔
    ∀ read ∈ recordsOf source doc, first read.2 read.1.bodyNames ≠ [] → Covers read.1 read.2 := by
  apply forall₂_congr
  intro read inside
  have free := free_of_mem source doc read inside
  constructor
  · intro all filled
    have given := (memoryOf_eq_some read.1 read.2 _).mpr ⟨filled, rfl⟩
    exact (represented_iff read.1 free read.2 _ given).mp (all _ given)
  · intro covers m given
    have filled := ((memoryOf_eq_some read.1 read.2 m).mp given).1
    exact (represented_iff read.1 free read.2 m given).mpr (covers filled)

/-- This is a record of an older export, which has its text under two keys. -/
def twoTexts : JsonDict :=
  [("memory".toList, .str "Alice likes tea"), ("text".toList, .str "Bob likes coffee")]

def teaMemory : SourceMemory where
  body := "Alice likes tea"
  title := "Alice likes tea"
  metadata := [("imported_from".toList, .str "mem0")]

/-- The second text of a record is neither its body nor kept. -/
theorem second_text_lost : ¬ Lossless .mem0 (.arr [.obj twoTexts]) := by
  intro all
  have given : memoryOf mem0 twoTexts = some teaMemory := rfl
  have lost := all (mem0, twoTexts) (List.mem_singleton_self _) teaMemory given "text".toList
    (.str "Bob likes coffee") rfl rfl
  rcases lost with ⟨s, same, shown⟩ | ⟨extra, found, _⟩
  · rw [← Value.str.inj same] at shown
    revert shown
    decide +kernel
  · have none : Dict.get? teaMemory.metadata mem0.source = none := rfl
    rw [none] at found
    exact absurd found (by simp)

end Kortex.Importers
