import Kortex.Library.Dict
import Kortex.Model.Export
import Kortex.Model.Import
import Kortex.Proof.MemoryService

/-
This file proves which archives `import_from_tar` reads back, and what the importer reads in an archive that
an export wrote.
-/

namespace Kortex

variable {round : FloatText → PyFloat}

theorem decodeUtf8_encodeUtf8 (s : Str) : decodeUtf8 (encodeUtf8 s) = some s := by
  have valid : (encodeUtf8 s).IsValidUTF8 := (String.ofList s).isValidUTF8
  have whole : String.fromUTF8 (encodeUtf8 s) valid = String.ofList s := rfl
  simp [decodeUtf8, String.fromUTF8?, valid, whole]

theorem getmember_addBytes (tar : Tar) (name : Str) (body : ByteArray) :
    (addBytes tar name body).getmember name = some body := by
  simp [Tar.getmember, addBytes]

theorem getmember_addBytes_of_ne (tar : Tar) (name other : Str) (body : ByteArray)
    (different : other ≠ name) :
    (addBytes tar other body).getmember name = tar.getmember name := by
  simp [Tar.getmember, addBytes, different]

/-- The rows of a member are read back, or the reader raises when a string has a raw break. -/
theorem readJsonl_addJsonl (tar : Tar) (name : Str) (rows : List JsonDict)
    (proper : ∀ row ∈ rows, Json.Proper round (.obj row)) :
    readJsonl round (addJsonl tar name rows) name =
      if rows.all (fun row => !Json.anyChar Json.isRawBreak (.obj row)) then some (rows.map .obj)
      else none := by
  rw [readJsonl, addJsonl, getmember_addBytes]
  simp only [decodeUtf8_encodeUtf8, Option.bind_some, ← Json.any_isLineBreak]
  exact Json.readLines_join ⟨false, false⟩ rows proper

/-- A blob never takes the name of another member of the archive. -/
theorem blobPath_ne (a : ExportedAttachment) (name : Str) (other : name.head? ≠ some 'b') :
    blobPath a ≠ name :=
  fun same => other (congrArg List.head? same).symm

theorem getmember_foldl_blobs (attachments : List ExportedAttachment) (tar : Tar) (name : Str)
    (other : name.head? ≠ some 'b') :
    (attachments.foldl (fun tar a => addBytes tar (blobPath a) a.blob) tar).getmember name =
      tar.getmember name := by
  induction attachments generalizing tar with
  | nil => rfl
  | cons a rest ih =>
      rw [List.foldl_cons, ih, getmember_addBytes_of_ne _ _ _ _ (blobPath_ne a name other)]

/-- The importer finds the memories that the export wrote first. -/
theorem getmember_streamExport (input : ExportInput) :
    (streamExport input).getmember "memories.jsonl" =
      (addJsonl [] "memories.jsonl" (input.memories.map memoryRow)).getmember "memories.jsonl" := by
  have links : "memory_links.jsonl".toList ≠ "memories.jsonl".toList := by decide
  have attachments : "attachments.jsonl".toList ≠ "memories.jsonl".toList := by decide
  have chunks : "attachment_chunks.jsonl".toList ≠ "memories.jsonl".toList := by decide
  have manifest : "manifest.json".toList ≠ "memories.jsonl".toList := by decide
  simp only [streamExport]
  rw [addJsonl, getmember_addBytes_of_ne _ _ _ _ manifest, addJsonl,
    getmember_addBytes_of_ne _ _ _ _ chunks, addJsonl,
    getmember_addBytes_of_ne _ _ _ _ attachments, getmember_foldl_blobs _ _ _ (by decide), addJsonl,
    getmember_addBytes_of_ne _ _ _ _ links]

theorem importText_memoryRow (m : Memory) :
    importText (.obj (memoryRow m)) = some (.str m.title, .str m.body) := rfl

/-- A row of the archive is a JSON object when the columns of the memory hold JSON values. -/
theorem proper_memoryRow (m : Memory) (metadata : Json.Proper round (.obj m.metadata))
    (importance : Json.Proper round (.float m.importance))
    (sourceRef : ∀ r, m.sourceRef = some r → Json.Proper round (.obj r)) :
    Json.Proper round (.obj (memoryRow m)) := by
  have reference : Json.Proper round (m.sourceRef.elim .null .obj) := by
    cases column : m.sourceRef with
    | none => simp [Json.Proper]
    | some r => exact sourceRef r column
  have distinct : ((memoryRow m).map Prod.fst).Nodup := by
    simp only [memoryRow, List.map_cons, List.map_nil]
    decide
  rw [Json.Proper]
  refine ⟨distinct, ?_⟩
  simp only [memoryRow, Json.ProperMembers, and_true]
  refine ⟨?_, ?_, ?_, ?_, ?_, ?_, ?_, ?_, importance, ?_, metadata, ?_, reference⟩ <;>
    simp [Json.Proper]

/-- A JSON object, with distinct keys and with floats that `repr` wrote. -/
structure JsonObject (round : FloatText → PyFloat) where
  members : JsonDict
  proper : Json.Proper round (.obj members)

/-- A memory whose JSON columns hold JSON values. -/
structure StoredMemory (round : FloatText → PyFloat) where
  memory : Memory
  metadata : Json.Proper round (.obj memory.metadata)
  importance : Json.Proper round (.float memory.importance)
  sourceRef : ∀ r, memory.sourceRef = some r → Json.Proper round (.obj r)

/-- The bodies and titles of an export reach the importer unless a row has a raw break. -/
theorem importTexts_streamExport (input : ExportInput)
    (proper : ∀ row ∈ input.memories.map memoryRow, Json.Proper round (.obj row)) :
    importTexts round (streamExport input) =
      if input.memories.all (fun m => !Json.anyChar Json.isRawBreak (.obj (memoryRow m))) then
        some (input.memories.map fun m => (.str m.title, .str m.body))
      else none := by
  have read := readJsonl_addJsonl [] "memories.jsonl" _ proper
  rw [importTexts, readJsonl, getmember_streamExport]
  rw [readJsonl] at read
  rw [read, List.all_map]
  have texts : ∀ memories : List Memory,
      ((memories.map memoryRow).map Value.obj).mapM importText =
        some (memories.map fun m => (.str m.title, .str m.body)) := by
    intro memories
    induction memories with
    | nil => rfl
    | cons m rest ih =>
        rw [List.map_cons, List.map_cons, List.mapM_cons, ih, importText_memoryRow]
        rfl
  split
  · rename_i free
    rw [if_pos (by simpa [Function.comp_def] using free), Option.bind_some, texts]
  · rename_i broken
    rw [if_neg (by simpa [Function.comp_def] using broken), Option.bind_none]

/-- A row has a raw break when U+0085, U+2028 or U+2029 occurs in one of its strings. -/
def hasRawBreak (row : JsonDict) : Bool := Json.anyChar Json.isRawBreak (.obj row)

/-- The archive reads back exactly the rows and the texts of an export without a raw break. -/
theorem archive_roundTrip :
    (∀ (tar : Tar) (name : Str) (rows : List (JsonObject round)),
      readJsonl round (addJsonl tar name (rows.map JsonObject.members)) name =
          some (rows.map fun row => .obj row.members) ↔
        ∀ row ∈ rows, hasRawBreak row.members = false) ∧
    (∀ (input : ExportInput) (memories : List (StoredMemory round)),
      importTexts round (streamExport { input with memories := memories.map StoredMemory.memory }) =
          some (memories.map fun m => (.str m.memory.title, .str m.memory.body)) ↔
        ∀ m ∈ memories, hasRawBreak (memoryRow m.memory) = false) := by
  constructor
  · intro tar name rows
    have proper : ∀ row ∈ rows.map JsonObject.members, Json.Proper round (.obj row) := by
      intro row present
      obtain ⟨object, _, rfl⟩ := List.mem_map.mp present
      exact object.proper
    rw [readJsonl_addJsonl tar name _ proper, List.all_map, List.map_map]
    simp [hasRawBreak, Function.comp_def]
  · intro input memories
    have proper : ∀ row ∈ (memories.map StoredMemory.memory).map memoryRow,
        Json.Proper round (.obj row) := by
      intro row present
      obtain ⟨m, member, rfl⟩ := List.mem_map.mp present
      obtain ⟨stored, _, rfl⟩ := List.mem_map.mp member
      exact proper_memoryRow stored.memory stored.metadata stored.importance stored.sourceRef
    rw [importTexts_streamExport { input with memories := memories.map StoredMemory.memory } proper]
    simp [hasRawBreak, Function.comp_def]

/-- A body that holds a line separator is a row of the archive. -/
def separatorRow : JsonObject PyFloat.finite where
  members := [("body", .str "a\u2028b")]
  proper := by simp [Json.Proper, Json.ProperMembers]

theorem archive_splits_at_separator :
    ¬ ∀ (round : FloatText → PyFloat) (tar : Tar) (name : Str) (rows : List (JsonObject round)),
      readJsonl round (addJsonl tar name (rows.map JsonObject.members)) name =
        some (rows.map fun row => .obj row.members) := by
  intro roundTrip
  have read := roundTrip .finite [] "memories.jsonl" [separatorRow]
  rw [readJsonl_addJsonl [] "memories.jsonl" _ (by
    intro row present
    rw [List.map_singleton, List.mem_singleton] at present
    exact present ▸ separatorRow.proper)] at read
  have broken : hasRawBreak separatorRow.members = true := by decide
  simp only [hasRawBreak] at broken
  simp [broken] at read

end Kortex

namespace Kortex

/-! A UUID is told from its text. -/

namespace Uuid

theorem isPlain_hexDigit (n : Nat) : Json.isPlain (Json.hexDigit n) = true := by
  have all : ∀ d, d < 16 → Json.isPlain (Nat.digitChar d) = true := by decide
  exact all (n % 16) (Nat.mod_lt _ (by omega))

theorem hexDigit_ne_dash (n : Nat) : Json.hexDigit n ≠ '-' := by
  have all : ∀ d, d < 16 → Nat.digitChar d ≠ '-' := by decide
  exact all (n % 16) (Nat.mod_lt _ (by omega))

/-- Numbers with the same hexadecimal digits are equal. -/
theorem eq_of_digits (k : Nat) (n m : Nat) (small : n < 16 ^ k) (small' : m < 16 ^ k)
    (digits : ∀ j < k, n / 16 ^ j % 16 = m / 16 ^ j % 16) : n = m := by
  induction k generalizing n m with
  | zero => omega
  | succ k ih =>
      have last := digits 0 (by omega)
      have front : n / 16 = m / 16 := by
        apply ih
        · rw [pow_succ] at small
          omega
        · rw [pow_succ] at small'
          omega
        · intro j below
          have next := digits (j + 1) (by omega)
          rwa [pow_succ', ← Nat.div_div_eq_div_mul, ← Nat.div_div_eq_div_mul] at next
      simp only [pow_zero, Nat.div_one] at last
      omega

theorem hex_injective : Function.Injective hex := by
  intro u v same
  have small (w : Uuid) : w.toNat < 16 ^ 32 := w.isLt
  apply BitVec.eq_of_toNat_eq
  apply eq_of_digits 32 _ _ (small u) (small v)
  intro j below
  have digit := List.map_inj_left.mp same (31 - j) (List.mem_range.mpr (by omega))
  have values := congrArg Json.hexValue digit
  rw [Json.hexValue_hexDigit, Json.hexValue_hexDigit, Nat.sub_sub_self (by omega)] at values
  exact Option.some.inj values

theorem mem_hex (u : Uuid) (c : Char) (present : c ∈ u.hex) : Json.isPlain c = true ∧ c ≠ '-' := by
  obtain ⟨i, _, rfl⟩ := List.mem_map.mp present
  exact ⟨isPlain_hexDigit _, hexDigit_ne_dash _⟩

theorem str_eq (u : Uuid) : u.str = u.hex.take 8 ++ '-' :: ((u.hex.drop 8).take 4 ++ '-' ::
    ((u.hex.drop 12).take 4 ++ '-' :: ((u.hex.drop 16).take 4 ++ '-' :: u.hex.drop 20))) := by
  simp [str, Str.join, List.intercalate]

/-- The digits of the text are those of the UUID. -/
theorem filter_str (u : Uuid) : (u.str.filter fun c => c != '-') = u.hex := by
  have kept (part : Str) (inside : part ⊆ u.hex) : (part.filter fun c => c != '-') = part := by
    rw [List.filter_eq_self]
    intro c present
    simpa using (mem_hex u c (inside present)).2
  rw [str_eq]
  simp only [List.filter_append, List.filter_cons, bne_self_eq_false, Bool.false_eq_true, if_false]
  have keptPart (k n : Nat) := kept ((u.hex.drop k).take n) fun c present =>
    List.mem_of_mem_drop (List.mem_of_mem_take present)
  rw [kept _ (List.take_subset _ _), kept _ (List.drop_subset _ _), keptPart 8, keptPart 12, keptPart 16]
  have rejoin (k n : Nat) : (u.hex.drop k).take n ++ u.hex.drop (k + n) = u.hex.drop k := by
    rw [← List.drop_drop, List.take_append_drop]
  rw [rejoin 16 4, rejoin 12 4, rejoin 8 4, List.take_append_drop]

theorem str_injective : Function.Injective str := by
  intro u v same
  apply hex_injective
  rw [← filter_str u, same, filter_str v]

theorem isPlain_str (u : Uuid) : u.str.all Json.isPlain = true := by
  rw [List.all_eq_true]
  intro c present
  by_cases dash : c = '-'
  · rw [dash]
    decide
  · have kept : c ∈ u.str.filter fun c => c != '-' := List.mem_filter.mpr ⟨present, by simpa using dash⟩
    rw [filter_str] at kept
    exact (mem_hex u c kept).1

end Uuid

/-! The importer reads the members that the export wrote. -/

namespace ExportService

variable {round : FloatText → PyFloat}

/-- A member that an export wrote is read as the member that `_add_jsonl` makes of its rows. -/
theorem readJsonl_of_getmember (tar : Tar) (name : Str) (rows : List JsonDict)
    (member : tar.getmember name = (addJsonl [] name rows).getmember name)
    (proper : ∀ row ∈ rows, Json.Proper round (.obj row)) :
    readJsonl round tar name = if rows.all (fun row => !hasRawBreak row) then some (rows.map .obj)
      else none := by
  have read := readJsonl_addJsonl [] name rows proper
  rw [readJsonl, member]
  rwa [readJsonl] at read

/-- These are the link rows of an archive. -/
def linkRows (input : ExportInput) : List JsonDict :=
  input.links.filterMap (linkRow (Dict.ofPairs (input.memories.map fun m => (m.id, m.publicId.str))))

theorem getmember_links (input : ExportInput) : (streamExport input).getmember "memory_links.jsonl" =
    (addJsonl [] "memory_links.jsonl" (linkRows input)).getmember "memory_links.jsonl" := by
  have attachments : "attachments.jsonl".toList ≠ "memory_links.jsonl".toList := by decide
  have chunks : "attachment_chunks.jsonl".toList ≠ "memory_links.jsonl".toList := by decide
  have manifest : "manifest.json".toList ≠ "memory_links.jsonl".toList := by decide
  simp only [streamExport]
  rw [addJsonl, getmember_addBytes_of_ne _ _ _ _ manifest, addJsonl,
    getmember_addBytes_of_ne _ _ _ _ chunks, addJsonl,
    getmember_addBytes_of_ne _ _ _ _ attachments, getmember_foldl_blobs _ _ _ (by decide), addJsonl,
    getmember_addBytes, addJsonl, getmember_addBytes]
  rfl

theorem getmember_attachments (input : ExportInput) :
    (streamExport input).getmember "attachments.jsonl" =
      (addJsonl [] "attachments.jsonl" (input.attachments.map attachmentRow)).getmember
        "attachments.jsonl" := by
  have chunks : "attachment_chunks.jsonl".toList ≠ "attachments.jsonl".toList := by decide
  have manifest : "manifest.json".toList ≠ "attachments.jsonl".toList := by decide
  simp only [streamExport]
  rw [addJsonl, getmember_addBytes_of_ne _ _ _ _ manifest, addJsonl,
    getmember_addBytes_of_ne _ _ _ _ chunks, addJsonl, getmember_addBytes, addJsonl,
    getmember_addBytes]

/-- This is the row of a link between two memories of the archive. -/
def linkMembers (link : MemoryLink) (source target : Memory) : JsonDict :=
  [("from_public_id", .str source.publicId.str), ("to_public_id", .str target.publicId.str),
    ("link_type", .str link.linkType.value), ("weight", .float link.weight)]

section

variable {A : Type} (memory : A → Memory)

/-- These are the links whose ends are both among the memories, with their ends. -/
def linksAmong (items : List A) (links : List MemoryLink) : List (MemoryLink × A × A) :=
  links.filterMap fun link => do
    let source ← items.find? fun a => decide ((memory a).id = link.fromMemoryId)
    let target ← items.find? fun a => decide ((memory a).id = link.toMemoryId)
    return (link, source, target)

theorem linkRow_eq (items : List A) (distinct : (items.map fun a => (memory a).id).Nodup)
    (link : MemoryLink) :
    linkRow (Dict.ofPairs ((items.map memory).map fun m => (m.id, m.publicId.str))) link = (do
      let source ← items.find? fun a => decide ((memory a).id = link.fromMemoryId)
      let target ← items.find? fun a => decide ((memory a).id = link.toMemoryId)
      return linkMembers link (memory source) (memory target)) := by
  rw [List.map_map, Function.comp_def, Dict.ofPairs_of_nodup _ (by rwa [List.map_map]), linkRow,
    Dict.get?_pairs, Dict.get?_pairs]
  cases items.find? fun a => decide ((memory a).id = link.fromMemoryId) with
  | none => rfl
  | some source =>
      cases items.find? fun a => decide ((memory a).id = link.toMemoryId) <;> rfl

/-- A link with both ends in the archive is among those that the query finds. -/
theorem linkRows_eq (input : ExportInput) (db : Database) (items : List A)
    (exported : input.memories = items.map memory)
    (distinct : (items.map fun a => (memory a).id).Nodup)
    (links : input.links = touchingLinks db (input.memories.map Memory.id)) :
    linkRows input = (linksAmong memory items db.links).map fun entry =>
      linkMembers entry.1 (memory entry.2.1) (memory entry.2.2) := by
  rw [linkRows, links, exported, touchingLinks, linksAmong, List.map_filterMap, List.filterMap_filter]
  apply List.filterMap_congr
  intro link _
  rw [linkRow_eq memory items distinct]
  cases source : items.find? fun a => decide ((memory a).id = link.fromMemoryId) with
  | none => split <;> rfl
  | some a =>
      have inside : ((items.map memory).map Memory.id).contains link.fromMemoryId = true := by
        rw [List.contains_iff_mem, List.map_map]
        have same := List.find?_some source
        exact List.mem_map.mpr ⟨a, List.mem_of_find?_eq_some source, by simpa using same⟩
      rw [inside, Bool.true_or, if_pos rfl]
      cases items.find? fun a => decide ((memory a).id = link.toMemoryId) <;> rfl

theorem mem_linksAmong (items : List A) (links : List MemoryLink)
    (distinct : (items.map fun a => (memory a).id).Nodup) (link : MemoryLink) (source target : A) :
    (link, source, target) ∈ linksAmong memory items links ↔ link ∈ links ∧
      (source ∈ items ∧ (memory source).id = link.fromMemoryId) ∧
        target ∈ items ∧ (memory target).id = link.toMemoryId := by
  simp only [linksAmong, List.mem_filterMap, bind, Option.bind_eq_some_iff, find?_key _ items distinct]
  constructor
  · rintro ⟨link', stored, source', first, target', second, same⟩
    obtain ⟨rfl, rfl, rfl⟩ := by simpa using Option.some.inj same
    exact ⟨stored, first, second⟩
  · rintro ⟨stored, first, second⟩
    exact ⟨link, stored, source, first, target, second, rfl⟩

/-- The links with both ends are some of the links, in their order. -/
theorem linksAmong_sublist (items : List A) (links : List MemoryLink) :
    ((linksAmong memory items links).map Prod.fst).Sublist links := by
  induction links with
  | nil => exact List.Sublist.refl _
  | cons link rest ih =>
      rw [linksAmong, List.filterMap_cons]
      split
      · exact ih.cons link
      · rename_i entry made
        have same : entry.1 = link := by
          simp only [bind, Option.bind_eq_some_iff] at made
          obtain ⟨_, _, _, _, same⟩ := made
          rw [← Option.some.inj same]
        rw [List.map_cons, same]
        exact ih.cons_cons link

end

theorem hasRawBreak_linkMembers (link : MemoryLink) (source target : Memory) :
    hasRawBreak (linkMembers link source target) = false := by
  have plain (u : Uuid) : u.str.any Json.isRawBreak = false := by
    rw [List.any_eq_false]
    intro c present
    have printable := List.all_eq_true.mp (Uuid.isPlain_str u) c present
    simp only [Json.isPlain, Bool.and_eq_true, decide_eq_true_eq] at printable
    simp only [Json.isRawBreak, Bool.or_eq_true, beq_iff_eq]
    omega
  have typed : link.linkType.value.any Json.isRawBreak = false := by
    cases link.linkType <;> decide
  simp only [hasRawBreak, linkMembers, Json.anyChar, Json.anyCharMembers, plain, typed]
  decide

/-- The rows of an attachment are JSON objects when its metadata is. -/
theorem proper_attachmentRow (a : ExportedAttachment) (metadata : Json.Proper round (.obj a.metadata)) :
    Json.Proper round (.obj (attachmentRow a)) := by
  have optional (text : Option Str) : Json.Proper round (optionalStr text) := by
    cases text <;> simp [optionalStr, Json.Proper]
  have distinct : ((attachmentRow a).map Prod.fst).Nodup := by
    simp only [attachmentRow, List.map_cons, List.map_nil]
    decide
  rw [Json.Proper]
  refine ⟨distinct, ?_⟩
  simp only [attachmentRow, Json.ProperMembers, and_true]
  refine ⟨?_, ?_, optional a.mime, ?_, optional a.sha256, ?_, ?_, metadata⟩ <;> simp [Json.Proper]

theorem proper_linkMembers (link : MemoryLink) (source target : Memory)
    (weight : Json.Proper round (.float link.weight)) :
    Json.Proper round (.obj (linkMembers link source target)) := by
  rw [Json.Proper]
  refine ⟨?_, ?_⟩
  · simp only [linkMembers, List.map_cons, List.map_nil]
    decide
  · simp only [linkMembers, Json.ProperMembers, and_true]
    refine ⟨?_, ?_, ?_, weight⟩ <;> simp [Json.Proper]

/-- The rows of the archive for some memories. -/
def rowsOf (memories : List Memory) : List Json := memories.map fun m => .obj (memoryRow m)

/-- No string of the exported memories and attachments has a raw break. -/
def Unbroken (input : ExportInput) : Prop :=
  (∀ m ∈ input.memories, hasRawBreak (memoryRow m) = false) ∧
    ∀ a ∈ input.attachments, hasRawBreak (attachmentRow a) = false

variable {env : Environment} {p : Principal} {target : ScopeFilter} {ctx : Nat → CallContext}
variable {db : Database}

/-- The importer reads the rows of the archive when no string has a raw break, and raises otherwise. -/
theorem importFromTar_streamExport (input : ExportInput)
    (memories : ∀ m ∈ input.memories, Json.Proper round (.obj (memoryRow m)))
    (attachments : ∀ a ∈ input.attachments, Json.Proper round (.obj a.metadata))
    (links : ∀ row ∈ linkRows input, Json.Proper round (.obj row) ∧ hasRawBreak row = false)
    (result : Imported × Session) :
    importFromTar env p target ctx round db (streamExport input) = .ok result ↔ Unbroken input ∧
      ∃ oldToNew s made s', importMemories env p target ctx 0 (rowsOf input.memories) [] ⟨db, {}⟩ =
          .ok (oldToNew, s) ∧
        importLinks p ctx oldToNew input.memories.length ((linkRows input).map .obj) s = .ok (made, s') ∧
        result = (⟨input.memories.length, made, oldToNew⟩, s') := by
  have memoryRows : readJsonl round (streamExport input) "memories.jsonl" = _ :=
    readJsonl_of_getmember _ _ (input.memories.map memoryRow) (getmember_streamExport input)
      (by simpa using memories)
  have linkLines : readJsonl round (streamExport input) "memory_links.jsonl" = _ :=
    readJsonl_of_getmember _ _ _ (getmember_links input) fun row inside => (links row inside).1
  have attachmentRows : readJsonl round (streamExport input) "attachments.jsonl" = _ :=
    readJsonl_of_getmember _ _ (input.attachments.map attachmentRow) (getmember_attachments input) (by
      intro row inside
      obtain ⟨a, present, rfl⟩ := List.mem_map.mp inside
      exact proper_attachmentRow a (attachments a present))
  rw [if_pos (by
    rw [List.all_eq_true]
    intro row inside
    rw [(links row inside).2]
    rfl)] at linkLines
  have reads : (input.memories.map memoryRow).map Value.obj = rowsOf input.memories := by
    rw [rowsOf, List.map_map]
    rfl
  rw [importFromTar, memoryRows, linkLines, attachmentRows, reads]
  simp only [List.all_map, List.all_eq_true, Function.comp_apply, Bool.not_eq_true']
  by_cases first : ∀ m ∈ input.memories, hasRawBreak (memoryRow m) = false
  · by_cases second : ∀ a ∈ input.attachments, hasRawBreak (attachmentRow a) = false
    · rw [if_pos first, if_pos second]
      simp only [bind_eq_ok, rowsOf, List.length_map]
      constructor
      · rintro ⟨⟨oldToNew, s⟩, copied, ⟨made, s'⟩, linked, same⟩
        exact ⟨⟨first, second⟩, oldToNew, s, made, s', copied, linked, (Except.ok.inj same).symm⟩
      · rintro ⟨_, oldToNew, s, made, s', copied, linked, rfl⟩
        exact ⟨(oldToNew, s), copied, (made, s'), linked, rfl⟩
    · rw [if_pos first, if_neg second]
      exact iff_of_false (by simp) fun done => second done.1.2
  · rw [if_neg first]
    exact iff_of_false (by simp) fun done => first done.1.1

end ExportService
end Kortex
