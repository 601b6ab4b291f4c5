import Kortex.Library.Lines
import Kortex.Model.Import
import Kortex.Model.JudgeOutput

/-
This file models `importers.py`, which reads the exports of other memory stores, and how the command `import`
sends its records to the API.
-/

namespace Kortex.Importers

/-- This is `SourceMemory`. -/
structure SourceMemory where
  body : Str
  title : Str := []
  kind : Str := "fact"
  sourceId : Str := []
  metadata : JsonDict := []

def maxTitle : Nat := 200

/-- These are the values that are objects. -/
def objects (values : List Json) : List JsonDict :=
  values.filterMap fun
    | .obj members => some members
    | _ => none

/-- This is `_records`, where an error is the text of an `UnreadableExportError`. -/
def records (doc : Json) (keys : List Str) : Except Str (List JsonDict) :=
  match doc with
  | .arr items => .ok (objects items)
  | .obj members =>
      let found := keys.findSome? fun key =>
        match Dict.get? members key with
        | some (.arr items) => some (objects items)
        | some (.obj byId) => some (objects (byId.map Prod.snd))
        | _ => none
      found.elim
        (.error ("found none of ".toList ++ Str.join ", " keys ++
          (" in the file, and it is not a bare array. " ++
            "Check --from matches the tool that produced it.").toList))
        .ok
  | _ => .error "expected a JSON object or array at the top level"

/-- This is `_first`. -/
def first (record : JsonDict) (names : List Str) : Str :=
  (names.findSome? fun name =>
    match Dict.get? record name with
    | some (.str s) => if Str.strip s = [] then none else some (Str.strip s)
    | _ => none).getD []

/-- This is `a or b` of two texts. -/
def orElse (a b : Str) : Str := if a = [] then b else a

/-- This is `s.rsplit(" ", 1)[0]`. -/
def beforeLastSpace (s : Str) : Str :=
  match s.reverse.dropWhile (· ≠ ' ') with
  | [] => s
  | _ :: front => front.reverse

/-- This is `_title_from`. -/
def titleFrom (body : Str) : Str :=
  let head := Str.strip ((Str.strip body).takeWhile (· ≠ '\n'))
  if maxTitle < head.length then beforeLastSpace (head.take (maxTitle - 1)) ++ ['…'] else head

/-- These are the values that are `in (None, "", [], {})`. -/
def blank : Json → Bool
  | .null => true
  | .str s => s.isEmpty
  | .arr items => items.isEmpty
  | .obj members => members.isEmpty
  | _ => false

/-- This is `_leftovers`. -/
def leftovers (record : JsonDict) (consumed : List Str) : JsonDict :=
  record.filter fun field => !consumed.contains field.1 && !blank field.2

/-- This is `_stamp`. -/
def stamp (source : Str) (record : JsonDict) (consumed : List Str) : JsonDict :=
  let extra := leftovers record consumed
  ("imported_from".toList, .str source) :: if extra = [] then [] else [(source, .obj extra)]

/-- This is what a parser makes of one kind of record. -/
structure Format where
  source : Str
  bodyNames : List Str
  title : JsonDict → Str → Str := fun _ body => titleFrom body
  kind : JsonDict → Str := fun _ => "fact"
  idNames : List Str
  consumed : List Str
  /-- These are the fields of the metadata beside the stamp. -/
  extra : JsonDict → JsonDict := fun _ => []

/-- This is one round of the loop of a parser, which skips a record without a text. -/
def memoryOf (f : Format) (record : JsonDict) : Option SourceMemory :=
  let body := first record f.bodyNames
  if body = [] then none
  else
    some
      { body
        title := f.title record body
        kind := f.kind record
        sourceId := first record f.idNames
        metadata := Dict.merge (stamp f.source record f.consumed) (f.extra record) }

def mem0 : Format where
  source := "mem0"
  bodyNames := ["memory", "text", "content", "data"]
  idNames := ["id", "memory_id", "hash"]
  consumed := ["memory", "text", "content", "data", "id", "memory_id"]

/-- This is `parse_mem0`. -/
def parseMem0 (doc : Json) : Except Str (List SourceMemory) := do
  let found ← records doc ["results", "memories", "data"]
  return found.filterMap (memoryOf mem0)

def zep : Format where
  source := "zep"
  bodyNames := ["fact", "content", "summary", "name"]
  title record body := orElse (first record ["name"]) (titleFrom body)
  idNames := ["uuid", "uuid_", "id", "edge_uuid"]
  consumed := ["fact", "content", "summary", "uuid", "uuid_", "id"]

/-- Zep has already decided that the fact is superseded. -/
def invalidated (record : JsonDict) : Bool :=
  (Dict.get? record "invalid_at").any ConflictJudge.truthy ||
    (Dict.get? record "expired_at").any ConflictJudge.truthy

/-- This is `parse_zep`. -/
def parseZep (doc : Json) : Except Str (List SourceMemory) := do
  let found ← records doc ["facts", "edges", "relevant_facts", "results", "memories"]
  return (found.filter fun record => !invalidated record).filterMap (memoryOf zep)

/-- This is the `label` of a core memory block. -/
def blockLabel (block : JsonDict) : Str := orElse (first block ["label", "name"]) "block"

def lettaBlock : Format where
  source := "letta"
  bodyNames := ["value", "text", "content"]
  title block _ := "letta:".toList ++ blockLabel block
  kind block :=
    if blockLabel block = "persona".toList ∨ blockLabel block = "human".toList then "preference" else "fact"
  idNames := ["id", "block_id"]
  consumed := ["value", "text", "content", "id", "block_id"]
  extra block := [("letta_block".toList, .str (blockLabel block)), ("pinned_hint".toList, .bool true)]

def lettaPassage : Format where
  source := "letta"
  bodyNames := ["text", "content", "value"]
  idNames := ["id", "passage_id"]
  consumed := ["text", "content", "value", "id"]

/-- The older shape of the blocks is an object with the texts under their labels. -/
def labelledBlocks (members : JsonDict) : List JsonDict :=
  members.filterMap fun
    | (label, .str text) => some [("label".toList, .str label), ("value".toList, .str text)]
    | _ => none

mutual
/-- This is `_letta_blocks`. -/
def lettaBlocks : Json → List JsonDict
  | .obj members =>
      let own := ["blocks".toList, "core_memory".toList, "memory_blocks".toList].findSome? fun key =>
        match Dict.get? members key with
        | some (.arr items) => some (objects items)
        | some (.obj labels) => some (labelledBlocks labels)
        | _ => none
      own.getD (blocksOfAgents members)
  | _ => []

/-- These are the blocks below the key `agents`. -/
def blocksOfAgents : JsonDict → List JsonDict
  | [] => []
  | (key, .arr agents) :: rest =>
      if key = "agents".toList then blocksOfEach agents else blocksOfAgents rest
  | (key, _) :: rest => if key = "agents".toList then [] else blocksOfAgents rest

def blocksOfEach : List Json → List JsonDict
  | [] => []
  | .obj agent :: rest => lettaBlocks (.obj agent) ++ blocksOfEach rest
  | _ :: rest => blocksOfEach rest
end

mutual
/-- This is `_letta_passages`. -/
def lettaPassages : Json → List JsonDict
  | .arr items => objects items
  | .obj members =>
      let keys := ["archival_passages".toList, "archival_memory".toList, "passages".toList]
      let own := keys.findSome? fun key =>
        match Dict.get? members key with
        | some (.arr items) => some (objects items)
        | _ => none
      own.getD (passagesOfAgents members)
  | _ => []

/-- These are the passages below the key `agents`. -/
def passagesOfAgents : JsonDict → List JsonDict
  | [] => []
  | (key, .arr agents) :: rest =>
      if key = "agents".toList then passagesOfEach agents else passagesOfAgents rest
  | (key, _) :: rest => if key = "agents".toList then [] else passagesOfAgents rest

def passagesOfEach : List Json → List JsonDict
  | [] => []
  | .obj agent :: rest => lettaPassages (.obj agent) ++ passagesOfEach rest
  | _ :: rest => passagesOfEach rest
end

/-- This is `parse_letta`. -/
def parseLetta (doc : Json) : Except Str (List SourceMemory) :=
  let out := (lettaBlocks doc).filterMap (memoryOf lettaBlock) ++
    (lettaPassages doc).filterMap (memoryOf lettaPassage)
  if out = [] then
    .error ("no core memory blocks or archival passages found. A Letta agent file " ++
      "keeps them under 'blocks'/'core_memory' and 'archival_passages'.").toList
  else .ok out

def json : Format where
  source := "json"
  bodyNames := ["body", "text", "content", "memory", "value"]
  title record body := orElse (first record ["title", "name"]) (titleFrom body)
  kind record := orElse (first record ["kind", "type"]) "fact"
  idNames := ["id", "public_id", "uuid"]
  consumed := ["body", "text", "content", "memory", "value", "title", "name", "kind", "id"]

/-- This is `parse_json`. -/
def parseJson (doc : Json) : Except Str (List SourceMemory) := do
  let found ← records doc ["memories", "results", "items", "data", "records"]
  let out := found.filterMap (memoryOf json)
  if out = [] then .error "no records with a text field (body/text/content/memory) were found"
  else return out

inductive Source where
  | mem0
  | zep
  | letta
  | json

/-- This is `PARSERS`. -/
def parse : Source → Json → Except Str (List SourceMemory)
  | .mem0 => parseMem0
  | .zep => parseZep
  | .letta => parseLetta
  | .json => parseJson

/-- This is `PARSERS` with the names of the sources. -/
def parsers : Dict Str Source :=
  [("mem0".toList, .mem0), ("zep".toList, .zep), ("letta".toList, .letta), ("json".toList, .json)]

/-- This is what the reading of a file takes from Python. -/
structure Reader where
  /-- This is the conversion of a float literal. -/
  round : FloatText → PyFloat
  /-- This is the text of the `JSONDecodeError` for a text. -/
  decodeError : Str → Str
  /-- This is `repr` of a string. -/
  repr : Str → Str

variable (reader : Reader)

/-- This is the loop of `_load_jsonl`, with the number of the line. -/
def loadLines : Nat → List Str → Except Str (List Json)
  | _, [] => .ok []
  | number, line :: rest =>
      if Str.strip line = [] then loadLines (number + 1) rest
      else match Json.loads reader.round (Str.strip line) with
        | none => .error ("line ".toList ++ Str.ofNat number ++
            " is neither valid JSON nor part of a JSON file: " ++ reader.decodeError (Str.strip line))
        | some row => do
            let rows ← loadLines (number + 1) rest
            return row :: rows

/-- This is `_load_jsonl`. -/
def loadJsonl (raw : Str) : Except Str (List Json) := do
  let rows ← loadLines reader 1 (Str.splitlines raw)
  if rows.isEmpty then .error "the file is empty, or is not JSON or JSONL" else return rows

/-- This is `parse_file`: JSON is tried first. -/
def parseFile (source raw : Str) : Except Str (List SourceMemory) :=
  match Dict.get? parsers source with
  | none =>
      .error ("unknown source ".toList ++ reader.repr source ++ "; expected one of " ++
        Str.join ", " (parsers.map Prod.fst))
  | some parser =>
      match Json.loads reader.round raw with
      | some doc => parse parser doc
      | none => do
          let rows ← loadJsonl reader raw
          parse parser (.arr rows)

end Kortex.Importers

namespace Kortex.CliImport

open Importers (SourceMemory)

/-- These are the settings of a run of the command. -/
structure Options where
  scope : ScopeFilter
  sensitivity : Sensitivity := .internal
  limit : Nat := 0

/-- A limit of zero means all records. -/
def chosen (o : Options) (records : List SourceMemory) : List SourceMemory :=
  if 0 < o.limit then records.take o.limit else records

/-- This is the body of the request for a record, and `none` when the schema of the API refuses it. -/
def payloadOf (o : Options) (record : SourceMemory) : Option CreateMemoryInput := do
  let kind ← MemoryKind.ofValue? record.kind
  let importer := (Dict.get? record.metadata "imported_from").getD (.str "json")
  let sourceId := if record.sourceId = [] then [] else [("source_id".toList, Value.str record.sourceId)]
  if 1 ≤ record.body.length ∧ record.body.length ≤ 100000 ∧ record.title.length ≤ 1000 then
    some
      { scope := o.scope, body := record.body, title := record.title, kind := kind
        sensitivity := o.sensitivity, sourceType := .derived
        sourceRef := some (Dict.merge [("importer", importer)] sourceId)
        metadata := some record.metadata }
  else none

/-- A request is answered by the endpoint, or before it with an error; or its connection breaks, which ends
the command, before or after the endpoint has done its work. -/
inductive Fate where
  | answered
  | refused
  | broken (arrived : Bool)

/-- These are the counters of `_write`. -/
structure Report where
  written : Nat := 0
  deduped : Nat := 0
  failed : Nat := 0
deriving DecidableEq

/-- This is what the requests of a run meet: their contexts and their fates, which are numbered. -/
structure Line where
  context : Nat → CallContext
  fate : Nat → Fate := fun _ => .answered

section

variable (env : Environment) (p : Principal) (o : Options)

/-- This is `POST /v1/memories`, which commits a success; all else answers with an error status. -/
def post (context : CallContext) (record : SourceMemory) (db : Database) : Option MemoryWrite × Database :=
  match payloadOf o record with
  | none => (none, db)
  | some payload =>
      match MemoryService.write env p context ⟨db, {}⟩ payload false false with
      | .error _ => (none, db)
      | .ok (result, s) => (some result, s.db)

def Report.count (report : Report) : Option MemoryWrite → Report
  | none => { report with failed := report.failed + 1 }
  | some result =>
      if result.deduped then { report with deduped := report.deduped + 1 }
      else { report with written := report.written + 1 }

/-- This is `_write`, where a broken connection leaves no report. -/
def writeRecords (line : Line) : Nat → List SourceMemory → Report → Database → Option Report × Database
  | _, [], report, db => (some report, db)
  | i, record :: rest, report, db =>
      match line.fate i with
      | .answered =>
          let (result, db) := post env p o (line.context i) record db
          writeRecords line (i + 1) rest (report.count result) db
      | .refused => writeRecords line (i + 1) rest (report.count none) db
      | .broken arrived => (none, if arrived then (post env p o (line.context i) record db).2 else db)

/-- This is the part of the command behind the parser. -/
def importRecords (line : Line) (records : List SourceMemory) (db : Database) : Option Report × Database :=
  writeRecords env p o line 0 (chosen o records) {} db

end

end Kortex.CliImport
