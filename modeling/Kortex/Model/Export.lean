import Kortex.Library.JsonLines
import Kortex.Model.Types

/-
This file models the archive of a scope: `ExportService.stream_export` and the reading half of
`import_from_tar`.
-/

namespace Kortex

/-- A tar archive is the list of its members. -/
abbrev Tar := List (Str × ByteArray)

/-- This is `str.encode()`. -/
def encodeUtf8 (s : Str) : ByteArray := (String.ofList s).toByteArray

/-- This is `bytes.decode("utf-8")`. -/
def decodeUtf8 (bytes : ByteArray) : Option Str := (String.fromUTF8? bytes).map String.toList

def addBytes (tar : Tar) (name : Str) (body : ByteArray) : Tar := tar ++ [(name, body)]

/-- This is `_add_jsonl`. -/
def addJsonl (tar : Tar) (name : Str) (rows : List JsonDict) : Tar :=
  addBytes tar name (encodeUtf8 (Str.join "\n"
    (rows.map fun r => Json.dumps { ensureAscii := false } (.obj r))))

/-- This is `tarfile.getmember`, which takes the last member of the name. -/
def Tar.getmember (tar : Tar) (name : Str) : Option ByteArray :=
  (tar.reverse.find? fun member => member.1 = name).map Prod.snd

/-- This is `_read_jsonl`; an exception is `none`. -/
def readJsonl (round : FloatText → PyFloat) (tar : Tar) (name : Str) : Option (List Json) :=
  match tar.getmember name with
  | none => some []
  | some member => (decodeUtf8 member).bind fun textData =>
      Json.readLines round (Str.splitlines textData)

def optionalStr (s : Option Str) : Json := s.elim .null .str

/-- The archive keeps these columns of a memory. -/
def memoryRow (m : Memory) : JsonDict :=
  [("public_id", .str m.publicId.str), ("scope_type", .str m.scopeType.value),
    ("scope_id", .int m.scopeId), ("title", .str m.title), ("body", .str m.body),
    ("kind", .str m.kind.value), ("sensitivity", .str m.sensitivity.value),
    ("tier", .str m.tier.value), ("importance", .float m.importance), ("pinned", .bool m.pinned),
    ("metadata", .obj m.metadata), ("source_type", .str m.sourceType.value),
    ("source_ref", m.sourceRef.elim .null .obj)]

/-- The archive keeps the links between exported memories. -/
def linkRow (memoryIdMap : Dict Nat Str) (link : MemoryLink) : Option JsonDict := do
  let source ← memoryIdMap.get? link.fromMemoryId
  let target ← memoryIdMap.get? link.toMemoryId
  return [("from_public_id", .str source), ("to_public_id", .str target),
    ("link_type", .str link.linkType.value), ("weight", .float link.weight)]

/-- An attachment is exported with its chunks and with the blob that the store returned. -/
structure ExportedAttachment where
  publicId : Uuid
  filename : Str
  mime : Option Str
  sizeBytes : Nat
  sha256 : Option Str
  sensitivity : Sensitivity
  processingStatus : Str
  metadata : JsonDict
  chunks : List (Nat × Str)
  blob : ByteArray

def attachmentRow (a : ExportedAttachment) : JsonDict :=
  [("public_id", .str a.publicId.str), ("filename", .str a.filename), ("mime", optionalStr a.mime),
    ("size_bytes", .int a.sizeBytes), ("sha256", optionalStr a.sha256),
    ("sensitivity", .str a.sensitivity.value), ("processing_status", .str a.processingStatus),
    ("metadata", .obj a.metadata)]

def chunkRow (a : ExportedAttachment) (chunk : Nat × Str) : JsonDict :=
  [("attachment_public_id", .str a.publicId.str), ("chunk_index", .int chunk.1),
    ("content", .str chunk.2)]

/-- The blob of an attachment has its own directory. -/
def blobPath (a : ExportedAttachment) : Str := "blobs/" ++ a.publicId.str ++ "/" ++ a.filename

/-- The queries of an export return these rows. -/
structure ExportInput where
  sourceOrgId : Nat
  scopeType : ScopeType
  scopeId : Nat
  memories : List Memory
  links : List MemoryLink
  attachments : List ExportedAttachment

def manifestRow (input : ExportInput) (links : List JsonDict) : JsonDict :=
  [("version", .int 1), ("source_org_id", .int input.sourceOrgId),
    ("source_scope_type", .str input.scopeType.value), ("source_scope_id", .int input.scopeId),
    ("counts", .obj [("memories", .int input.memories.length), ("memory_links", .int links.length),
      ("attachments", .int input.attachments.length),
      ("attachment_chunks", .int (input.attachments.flatMap ExportedAttachment.chunks).length)])]

/-- This is `stream_export`. -/
def streamExport (input : ExportInput) : Tar :=
  let memoryIdMap := Dict.ofPairs (input.memories.map fun m => (m.id, m.publicId.str))
  let links := input.links.filterMap (linkRow memoryIdMap)
  let tar := addJsonl [] "memories.jsonl" (input.memories.map memoryRow)
  let tar := addJsonl tar "memory_links.jsonl" links
  let tar := input.attachments.foldl (fun tar a => addBytes tar (blobPath a) a.blob) tar
  let tar := addJsonl tar "attachments.jsonl" (input.attachments.map attachmentRow)
  let tar := addJsonl tar "attachment_chunks.jsonl"
    (input.attachments.flatMap fun a => a.chunks.map (chunkRow a))
  addJsonl tar "manifest.json" [manifestRow input links]

/-- The importer passes `row["body"]` and `row.get("title", "")` to the memory service. -/
def importText : Json → Option (Json × Json)
  | .obj row => (Dict.get? row "body").map fun body =>
      ((Dict.get? row "title").getD (.str ""), body)
  | _ => none

/-- This is the loop of `import_from_tar` over the memories of the archive. -/
def importTexts (round : FloatText → PyFloat) (tar : Tar) : Option (List (Json × Json)) :=
  (readJsonl round tar "memories.jsonl").bind fun rows => rows.mapM importText

end Kortex
