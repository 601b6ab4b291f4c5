import Kortex.Model.Export
import Kortex.Model.MemoryLinks

/-
This file models the queries of `stream_export` and the memories and links of `import_from_tar`.
-/

namespace Kortex

/-- This is the member of an enumeration with the value, such as `MemoryKind(text)`. -/
def ofValue? {E : Type} (members : List E) (value : E → Str) (text : Str) : Option E :=
  members.find? fun e => value e == text

def MemoryKind.ofValue? : Str → Option MemoryKind :=
  Kortex.ofValue? [.fact, .preference, .decision, .procedure, .codeArtifact, .event, .summary]
    MemoryKind.value

def Sensitivity.ofValue? : Str → Option Sensitivity :=
  Kortex.ofValue? [.public, .internal, .confidential, .secret] Sensitivity.value

def MemoryLinkType.ofValue? : Str → Option MemoryLinkType :=
  Kortex.ofValue? [.related, .derivedFrom, .supersedes, .contradicts, .partOf] MemoryLinkType.value

namespace ExportService

/-- These are the memories that an export reads. -/
def exportedMemories (p : Principal) (db : Database) (scope : ScopeFilter) : List Memory :=
  MemoryRepo.list_ p db (some scope) none none 10000 0 none

/-- The query finds the links that leave one of the memories or lead to one. -/
def touchingLinks (db : Database) (memoryIds : List Nat) : List MemoryLink :=
  db.links.filter fun link =>
    memoryIds.contains link.fromMemoryId || memoryIds.contains link.toMemoryId

/-- These are the rows that `stream_export` reads, with the attachments of the scope. -/
def exportInput (p : Principal) (db : Database) (scope : ScopeFilter)
    (attachments : List ExportedAttachment) : ExportInput where
  sourceOrgId := p.orgId
  scopeType := scope.scopeType
  scopeId := scope.scopeId
  memories := exportedMemories p db scope
  links := touchingLinks db ((exportedMemories p db scope).map Memory.id)
  attachments := attachments

/-- The archive is not one that an export writes, or the memory service raises. -/
inductive ImportError where
  | badArchive
  | service (error : ServiceError)

/-- This is `row.get("metadata")`. -/
def rowMetadata (row : JsonDict) : Option (Option JsonDict) :=
  match Dict.get? row "metadata" with
  | none | some .null => some none
  | some (.obj metadata) => some (some metadata)
  | _ => none

/-- The importer reads these members of a row, for values of the types that an export writes. The
first one is the public id in the archive. -/
def rowInput (target : ScopeFilter) (row : JsonDict) : Option (Str × CreateMemoryInput) :=
  let get (key : Str) (default : Json) := (Dict.get? row key).getD default
  match Dict.get? row "public_id", Dict.get? row "body", get "title" (.str []),
    get "kind" (.str "fact"), get "sensitivity" (.str "internal"),
    get "importance" (.float zeroPointFive), get "pinned" (.bool false) with
  | some (.str publicId), some (.str body), .str title, .str kind, .str sensitivity,
    .float importance, .bool pinned => do
      let kind ← MemoryKind.ofValue? kind
      let sensitivity ← Sensitivity.ofValue? sensitivity
      let metadata ← rowMetadata row
      return (publicId,
        { scope := target, body := body, title := title, kind := kind, sensitivity := sensitivity
          sourceType := .derived, sourceRef := some [("imported_from", .str publicId)]
          importance := importance, pinned := pinned, metadata := metadata })
  | _, _, _, _, _, _, _ => none

section

variable (env : Environment) (p : Principal) (target : ScopeFilter) (ctx : Nat → CallContext)

/-- The map from the public ids of the archive to those of the copies. -/
abbrev OldToNew := Dict Str Uuid

/-- This is one round of the loop over the memories. The copy is written without force. -/
def importMemory (ctx : CallContext) (oldToNew : OldToNew) (s : Session) :
    Json → Except ImportError (OldToNew × Session)
  | .obj row =>
      match rowInput target row with
      | none => .error .badArchive
      | some (publicId, payload) =>
          match MemoryService.write env p ctx s payload false false with
          | .error error => .error (.service error)
          | .ok (written, s) => .ok (Dict.set oldToNew publicId written.memory.publicId, s)
  | _ => .error .badArchive

/-- The rounds have their own contexts, which are numbered. -/
def importMemories : Nat → List Json → OldToNew → Session → Except ImportError (OldToNew × Session)
  | _, [], oldToNew, s => .ok (oldToNew, s)
  | i, row :: rest, oldToNew, s => do
      let (oldToNew, s) ← importMemory env p target (ctx i) oldToNew s row
      importMemories (i + 1) rest oldToNew s

/-- This is one round of the loop over the links, which counts the links that it makes. A link whose
ends are not both in the archive is left out. -/
def importLink (ctx : CallContext) (oldToNew : OldToNew) (s : Session) :
    Json → Except ImportError (Nat × Session)
  | .obj row =>
      match Dict.get? row "from_public_id", Dict.get? row "to_public_id" with
      | some (.str oldFrom), some (.str oldTo) =>
          match Dict.get? oldToNew oldFrom, Dict.get? oldToNew oldTo with
          | some newFrom, some newTo =>
              match (Dict.get? row "link_type").getD (.str "related"),
                (Dict.get? row "weight").getD (.float onePointZero) with
              | .str linkType, .float weight =>
                  match MemoryLinkType.ofValue? linkType with
                  | none => .error .badArchive
                  | some linkType =>
                      match MemoryService.link p ctx s newFrom newTo linkType weight with
                      | .error error => .error (.service error)
                      | .ok (_, s) => .ok (1, s)
              | _, _ => .error .badArchive
          | _, _ => .ok (0, s)
      | _, _ => .error .badArchive
  | _ => .error .badArchive

def importLinks (oldToNew : OldToNew) : Nat → List Json → Session → Except ImportError (Nat × Session)
  | _, [], s => .ok (0, s)
  | i, row :: rest, s => do
      let (made, s) ← importLink p (ctx i) oldToNew s row
      let (others, s) ← importLinks oldToNew (i + 1) rest s
      return (made + others, s)

/-- What the importer has done before it turns to the attachments. -/
structure Imported where
  memories : Nat
  links : Nat
  oldToNew : OldToNew

/-- This is `import_from_tar` up to the attachments, whose rows are read at the start. -/
def importFromTar (round : FloatText → PyFloat) (db : Database) (tar : Tar) :
    Except ImportError (Imported × Session) :=
  match readJsonl round tar "memories.jsonl", readJsonl round tar "memory_links.jsonl",
    readJsonl round tar "attachments.jsonl" with
  | some memoryRows, some linkRows, some _ => do
      let (oldToNew, s) ← importMemories env p target ctx 0 memoryRows [] ⟨db, {}⟩
      let (links, s) ← importLinks p ctx oldToNew memoryRows.length linkRows s
      return (⟨memoryRows.length, links, oldToNew⟩, s)
  | _, _, _ => .error .badArchive

end

end ExportService
end Kortex
