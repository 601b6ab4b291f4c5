import Kortex.Model.AttachmentRequests
import Kortex.Model.Import

/-
This file models the attachments of an archive: those that `stream_export` reads, and the last loop of
`import_from_tar`.
-/

namespace Kortex

def AttachmentStatus.value : AttachmentStatus → Str
  | .pending => "pending"
  | .processing => "processing"
  | .ready => "ready"
  | .failed => "failed"

namespace ExportService

/-- These are the chunks of an attachment in the order of their indices. -/
def chunksInOrder (s : AttachmentSystem) (a : Attachment) : List (Nat × Str) :=
  ((s.store.chunks.filter fun c => c.attachmentId == a.id).map fun c =>
    (c.chunkIndex, c.content)).insertionSort fun c d => c.1 ≤ d.1

/-- An attachment whose blob cannot be read is exported with no bytes. -/
def exportedAttachment (s : AttachmentSystem) (storageError : Attachment → Option Str) (a : Attachment) :
    ExportedAttachment where
  publicId := a.publicId
  filename := a.filename
  mime := a.mime
  sizeBytes := a.sizeBytes.toNat
  sha256 := a.sha256
  sensitivity := (s.columnsOf a).sensitivity
  processingStatus := a.processingStatus.value
  metadata := (s.columnsOf a).metadata
  chunks := chunksInOrder s a
  blob :=
    match AttachmentSystem.getBytes s.blobs (storageError a) a.s3Bucket a.s3Key with
    | .ok body => ⟨body.toArray⟩
    | .error _ => ByteArray.empty

/-- These are the attachments that an export reads. -/
def exportedAttachments (p : Principal) (s : AttachmentSystem) (storageError : Attachment → Option Str)
    (scope : ScopeFilter) : List ExportedAttachment :=
  (AttachmentRepo.list_ p s (some scope) none 10000 0 none).map (exportedAttachment s storageError)

/-- This is what `head` of the blob store later says of a blob that was put: its type and its hash. -/
structure PutBlobs where
  contentType : Option Str → Option Str
  sha256 : List UInt8 → Option Str

/-- This is what the import of an attachment finds beside the tables; the blob store may fail to put. -/
structure AttachmentRun extends PresignRun where
  now : Instant
  puts : Bool := true

inductive AttachmentImportError where
  | badArchive
  | presign (error : PresignError)
  | storageError
  | finalize (error : FinalizeError)

/-- This is `tar.getmember` of a blob, which drops slashes at the end of the name, and `read`. -/
def blobOf (tar : Tar) (publicId filename : Str) : List UInt8 :=
  ((tar.getmember (Str.rstripChar '/' ("blobs/".toList ++ publicId ++ "/".toList ++ filename))).map
    fun body => body.data.toList).getD []

/-- This is a text that may be missing. -/
def readOptionalStr : Json → Option (Option Str)
  | .null => some none
  | .str s => some (some s)
  | _ => none

/-- The importer reads these members of a row, for values of the types that an export writes. The
first one is the public id in the archive. -/
def attachmentInput (target : ScopeFilter) (row : JsonDict) : Option (Str × PresignIn) :=
  match Dict.get? row "public_id", Dict.get? row "filename",
    (Dict.get? row "sensitivity").getD (.str "internal") with
  | some (.str publicId), some (.str filename), .str sensitivity => do
      let sensitivity ← Sensitivity.ofValue? sensitivity
      let mime ← readOptionalStr ((Dict.get? row "mime").getD .null)
      let metadata ← rowMetadata row
      return (publicId,
        { scopeType := target.scopeType, scopeId := target.scopeId, filename, mime, sensitivity
          metadata := Dict.set (metadata.getD []) "imported_from" (.str publicId) })
  | _, _, _ => none

section

variable (maxBytes : Nat) (store : PutBlobs) (p : Principal) (target : ScopeFilter) (tar : Tar)

/-- This is one round of the loop over the attachments, with the state that it leaves. -/
def importAttachment (run : AttachmentRun) (s : AttachmentSystem) :
    Json → Except AttachmentImportError Unit × AttachmentSystem
  | .obj row =>
      match attachmentInput target row with
      | none => (.error .badArchive, s)
      | some (publicId, input) =>
          let body := blobOf tar publicId input.filename
          match AttachmentService.presignUpload p s maxBytes run.toPresignRun
              { input with sizeHint := some body.length } with
          | .error e => (.error (.presign e), s)
          | .ok (a, s) =>
              if body = [] then (.ok (), s)
              else if !run.puts then (.error .storageError, s)
              else
                let s := s.put ⟨a.s3Bucket, a.s3Key, body, store.contentType input.mime, store.sha256 body⟩
                let (found, working, blobs) := AttachmentService.finalize p maxBytes run.now s.store s.blobs
                  a.publicId {}
                ((found.mapError .finalize).map fun _ => (), { s with store := working, blobs := blobs })
  | _ => (.error .badArchive, s)

/-- The rounds find their own runs, which are numbered. -/
def importAttachments (runs : Nat → AttachmentRun) :
    Nat → List Json → AttachmentSystem → Except AttachmentImportError Unit × AttachmentSystem
  | _, [], s => (.ok (), s)
  | i, row :: rest, s =>
      match importAttachment maxBytes store p target tar (runs i) s row with
      | (.error e, s) => (.error e, s)
      | (.ok (), s) => importAttachments runs (i + 1) rest s

/-- This is the request, which commits a success; the blobs that it has put stay in any case. -/
def importRequest (round : FloatText → PyFloat) (runs : Nat → AttachmentRun) (s : AttachmentSystem) :
    Except AttachmentImportError Unit × AttachmentSystem :=
  match readJsonl round tar "attachments.jsonl" with
  | none => (.error .badArchive, s)
  | some rows =>
      match importAttachments maxBytes store p target tar runs 0 rows s with
      | (.error e, working) => (.error e, { s with blobs := working.blobs, uploads := working.uploads })
      | (.ok (), working) => (.ok (), working)

end

end ExportService
end Kortex
