import Kortex.Model.Chunker
import Kortex.Model.MemoryService

/-
This file models attachments: the finalize of an upload, and `_process_one` in the worker.
-/

namespace Kortex

inductive AttachmentStatus where
  | pending
  | processing
  | ready
  | failed
deriving DecidableEq

structure Attachment where
  id : Nat
  publicId : Uuid
  orgId : Nat
  scopeType : ScopeType
  scopeId : Nat
  filename : Str
  mime : Option Str
  sizeBytes : Int
  sha256 : Option Str
  s3Bucket : Str
  s3Key : Str
  processingStatus : AttachmentStatus
  processingError : Option Str
  processedAt : Option Instant
  deletedAt : Option Instant

/-- The id, the public id and the key of the blob are unique, and the ids increase. -/
abbrev AttachmentTable :=
  Table (fun a : Attachment => (a.id, a.publicId, a.s3Key)) fun a b =>
    a.1 < b.1 ∧ a.2.1 ≠ b.2.1 ∧ a.2.2 ≠ b.2.2

structure AttachmentChunk where
  orgId : Nat
  attachmentId : Nat
  chunkIndex : Nat
  content : Str
  embedding : Option (List PyFloat)
  embeddingModel : Option Str
  tsConfig : Str

/-- The tables of the attachments stand beside those of the memories. -/
structure AttachmentStore where
  db : Database := {}
  attachments : AttachmentTable := Table.empty
  chunks : List AttachmentChunk := []

/-- These are the exceptions that a run of the worker meets. -/
inductive WorkerError where
  | keyError
  | embeddingError
  | indexError
  | valueError
  | databaseError
  | other
deriving DecidableEq

namespace AttachmentRepo

variable (p : Principal) (s : AttachmentStore)

def getById (attachmentId : Nat) : Option Attachment :=
  (tenantQuery Attachment.orgId p s.attachments.rows).find? fun a =>
    a.id == attachmentId && a.deletedAt.isNone

def getByPublicId (publicId : Uuid) : Option Attachment :=
  (tenantQuery Attachment.orgId p s.attachments.rows).find? fun a =>
    a.publicId == publicId && a.deletedAt.isNone

/-- These are the arguments of `mark_status`. -/
structure Mark where
  status : AttachmentStatus
  error : Option Str := none
  sha256 : Option Str := none
  sizeBytes : Option Int := none
  mime : Option Str := none

/-- This is what `mark_status` makes of a row. -/
def marked (now : Instant) (mark : Mark) (a : Attachment) : Attachment :=
  { a with
    processingStatus := mark.status
    processedAt := if mark.status = .ready then some now else a.processedAt
    processingError :=
      if mark.status = .ready then none
      else if mark.status = .failed then mark.error else a.processingError
    sha256 := mark.sha256.or a.sha256
    sizeBytes := mark.sizeBytes.getD a.sizeBytes
    mime := mark.mime.or a.mime }

theorem marked_ident (now : Instant) (mark : Mark) (a : Attachment) :
    ((marked now mark a).id, (marked now mark a).publicId, (marked now mark a).s3Key) =
      (a.id, a.publicId, a.s3Key) := rfl

/-- The columns accept what `mark_status` writes. -/
def Mark.storable (mark : Mark) : Bool :=
  (decide (mark.status ≠ .failed) || mark.error.all PyValue.accepts) &&
    Audit.acceptsColumn 64 mark.sha256 && Audit.acceptsColumn 200 mark.mime

/-- This is `mark_status`. -/
def markStatus (now : Instant) (attachmentId : Nat) (mark : Mark) : Except WorkerError AttachmentStore :=
  if mark.storable then
    .ok { s with attachments := s.attachments.update (fun a => a.id == attachmentId) (marked now mark)
                   (marked_ident now mark) }
  else .error .databaseError

/-- This is `delete_for_attachment`. -/
def deleteForAttachment (attachmentId : Nat) : AttachmentStore :=
  { s with chunks := s.chunks.filter fun c => c.attachmentId != attachmentId }

/-- This is `embeddings[i] if embeddings else None`. -/
def vectorAt (embeddings : Option (List (List PyFloat))) (i : Nat) :
    Except WorkerError (Option (List PyFloat)) :=
  match embeddings with
  | none => .ok none
  | some vectors =>
      if vectors = [] then .ok none else (vectors[i]?).elim (.error .indexError) fun v => .ok (some v)

/-- This is the database as it takes vectors and text search configurations. -/
structure ChunkColumns where
  vector : List PyFloat → Bool
  supported : Str → Bool

def ChunkColumns.accepts (columns : ChunkColumns) (c : AttachmentChunk) : Bool :=
  PyValue.accepts c.content && c.embedding.all columns.vector &&
    Audit.acceptsColumn 128 c.embeddingModel && columns.supported c.tsConfig

/-- This is `insert_many`; the indices of new chunks never clash. -/
def insertMany (columns : ChunkColumns) (orgId attachmentId : Nat) (chunks : List (Nat × Str))
    (embeddings : Option (List (List PyFloat))) (model : Option Str) (tsConfig : Str) :
    Except WorkerError AttachmentStore := do
  let rows ← chunks.zipIdx.mapM fun chunk => do
    let embedding ← vectorAt embeddings chunk.2
    return (⟨orgId, attachmentId, chunk.1.1, chunk.1.2, embedding,
      if embedding.isSome then model else none, tsConfig⟩ : AttachmentChunk)
  if rows.all columns.accepts then return { s with chunks := s.chunks ++ rows }
  else .error .databaseError

end AttachmentRepo

/-- These are `str.lower`, the readers of PDF and DOCX, which may raise with a text, and the decoding of
UTF-8 that replaces what is malformed. -/
structure Extractors where
  lower : Str → Str
  pdf : List UInt8 → Except Str Str
  docx : List UInt8 → Except Str Str
  decode : List UInt8 → Str

/-- This is `extract_text`; the plain types and the fallback decode alike. -/
def extractText (x : Extractors) (body : List UInt8) (mime : Option Str) (filename : Str) :
    Except Str Str :=
  let mime := x.lower (mime.getD [])
  let name := x.lower filename
  if mime = "application/pdf".toList ∨ ".pdf".toList.isSuffixOf name then x.pdf body
  else if mime = "application/vnd.openxmlformats-officedocument.wordprocessingml.document".toList ∨
      ".docx".toList.isSuffixOf name then x.docx body
  else .ok (x.decode body)

structure Embedder where
  modelId : Str
  embed : List Str → Except WorkerError (List (List PyFloat))

/-- This is what a run of `_process_one` finds: the blob store, the settings, the embedder, the clock and
what the database takes. -/
structure ProcessRun where
  getBytes : Str → Str → Except Str (List UInt8)
  extractors : Extractors
  chunkTokens : Nat
  chunkOverlap : Nat
  getEmbedder : Except WorkerError Embedder
  now : Instant
  columns : AttachmentRepo.ChunkColumns

namespace AttachmentTask

/-- This is `_superuser`. -/
def superuser (orgId : Nat) : Principal :=
  { actorId := 0, actorKind := .system, orgId, isSuperuser := true }

/-- This is `config_for_scope`. -/
def configForScope (p : Principal) (db : Database) (scopeType : ScopeType) (scopeId : Nat) : Str :=
  if scopeType ≠ .project then MemoryService.defaultTsConfig
  else ((MemoryService.projectById p db scopeId).map Project.textSearchConfig).getD
    MemoryService.defaultTsConfig

variable (r : ProcessRun)

/-- This is the text of the attachment, or the text of the exception that is caught. -/
def textOf (a : Attachment) : Except Str Str := do
  let body ← r.getBytes a.s3Bucket a.s3Key
  extractText r.extractors body a.mime a.filename

/-- This is the list of the chunks of a text with a sentence; a step of zero is a `ValueError`. -/
def chunksOf (text : Str) : Except WorkerError (List (Nat × Str)) :=
  if r.chunkTokens = 0 then .error .valueError
  else .ok (Chunker.chunkText text r.chunkTokens r.chunkOverlap)

/-- This is `get_embedder` with its handler, and `embed` with its own: `none` stands for no vectors. -/
def vectorsOf (chunks : List (Nat × Str)) : Except WorkerError (Option (Str × List (List PyFloat))) :=
  match r.getEmbedder with
  | .error .keyError => .ok none
  | .error .embeddingError => .ok none
  | .error e => .error e
  | .ok embedder =>
      if chunks = [] then .ok none
      else match embedder.embed (chunks.map Prod.snd) with
        | .error .embeddingError => .ok none
        | .error e => .error e
        | .ok vectors => .ok (some (embedder.modelId, vectors))

/-- This is `_process_one` in its session. -/
def processOne (s : AttachmentStore) (attachmentId : Nat) : Except WorkerError (Str × AttachmentStore) :=
  match AttachmentRepo.getById (superuser 0) s attachmentId with
  | none => .ok ("missing", s)
  | some a =>
      match textOf r a with
      | .error e => do
          let s ← AttachmentRepo.markStatus s r.now attachmentId { status := .failed, error := some e }
          return ("failed", s)
      | .ok text =>
          if Str.strip text = [] then do
            let s ← AttachmentRepo.markStatus s r.now attachmentId
              { status := .failed, error := some "no extractable text" }
            return ("empty", s)
          else do
            let chunks ← chunksOf r text
            let s := AttachmentRepo.deleteForAttachment s attachmentId
            let tsConfig := configForScope (superuser a.orgId) s.db a.scopeType a.scopeId
            let vectors ← vectorsOf r chunks
            let s ← AttachmentRepo.insertMany s r.columns a.orgId attachmentId chunks
              (vectors.map Prod.snd) (vectors.map Prod.fst) tsConfig
            let s ← AttachmentRepo.markStatus s r.now attachmentId { status := .ready }
            return (if vectors.isSome then "ready" else "ready_no_embeddings", s)

/-- This is `session_scope`: an exception rolls the run back. -/
def run (s : AttachmentStore) (attachmentId : Nat) : AttachmentStore :=
  match processOne r s attachmentId with
  | .ok (_, s') => s'
  | .error _ => s

end AttachmentTask

/-- This is what a blob store keeps. -/
structure Blob where
  bucket : Str
  key : Str
  body : List UInt8
  contentType : Option Str
  sha256 : Option Str

inductive AttachmentError where
  | notUploaded
  | tooLarge (sizeBytes maxBytes : Nat)
deriving DecidableEq

def AttachmentError.message : AttachmentError → Str
  | .notUploaded => "object not found in blob store — finalize called before upload"
  | .tooLarge sizeBytes maxBytes =>
      "attachment exceeds max size (".toList ++ Str.ofNat sizeBytes ++ " > ".toList ++
        Str.ofNat maxBytes ++ ")".toList

/-- This is the error that the row is meant to record. -/
def uploadTooLarge (sizeBytes maxBytes : Nat) : Str :=
  "upload exceeds max size (".toList ++ Str.ofNat sizeBytes ++ " > ".toList ++ Str.ofNat maxBytes ++
    ")".toList

/-- This is the body of the request. -/
structure FinalizeIn where
  sha256 : Option Str := none
  sizeBytes : Option Int := none
  mime : Option Str := none

inductive FinalizeError where
  | accessDenied (message : Str)
  | attachmentError (e : AttachmentError)
  | worker (e : WorkerError)

namespace AttachmentService

/-- This is `a or b` of texts that may be missing. -/
def orElse (a b : Option Str) : Option Str := if a.getD [] = [] then b else a

variable (p : Principal) (maxBytes : Nat) (now : Instant)

def head (blobs : List Blob) (bucket key : Str) : Option Blob :=
  blobs.find? fun blob => blob.bucket == bucket && blob.key == key

def deleteBlob (blobs : List Blob) (bucket key : Str) : List Blob :=
  blobs.filter fun blob => !(blob.bucket == bucket && blob.key == key)

/-- This is `finalize`, with the working state of its session and the blobs that it leaves. -/
def finalize (s : AttachmentStore) (blobs : List Blob) (publicId : Uuid) (payload : FinalizeIn) :
    Except FinalizeError (Option Attachment) × AttachmentStore × List Blob :=
  if !p.hasKeyScope "write:attachment" then
    (.error (.accessDenied "api key missing required scope 'write:attachment'"), s, blobs)
  else match AttachmentRepo.getByPublicId p s publicId with
    | none => (.ok none, s, blobs)
    | some a =>
        if ¬ (a.processingStatus = .pending ∨ a.processingStatus = .failed) then (.ok (some a), s, blobs)
        else match head blobs a.s3Bucket a.s3Key with
          | none => (.error (.attachmentError .notUploaded), s, blobs)
          | some blob =>
              if maxBytes < blob.body.length then
                let blobs := deleteBlob blobs a.s3Bucket a.s3Key
                match AttachmentRepo.markStatus s now a.id
                    { status := .failed, error := some (uploadTooLarge blob.body.length maxBytes) } with
                | .error e => (.error (.worker e), s, blobs)
                | .ok s => (.error (.attachmentError (.tooLarge blob.body.length maxBytes)), s, blobs)
              else
                match AttachmentRepo.markStatus s now a.id
                    { status := .processing
                      sha256 := orElse payload.sha256 blob.sha256
                      sizeBytes := if payload.sizeBytes.getD 0 = 0 then some (blob.body.length : Int)
                        else payload.sizeBytes
                      mime := orElse payload.mime (orElse blob.contentType a.mime) } with
                | .error e => (.error (.worker e), s, blobs)
                | .ok s => (.ok (AttachmentRepo.getById p s a.id), s, blobs)

/-- These are the responses of the request that are no success. -/
inductive Refusal where
  | badRequest (detail : Str)
  | notFound (detail : Str)
  | raised (e : FinalizeError)

/-- This is the request `finalize` with the committed state and the blobs that it leaves: it commits a
success only, and the blob store takes no part in the transaction. -/
def finalizeRequest (s : AttachmentStore) (blobs : List Blob) (publicId : Uuid) (payload : FinalizeIn) :
    Except Refusal Attachment × AttachmentStore × List Blob :=
  match finalize p maxBytes now s blobs publicId payload with
  | (.error (.attachmentError e), _, blobs) => (.error (.badRequest e.message), s, blobs)
  | (.error e, _, blobs) => (.error (.raised e), s, blobs)
  | (.ok none, _, blobs) => (.error (.notFound "attachment not found"), s, blobs)
  | (.ok (some a), working, blobs) => (.ok a, working, blobs)

end AttachmentService
end Kortex
