import Kortex.Model.Accounts
import Kortex.Model.Attachments
import Kortex.Model.ReadPaths

/-
This file models the requests about attachments, the search of their chunks, and the system that the
requests, the uploads of the clients and the runs of the worker make up.
-/

namespace Kortex

/-- These are the columns of an attachment that nothing changes once it is there. -/
structure AttachmentColumns where
  sensitivity : Sensitivity := .internal
  createdBy : Option Nat := none
  metadata : JsonDict := []
  createdAt : Instant := 0

/-- The columns stand under the id of their attachment, and `uploads` has every blob that a client has
put, also those that are gone. -/
structure AttachmentSystem where
  store : AttachmentStore := {}
  columns : Dict Nat AttachmentColumns := []
  blobs : List Blob := []
  uploads : List Blob := []

namespace AttachmentSystem

variable (s : AttachmentSystem)

def rows : List Attachment := s.store.attachments.rows

def columnsOf (a : Attachment) : AttachmentColumns := (Dict.get? s.columns a.id).getD {}

/-- This is what the access control decides about. -/
def resource (a : Attachment) : ResourceRef := ⟨⟨a.scopeType, a.scopeId⟩, (s.columnsOf a).sensitivity⟩

end AttachmentSystem

/-- This is `AttachmentPresignIn`. -/
structure PresignIn where
  scopeType : ScopeType
  scopeId : Nat
  filename : Str
  mime : Option Str := none
  sensitivity : Sensitivity := .internal
  sizeHint : Option Nat := none
  metadata : JsonDict := []

/-- This is what a presign finds: the clock and the keys of the database, the UUID of the object, the
bucket, and whether the blob store signs the URL. -/
structure PresignRun where
  ctx : CallContext
  objectId : Uuid
  bucket : Str
  signs : Bool := true

inductive PresignError where
  | accessDenied (message : Str)
  | badRequest (detail : Str)
  | databaseError
  | storageError

namespace AttachmentRepo

instance : DecidableRel fun a b : Nat × Uuid × Str => a.1 < b.1 ∧ a.2.1 ≠ b.2.1 ∧ a.2.2 ≠ b.2.2 :=
  fun _ _ => inferInstanceAs (Decidable (_ ∧ _ ∧ _))

/-- The columns of the table `attachments` accept the values of the row. -/
def storable (a : Attachment) (metadata : JsonDict) : Bool :=
  Audit.acceptsColumn 500 (some a.filename) && Audit.acceptsColumn 200 a.mime &&
    Audit.acceptsColumn 200 (some a.s3Bucket) && Audit.acceptsColumn 500 (some a.s3Key) &&
    Json.storableMembers metadata

variable (p : Principal) (s : AttachmentSystem)

/-- This is the row of a new attachment. -/
def newRow (run : PresignRun) (key : Str) (input : PresignIn) : Attachment where
  id := nextId Attachment.id s.rows run.ctx.idGap
  publicId := run.ctx.newPublicId
  orgId := p.orgId
  scopeType := input.scopeType
  scopeId := input.scopeId
  filename := input.filename
  mime := input.mime
  sizeBytes := input.sizeHint.getD 0
  sha256 := none
  s3Bucket := run.bucket
  s3Key := key
  processingStatus := .pending
  processingError := none
  processedAt := none
  deletedAt := none

/-- This is `create`, where `none` stands for a flush that the database refuses. -/
def create (run : PresignRun) (key : Str) (input : PresignIn) : Option (Attachment × AttachmentSystem) :=
  let row := newRow p s run key input
  if storable row input.metadata then
    (s.store.attachments.insert? row).map fun attachments =>
      (row, { s with
        store := { s.store with attachments := attachments }
        columns := Dict.set s.columns row.id
          ⟨input.sensitivity, p.userId, input.metadata, run.ctx.now⟩ })
  else none

/-- This is what `soft_delete` makes of a row. -/
def softDeleted (now : Instant) (a : Attachment) : Attachment := { a with deletedAt := some now }

theorem softDeleted_ident (now : Instant) (a : Attachment) :
    ((softDeleted now a).id, (softDeleted now a).publicId, (softDeleted now a).s3Key) =
      (a.id, a.publicId, a.s3Key) := rfl

/-- This is `soft_delete`. -/
def softDelete (now : Instant) (a : Attachment) : AttachmentSystem :=
  { s with store := { s.store with
      attachments := s.store.attachments.update (fun row => row.id == a.id) (softDeleted now)
        (softDeleted_ident now) } }

def inScope (a : Attachment) (scope : ScopeFilter) : Bool :=
  a.scopeType == scope.scopeType && a.scopeId == scope.scopeId

/-- This is `Attachment.sensitivity.in_(_sensitivities_up_to(max_sensitivity))`. -/
def upTo (a : Attachment) (maxSensitivity : Sensitivity) : Bool :=
  decide ((s.columnsOf a).sensitivity.rank ≤ maxSensitivity.rank)

/-- These are the rows of `tenant_query` that are not deleted. -/
def liveRows : List Attachment :=
  (tenantQuery Attachment.orgId p s.rows).filter fun a => a.deletedAt.isNone

/-- The newest rows come first. -/
def newestFirst (a b : Attachment) : Prop := (s.columnsOf b).createdAt ≤ (s.columnsOf a).createdAt

instance : DecidableRel (newestFirst s) := fun _ _ => inferInstanceAs (Decidable (_ ≤ _))

/-- This is `list_`. -/
def list_ (scope : Option ScopeFilter) (status : Option AttachmentStatus) (limit offset : Nat)
    (maxSensitivity : Option Sensitivity) : List Attachment :=
  ((((liveRows p s).filter fun a => scope.all (inScope a) && status.all (· == a.processingStatus) &&
    maxSensitivity.all (upTo s a)).insertionSort (newestFirst s)).drop offset).take limit

end AttachmentRepo

namespace AttachmentService

variable (p : Principal) (s : AttachmentSystem)

/-- This is `_require_scope`. -/
def requireScope (name : Str) : Except ServiceError Unit := MemoryService.requireScope p name

/-- This is the name of the file in the key of its blob. -/
def safeName (filename : Str) : Str :=
  (filename.map fun c => if c = '/' ∨ c = '\\' then '_' else c).take 200

/-- These are the directories of a scope. -/
def keyPrefix (orgId : Nat) (scopeType : ScopeType) (scopeId : Nat) : Str :=
  "orgs/".toList ++ Str.ofNat orgId ++ "/".toList ++ scopeType.value ++ "/".toList ++
    Str.ofNat scopeId ++ "/".toList

/-- This is `_build_key`, with the UUID that it draws. -/
def buildKey (orgId : Nat) (scopeType : ScopeType) (scopeId : Nat) (objectId : Uuid) (filename : Str) :
    Str :=
  keyPrefix orgId scopeType scopeId ++ objectId.str ++ "/".toList ++ safeName filename

/-- This is `presign_upload` in its request, which commits a success. -/
def presignUpload (maxBytes : Nat) (run : PresignRun) (input : PresignIn) :
    Except PresignError (Attachment × AttachmentSystem) :=
  let scope : ScopeRef := ⟨input.scopeType, input.scopeId⟩
  if !p.hasKeyScope "write:attachment" then
    .error (.accessDenied "api key missing required scope 'write:attachment'")
  else if !AccessControl.canWrite p ⟨scope, input.sensitivity⟩ then
    .error (.accessDenied ("cannot write ".toList ++ input.sensitivity.value ++ " attachment in ".toList ++
      scope.str))
  else if maxBytes < input.sizeHint.getD 0 then
    .error (.badRequest ("attachment exceeds max size (".toList ++ Str.ofNat (input.sizeHint.getD 0) ++
      " > ".toList ++ Str.ofNat maxBytes ++ ")".toList))
  else
    let key := buildKey p.orgId input.scopeType input.scopeId run.objectId input.filename
    match AttachmentRepo.create p s run key input with
    | none => .error .databaseError
    | some created => if run.signs then .ok created else .error .storageError

/-- This is `get`. -/
def get (publicId : Uuid) : Except ServiceError (Option Attachment) := do
  requireScope p "read:attachment"
  match AttachmentRepo.getByPublicId p s.store publicId with
  | none => return none
  | some a => if AccessControl.canRead p (s.resource a) then return some a else return none

/-- These are the arguments of `list_`. -/
structure ListRequest where
  scope : Option ScopeFilter := none
  status : Option AttachmentStatus := none
  limit : Nat := 50
  offset : Nat := 0

/-- This is `list_`, which caps the sensitivity for all but superusers. -/
def list_ (r : ListRequest) : Except ServiceError (List Attachment) := do
  requireScope p "read:attachment"
  return AttachmentRepo.list_ p s r.scope r.status r.limit r.offset
    (if p.isSuperuser then none else some p.maxSensitivity)

/-- This is `delete` in its request, which commits only when it found the attachment. -/
def delete (now : Instant) (publicId : Uuid) : Except ServiceError (Bool × AttachmentSystem) := do
  requireScope p "write:attachment"
  match AttachmentRepo.getByPublicId p s.store publicId with
  | none => return (false, s)
  | some a =>
      if AccessControl.canWrite p (s.resource a) then return (true, AttachmentRepo.softDelete s now a)
      else .error (.accessDenied
        ("cannot delete ".toList ++ (s.columnsOf a).sensitivity.value ++ " attachment".toList))

end AttachmentService

/-- This is a row of the table `attachment_chunks` with its id. -/
structure ChunkRow extends AttachmentChunk where
  id : Nat

/-- These are the functions of the database and of the floats that rank the chunks; `rank` is
`ts_rank_cd` under an analyser, where the chunk matches the query. -/
structure ChunkEngine extends SearchEngine where
  rankChunk : Str → Str → AttachmentChunk → Option PyFloat

structure AttachmentChunkHit where
  chunkId : Nat
  attachmentId : Nat
  attachmentPublicId : Str
  filename : Str
  chunkIndex : Nat
  content : Str
  score : PyFloat

namespace AttachmentSearch

open Retrieval (zeroPointZero bestFirst highestFirst orderedIds rrfFuse)

variable (engine : ChunkEngine) (settings : Settings) (p : Principal) (s : AttachmentSystem)
  (chunks : List ChunkRow)

/-- These are the filters that both rankings share, but for the org. -/
def admitted (scopes : List ScopeFilter) (maxSensitivity : Sensitivity) (a : Attachment) : Bool :=
  a.deletedAt.isNone && AttachmentRepo.upTo s a maxSensitivity &&
    (scopes.isEmpty || scopes.any (AttachmentRepo.inScope a))

/-- This is the JOIN with the attachments. -/
def attachmentOf (c : ChunkRow) : Option Attachment := s.rows.find? fun a => a.id == c.attachmentId

/-- These are the arguments of `hybrid_search`. -/
structure Query where
  query : Str
  queryVector : Option (List PyFloat)
  scopes : List ScopeFilter := []
  maxSensitivity : Sensitivity := .secret
  limit : Nat := 20

/-- These are the rows that both rankings select from. -/
def candidates (q : Query) : List ChunkRow :=
  chunks.filter fun c => (attachmentOf s c).any fun a =>
    admitted s q.scopes q.maxSensitivity a && (p.isSuperuser || a.orgId == p.orgId)

/-- The nearest embedding comes first. -/
def nearestFirst (vector : List PyFloat) (a b : ChunkRow) : Prop :=
  PyFloat.sqlLe (engine.distance (a.embedding.getD []) vector)
    (engine.distance (b.embedding.getD []) vector) = true

instance (vector : List PyFloat) : DecidableRel (nearestFirst engine vector) :=
  fun _ _ => inferInstanceAs (Decidable (_ = true))

/-- This is the vector ranking; there is none without a query vector. -/
def vectorIds (candidates : List ChunkRow) (vector : Option (List PyFloat)) : List Nat :=
  match vector with
  | none => []
  | some vector => (((candidates.filter fun c => c.embedding.isSome).insertionSort
      (nearestFirst engine vector)).take settings.retrievalTopKVector).map ChunkRow.id

/-- This is the ranking by keywords. -/
def bm25Ids (candidates : List ChunkRow) (tsConfig query : Str) : List Nat :=
  (((candidates.filterMap fun c => (engine.rankChunk tsConfig query c.toAttachmentChunk).map fun rank =>
    (c.id, rank)).insertionSort highestFirst).take settings.retrievalTopKBm25).map Prod.fst

/-- This is the hit that a chunk and its attachment become. -/
def hitOf (c : ChunkRow) (a : Attachment) (score : PyFloat) : AttachmentChunkHit where
  chunkId := c.id
  attachmentId := c.attachmentId
  attachmentPublicId := a.publicId.str
  filename := a.filename
  chunkIndex := c.chunkIndex
  content := c.content
  score := score

/-- This SELECT has no filter but for the ids. -/
def rowsByIds (ids : List Nat) : List (ChunkRow × Attachment) :=
  chunks.filterMap fun c =>
    if ids.contains c.id then (attachmentOf s c).map fun a => (c, a) else none

/-- These are the hits of the ids with their scores. -/
def hitsOf (rows : List (ChunkRow × Attachment)) (scores : Dict Nat PyFloat) (ids : List Nat) :
    List AttachmentChunkHit :=
  ids.filterMap fun chunkId => (rows.find? fun row => row.1.id == chunkId).map fun row =>
    hitOf row.1 row.2 ((Dict.get? scores chunkId).getD zeroPointZero)

/-- This is the part of `hybrid_search` that fuses the rankings and fetches the rows. -/
def fuse (limit : Nat) (vectorIds bm25Ids : List Nat) : List AttachmentChunkHit :=
  let scores := rrfFuse engine.toSearchEngine ([vectorIds, bm25Ids].filter fun ranking => !ranking.isEmpty)
    settings.retrievalRrfK []
  let ids := orderedIds scores
  let rows := rowsByIds s chunks (ids.take (max (limit * 2) limit))
  ((hitsOf rows scores ids).insertionSort (bestFirst AttachmentChunkHit.score)).take limit

/-- This is `AttachmentChunkRepository.hybrid_search`. -/
def hybridSearch (q : Query) : List AttachmentChunkHit :=
  let candidates := candidates p s chunks q
  let vectorIds := vectorIds engine settings candidates q.queryVector
  let bm25Ids := bm25Ids engine settings candidates (Retrieval.configForScopes p s.store.db q.scopes) q.query
  if vectorIds = [] ∧ bm25Ids = [] then [] else fuse engine settings s chunks q.limit vectorIds bm25Ids

/-- This is the request `search_attachments`, where an embedder that fails leaves out the vector. -/
def searchAttachments (env : Environment) (r : RetrievalService.SearchRequest) :
    List AttachmentChunkHit × Bool :=
  let vector := RetrievalService.queryVector env r
  (hybridSearch engine env.settings p s chunks
    { query := r.query, queryVector := vector, scopes := r.scopes, maxSensitivity := p.maxSensitivity
      limit := r.limit.toNat }, vector.isSome)

end AttachmentSearch

namespace AttachmentSystem

/-- These are the settings of the attachments and the readers of their files. -/
structure Deployment where
  maxBytes : Nat
  chunkTokens : Nat
  chunkOverlap : Nat
  extractors : Extractors

/-- This is what a run of the worker finds beside the blobs; the blob store may fail with a text. -/
structure WorkerRun where
  storageError : Option Str := none
  getEmbedder : Except WorkerError Embedder
  now : Instant
  columns : AttachmentRepo.ChunkColumns

variable (deployment : Deployment)

/-- This is `get_bytes`. -/
def getBytes (blobs : List Blob) (storageError : Option Str) (bucket key : Str) :
    Except Str (List UInt8) :=
  match storageError, AttachmentService.head blobs bucket key with
  | some error, _ => .error error
  | none, none => .error ("object not found: ".toList ++ bucket ++ "/".toList ++ key)
  | none, some blob => .ok blob.body

/-- The worker reads the blobs of the store. -/
def WorkerRun.on (w : WorkerRun) (blobs : List Blob) : ProcessRun where
  getBytes := getBytes blobs w.storageError
  extractors := deployment.extractors
  chunkTokens := deployment.chunkTokens
  chunkOverlap := deployment.chunkOverlap
  getEmbedder := w.getEmbedder
  now := w.now
  columns := w.columns

/-- A client puts a blob under the URL that it was given. -/
inductive Event where
  | presign (p : Principal) (run : PresignRun) (input : PresignIn)
  | upload (blob : Blob)
  | finalize (p : Principal) (now : Instant) (publicId : Uuid) (payload : FinalizeIn)
  | process (w : WorkerRun) (attachmentId : Nat)
  | delete (p : Principal) (now : Instant) (publicId : Uuid)

/-- A URL was given for the key of each attachment. -/
def signed (s : AttachmentSystem) (blob : Blob) : Bool :=
  s.rows.any fun a => a.s3Bucket == blob.bucket && a.s3Key == blob.key

/-- This is the PUT of a blob, which takes the place of an older one. -/
def put (s : AttachmentSystem) (blob : Blob) : AttachmentSystem :=
  { s with
    blobs := AttachmentService.deleteBlob s.blobs blob.bucket blob.key ++ [blob]
    uploads := s.uploads ++ [blob] }

def step (s : AttachmentSystem) : Event → AttachmentSystem
  | .presign p run input =>
      match AttachmentService.presignUpload p s deployment.maxBytes run input with
      | .error _ => s
      | .ok (_, s') => s'
  | .upload blob => if s.signed blob then s.put blob else s
  | .finalize p now publicId payload =>
      let outcome := AttachmentService.finalizeRequest p deployment.maxBytes now s.store s.blobs publicId
        payload
      { s with store := outcome.2.1, blobs := outcome.2.2 }
  | .process w attachmentId =>
      { s with store := AttachmentTask.run (w.on deployment s.blobs) s.store attachmentId }
  | .delete p now publicId =>
      match AttachmentService.delete p s now publicId with
      | .error _ => s
      | .ok (_, s') => s'

end AttachmentSystem
end Kortex
