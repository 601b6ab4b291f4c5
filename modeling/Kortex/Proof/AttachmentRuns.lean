import Kortex.Library.JsonRoundTrip
import Kortex.Library.Split
import Kortex.Model.AttachmentRequests
import Kortex.Proof.Archive
import Kortex.Proof.AttachmentTask
import Kortex.Proof.Finalize
import Kortex.Proof.ReadPaths

/-
This file proves what holds of the attachments in every state that the requests, the uploads and the
runs of the worker reach.
-/

namespace Kortex

namespace AttachmentRepo

variable {s : AttachmentStore} {columns : ChunkColumns} {orgId attachmentId : Nat}
  {chunks : List (Nat × Str)} {embeddings : Option (List (List PyFloat))} {model : Option Str}
  {tsConfig : Str}

/-- The rows of an insert belong to the org of the attachment. -/
theorem insertMany_org {s' : AttachmentStore}
    (done : insertMany s columns orgId attachmentId chunks embeddings model tsConfig = .ok s') :
    ∃ rows, RowsOf attachmentId chunks rows ∧ (∀ row ∈ rows, row.orgId = orgId) ∧
      s' = { s with chunks := s.chunks ++ rows } := by
  rw [insertMany_eq] at done
  cases read : chunks.zipIdx.mapM (readRow orgId attachmentId embeddings model tsConfig) with
  | error e =>
      rw [read] at done
      cases done
  | ok rows =>
      rw [read] at done
      change (if rows.all columns.accepts = true then _ else _) = _ at done
      split at done
      · refine ⟨rows, rowsOf_readRow read, ?_, (Except.ok.inj done).symm⟩
        intro row inside
        obtain ⟨i, small, rfl⟩ := List.mem_iff_getElem.mp inside
        have lengths := Traverse.length_of_mapM read
        rw [List.length_zipIdx] at lengths
        obtain ⟨embedding, _, same⟩ := row_of_read read i (by omega) small
        rw [same]
        rfl
      · cases done

end AttachmentRepo

namespace AttachmentTask

open AttachmentRepo (Mark marked marked_ident)

/-- The rows of the attachment get a mark. -/
def markedAt (s : AttachmentStore) (attachmentId : Nat) (now : Instant) (mark : Mark) : AttachmentTable :=
  s.attachments.update (fun a => a.id == attachmentId) (marked now mark) (marked_ident now mark)

theorem markStatus_ok {s s' : AttachmentStore} {attachmentId : Nat} {now : Instant} {mark : Mark}
    (done : AttachmentRepo.markStatus s now attachmentId mark = .ok s') :
    s' = { s with attachments := markedAt s attachmentId now mark } := by
  rw [AttachmentRepo.markStatus] at done
  split at done
  · exact (Except.ok.inj done).symm
  · cases done

/-- A run leaves the store as it was, or marks its attachment as failed, or replaces its chunks and marks
it as ready. -/
inductive Outcome (r : ProcessRun) (s : AttachmentStore) (attachmentId : Nat) : AttachmentStore → Prop
  | kept : Outcome r s attachmentId s
  | failed (a : Attachment) (found : AttachmentRepo.getById (superuser 0) s attachmentId = some a)
      (error : Str) : Outcome r s attachmentId
        { s with attachments := markedAt s attachmentId r.now { status := .failed, error := some error } }
  | ready (a : Attachment) (found : AttachmentRepo.getById (superuser 0) s attachmentId = some a)
      (text : Str) (read : textOf r a = .ok text) (filled : Str.strip text ≠ [])
      (room : 0 < r.chunkTokens) (rows : List AttachmentChunk)
      (written : AttachmentRepo.RowsOf attachmentId
        (Chunker.chunkText text r.chunkTokens r.chunkOverlap) rows)
      (own : ∀ row ∈ rows, row.orgId = a.orgId) : Outcome r s attachmentId
        { s with
          attachments := markedAt s attachmentId r.now { status := .ready }
          chunks := (s.chunks.filter fun c => c.attachmentId != attachmentId) ++ rows }

variable {r : ProcessRun} {s : AttachmentStore} {attachmentId : Nat} {a : Attachment}

theorem outcome_of_fail (found : AttachmentRepo.getById (superuser 0) s attachmentId = some a)
    (error word : Str) {word' : Str} {s' : AttachmentStore}
    (done : fail r s attachmentId error word = .ok (word', s')) : Outcome r s attachmentId s' := by
  rw [fail] at done
  cases marking : AttachmentRepo.markStatus s r.now attachmentId
      { status := .failed, error := some error } with
  | error e =>
      rw [marking] at done
      cases done
  | ok s₁ =>
      rw [marking] at done
      obtain rfl : s₁ = s' := congrArg Prod.snd (Except.ok.inj done)
      rw [markStatus_ok marking]
      exact Outcome.failed a found error

theorem outcome_of_storeChunks (found : AttachmentRepo.getById (superuser 0) s attachmentId = some a)
    (text : Str) (read : textOf r a = .ok text) (filled : Str.strip text ≠ []) (room : 0 < r.chunkTokens)
    {word : Str} {s' : AttachmentStore}
    (done : storeChunks r s a attachmentId (Chunker.chunkText text r.chunkTokens r.chunkOverlap) =
      .ok (word, s')) : Outcome r s attachmentId s' := by
  rw [storeChunks] at done
  cases given : vectorsOf r (Chunker.chunkText text r.chunkTokens r.chunkOverlap) with
  | error e =>
      rw [given] at done
      cases done
  | ok vectors =>
      rw [given] at done
      cases inserted : AttachmentRepo.insertMany (AttachmentRepo.deleteForAttachment s attachmentId)
          r.columns a.orgId attachmentId (Chunker.chunkText text r.chunkTokens r.chunkOverlap)
          (vectors.map Prod.snd) (vectors.map Prod.fst)
          (configForScope (superuser a.orgId) s.db a.scopeType a.scopeId) with
      | error e =>
          simp only [bind, Except.bind, inserted] at done
          cases done
      | ok s₁ =>
          obtain ⟨rows, written, own, rfl⟩ := AttachmentRepo.insertMany_org inserted
          simp only [bind, Except.bind, inserted] at done
          obtain rfl : _ = s' := congrArg Prod.snd (Except.ok.inj done)
          exact Outcome.ready a found text read filled room rows written own

theorem getById_live (found : AttachmentRepo.getById (superuser 0) s attachmentId = some a) :
    a ∈ s.attachments.rows ∧ a.deletedAt = none := by
  have inside := List.mem_of_find?_eq_some found
  have own := List.find?_some found
  simp only [Bool.and_eq_true, beq_iff_eq, Option.isNone_iff_eq_none] at own
  exact ⟨(List.mem_filter.mp inside).1, own.2⟩

/-- This is all that a run can do. -/
theorem run_outcome (r : ProcessRun) (s : AttachmentStore) (attachmentId : Nat) :
    Outcome r s attachmentId (run r s attachmentId) := by
  rw [run]
  cases done : processOne r s attachmentId with
  | error e => exact Outcome.kept
  | ok outcome =>
      obtain ⟨word, s'⟩ := outcome
      dsimp only
      cases found : AttachmentRepo.getById (superuser 0) s attachmentId with
      | none =>
          rw [processOne, found] at done
          obtain rfl : s = s' := congrArg Prod.snd (Except.ok.inj done)
          exact Outcome.kept
      | some a =>
          cases read : textOf r a with
          | error error =>
              rw [processOne_of_error found error read] at done
              exact outcome_of_fail found error _ done
          | ok text =>
              by_cases blank : Str.strip text = []
              · rw [processOne_of_blank found text read blank] at done
                exact outcome_of_fail found _ _ done
              · by_cases room : r.chunkTokens = 0
                · rw [processOne_of_zero found text read blank room] at done
                  cases done
                · rw [processOne_eq_storeChunks found text read blank room] at done
                  exact outcome_of_storeChunks found text read blank (Nat.pos_of_ne_zero room) done

end AttachmentTask

namespace AttachmentService

open AttachmentRepo (Mark marked marked_ident)

variable {p : Principal} {maxBytes : Nat} {now : Instant} {s : AttachmentStore} {blobs : List Blob}
  {publicId : Uuid} {payload : FinalizeIn}

/-- A request `finalize` leaves the tables as they were, or hands a live attachment to the worker. -/
inductive Finalized (p : Principal) (s : AttachmentStore) (now : Instant) : AttachmentStore → Prop
  | kept : Finalized p s now s
  | handed (a : Attachment) (inside : a ∈ s.attachments.rows) (live : a.deletedAt = none)
      (own : p.isSuperuser = true ∨ a.orgId = p.orgId)
      (waits : a.processingStatus = .pending ∨ a.processingStatus = .failed) (mark : Mark)
      (processing : mark.status = .processing) :
      Finalized p s now { s with attachments := AttachmentTask.markedAt s a.id now mark }

theorem getByPublicId_live {a : Attachment} (found : AttachmentRepo.getByPublicId p s publicId = some a) :
    a ∈ s.attachments.rows ∧ a.deletedAt = none := by
  have inside := List.mem_of_find?_eq_some found
  have own := List.find?_some found
  simp only [Bool.and_eq_true, beq_iff_eq, Option.isNone_iff_eq_none] at own
  exact ⟨(List.mem_filter.mp inside).1, own.2⟩

theorem getByPublicId_own {a : Attachment} (found : AttachmentRepo.getByPublicId p s publicId = some a) :
    p.isSuperuser = true ∨ a.orgId = p.orgId :=
  ((mem_tenantQuery _ _ _ _).mp (List.mem_of_find?_eq_some found)).2

/-- A success of the service is one of the two, and it has deleted no blob. -/
theorem finalize_ok {found : Option Attachment} {working : AttachmentStore} {left : List Blob}
    (done : finalize p maxBytes now s blobs publicId payload = (.ok found, working, left)) :
    Finalized p s now working ∧ left = blobs := by
  rw [finalize] at done
  split at done
  · cases done
  · split at done
    · obtain ⟨_, rfl, rfl⟩ := Prod.mk.inj done
      exact ⟨Finalized.kept, rfl⟩
    · next a present =>
        obtain ⟨inside, live⟩ := getByPublicId_live present
        split at done
        · obtain ⟨_, rest⟩ := Prod.mk.inj done
          obtain ⟨rfl, rfl⟩ := Prod.mk.inj rest
          exact ⟨Finalized.kept, rfl⟩
        · next waits =>
            split at done
            · cases done
            · next blob uploaded =>
                split at done
                · dsimp only at done
                  split at done <;> cases done
                · split at done
                  · cases done
                  · next s' marking =>
                      obtain ⟨_, rest⟩ := Prod.mk.inj done
                      obtain ⟨rfl, rfl⟩ := Prod.mk.inj rest
                      rw [AttachmentTask.markStatus_ok marking]
                      exact ⟨Finalized.handed a inside live (getByPublicId_own present)
                        (not_not.mp waits) _ rfl, rfl⟩

/-- The service deletes blobs, and adds none. -/
theorem finalize_blobs (blob : Blob)
    (present : blob ∈ (finalize p maxBytes now s blobs publicId payload).2.2) : blob ∈ blobs := by
  rw [finalize] at present
  split at present
  · exact present
  · split at present
    · exact present
    · split at present
      · exact present
      · split at present
        · exact present
        · split at present
          · dsimp only at present
            split at present
            · exact List.mem_of_mem_filter present
            · exact List.mem_of_mem_filter present
          · split at present
            · exact present
            · exact present

theorem finalizeRequest_finalized (p : Principal) (maxBytes : Nat) (now : Instant) (s : AttachmentStore)
    (blobs : List Blob) (publicId : Uuid) (payload : FinalizeIn) :
    Finalized p s now (finalizeRequest p maxBytes now s blobs publicId payload).2.1 ∧
      ∀ blob ∈ (finalizeRequest p maxBytes now s blobs publicId payload).2.2, blob ∈ blobs := by
  have fewer := @finalize_blobs p maxBytes now s blobs publicId payload
  rw [finalizeRequest]
  cases outcome : finalize p maxBytes now s blobs publicId payload with
  | mk result rest =>
      obtain ⟨working, left⟩ := rest
      rw [outcome] at fewer
      cases result with
      | error e => cases e <;> exact ⟨Finalized.kept, fewer⟩
      | ok found =>
          cases found with
          | none => exact ⟨Finalized.kept, fewer⟩
          | some a => exact ⟨(finalize_ok outcome).1, fewer⟩

theorem head_deleteBlob (blobs : List Blob) (bucket key bucket' key' : Str) :
    head (deleteBlob blobs bucket key) bucket' key' =
      if bucket = bucket' ∧ key = key' then none else head blobs bucket' key' := by
  by_cases same : bucket = bucket' ∧ key = key'
  · obtain ⟨rfl, rfl⟩ := same
    rw [if_pos ⟨rfl, rfl⟩, head, deleteBlob, List.find?_eq_none]
    intro blob inside
    simpa [imp_iff_not_or] using (List.mem_filter.mp inside).2
  · rw [if_neg same]
    exact mem_deleteBlob _ _ _ _ (not_and_or.mp same)

/-- The blob that was put last is found. -/
theorem head_put (s : AttachmentSystem) (blob : Blob) (bucket key : Str) :
    head (s.put blob).blobs bucket key =
      if blob.bucket = bucket ∧ blob.key = key then some blob else head s.blobs bucket key := by
  have split : head (s.put blob).blobs bucket key =
      (head (deleteBlob s.blobs blob.bucket blob.key) bucket key).or (head [blob] bucket key) :=
    List.find?_append
  have last : head [blob] bucket key =
      if (blob.bucket == bucket && blob.key == key) = true then some blob else none :=
    List.find?_singleton
  rw [split, head_deleteBlob, last]
  simp only [Bool.and_eq_true, beq_iff_eq]
  split <;> simp

theorem slash_notMem_ofNat (n : Nat) : '/' ∉ Str.ofNat n := by
  intro inside
  exact absurd (Json.isDigit_of_mem_ofNat n '/' inside) (by decide)

theorem slash_notMem_value (scopeType : ScopeType) : '/' ∉ scopeType.value := by
  cases scopeType <;> decide

theorem slash_notMem_str (u : Uuid) : '/' ∉ u.str := by
  have digits : '/' ∉ u.hex := by
    intro inside
    obtain ⟨i, _, same⟩ := List.mem_map.mp inside
    have all : ∀ d, d < 16 → Nat.digitChar d ≠ '/' := by decide
    exact all _ (Nat.mod_lt _ (by decide)) same
  have part (k n : Nat) : '/' ∉ (u.hex.drop k).take n :=
    fun inside => digits (List.mem_of_mem_drop (List.mem_of_mem_take inside))
  have first : '/' ∉ u.hex.take 8 := fun inside => digits (List.mem_of_mem_take inside)
  have last : '/' ∉ u.hex.drop 20 := fun inside => digits (List.mem_of_mem_drop inside)
  have dash : '/' ≠ '-' := by decide
  rw [Uuid.str_eq]
  simp only [List.mem_append, List.mem_cons, not_or]
  exact ⟨first, dash, part 8 4, dash, part 12 4, dash, part 16 4, dash, last⟩

theorem value_injective : Function.Injective ScopeType.value := by
  intro a b same
  cases a <;> cases b <;> first | rfl | exact absurd same (by decide)

/-- The directories of a scope say which scope it is. -/
theorem keyPrefix_prefix {orgId orgId' scopeId scopeId' : Nat} {scopeType scopeType' : ScopeType}
    {rest : Str}
    (starts : keyPrefix orgId scopeType scopeId <+: keyPrefix orgId' scopeType' scopeId' ++ rest) :
    orgId = orgId' ∧ scopeType = scopeType' ∧ scopeId = scopeId' := by
  have split (orgId scopeId : Nat) (scopeType : ScopeType) (rest : Str) :
      keyPrefix orgId scopeType scopeId ++ rest = "orgs/".toList ++ (Str.ofNat orgId ++ '/' ::
        (scopeType.value ++ '/' :: (Str.ofNat scopeId ++ '/' :: rest))) := by
    have slash : "/".toList = ['/'] := rfl
    unfold keyPrefix
    simp only [slash, List.append_assoc, List.cons_append, List.nil_append]
  rw [← List.append_nil (keyPrefix orgId scopeType scopeId), split, split,
    List.prefix_append_right_inj] at starts
  obtain ⟨org, later⟩ := (Split.prefix_append_separator _ _ _ _ (slash_notMem_ofNat _)
    (slash_notMem_ofNat _)).mp starts
  obtain ⟨type, last⟩ := (Split.prefix_append_separator _ _ _ _ (slash_notMem_value _)
    (slash_notMem_value _)).mp later
  obtain ⟨id, _⟩ := (Split.prefix_append_separator _ _ _ _ (slash_notMem_ofNat _)
    (slash_notMem_ofNat _)).mp last
  exact ⟨Json.ofNat_injective org, value_injective type, Json.ofNat_injective id⟩

/-- This is what a presign that succeeds leaves: a new attachment that waits for its upload. -/
theorem presignUpload_ok {p : Principal} {s s' : AttachmentSystem} {maxBytes : Nat} {run : PresignRun}
    {input : PresignIn} {a : Attachment}
    (done : presignUpload p s maxBytes run input = .ok (a, s')) :
    a = AttachmentRepo.newRow p s run
        (buildKey p.orgId input.scopeType input.scopeId run.objectId input.filename) input ∧
      s'.rows = s.rows ++ [a] ∧ s'.store.chunks = s.store.chunks ∧ s'.blobs = s.blobs ∧
        s'.uploads = s.uploads := by
  rw [presignUpload] at done
  dsimp only at done
  split at done
  · cases done
  · split at done
    · cases done
    · split at done
      · cases done
      · split at done
        · cases done
        · next created making =>
            split at done
            · obtain rfl := Except.ok.inj done
              rw [AttachmentRepo.create] at making
              split at making
              · obtain ⟨attachments, inserted, same⟩ := Option.map_eq_some_iff.mp making
                obtain ⟨rfl, rfl⟩ := Prod.mk.inj same
                exact ⟨rfl, (Table.insert?_eq_some _ _ _ inserted).1, rfl, rfl, rfl⟩
              · cases making
            · cases done

/-- A delete that succeeds marks a live attachment, or changes nothing. -/
theorem delete_ok {p : Principal} {s s' : AttachmentSystem} {now : Instant} {publicId : Uuid}
    {found : Bool} (done : delete p s now publicId = .ok (found, s')) :
    s' = s ∨ ∃ a ∈ s.rows, a.deletedAt = none ∧ (p.isSuperuser = true ∨ a.orgId = p.orgId) ∧
      s' = AttachmentRepo.softDelete s now a := by
  simp only [delete, bind_eq_ok] at done
  obtain ⟨_, _, done⟩ := done
  split at done
  · exact Or.inl (congrArg Prod.snd (Except.ok.inj done)).symm
  · next a present =>
      obtain ⟨inside, live⟩ := getByPublicId_live present
      split at done
      · exact Or.inr ⟨a, inside, live, getByPublicId_own present,
          (congrArg Prod.snd (Except.ok.inj done)).symm⟩
      · cases done

end AttachmentService

namespace AttachmentSystem

variable {deployment : Deployment} {s s' : AttachmentSystem} {a a' : Attachment}

/-- What an attachment is does not change, its processing never starts anew from `pending`, and nothing
of it changes once it is deleted. -/
structure Evolves (a a' : Attachment) : Prop where
  id : a'.id = a.id
  orgId : a'.orgId = a.orgId
  scopeType : a'.scopeType = a.scopeType
  scopeId : a'.scopeId = a.scopeId
  filename : a'.filename = a.filename
  s3Bucket : a'.s3Bucket = a.s3Bucket
  s3Key : a'.s3Key = a.s3Key
  begun : a.processingStatus ≠ .pending → a'.processingStatus ≠ .pending
  deleted : a.deletedAt ≠ none → a' = a

theorem Evolves.refl (a : Attachment) : Evolves a a := 
  ⟨rfl, rfl, rfl, rfl, rfl, rfl, rfl, fun begun => begun, fun _ => rfl⟩

theorem row_eq_of_id (s : AttachmentSystem) (first : a ∈ s.rows) (second : a' ∈ s.rows)
    (same : a.id = a'.id) : a = a' := by
  rcases s.store.attachments.eq_or_apart a a' first second with equal | apart | apart
  · exact equal
  · exact absurd same (Nat.ne_of_lt apart.1)
  · exact absurd same.symm (Nat.ne_of_lt apart.1)

/-- A change of one live row, which keeps what the attachment is, lets all rows evolve. -/
theorem evolves_changeRow (inside : a ∈ s.rows) (live : a.deletedAt = none)
    (change : Attachment → Attachment) (changed : ∀ b, b.deletedAt = none → Evolves b (change b)) :
    ∀ b ∈ s.rows, Evolves b (Table.changeRow (fun row => row.id == a.id) change b) := by
  intro b present
  rw [Table.changeRow]
  split
  · next same =>
      obtain rfl := row_eq_of_id s present inside (by simpa using same)
      exact changed b live
  · exact Evolves.refl b

theorem evolves_marked (now : Instant) (mark : AttachmentRepo.Mark) (begins : mark.status ≠ .pending)
    (b : Attachment) (live : b.deletedAt = none) : Evolves b (AttachmentRepo.marked now mark b) :=
  ⟨rfl, rfl, rfl, rfl, rfl, rfl, rfl, fun _ => begins, fun gone => absurd live gone⟩

theorem evolves_softDeleted (now : Instant) (b : Attachment) (live : b.deletedAt = none) :
    Evolves b (AttachmentRepo.softDeleted now b) :=
  ⟨rfl, rfl, rfl, rfl, rfl, rfl, rfl, fun begun => begun, fun gone => absurd live gone⟩

/-- The text of the chunk was read from a blob that a client put under the key of the attachment. -/
def FromUpload (deployment : Deployment) (uploads : List Blob) (a : Attachment) (c : AttachmentChunk) :
    Prop :=
  ∃ blob ∈ uploads, blob.bucket = a.s3Bucket ∧ blob.key = a.s3Key ∧ ∃ mime text,
    extractText deployment.extractors blob.body mime a.filename = .ok text ∧
      (c.chunkIndex, c.content) ∈
        Chunker.chunkText text deployment.chunkTokens deployment.chunkOverlap

/-- The chunk belongs to the attachment. -/
structure Belongs (deployment : Deployment) (uploads : List Blob) (a : Attachment) (c : AttachmentChunk) :
    Prop where
  attachment : a.id = c.attachmentId
  org : a.orgId = c.orgId
  begun : a.processingStatus ≠ .pending
  source : FromUpload deployment uploads a c

/-- These are the chunks of an attachment. -/
def chunksOf (s : AttachmentSystem) (attachmentId : Nat) : List AttachmentChunk :=
  s.store.chunks.filter fun c => c.attachmentId == attachmentId

/-- Each blob lies under the key of one attachment, which is in the directories of its scope. Each chunk
belongs to an attachment of its org, and the chunks of an attachment are numbered from zero. A ready
attachment has chunks and no error. -/
structure Sound (deployment : Deployment) (s : AttachmentSystem) : Prop where
  keys : ∀ a ∈ s.rows, ∃ objectId,
    a.s3Key = AttachmentService.buildKey a.orgId a.scopeType a.scopeId objectId a.filename
  blobs : ∀ blob ∈ s.blobs, blob ∈ s.uploads
  uploads : ∀ blob ∈ s.uploads, ∃ a ∈ s.rows, a.s3Bucket = blob.bucket ∧ a.s3Key = blob.key
  chunks : ∀ c ∈ s.store.chunks, ∃ a ∈ s.rows, Belongs deployment s.uploads a c
  numbered : ∀ attachmentId, (s.chunksOf attachmentId).map AttachmentChunk.chunkIndex =
    List.range (s.chunksOf attachmentId).length
  ready : ∀ a ∈ s.rows, a.processingStatus = .ready →
    a.processingError = none ∧ s.chunksOf a.id ≠ []

theorem Belongs.evolves {c : AttachmentChunk} {uploads uploads' : List Blob}
    (belongs : Belongs deployment uploads a c) (evolves : Evolves a a') (grows : uploads ⊆ uploads') :
    Belongs deployment uploads' a' c where
  attachment := evolves.id.trans belongs.attachment
  org := evolves.orgId.trans belongs.org
  begun := evolves.begun belongs.begun
  source := by
    obtain ⟨blob, put, bucket, key, mime, text, read, inside⟩ := belongs.source
    refine ⟨blob, grows put, bucket.trans evolves.s3Bucket.symm, key.trans evolves.s3Key.symm, mime, text,
      ?_, inside⟩
    rw [evolves.filename]
    exact read

/-- Where all rows evolve, what does not concern the status of the rows still holds. -/
theorem Sound.evolve (sound : Sound deployment s) (f : Attachment → Attachment)
    (rows : s'.rows = s.rows.map f) (evolves : ∀ a ∈ s.rows, Evolves a (f a))
    (fewer : ∀ blob ∈ s'.blobs, blob ∈ s.blobs) (same : s'.uploads = s.uploads)
    (chunks : s'.store.chunks = s.store.chunks)
    (ready : ∀ a ∈ s.rows, (f a).processingStatus = .ready →
      f a = a ∨ a.processingStatus = .ready ∧ (f a).processingError = a.processingError) :
    Sound deployment s' where
  keys a' inside := by
    rw [rows] at inside
    obtain ⟨a, present, rfl⟩ := List.mem_map.mp inside
    obtain ⟨objectId, key⟩ := sound.keys a present
    have kept := evolves a present
    exact ⟨objectId, by rw [kept.s3Key, kept.orgId, kept.scopeType, kept.scopeId, kept.filename, key]⟩
  blobs blob present := same ▸ sound.blobs blob (fewer blob present)
  uploads blob present := by
    obtain ⟨a, inside, bucket, key⟩ := sound.uploads blob (same ▸ present)
    have kept := evolves a inside
    exact ⟨f a, rows ▸ List.mem_map_of_mem inside, kept.s3Bucket.trans bucket, kept.s3Key.trans key⟩
  chunks c present := by
    obtain ⟨a, inside, belongs⟩ := sound.chunks c (chunks ▸ present)
    exact ⟨f a, rows ▸ List.mem_map_of_mem inside,
      belongs.evolves (evolves a inside) (same ▸ List.Subset.refl _)⟩
  numbered attachmentId := by
    rw [chunksOf, chunks]
    exact sound.numbered attachmentId
  ready a' inside status := by
    rw [rows] at inside
    obtain ⟨a, present, rfl⟩ := List.mem_map.mp inside
    rw [chunksOf, chunks, (evolves a present).id]
    rcases ready a present status with unchanged | ⟨before, error⟩
    · rw [unchanged] at status ⊢
      exact sound.ready a present status
    · rw [error]
      exact sound.ready a present before

/-- A mark that does not make an attachment ready keeps the rest. -/
theorem Sound.marked (sound : Sound deployment s) (inside : a ∈ s.rows) (live : a.deletedAt = none)
    (now : Instant) (mark : AttachmentRepo.Mark) (begins : mark.status ≠ .pending)
    (unready : mark.status ≠ .ready) (blobs : List Blob) (fewer : ∀ blob ∈ blobs, blob ∈ s.blobs) :
    Sound deployment { s with
      store := { s.store with attachments := AttachmentTask.markedAt s.store a.id now mark }
      blobs := blobs } := by
  refine sound.evolve (Table.changeRow (fun row => row.id == a.id) (AttachmentRepo.marked now mark)) ?_
    (evolves_changeRow inside live _ (evolves_marked now mark begins)) fewer ?_ ?_ ?_
  · rfl
  · rfl
  · rfl
  intro b _ status
  by_cases own : (b.id == a.id) = true
  · rw [Table.changeRow, if_pos own] at status
    exact absurd status unready
  · exact Or.inl (if_neg own)

theorem Sound.deleted (sound : Sound deployment s) (inside : a ∈ s.rows) (live : a.deletedAt = none)
    (now : Instant) : Sound deployment (AttachmentRepo.softDelete s now a) := by
  refine sound.evolve (Table.changeRow (fun row => row.id == a.id) (AttachmentRepo.softDeleted now)) ?_
    (evolves_changeRow inside live _ (evolves_softDeleted now)) (fun _ present => present) ?_ ?_ ?_
  · rfl
  · rfl
  · rfl
  intro b _ status
  by_cases own : (b.id == a.id) = true
  · rw [Table.changeRow, if_pos own] at status ⊢
    exact Or.inr ⟨status, rfl⟩
  · exact Or.inl (if_neg own)

theorem Sound.presigned {p : Principal} {run : PresignRun} {input : PresignIn}
    (sound : Sound deployment s)
    (done : AttachmentService.presignUpload p s deployment.maxBytes run input = .ok (a, s')) :
    Sound deployment s' := by
  obtain ⟨new, rows, chunks, blobs, uploads⟩ := AttachmentService.presignUpload_ok done
  have old (b : Attachment) (inside : b ∈ s.rows) : b ∈ s'.rows := by
    rw [rows]
    exact List.mem_append_left _ inside
  refine ⟨?_, ?_, ?_, ?_, ?_, ?_⟩
  · intro b inside
    rw [rows] at inside
    rcases List.mem_append.mp inside with before | last
    · exact sound.keys b before
    · rw [List.mem_singleton.mp last, new]
      exact ⟨run.objectId, rfl⟩
  · intro blob present
    rw [uploads]
    exact sound.blobs blob (blobs ▸ present)
  · intro blob present
    obtain ⟨b, inside, under⟩ := sound.uploads blob (uploads ▸ present)
    exact ⟨b, old b inside, under⟩
  · intro c present
    obtain ⟨b, inside, belongs⟩ := sound.chunks c (chunks ▸ present)
    exact ⟨b, old b inside, belongs.evolves (Evolves.refl b) (uploads ▸ List.Subset.refl _)⟩
  · intro attachmentId
    rw [chunksOf, chunks]
    exact sound.numbered attachmentId
  · intro b inside status
    rw [rows] at inside
    rcases List.mem_append.mp inside with before | last
    · rw [chunksOf, chunks]
      exact sound.ready b before status
    · rw [List.mem_singleton.mp last, new] at status
      exact absurd status (by simp [AttachmentRepo.newRow])

theorem Sound.uploaded (sound : Sound deployment s) (blob : Blob) (known : s.signed blob = true) :
    Sound deployment (s.put blob) := by
  refine ⟨sound.keys, ?_, ?_, ?_, sound.numbered, sound.ready⟩
  · intro other present
    rcases List.mem_append.mp present with before | last
    · exact List.mem_append_left _ (sound.blobs other (List.mem_of_mem_filter before))
    · exact List.mem_append_right _ last
  · intro other present
    rcases List.mem_append.mp present with before | last
    · exact sound.uploads other before
    · rw [List.mem_singleton.mp last]
      change ∃ a ∈ s.rows, _
      simpa only [signed, List.any_eq_true, Bool.and_eq_true, beq_iff_eq] using known
  · intro c present
    obtain ⟨b, inside, belongs⟩ := sound.chunks c present
    exact ⟨b, inside, belongs.evolves (Evolves.refl b) (List.subset_append_left _ _)⟩

section Processed

variable {w : WorkerRun} {attachmentId : Nat} {text : Str} {rows : List AttachmentChunk}

/-- What the worker reads was put under the key of the attachment. -/
theorem textOf_fromUpload (sound : Sound deployment s)
    (read : AttachmentTask.textOf (w.on deployment s.blobs) a = .ok text) :
    ∃ blob ∈ s.uploads, blob.bucket = a.s3Bucket ∧ blob.key = a.s3Key ∧
      extractText deployment.extractors blob.body a.mime a.filename = .ok text := by
  rw [AttachmentTask.textOf, bind_eq_ok] at read
  obtain ⟨body, got, extracted⟩ := read
  change getBytes s.blobs w.storageError a.s3Bucket a.s3Key = .ok body at got
  unfold getBytes at got
  split at got
  · cases got
  · cases got
  · next blob _ found =>
      obtain rfl := Except.ok.inj got
      have present := List.mem_of_find?_eq_some found
      have under := List.find?_some found
      simp only [Bool.and_eq_true, beq_iff_eq] at under
      exact ⟨blob, sound.blobs blob present, under.1, under.2, extracted⟩

/-- These are the chunks after a run that stored some. -/
theorem filter_replaced (chunks : List AttachmentChunk)
    (own : ∀ row ∈ rows, row.attachmentId = attachmentId) (id : Nat) :
    (((chunks.filter fun c => c.attachmentId != attachmentId) ++ rows).filter fun c =>
        c.attachmentId == id) =
      if id = attachmentId then rows else chunks.filter fun c => c.attachmentId == id := by
  rw [List.filter_append, List.filter_filter]
  split
  · next same =>
      have none : (chunks.filter fun c => c.attachmentId == id && c.attachmentId != attachmentId) = [] := by
        rw [List.filter_eq_nil_iff]
        intro c _
        simp [same]
      have all : (rows.filter fun c => c.attachmentId == id) = rows := by
        rw [List.filter_eq_self]
        intro c present
        simp [own c present, same]
      rw [none, all, List.nil_append]
  · next other =>
      have none : (rows.filter fun c => c.attachmentId == id) = [] := by
        rw [List.filter_eq_nil_iff]
        intro c present
        simpa [own c present] using Ne.symm other
      have kept : (chunks.filter fun c => c.attachmentId == id && c.attachmentId != attachmentId) =
          chunks.filter fun c => c.attachmentId == id := by
        apply List.filter_congr
        intro c _
        by_cases here : c.attachmentId = id
        · simp [here, other]
        · simp [here]
      rw [none, kept, List.append_nil]

theorem Sound.processed (sound : Sound deployment s) (inside : a ∈ s.rows) (live : a.deletedAt = none)
    (read : AttachmentTask.textOf (w.on deployment s.blobs) a = .ok text) (filled : Str.strip text ≠ [])
    (room : 0 < deployment.chunkTokens)
    (written : AttachmentRepo.RowsOf a.id
      (Chunker.chunkText text deployment.chunkTokens deployment.chunkOverlap) rows)
    (org : ∀ row ∈ rows, row.orgId = a.orgId) :
    Sound deployment { s with store := { s.store with
      attachments := AttachmentTask.markedAt s.store a.id w.now { status := .ready }
      chunks := (s.store.chunks.filter fun c => c.attachmentId != a.id) ++ rows } } := by
  have evolves := evolves_changeRow (s := s) inside live _
    (evolves_marked w.now { status := .ready } (by decide))
  have numbers := (Chunker.chunkText_covers text deployment.chunkTokens deployment.chunkOverlap room).1
  have some_row : rows ≠ [] := by
    intro none
    have shown := written.shown
    rw [none] at shown
    exact Chunker.chunkText_ne_nil text _ _ room filled shown.symm
  obtain ⟨blob, put, bucket, key, extracted⟩ := textOf_fromUpload sound read
  refine ⟨?_, sound.blobs, ?_, ?_, ?_, ?_⟩
  · intro b' present
    obtain ⟨b, before, rfl⟩ := List.mem_map.mp present
    obtain ⟨objectId, named⟩ := sound.keys b before
    have kept := evolves b before
    exact ⟨objectId, by rw [kept.s3Key, kept.orgId, kept.scopeType, kept.scopeId, kept.filename, named]⟩
  · intro blob present
    obtain ⟨b, before, bucket, key⟩ := sound.uploads blob present
    have kept := evolves b before
    exact ⟨_, List.mem_map_of_mem before, kept.s3Bucket.trans bucket, kept.s3Key.trans key⟩
  · intro c present
    rcases List.mem_append.mp present with old | new
    · obtain ⟨b, before, belongs⟩ := sound.chunks c (List.mem_of_mem_filter old)
      exact ⟨_, List.mem_map_of_mem before, belongs.evolves (evolves b before) (List.Subset.refl _)⟩
    · have changed : Table.changeRow (fun row => row.id == a.id)
          (AttachmentRepo.marked w.now { status := .ready }) a =
            AttachmentRepo.marked w.now { status := .ready } a := by
        rw [Table.changeRow, if_pos (beq_self_eq_true a.id)]
      have placed : (c.chunkIndex, c.content) ∈
          Chunker.chunkText text deployment.chunkTokens deployment.chunkOverlap := by
        rw [← written.shown]
        exact List.mem_map_of_mem new
      refine ⟨_, List.mem_map_of_mem inside, ?_⟩
      rw [changed]
      exact ⟨(written.own c new).symm, (org c new).symm, by simp [AttachmentRepo.marked],
        blob, put, bucket, key, a.mime, text, extracted, placed⟩
  · intro id
    rw [chunksOf, filter_replaced s.store.chunks written.own id]
    split
    · have indices : rows.map AttachmentChunk.chunkIndex = (rows.map fun row =>
          (row.chunkIndex, row.content)).map Prod.fst := by
        rw [List.map_map]
        rfl
      have lengths := congrArg List.length written.shown
      rw [List.length_map] at lengths
      rw [indices, written.shown, lengths]
      exact numbers
    · exact sound.numbered id
  · intro b' present status
    obtain ⟨b, before, rfl⟩ := List.mem_map.mp present
    rw [chunksOf, filter_replaced s.store.chunks written.own, (evolves b before).id]
    rw [Table.changeRow] at status ⊢
    split
    · next own =>
        have same : b.id = a.id := by simpa using own
        rw [if_pos same]
        exact ⟨rfl, some_row⟩
    · next other =>
        rw [if_neg other] at status
        rw [if_neg (by simpa using other)]
        exact sound.ready b before status

end Processed

theorem sound_step (event : Event) (sound : Sound deployment s) :
    Sound deployment (step deployment s event) := by
  cases event with
  | presign p run input =>
      rw [step]
      split
      · exact sound
      · next done => exact sound.presigned done
  | upload blob =>
      rw [step]
      split
      · next known => exact sound.uploaded blob known
      · exact sound
  | finalize p now publicId payload =>
      have outcome := AttachmentService.finalizeRequest_finalized p deployment.maxBytes now s.store s.blobs
        publicId payload
      rw [step]
      revert outcome
      generalize (AttachmentService.finalizeRequest p deployment.maxBytes now s.store s.blobs publicId
        payload).2 = left
      rintro ⟨finalized, fewer⟩
      obtain ⟨store, blobs⟩ := left
      cases finalized with
      | kept =>
          exact ⟨sound.keys, fun blob present => sound.blobs blob (fewer blob present), sound.uploads,
            sound.chunks, sound.numbered, sound.ready⟩
      | handed a inside live _ _ mark processing =>
          exact sound.marked inside live now mark (by rw [processing]; decide)
            (by rw [processing]; decide) blobs fewer
  | process w attachmentId =>
      have outcome := AttachmentTask.run_outcome (w.on deployment s.blobs) s.store attachmentId
      rw [step]
      revert outcome
      generalize AttachmentTask.run (w.on deployment s.blobs) s.store attachmentId = store
      intro outcome
      cases outcome with
      | kept => exact sound
      | failed a found error =>
          obtain ⟨inside, live⟩ := AttachmentTask.getById_live found
          obtain rfl := (AttachmentTask.mem_of_getById found).2
          exact sound.marked inside live w.now _ (by simp) (by simp) s.blobs fun _ present => present
      | ready a found text read filled room rows written own =>
          obtain ⟨inside, live⟩ := AttachmentTask.getById_live found
          obtain rfl := (AttachmentTask.mem_of_getById found).2
          exact sound.processed inside live read filled room written own
  | delete p now publicId =>
      rw [step]
      split
      · exact sound
      · next done =>
          rcases AttachmentService.delete_ok done with rfl | ⟨a, inside, live, _, rfl⟩
          · exact sound
          · exact sound.deleted inside live now

theorem sound_of_run (deployment : Deployment) (events : List Event) :
    Sound deployment (Run.final (step deployment) {} events) := by
  have start : Sound deployment {} := by
    refine ⟨?_, ?_, ?_, ?_, fun _ => rfl, ?_⟩ <;> intro _ inside <;> exact absurd inside List.not_mem_nil
  exact (Run.always_of_step (fun _ event => sound_step event) events start).final

/-- The directories of a scope have the keys of its own attachments only. -/
def OwnDirectories (s : AttachmentSystem) : Prop :=
  ∀ a ∈ s.rows, ∀ orgId scopeType scopeId,
    AttachmentService.keyPrefix orgId scopeType scopeId <+: a.s3Key →
      a.orgId = orgId ∧ a.scopeType = scopeType ∧ a.scopeId = scopeId

theorem Sound.ownDirectories (sound : Sound deployment s) : OwnDirectories s := by
  intro a inside orgId scopeType scopeId starts
  obtain ⟨objectId, key⟩ := sound.keys a inside
  rw [key, AttachmentService.buildKey, List.append_assoc, List.append_assoc] at starts
  obtain ⟨org, type, id⟩ := AttachmentService.keyPrefix_prefix starts
  exact ⟨org.symm, type.symm, id.symm⟩

/-- In every state that is reached, blobs, attachments and chunks belong together, and the directories of
a scope hold nothing of another one. -/
theorem reached_sound (deployment : Deployment) (events : List Event) :
    Sound deployment (Run.final (step deployment) {} events) ∧
      OwnDirectories (Run.final (step deployment) {} events) :=
  ⟨sound_of_run deployment events, (sound_of_run deployment events).ownDirectories⟩

end AttachmentSystem
end Kortex
