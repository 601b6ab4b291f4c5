import Kortex.Library.Traverse
import Kortex.Model.Attachments
import Kortex.Proof.ChunkCoverage

/-
This file proves when a run of `_process_one` settles its attachment.
-/

namespace Kortex

namespace AttachmentRepo

variable {s : AttachmentStore} {columns : ChunkColumns} {orgId attachmentId : Nat}
  {chunks : List (Nat × Str)} {embeddings : Option (List (List PyFloat))} {model : Option Str}
  {tsConfig : Str}

/-- This is the row of a chunk. -/
def chunkRow (orgId attachmentId : Nat) (model : Option Str) (tsConfig : Str) (chunk : Nat × Str)
    (embedding : Option (List PyFloat)) : AttachmentChunk :=
  ⟨orgId, attachmentId, chunk.1, chunk.2, embedding, if embedding.isSome then model else none, tsConfig⟩

/-- The vectors of the chunks, where the loop gets to each of them. -/
def readRow (orgId attachmentId : Nat) (embeddings : Option (List (List PyFloat))) (model : Option Str)
    (tsConfig : Str) (chunk : (Nat × Str) × Nat) : Except WorkerError AttachmentChunk := do
  let embedding ← vectorAt embeddings chunk.2
  return chunkRow orgId attachmentId model tsConfig chunk.1 embedding

theorem insertMany_eq : insertMany s columns orgId attachmentId chunks embeddings model tsConfig = (do
    let rows ← chunks.zipIdx.mapM (readRow orgId attachmentId embeddings model tsConfig)
    if rows.all columns.accepts then return { s with chunks := s.chunks ++ rows }
    else .error .databaseError) := rfl

theorem readRow_eq_ok_iff (chunk : (Nat × Str) × Nat) (row : AttachmentChunk) :
    readRow orgId attachmentId embeddings model tsConfig chunk = .ok row ↔
      ∃ embedding, vectorAt embeddings chunk.2 = .ok embedding ∧
        row = chunkRow orgId attachmentId model tsConfig chunk.1 embedding := by
  rw [readRow]
  cases vectorAt embeddings chunk.2 with
  | error e => exact iff_of_false (fun same => by cases same) (fun ⟨_, same, _⟩ => by cases same)
  | ok embedding =>
      constructor
      · intro same
        exact ⟨embedding, rfl, (Except.ok.inj same).symm⟩
      · rintro ⟨embedding', same, rfl⟩
        rw [Except.ok.inj same]
        rfl

/-- The loop gets to all chunks, and the database takes the row of each of them. -/
def Insertable (columns : ChunkColumns) (chunks : List (Nat × Str))
    (embeddings : Option (List (List PyFloat))) (model : Option Str) (tsConfig : Str) : Prop :=
  ∀ i (small : i < chunks.length), ∃ embedding, vectorAt embeddings i = .ok embedding ∧
    columns.accepts (chunkRow 0 0 model tsConfig chunks[i] embedding) = true

theorem accepts_chunkRow (chunk : Nat × Str) (embedding : Option (List PyFloat)) :
    columns.accepts (chunkRow orgId attachmentId model tsConfig chunk embedding) =
      columns.accepts (chunkRow 0 0 model tsConfig chunk embedding) := rfl

/-- These are the rows of an insert. -/
structure RowsOf (attachmentId : Nat) (chunks : List (Nat × Str)) (rows : List AttachmentChunk) : Prop where
  shown : rows.map (fun row => (row.chunkIndex, row.content)) = chunks
  own : ∀ row ∈ rows, row.attachmentId = attachmentId

theorem row_of_read {rows : List AttachmentChunk}
    (read : chunks.zipIdx.mapM (readRow orgId attachmentId embeddings model tsConfig) = .ok rows) (i : Nat)
    (small : i < chunks.length) (small' : i < rows.length) :
    ∃ embedding, vectorAt embeddings i = .ok embedding ∧
      rows[i] = chunkRow orgId attachmentId model tsConfig chunks[i] embedding := by
  have step := Traverse.getElem_of_mapM read i (by rw [List.length_zipIdx]; exact small) small'
  rw [List.getElem_zipIdx, readRow_eq_ok_iff, Nat.zero_add] at step
  exact step

theorem rowsOf_readRow {rows : List AttachmentChunk}
    (read : chunks.zipIdx.mapM (readRow orgId attachmentId embeddings model tsConfig) = .ok rows) :
    RowsOf attachmentId chunks rows := by
  have lengths := Traverse.length_of_mapM read
  rw [List.length_zipIdx] at lengths
  constructor
  · apply List.ext_getElem
    · rw [List.length_map, lengths]
    · intro i small small'
      rw [List.length_map] at small
      obtain ⟨embedding, _, row⟩ := row_of_read read i small' small
      rw [List.getElem_map, row]
      rfl
  · intro row inside
    obtain ⟨i, small, rfl⟩ := List.mem_iff_getElem.mp inside
    obtain ⟨embedding, _, row⟩ := row_of_read read i (by omega) small
    rw [row]
    rfl

theorem insertMany_eq_ok {s' : AttachmentStore}
    (done : insertMany s columns orgId attachmentId chunks embeddings model tsConfig = .ok s') :
    ∃ rows, RowsOf attachmentId chunks rows ∧ s' = { s with chunks := s.chunks ++ rows } := by
  rw [insertMany_eq] at done
  cases read : chunks.zipIdx.mapM (readRow orgId attachmentId embeddings model tsConfig) with
  | error e =>
      rw [read] at done
      cases done
  | ok rows =>
      rw [read] at done
      change (if rows.all columns.accepts = true then _ else _) = _ at done
      split at done
      · exact ⟨rows, rowsOf_readRow read, (Except.ok.inj done).symm⟩
      · cases done

/-- An insert is done exactly when there is a row for each chunk that the database takes. -/
theorem insertMany_isOk_iff :
    (∃ s', insertMany s columns orgId attachmentId chunks embeddings model tsConfig = .ok s') ↔
      Insertable columns chunks embeddings model tsConfig := by
  rw [insertMany_eq]
  cases read : chunks.zipIdx.mapM (readRow orgId attachmentId embeddings model tsConfig) with
  | error e =>
      refine iff_of_false (fun ⟨_, same⟩ => by cases same) ?_
      intro insertable
      obtain ⟨front, chunk, back, whole, _, raised⟩ := (Traverse.mapM_eq_error_iff _ e).mp read
      have inside : chunk ∈ chunks.zipIdx := by
        rw [whole]
        exact List.mem_append_right _ List.mem_cons_self
      obtain ⟨i, small, rfl⟩ := List.mem_iff_getElem.mp inside
      rw [List.length_zipIdx] at small
      obtain ⟨embedding, given, _⟩ := insertable i small
      rw [List.getElem_zipIdx, Nat.zero_add] at raised
      have row := (@readRow_eq_ok_iff orgId attachmentId embeddings model tsConfig (chunks[i], i) _).mpr
        ⟨embedding, given, rfl⟩
      rw [row] at raised
      cases raised
  | ok rows =>
      have lengths := Traverse.length_of_mapM read
      rw [List.length_zipIdx] at lengths
      have all : rows.all columns.accepts = true ↔ Insertable columns chunks embeddings model tsConfig := by
        rw [List.all_eq_true]
        constructor
        · intro taken i small
          obtain ⟨embedding, given, row⟩ := row_of_read read i small (by omega)
          have own := taken rows[i] (List.getElem_mem _)
          rw [row, accepts_chunkRow] at own
          exact ⟨embedding, given, own⟩
        · intro insertable row inside
          obtain ⟨i, small, rfl⟩ := List.mem_iff_getElem.mp inside
          obtain ⟨embedding, given, row⟩ := row_of_read read i (by omega) small
          obtain ⟨embedding', given', own⟩ := insertable i (by omega)
          rw [given, Except.ok.injEq] at given'
          rw [row, accepts_chunkRow, given']
          exact own
      change (∃ s', (if rows.all columns.accepts = true then _ else _) = Except.ok s') ↔ _
      split
      · next taken => exact iff_of_true ⟨_, rfl⟩ (all.mp taken)
      · next refused => exact iff_of_false (fun ⟨_, same⟩ => by cases same) fun own => refused (all.mpr own)

end AttachmentRepo

namespace AttachmentTask

variable {r : ProcessRun} {s : AttachmentStore} {attachmentId : Nat} {a : Attachment}

/-- This is what the embedder gives for the chunks: nothing where it is not available or says that it
failed. -/
def Answers (r : ProcessRun) (chunks : List (Nat × Str)) (vectors : Option (Str × List (List PyFloat))) :
    Prop :=
  vectors = none ∧ (r.getEmbedder = .error .keyError ∨ r.getEmbedder = .error .embeddingError) ∨
    ∃ embedder, r.getEmbedder = .ok embedder ∧
      (vectors = none ∧ embedder.embed (chunks.map Prod.snd) = .error .embeddingError ∨
        ∃ given, embedder.embed (chunks.map Prod.snd) = .ok given ∧
          vectors = some (embedder.modelId, given))

theorem vectorsOf_eq_ok_iff (chunks : List (Nat × Str)) (filled : chunks ≠ [])
    (vectors : Option (Str × List (List PyFloat))) :
    vectorsOf r chunks = .ok vectors ↔ Answers r chunks vectors := by
  rw [vectorsOf, Answers]
  cases r.getEmbedder with
  | error e => cases e <;> simp [eq_comm]
  | ok embedder =>
      dsimp only
      rw [if_neg filled]
      cases given : embedder.embed (chunks.map Prod.snd) with
      | error e => cases e <;> simp [given, eq_comm]
      | ok answer => simp [given, eq_comm]

/-- The chunks of the text with the vectors that the embedder gives can be stored. -/
def Storable (r : ProcessRun) (s : AttachmentStore) (a : Attachment) (text : Str) : Prop :=
  ∃ vectors, Answers r (Chunker.chunkText text r.chunkTokens r.chunkOverlap) vectors ∧
    AttachmentRepo.Insertable r.columns (Chunker.chunkText text r.chunkTokens r.chunkOverlap)
      (vectors.map Prod.snd) (vectors.map Prod.fst)
      (configForScope (superuser a.orgId) s.db a.scopeType a.scopeId)

/-- The run meets no exception that it does not catch. -/
def GoesThrough (r : ProcessRun) (s : AttachmentStore) (a : Attachment) : Prop :=
  (∃ error, textOf r a = .error error ∧ PyValue.accepts error = true) ∨
    ∃ text, textOf r a = .ok text ∧
      (Str.strip text = [] ∨ 0 < r.chunkTokens ∧ Storable r s a text)

/-- The attachment is ready with the chunks of its text, or it has failed with an error. -/
def Settled (r : ProcessRun) (a : Attachment) (s : AttachmentStore) : Prop :=
  ∃ row ∈ s.attachments.rows, row.id = a.id ∧
    ((row.processingStatus = .ready ∧ ∃ text, textOf r a = .ok text ∧
        ((s.chunks.filter fun c => c.attachmentId == a.id).map fun c => (c.chunkIndex, c.content)).Perm
          (Chunker.chunkText text r.chunkTokens r.chunkOverlap)) ∨
      (row.processingStatus = .failed ∧ row.processingError.isSome = true))

theorem mem_of_getById {p : Principal} (found : AttachmentRepo.getById p s attachmentId = some a) :
    a ∈ s.attachments.rows ∧ a.id = attachmentId := by
  have inside := List.mem_of_find?_eq_some found
  have own := List.find?_some found
  simp only [Bool.and_eq_true, beq_iff_eq] at own
  exact ⟨(List.mem_filter.mp inside).1, own.1⟩

/-- A mark that is written stands on the row. -/
theorem mem_marked {now : Instant} {mark : AttachmentRepo.Mark} {s' : AttachmentStore}
    (done : AttachmentRepo.markStatus s now a.id mark = .ok s') (inside : a ∈ s.attachments.rows) :
    AttachmentRepo.marked now mark a ∈ s'.attachments.rows ∧ s'.chunks = s.chunks := by
  rw [AttachmentRepo.markStatus] at done
  split at done
  · rw [← Except.ok.inj done]
    refine ⟨(Table.mem_update _ _ _ (AttachmentRepo.marked_ident now mark) _).mpr ⟨a, inside, ?_⟩, rfl⟩
    rw [Table.changeRow, if_pos (beq_self_eq_true a.id)]
  · cases done

theorem markStatus_failed_isOk_iff (now : Instant) (error : Str) :
    (∃ s', AttachmentRepo.markStatus s now attachmentId { status := .failed, error := some error } =
      .ok s') ↔ PyValue.accepts error = true := by
  rw [AttachmentRepo.markStatus]
  have own : (⟨.failed, some error, none, none, none⟩ : AttachmentRepo.Mark).storable =
      PyValue.accepts error := by
    simp [AttachmentRepo.Mark.storable, Audit.acceptsColumn]
  rw [own]
  cases PyValue.accepts error <;> simp

theorem markStatus_ready (now : Instant) :
    ∃ s', AttachmentRepo.markStatus s now attachmentId { status := .ready } = .ok s' :=
  ⟨_, if_pos rfl⟩

/-- The run marks the row as failed and ends. -/
def fail (r : ProcessRun) (s : AttachmentStore) (attachmentId : Nat) (error word : Str) :
    Except WorkerError (Str × AttachmentStore) := do
  let s ← AttachmentRepo.markStatus s r.now attachmentId { status := .failed, error := some error }
  return (word, s)

/-- The end of a run writes the chunks and marks the row. -/
def storeChunks (r : ProcessRun) (s : AttachmentStore) (a : Attachment) (attachmentId : Nat)
    (chunks : List (Nat × Str)) : Except WorkerError (Str × AttachmentStore) := do
  let vectors ← vectorsOf r chunks
  let s ← AttachmentRepo.insertMany (AttachmentRepo.deleteForAttachment s attachmentId) r.columns a.orgId
    attachmentId chunks (vectors.map Prod.snd) (vectors.map Prod.fst)
    (configForScope (superuser a.orgId) s.db a.scopeType a.scopeId)
  let s ← AttachmentRepo.markStatus s r.now attachmentId { status := .ready }
  return (if vectors.isSome then "ready" else "ready_no_embeddings", s)

section Branches

variable (found : AttachmentRepo.getById (superuser 0) s attachmentId = some a)

include found

theorem processOne_of_error (error : Str) (read : textOf r a = .error error) :
    processOne r s attachmentId = fail r s attachmentId error "failed" := by
  rw [processOne, found]
  dsimp only
  rw [read]
  rfl

theorem processOne_of_blank (text : Str) (read : textOf r a = .ok text) (blank : Str.strip text = []) :
    processOne r s attachmentId = fail r s attachmentId "no extractable text" "empty" := by
  rw [processOne, found]
  dsimp only
  rw [read]
  dsimp only
  rw [if_pos blank]
  rfl

theorem processOne_of_zero (text : Str) (read : textOf r a = .ok text) (filled : Str.strip text ≠ [])
    (zero : r.chunkTokens = 0) : processOne r s attachmentId = .error .valueError := by
  rw [processOne, found]
  dsimp only
  rw [read]
  dsimp only
  rw [if_neg filled, chunksOf, if_pos zero]
  rfl

theorem processOne_eq_storeChunks (text : Str) (read : textOf r a = .ok text)
    (filled : Str.strip text ≠ []) (room : r.chunkTokens ≠ 0) :
    processOne r s attachmentId = storeChunks r s a attachmentId
      (Chunker.chunkText text r.chunkTokens r.chunkOverlap) := by
  rw [processOne, found]
  dsimp only
  rw [read]
  dsimp only
  rw [if_neg filled, chunksOf, if_neg room]
  rfl

end Branches

theorem fail_isOk_iff (error word : Str) :
    (∃ outcome, fail r s attachmentId error word = .ok outcome) ↔ PyValue.accepts error = true := by
  rw [fail, ← @markStatus_failed_isOk_iff s attachmentId r.now]
  cases AttachmentRepo.markStatus s r.now attachmentId { status := .failed, error := some error } with
  | error e => exact iff_of_false (fun ⟨_, same⟩ => by cases same) (fun ⟨_, same⟩ => by cases same)
  | ok s' => exact iff_of_true ⟨_, rfl⟩ ⟨s', rfl⟩

theorem storeChunks_isOk_iff (text : Str) (filled : Str.strip text ≠ []) (room : 0 < r.chunkTokens) :
    (∃ outcome, storeChunks r s a attachmentId (Chunker.chunkText text r.chunkTokens r.chunkOverlap) =
      .ok outcome) ↔ Storable r s a text := by
  have some_chunk := Chunker.chunkText_ne_nil text r.chunkTokens r.chunkOverlap room filled
  rw [storeChunks]
  cases given : vectorsOf r (Chunker.chunkText text r.chunkTokens r.chunkOverlap) with
  | error e =>
      refine iff_of_false (fun ⟨_, same⟩ => by cases same) ?_
      rintro ⟨vectors, answers, _⟩
      rw [(vectorsOf_eq_ok_iff _ some_chunk vectors).mpr answers] at given
      cases given
  | ok vectors =>
      have answers := (vectorsOf_eq_ok_iff _ some_chunk vectors).mp given
      have only (other : Option (Str × List (List PyFloat)))
          (answers' : Answers r (Chunker.chunkText text r.chunkTokens r.chunkOverlap) other) :
          other = vectors := by
        have same := (vectorsOf_eq_ok_iff _ some_chunk other).mpr answers'
        rw [given, Except.ok.injEq] at same
        exact same.symm
      have stored : Storable r s a text ↔ AttachmentRepo.Insertable r.columns
          (Chunker.chunkText text r.chunkTokens r.chunkOverlap) (vectors.map Prod.snd)
          (vectors.map Prod.fst) (configForScope (superuser a.orgId) s.db a.scopeType a.scopeId) := by
        constructor
        · rintro ⟨other, answers', insertable⟩
          rw [only other answers'] at insertable
          exact insertable
        · exact fun insertable => ⟨vectors, answers, insertable⟩
      rw [stored, ← @AttachmentRepo.insertMany_isOk_iff
        (AttachmentRepo.deleteForAttachment s attachmentId) _ a.orgId attachmentId]
      constructor
      · rintro ⟨outcome, done⟩
        cases inserted : AttachmentRepo.insertMany (AttachmentRepo.deleteForAttachment s attachmentId)
            r.columns a.orgId attachmentId (Chunker.chunkText text r.chunkTokens r.chunkOverlap)
            (vectors.map Prod.snd) (vectors.map Prod.fst)
            (configForScope (superuser a.orgId) s.db a.scopeType a.scopeId) with
        | error e =>
            simp only [bind, Except.bind, inserted] at done
            cases done
        | ok s' => exact ⟨s', rfl⟩
      · rintro ⟨s', inserted⟩
        obtain ⟨s'', marked⟩ := @markStatus_ready s' attachmentId r.now
        simp only [bind, Except.bind, inserted, marked]
        exact ⟨_, rfl⟩

/-- A run ends without an exception exactly when it goes through. -/
theorem processOne_isOk_iff (found : AttachmentRepo.getById (superuser 0) s attachmentId = some a) :
    (∃ outcome, processOne r s attachmentId = .ok outcome) ↔ GoesThrough r s a := by
  cases read : textOf r a with
  | error error =>
      have goes : GoesThrough r s a ↔ PyValue.accepts error = true := by
        simp [GoesThrough, read]
      rw [goes, processOne_of_error found error read, fail_isOk_iff]
  | ok text =>
      have goes : GoesThrough r s a ↔ Str.strip text = [] ∨ 0 < r.chunkTokens ∧ Storable r s a text := by
        simp [GoesThrough, read]
      rw [goes]
      by_cases blank : Str.strip text = []
      · rw [processOne_of_blank found text read blank, fail_isOk_iff]
        exact iff_of_true (by decide) (Or.inl blank)
      · rw [or_iff_right blank]
        by_cases room : r.chunkTokens = 0
        · rw [processOne_of_zero found text read blank room]
          exact iff_of_false (fun ⟨_, same⟩ => by cases same) (fun both => Nat.ne_of_gt both.1 room)
        · rw [processOne_eq_storeChunks found text read blank room,
            storeChunks_isOk_iff text blank (Nat.pos_of_ne_zero room),
            and_iff_right (Nat.pos_of_ne_zero room)]

theorem settled_of_fail {word' : Str} {s' : AttachmentStore} (error word : Str)
    (inside : a ∈ s.attachments.rows) (done : fail r s a.id error word = .ok (word', s')) :
    Settled r a s' := by
  rw [fail] at done
  cases marked : AttachmentRepo.markStatus s r.now a.id { status := .failed, error := some error } with
  | error e =>
      rw [marked] at done
      cases done
  | ok s₁ =>
      rw [marked] at done
      have last : s₁ = s' := congrArg Prod.snd (Except.ok.inj done)
      rw [← last]
      exact ⟨_, (mem_marked marked inside).1, rfl, Or.inr ⟨rfl, rfl⟩⟩

/-- The chunks of the attachment are those that were written. -/
theorem settled_of_storeChunks {word : Str} {s' : AttachmentStore} (inside : a ∈ s.attachments.rows)
    (text : Str) (read : textOf r a = .ok text)
    (done : storeChunks r s a a.id (Chunker.chunkText text r.chunkTokens r.chunkOverlap) =
      .ok (word, s')) : Settled r a s' := by
  rw [storeChunks] at done
  cases given : vectorsOf r (Chunker.chunkText text r.chunkTokens r.chunkOverlap) with
  | error e =>
      rw [given] at done
      cases done
  | ok vectors =>
      rw [given] at done
      cases inserted : AttachmentRepo.insertMany (AttachmentRepo.deleteForAttachment s a.id)
          r.columns a.orgId a.id (Chunker.chunkText text r.chunkTokens r.chunkOverlap)
          (vectors.map Prod.snd) (vectors.map Prod.fst)
          (configForScope (superuser a.orgId) s.db a.scopeType a.scopeId) with
      | error e =>
          simp only [bind, Except.bind, inserted] at done
          cases done
      | ok s₁ =>
          obtain ⟨s₂, marked⟩ := @markStatus_ready s₁ a.id r.now
          simp only [bind, Except.bind, inserted, marked] at done
          obtain ⟨rows, written, rfl⟩ := AttachmentRepo.insertMany_eq_ok inserted
          obtain ⟨row, chunks⟩ := mem_marked marked inside
          have last : s₂ = s' := congrArg Prod.snd (Except.ok.inj done)
          rw [← last]
          refine ⟨_, row, rfl, Or.inl ⟨rfl, text, read, ?_⟩⟩
          have old : ((AttachmentRepo.deleteForAttachment s a.id).chunks.filter fun c =>
              c.attachmentId == a.id) = [] := by
            rw [List.filter_eq_nil_iff]
            intro c present
            have other := List.of_mem_filter present
            simpa using other
          have new : (rows.filter fun c => c.attachmentId == a.id) = rows := by
            rw [List.filter_eq_self]
            intro c present
            simp [written.own c present]
          rw [chunks, List.filter_append, old, new, List.nil_append, written.shown]

theorem processOne_settles (found : AttachmentRepo.getById (superuser 0) s attachmentId = some a)
    {word : Str} {s' : AttachmentStore} (done : processOne r s attachmentId = .ok (word, s')) :
    Settled r a s' := by
  obtain ⟨inside, rfl⟩ := mem_of_getById found
  cases read : textOf r a with
  | error error =>
      rw [processOne_of_error found error read] at done
      exact settled_of_fail error _ inside done
  | ok text =>
      by_cases blank : Str.strip text = []
      · rw [processOne_of_blank found text read blank] at done
        exact settled_of_fail _ _ inside done
      · by_cases room : r.chunkTokens = 0
        · rw [processOne_of_zero found text read blank room] at done
          cases done
        · rw [processOne_eq_storeChunks found text read blank room] at done
          exact settled_of_storeChunks inside text read done

/-- A run settles its attachment exactly when it goes through, or when the attachment was settled. -/
theorem run_settles_iff (r : ProcessRun) (s : AttachmentStore) (attachmentId : Nat) (a : Attachment)
    (found : AttachmentRepo.getById (superuser 0) s attachmentId = some a) :
    Settled r a (run r s attachmentId) ↔ GoesThrough r s a ∨ Settled r a s := by
  rw [← processOne_isOk_iff found, run]
  cases done : processOne r s attachmentId with
  | error e =>
      rw [or_iff_right]
      exact fun ⟨_, same⟩ => by cases same
  | ok outcome =>
      obtain ⟨word, s'⟩ := outcome
      exact iff_of_true (processOne_settles found done) (Or.inl ⟨_, rfl⟩)

def sampleAttachment : Attachment where
  id := 1
  publicId := 7
  orgId := 1
  scopeType := .org
  scopeId := 1
  filename := "notes.txt"
  mime := none
  sizeBytes := 2
  sha256 := none
  s3Bucket := "kortex"
  s3Key := "notes"
  processingStatus := .processing
  processingError := none
  processedAt := none
  deletedAt := none

def sampleStore : AttachmentStore where
  attachments := Table.empty.insert sampleAttachment (Table.fresh_empty sampleAttachment)

/-- The library of the embedder is missing, and its import raises. -/
def sampleRun : ProcessRun where
  getBytes _ _ := .ok [104, 105]
  extractors := ⟨id, fun _ => .ok [], fun _ => .ok [],
    fun bytes => bytes.map fun byte => Char.ofNat byte.toNat⟩
  chunkTokens := 512
  chunkOverlap := 64
  getEmbedder := .error .other
  now := 0
  columns := ⟨fun _ => true, fun _ => true⟩

theorem sample_found : AttachmentRepo.getById (superuser 0) sampleStore 1 = some sampleAttachment := rfl

/-- The attachment stays in `processing`. -/
theorem missing_library_leaves_processing :
    ¬ Settled sampleRun sampleAttachment (run sampleRun sampleStore 1) := by
  have raised : processOne sampleRun sampleStore 1 = .error .other := by
    rw [processOne_eq_storeChunks sample_found "hi" rfl (by decide +kernel) (by decide)]
    rfl
  have same : run sampleRun sampleStore 1 = sampleStore := by rw [run, raised]
  rw [same]
  rintro ⟨row, inside, _, ready | failed⟩
  · rw [List.mem_singleton.mp inside] at ready
    exact absurd ready.1 (by decide)
  · rw [List.mem_singleton.mp inside] at failed
    exact absurd failed.1 (by decide)

theorem run_settles_iff_missing_library :
    Settled sampleRun sampleAttachment (run sampleRun sampleStore 1) ↔
      GoesThrough sampleRun sampleStore sampleAttachment ∨ Settled sampleRun sampleAttachment sampleStore :=
  run_settles_iff sampleRun sampleStore 1 sampleAttachment sample_found

end AttachmentTask
end Kortex
