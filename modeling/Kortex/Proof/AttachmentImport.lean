import Kortex.Proof.Archive
import Kortex.Proof.AttachmentReads
import Kortex.Proof.Finalize
import Kortex.Model.AttachmentImport

/-
This file proves what an import makes of the attachments that an export wrote.
-/

namespace Kortex

namespace AttachmentRepo

/-- A new id is greater than all ids of the table. -/
theorem lt_nextId (s : AttachmentSystem) (gap : Nat) (a : Attachment) (inside : a ∈ s.rows) :
    a.id < nextId Attachment.id s.rows gap := by
  have sorted : s.rows.Pairwise fun a b => a.id < b.id :=
    s.store.attachments.pairwise.imp fun apart => apart.1
  obtain ⟨last, whole⟩ := List.getLast?_isSome.mpr (List.ne_nil_of_mem inside) |> Option.isSome_iff_exists.mp
  obtain ⟨front, split⟩ := List.getLast?_eq_some_iff.mp whole
  have bound : a.id ≤ last.id := by
    rw [split] at inside sorted
    rcases List.mem_append.mp inside with before | same
    · exact ((List.pairwise_append.mp sorted).2.2 a before last (List.mem_singleton_self last)).le
    · rw [List.mem_singleton.mp same]
  rw [nextId, whole, Option.map_some, Option.getD_some]
  omega

end AttachmentRepo

namespace AttachmentService

variable {maxBytes : Nat} {p : Principal} {s : AttachmentSystem}

/-- The columns of the table accept the values of a presign. -/
def columnsAccept (run : PresignRun) (key : Str) (input : PresignIn) : Bool :=
  Audit.acceptsColumn 500 (some input.filename) && Audit.acceptsColumn 200 input.mime &&
    Audit.acceptsColumn 200 (some run.bucket) && Audit.acceptsColumn 500 (some key) &&
    Json.storableMembers input.metadata

/-- No row has the public id or the key of the new one. -/
def Unused (s : AttachmentSystem) (publicId : Uuid) (key : Str) : Prop :=
  ∀ other ∈ s.rows, other.publicId ≠ publicId ∧ other.s3Key ≠ key

theorem presignUpload_isOk_iff (run : PresignRun) (input : PresignIn) :
    (presignUpload p s maxBytes run input).isOk ↔
      p.hasKeyScope "write:attachment" = true ∧
      AccessControl.canWrite p ⟨⟨input.scopeType, input.scopeId⟩, input.sensitivity⟩ = true ∧
      input.sizeHint.getD 0 ≤ maxBytes ∧
      columnsAccept run (buildKey p.orgId input.scopeType input.scopeId run.objectId input.filename)
        input = true ∧
      Unused s run.ctx.newPublicId
        (buildKey p.orgId input.scopeType input.scopeId run.objectId input.filename) ∧
      run.signs = true := by
  rw [presignUpload]
  generalize buildKey p.orgId input.scopeType input.scopeId run.objectId input.filename = key
  dsimp only
  cases scope : p.hasKeyScope "write:attachment" with
  | false => exact ⟨(fun done => by cases done), fun all => absurd all.1 (by simp)⟩
  | true =>
      cases write : AccessControl.canWrite p ⟨⟨input.scopeType, input.scopeId⟩, input.sensitivity⟩ with
      | false => exact ⟨(fun done => by cases done), fun all => absurd all.2.1 (by simp)⟩
      | true =>
          rw [if_neg (by simp), if_neg (by simp)]
          by_cases large : maxBytes < input.sizeHint.getD 0
          · rw [if_pos large]
            exact ⟨(fun done => by cases done), fun all => absurd all.2.2.1 (not_le.mpr large)⟩
          · rw [if_neg large, AttachmentRepo.create]
            have accept : AttachmentRepo.storable (AttachmentRepo.newRow p s run key input) input.metadata =
                columnsAccept run key input := rfl
            dsimp only
            rw [accept]
            cases columns : columnsAccept run key input with
            | false => exact ⟨(fun done => by cases done), fun all => absurd all.2.2.2.1 (by simp)⟩
            | true =>
                have fresh : (∀ other ∈ s.store.attachments.rows,
                    other.id < (AttachmentRepo.newRow p s run key input).id ∧
                      other.publicId ≠ (AttachmentRepo.newRow p s run key input).publicId ∧
                        other.s3Key ≠ (AttachmentRepo.newRow p s run key input).s3Key) ↔
                    Unused s run.ctx.newPublicId key := by
                  refine forall₂_congr fun other inside => ?_
                  exact and_iff_right (AttachmentRepo.lt_nextId s run.ctx.idGap other inside)
                rw [if_pos rfl, Table.insert?]
                by_cases unused : Unused s run.ctx.newPublicId key
                · rw [dif_pos (fresh.mpr unused)]
                  cases signs : run.signs with
                  | false => exact ⟨(fun done => by cases done), fun all => absurd all.2.2.2.2.2 (by simp)⟩
                  | true => exact ⟨fun _ => ⟨rfl, rfl, not_lt.mp large, rfl, unused, rfl⟩, fun _ => rfl⟩
                · rw [dif_neg (fun all => unused (fresh.mp all))]
                  exact ⟨(fun done => by cases done), fun all => absurd all.2.2.2.2.1 unused⟩

end AttachmentService

namespace ExportService

open AttachmentService (head finalize presignUpload presignUpload_ok presignUpload_isOk_iff mem_deleteBlob
  columnsAccept Unused slash_notMem_str head_put)

/-! The importer finds the row and the blob of each attachment. -/

/-- This is the directory of the blobs in the archive. -/
def blobsRoot : Str := "blobs/"

theorem blobPath_eq (a : ExportedAttachment) :
    blobPath a = blobsRoot ++ (a.publicId.str ++ '/' :: a.filename) := by
  unfold blobPath
  rw [List.append_assoc, List.append_assoc]
  rfl

/-- The directory of a blob says whose it is. -/
theorem blobPath_publicId (a b : ExportedAttachment) (same : blobPath a = blobPath b) :
    a.publicId = b.publicId := by
  rw [blobPath_eq, blobPath_eq, List.append_cancel_left_eq] at same
  have starts : a.publicId.str ++ '/' :: a.filename <+: b.publicId.str ++ '/' :: b.filename := by
    rw [same]
  exact Uuid.str_injective ((Split.prefix_append_separator _ _ _ _ (slash_notMem_str _)
    (slash_notMem_str _)).mp starts).1

theorem getmember_foldl_own (attachments : List ExportedAttachment) (tar : Tar) (a : ExportedAttachment)
    (distinct : (attachments.map ExportedAttachment.publicId).Nodup) (inside : a ∈ attachments) :
    (attachments.foldl (fun tar a => addBytes tar (blobPath a) a.blob) tar).getmember (blobPath a) =
      some a.blob := by
  induction attachments using List.reverseRecOn with
  | nil => exact absurd inside List.not_mem_nil
  | append_singleton front last ih =>
      rw [List.map_append, List.nodup_append] at distinct
      rw [List.foldl_append, List.foldl_cons, List.foldl_nil]
      rcases List.mem_append.mp inside with before | same
      · have other : blobPath last ≠ blobPath a := by
          intro same
          exact distinct.2.2 a.publicId (List.mem_map_of_mem before) last.publicId (by simp)
            (blobPath_publicId last a same).symm
        rw [getmember_addBytes_of_ne _ _ _ _ other]
        exact ih distinct.1 before
      · rw [List.mem_singleton.mp same]
        exact getmember_addBytes _ _ _

theorem getmember_blob (input : ExportInput)
    (distinct : (input.attachments.map ExportedAttachment.publicId).Nodup) (a : ExportedAttachment)
    (inside : a ∈ input.attachments) : (streamExport input).getmember (blobPath a) = some a.blob := by
  have other (name : Str) (start : name.head? ≠ some 'b') : name ≠ blobPath a :=
    (blobPath_ne a name start).symm
  simp only [streamExport]
  rw [addJsonl, getmember_addBytes_of_ne _ _ _ _ (other _ (by decide)), addJsonl,
    getmember_addBytes_of_ne _ _ _ _ (other _ (by decide)), addJsonl,
    getmember_addBytes_of_ne _ _ _ _ (other _ (by decide))]
  exact getmember_foldl_own _ _ a distinct inside

/-- The name of the file is one that the archive keeps. -/
def Named (a : ExportedAttachment) : Prop := ∃ c ∈ a.filename.getLast?, c ≠ '/'

theorem blobOf_streamExport (input : ExportInput)
    (distinct : (input.attachments.map ExportedAttachment.publicId).Nodup) (a : ExportedAttachment)
    (inside : a ∈ input.attachments) (named : Named a) :
    blobOf (streamExport input) a.publicId.str a.filename = a.blob.data.toList := by
  obtain ⟨c, last, other⟩ := named
  have kept : Str.rstripChar '/' (blobPath a) = blobPath a := by
    obtain ⟨front, whole⟩ := List.getLast?_eq_some_iff.mp last
    have split : blobPath a = (blobsRoot ++ (a.publicId.str ++ '/' :: front)) ++ [c] := by
      rw [blobPath_eq, whole]
      simp only [List.append_assoc, List.cons_append]
    rw [Str.rstripChar, split, List.rdropWhile_concat_neg _ _ _ (by simpa using other)]
  change ((((streamExport input).getmember (Str.rstripChar '/' (blobPath a))).map
    fun body => body.data.toList).getD []) = _
  rw [kept, getmember_blob input distinct a inside]
  rfl

/-- This is the key of the copy. -/
def copyKey (p : Principal) (target : ScopeFilter) (run : AttachmentRun) (a : ExportedAttachment) : Str :=
  AttachmentService.buildKey p.orgId target.scopeType target.scopeId run.objectId a.filename

/-- These are the arguments of the presign for an attachment of the archive. -/
def copyIn (target : ScopeFilter) (a : ExportedAttachment) : PresignIn where
  scopeType := target.scopeType
  scopeId := target.scopeId
  filename := a.filename
  mime := a.mime
  sensitivity := a.sensitivity
  metadata := Dict.set a.metadata "imported_from" (.str a.publicId.str)

theorem ofValue?_value (sensitivity : Sensitivity) :
    Sensitivity.ofValue? sensitivity.value = some sensitivity := by
  cases sensitivity <;> rfl

theorem attachmentInput_attachmentRow (target : ScopeFilter) (a : ExportedAttachment) :
    attachmentInput target (attachmentRow a) = some (a.publicId.str, copyIn target a) := by
  have mime : readOptionalStr (optionalStr a.mime) = some a.mime := by
    cases a.mime <;> rfl
  change (do
    let sensitivity ← Sensitivity.ofValue? a.sensitivity.value
    let mime ← readOptionalStr (optionalStr a.mime)
    let metadata ← some (some a.metadata)
    return (a.publicId.str, { copyIn target a with
      sensitivity := sensitivity, mime := mime
      metadata := Dict.set (metadata.getD []) "imported_from" (.str a.publicId.str) })) = _
  rw [ofValue?_value, mime]
  rfl

/-! One round of the loop. -/

section Round

variable {maxBytes : Nat} {store : PutBlobs} {p : Principal} {target : ScopeFilter} {tar : Tar}
  {s s' : AttachmentSystem}

/-- Rows that were there stay with their columns and their blobs. -/
structure Kept (s s' : AttachmentSystem) : Prop where
  rows : s.rows <+: s'.rows
  columns : ∀ a ∈ s.rows, s'.columnsOf a = s.columnsOf a
  blobs : ∀ a ∈ s.rows, head s'.blobs a.s3Bucket a.s3Key = head s.blobs a.s3Bucket a.s3Key
  chunks : s'.store.chunks = s.store.chunks

theorem Kept.refl (s : AttachmentSystem) : Kept s s := ⟨List.prefix_rfl, fun _ _ => rfl, fun _ _ => rfl, rfl⟩

theorem Kept.trans {s'' : AttachmentSystem} (first : Kept s s') (second : Kept s' s'') : Kept s s'' where
  rows := first.rows.trans second.rows
  columns a inside := (second.columns a (first.rows.subset inside)).trans (first.columns a inside)
  blobs a inside := (second.blobs a (first.rows.subset inside)).trans (first.blobs a inside)
  chunks := second.chunks.trans first.chunks

/-- A new row stands apart from the old ones. -/
theorem apart_of_last (a : Attachment) (rows : List Attachment) (s : AttachmentSystem)
    (whole : s.rows = rows ++ [a]) (b : Attachment) (inside : b ∈ rows) :
    b.id ≠ a.id ∧ b.publicId ≠ a.publicId ∧ b.s3Key ≠ a.s3Key := by
  have apart := s.store.attachments.pairwise
  rw [AttachmentSystem.rows] at whole
  rw [whole] at apart
  obtain ⟨ids, others⟩ := (List.pairwise_append.mp apart).2.2 b inside a (List.mem_singleton_self a)
  exact ⟨Nat.ne_of_lt ids, others⟩

/-- What a presign has checked, and the columns of its row. -/
theorem presignUpload_checked {run : PresignRun} {input : PresignIn} {a : Attachment}
    (done : presignUpload p s maxBytes run input = .ok (a, s')) :
    p.hasKeyScope "write:attachment" = true ∧ input.sizeHint.getD 0 ≤ maxBytes ∧
      s'.columns = Dict.set s.columns a.id ⟨input.sensitivity, p.userId, input.metadata, run.ctx.now⟩ := by
  rw [presignUpload] at done
  dsimp only at done
  split at done
  · cases done
  · next scope =>
      split at done
      · cases done
      · split at done
        · cases done
        · next small =>
            split at done
            · cases done
            · next created making =>
                split at done
                · obtain rfl := Except.ok.inj done
                  rw [AttachmentRepo.create] at making
                  split at making
                  · obtain ⟨attachments, inserted, same⟩ := Option.map_eq_some_iff.mp making
                    obtain ⟨rfl, rfl⟩ := Prod.mk.inj same
                    exact ⟨by simpa using scope, not_lt.mp small, rfl⟩
                  · cases making
                · cases done

/-- A presign leaves all rows as they are. -/
theorem kept_presign {run : PresignRun} {input : PresignIn} {a : Attachment}
    (done : presignUpload p s maxBytes run input = .ok (a, s')) : Kept s s' := by
  obtain ⟨_, rows, chunks, blobs, _⟩ := presignUpload_ok done
  obtain ⟨_, _, columns⟩ := presignUpload_checked done
  refine ⟨⟨[a], rows.symm⟩, ?_, ?_, chunks⟩
  · intro b inside
    have other := (apart_of_last a s.rows s' rows b inside).1
    rw [AttachmentSystem.columnsOf, AttachmentSystem.columnsOf, columns, Dict.get?_set, if_neg other.symm]
  · intro b _
    rw [blobs]

theorem columnsOf_presign {run : PresignRun} {input : PresignIn} {a : Attachment}
    (done : presignUpload p s maxBytes run input = .ok (a, s')) :
    s'.columnsOf a = ⟨input.sensitivity, p.userId, input.metadata, run.ctx.now⟩ := by
  rw [AttachmentSystem.columnsOf, (presignUpload_checked done).2.2, Dict.get?_set, if_pos rfl]
  rfl

/-- The attachment of a presign is found by its public id. -/
theorem getByPublicId_presign {run : PresignRun} {input : PresignIn} {a : Attachment}
    (done : presignUpload p s maxBytes run input = .ok (a, s')) :
    AttachmentRepo.getByPublicId p s'.store a.publicId = some a := by
  obtain ⟨row, rows, _⟩ := presignUpload_ok done
  have inside : a ∈ tenantQuery Attachment.orgId p s'.store.attachments.rows := by
    rw [mem_tenantQuery]
    refine ⟨?_, Or.inr (by rw [row]; rfl)⟩
    change a ∈ s'.rows
    rw [rows]
    exact List.mem_append_right _ (List.mem_singleton_self a)
  have live : a.deletedAt = none := by rw [row]; rfl
  cases found : AttachmentRepo.getByPublicId p s'.store a.publicId with
  | none =>
      have missing := List.find?_eq_none.mp found a inside
      exact absurd missing (by simp [live])
  | some b =>
      obtain ⟨member, same⟩ := AttachmentService.getByPublicId_eq_some found
      change b ∈ s'.rows at member
      rw [rows] at member
      rcases List.mem_append.mp member with old | new
      · exact absurd same (apart_of_last a s.rows s' rows b old).2.1
      · rw [List.mem_singleton.mp new]

/-- A finalize touches no blob but that of the attachment. -/
theorem head_finalize (now : Instant) (store : AttachmentStore) (blobs : List Blob) (a : Attachment)
    (found : AttachmentRepo.getByPublicId p store a.publicId = some a) (payload : FinalizeIn)
    (bucket key : Str) (other : a.s3Key ≠ key) :
    head (finalize p maxBytes now store blobs a.publicId payload).2.2 bucket key = head blobs bucket key := by
  rw [finalize, found]
  split
  · rfl
  · dsimp only
    split
    · rfl
    · split
      · rfl
      · split
        · split
          · exact mem_deleteBlob _ _ _ _ (Or.inr other)
          · exact mem_deleteBlob _ _ _ _ (Or.inr other)
        · split <;> rfl

theorem orElse_or (x y : Option Str) :
    (AttachmentService.orElse x y).or y = AttachmentService.orElse x y := by
  rw [AttachmentService.orElse]
  split
  · cases y <;> rfl
  · next filled =>
      cases x with
      | none => exact absurd rfl filled
      | some text => rfl

/-- This is how an upload is handed to the worker. -/
def handed (blob : Blob) (a : Attachment) : AttachmentRepo.Mark where
  status := .processing
  sha256 := blob.sha256
  sizeBytes := some blob.body.length
  mime := AttachmentService.orElse blob.contentType a.mime

theorem finalize_waiting (now : Instant) (tables : AttachmentStore) (blobs : List Blob) (a : Attachment)
    (blob : Blob) (scope : p.hasKeyScope "write:attachment" = true)
    (found : AttachmentRepo.getByPublicId p tables a.publicId = some a)
    (waits : a.processingStatus = .pending) (uploaded : head blobs a.s3Bucket a.s3Key = some blob)
    (fits : blob.body.length ≤ maxBytes) : finalize p maxBytes now tables blobs a.publicId {} =
      match AttachmentRepo.markStatus tables now a.id (handed blob a) with
      | .error e => (.error (.worker e), tables, blobs)
      | .ok tables => (.ok (AttachmentRepo.getById p tables a.id), tables, blobs) := by
  have pending : ¬ ¬ (a.processingStatus = .pending ∨ a.processingStatus = .failed) :=
    not_not.mpr (Or.inl waits)
  rw [finalize, scope, found]
  dsimp only
  rw [if_neg (by simp), if_neg pending, uploaded]
  dsimp only
  rw [if_neg (not_lt.mpr fits)]
  rfl

/-- The row is a copy of the attachment, and its blob is that of the archive. -/
structure CopyOf (store : PutBlobs) (p : Principal) (target : ScopeFilter) (s : AttachmentSystem)
    (a : ExportedAttachment) (r : Attachment) : Prop where
  owner : r.orgId = p.orgId ∧ r.scopeType = target.scopeType ∧ r.scopeId = target.scopeId
  live : r.filename = a.filename ∧ r.deletedAt = none
  columns : (s.columnsOf r).sensitivity = a.sensitivity ∧
    (s.columnsOf r).metadata = Dict.set a.metadata "imported_from" (.str a.publicId.str)
  size : r.sizeBytes = a.blob.data.toList.length
  waits : a.blob.data.toList = [] → r.processingStatus = .pending ∧ r.mime = a.mime
  uploaded : a.blob.data.toList ≠ [] → r.processingStatus = .processing ∧
    r.mime = AttachmentService.orElse (store.contentType a.mime) a.mime ∧
    r.sha256 = store.sha256 a.blob.data.toList ∧
    ∃ blob, head s.blobs r.s3Bucket r.s3Key = some blob ∧ blob.body = a.blob.data.toList

theorem CopyOf.kept {a : ExportedAttachment} {r : Attachment} (copy : CopyOf store p target s a r)
    (inside : r ∈ s.rows) (kept : Kept s s') : CopyOf store p target s' a r where
  owner := copy.owner
  live := copy.live
  columns := by
    rw [kept.columns r inside]
    exact copy.columns
  size := copy.size
  waits := copy.waits
  uploaded filled := by
    rw [kept.blobs r inside]
    exact copy.uploaded filled

/-- The row that a finalize hands to the worker is a copy. -/
theorem importUploaded (run : AttachmentRun) (a : ExportedAttachment) (r : Attachment)
    (s₁ : AttachmentSystem) (filled : a.blob.data.toList ≠ [])
    (made : presignUpload p s maxBytes run.toPresignRun
      { copyIn target a with sizeHint := some a.blob.data.toList.length } = .ok (r, s₁)) :
    let blob : Blob :=
      ⟨r.s3Bucket, r.s3Key, a.blob.data.toList, store.contentType a.mime, store.sha256 a.blob.data.toList⟩
    let working := s₁.put blob
    let outcome := finalize p maxBytes run.now working.store working.blobs r.publicId {}
    let after : AttachmentSystem := { working with store := outcome.2.1, blobs := outcome.2.2 }
    (∀ x ∈ s.rows, head after.blobs x.s3Bucket x.s3Key = head s.blobs x.s3Bucket x.s3Key) ∧
      (outcome.1.isOk → ∃ r', after.rows = s.rows ++ [r'] ∧ Kept s after ∧
        CopyOf store p target after a r' ∧ r'.publicId = r.publicId ∧ r'.s3Key = r.s3Key) := by
  intro blob working outcome after
  have kept := kept_presign made
  obtain ⟨row, rows, chunks, blobs, _⟩ := presignUpload_ok made
  obtain ⟨scope, small, columns⟩ := presignUpload_checked made
  have found : AttachmentRepo.getByPublicId p s₁.store r.publicId = some r := getByPublicId_presign made
  have apart (x : Attachment) (inside : x ∈ s.rows) := apart_of_last r s.rows s₁ rows x inside
  have others (x : Attachment) (inside : x ∈ s.rows) :
      head after.blobs x.s3Bucket x.s3Key = head s.blobs x.s3Bucket x.s3Key := by
    have other := (apart x inside).2.2.symm
    calc head after.blobs x.s3Bucket x.s3Key
        = head working.blobs x.s3Bucket x.s3Key := head_finalize _ _ _ r found {} _ _ other
      _ = head s₁.blobs x.s3Bucket x.s3Key := by
          rw [head_put, if_neg fun same => other same.2]
      _ = head s.blobs x.s3Bucket x.s3Key := kept.blobs x inside
  refine ⟨others, fun done => ?_⟩
  have uploaded : head working.blobs r.s3Bucket r.s3Key = some blob := by
    rw [head_put, if_pos ⟨rfl, rfl⟩]
  have pending : r.processingStatus = .pending := by rw [row]; rfl
  have whole : outcome = _ := finalize_waiting run.now working.store working.blobs r blob scope found
    pending uploaded small
  cases marking : AttachmentRepo.markStatus working.store run.now r.id (handed blob r) with
  | error e =>
      rw [whole, marking] at done
      cases done
  | ok tables =>
      rw [marking] at whole
      have marked := AttachmentTask.markStatus_ok marking
      have tablesOf : after.store = tables := by
        change outcome.2.1 = tables
        rw [whole]
      have blobs : after.blobs = working.blobs := by
        change outcome.2.2 = working.blobs
        rw [whole]
      have list : after.rows = s.rows ++ [AttachmentRepo.marked run.now (handed blob r) r] := by
        have change : after.rows = working.rows.map (Table.changeRow (fun x => x.id == r.id)
            (AttachmentRepo.marked run.now (handed blob r))) := by
          rw [AttachmentSystem.rows, tablesOf, marked]
          rfl
        have before : working.rows = s.rows ++ [r] := rows
        rw [change, before, List.map_append, List.map_singleton, Table.changeRow,
          if_pos (beq_self_eq_true r.id)]
        congr 1
        refine (List.map_congr_left fun x inside => ?_).trans (List.map_id _)
        rw [Table.changeRow, if_neg]
        · rfl
        · rw [beq_iff_eq]
          exact (apart x inside).1
      have own : after.columnsOf (AttachmentRepo.marked run.now (handed blob r) r) = s₁.columnsOf r := rfl
      have mime : r.mime = a.mime := by rw [row]; rfl
      have sha256 : r.sha256 = none := by rw [row]; rfl
      refine ⟨_, list, ⟨⟨_, list.symm⟩, kept.columns, others, ?_⟩, ?_⟩
      · rw [tablesOf, marked]
        exact chunks
      · refine ⟨⟨?_, ?_, ?_, ?_, fun empty => absurd empty filled, fun _ => ⟨rfl, ?_, ?_, blob, ?_, rfl⟩⟩,
          rfl, rfl⟩
        · rw [row]
          exact ⟨rfl, rfl, rfl⟩
        · rw [row]
          exact ⟨rfl, rfl⟩
        · rw [own, columnsOf_presign made]
          exact ⟨rfl, rfl⟩
        · rfl
        · change (AttachmentService.orElse (store.contentType a.mime) r.mime).or r.mime = _
          rw [mime, orElse_or]
        · change (store.sha256 a.blob.data.toList).or r.sha256 = _
          rw [sha256, Option.or_none]
        · rw [blobs]
          exact uploaded

theorem isOk_of_finalized {found : Except FinalizeError (Option Attachment)}
    (done : (found.mapError AttachmentImportError.finalize).map (fun _ => ()) = .ok ()) :
    found.isOk = true := by
  cases found with
  | error e => cases done
  | ok a => rfl

theorem finalized_of_isOk {found : Except FinalizeError (Option Attachment)} (done : found.isOk = true) :
    (found.mapError AttachmentImportError.finalize).map (fun _ => ()) = .ok () := by
  cases found with
  | error e => cases done
  | ok a => rfl

/-- The finalize of a copy succeeds when the columns accept what the blob store says of the blob. -/
theorem finalize_uploaded (run : AttachmentRun) (a : ExportedAttachment) (r : Attachment)
    (s₁ : AttachmentSystem) (made : presignUpload p s maxBytes run.toPresignRun
      { copyIn target a with sizeHint := some a.blob.data.toList.length } = .ok (r, s₁)) :
    let working := s₁.put ⟨r.s3Bucket, r.s3Key, a.blob.data.toList, store.contentType a.mime,
      store.sha256 a.blob.data.toList⟩
    (finalize p maxBytes run.now working.store working.blobs r.publicId {}).1.isOk ↔
      Audit.acceptsColumn 64 (store.sha256 a.blob.data.toList) = true ∧
        Audit.acceptsColumn 200 (AttachmentService.orElse (store.contentType a.mime) a.mime) = true := by
  intro working
  obtain ⟨row, _⟩ := presignUpload_ok made
  obtain ⟨scope, small, _⟩ := presignUpload_checked made
  have found : AttachmentRepo.getByPublicId p s₁.store r.publicId = some r := getByPublicId_presign made
  have uploaded : head working.blobs r.s3Bucket r.s3Key = some ⟨r.s3Bucket, r.s3Key, a.blob.data.toList,
      store.contentType a.mime, store.sha256 a.blob.data.toList⟩ := by
    rw [head_put, if_pos ⟨rfl, rfl⟩]
  have pending : r.processingStatus = .pending := by rw [row]; rfl
  have mime : r.mime = a.mime := by rw [row]; rfl
  rw [finalize_waiting run.now working.store working.blobs r _ scope found pending uploaded small,
    AttachmentRepo.markStatus]
  have fits : (handed ⟨r.s3Bucket, r.s3Key, a.blob.data.toList, store.contentType a.mime,
      store.sha256 a.blob.data.toList⟩ r).storable =
      (Audit.acceptsColumn 64 (store.sha256 a.blob.data.toList) &&
        Audit.acceptsColumn 200 (AttachmentService.orElse (store.contentType a.mime) a.mime)) := by
    rw [← mime]
    rfl
  rw [fits, ← Bool.and_eq_true]
  cases accepted : Audit.acceptsColumn 64 (store.sha256 a.blob.data.toList) &&
      Audit.acceptsColumn 200 (AttachmentService.orElse (store.contentType a.mime) a.mime) with
  | false => exact ⟨(fun done => by cases done), (fun done => by cases done)⟩
  | true => exact ⟨fun _ => rfl, fun _ => rfl⟩

/-- The principal may write the attachment, it fits, and neither the blob store nor the database refuses
its row. -/
structure AttachmentImportable (maxBytes : Nat) (store : PutBlobs) (p : Principal) (target : ScopeFilter)
    (run : AttachmentRun) (a : ExportedAttachment) : Prop where
  scope : p.hasKeyScope "write:attachment" = true
  allowed : AccessControl.canWrite p ⟨⟨target.scopeType, target.scopeId⟩, a.sensitivity⟩ = true
  small : a.blob.data.toList.length ≤ maxBytes
  columns : columnsAccept run.toPresignRun (copyKey p target run a) (copyIn target a) = true
  signs : run.signs = true
  puts : a.blob.data.toList ≠ [] → run.puts = true ∧
    Audit.acceptsColumn 64 (store.sha256 a.blob.data.toList) = true ∧
      Audit.acceptsColumn 200 (AttachmentService.orElse (store.contentType a.mime) a.mime) = true

theorem importAttachment_ok_iff (run : AttachmentRun) (a : ExportedAttachment)
    (body : blobOf tar a.publicId.str a.filename = a.blob.data.toList) :
    (importAttachment maxBytes store p target tar run s (.obj (attachmentRow a))).1 = .ok () ↔
      AttachmentImportable maxBytes store p target run a ∧
        Unused s run.ctx.newPublicId (copyKey p target run a) := by
  have read : blobOf tar a.publicId.str (copyIn target a).filename = a.blob.data.toList := body
  rw [importAttachment, attachmentInput_attachmentRow]
  dsimp only
  rw [read]
  have possible := @presignUpload_isOk_iff maxBytes p s run.toPresignRun
    { copyIn target a with sizeHint := some a.blob.data.toList.length }
  cases made : presignUpload p s maxBytes run.toPresignRun
      { copyIn target a with sizeHint := some a.blob.data.toList.length } with
  | error e =>
      rw [made] at possible
      refine ⟨(fun done => by cases done), ?_⟩
      rintro ⟨importable, unused⟩
      exact absurd (possible.mpr ⟨importable.scope, importable.allowed, importable.small,
        importable.columns, unused, importable.signs⟩) (by simp [Except.isOk, Except.toBool])
  | ok result =>
      obtain ⟨r, s₁⟩ := result
      rw [made] at possible
      obtain ⟨scope, allowed, small, columns, unused, signs⟩ := possible.mp rfl
      have importable (puts : _) : AttachmentImportable maxBytes store p target run a :=
        ⟨scope, allowed, small, columns, signs, puts⟩
      dsimp only
      split
      · next empty => exact ⟨fun _ => ⟨importable fun filled => absurd empty filled, unused⟩, fun _ => rfl⟩
      · next filled =>
          cases puts : run.puts with
          | false =>
              refine ⟨(fun done => by cases done), fun all => ?_⟩
              exact absurd (all.1.puts filled).1 (by simp [puts])
          | true =>
              have fits := @finalize_uploaded maxBytes store p target s run a r s₁ made
              rw [if_neg (by simp)]
              refine ⟨fun done => ⟨importable fun _ => ⟨puts, fits.mp (isOk_of_finalized done)⟩, unused⟩, ?_⟩
              intro all
              have ready := fits.mpr (all.1.puts filled).2
              dsimp only at ready ⊢
              exact finalized_of_isOk ready

/-- A round appends a copy, or it fails; it leaves the blobs of the rows that were there. -/
theorem importAttachment_cases (run : AttachmentRun) (a : ExportedAttachment)
    (body : blobOf tar a.publicId.str a.filename = a.blob.data.toList) :
    let outcome := importAttachment maxBytes store p target tar run s (.obj (attachmentRow a))
    (∀ x ∈ s.rows, head outcome.2.blobs x.s3Bucket x.s3Key = head s.blobs x.s3Bucket x.s3Key) ∧
      (outcome.1 = .ok () → ∃ r, outcome.2.rows = s.rows ++ [r] ∧ Kept s outcome.2 ∧
        CopyOf store p target outcome.2 a r ∧ r.publicId = run.ctx.newPublicId ∧
          r.s3Key = copyKey p target run a) := by
  have read : blobOf tar a.publicId.str (copyIn target a).filename = a.blob.data.toList := body
  dsimp only
  rw [importAttachment, attachmentInput_attachmentRow]
  dsimp only
  rw [read]
  cases made : presignUpload p s maxBytes run.toPresignRun
      { copyIn target a with sizeHint := some a.blob.data.toList.length } with
  | error e => exact ⟨fun _ _ => rfl, fun done => by cases done⟩
  | ok result =>
      obtain ⟨r, s₁⟩ := result
      dsimp only
      have kept := kept_presign made
      obtain ⟨row, rows, _⟩ := presignUpload_ok made
      split
      · next empty =>
          refine ⟨kept.blobs, fun _ => ⟨r, rows, kept, ?_, by rw [row]; rfl, by rw [row]; rfl⟩⟩
          refine ⟨?_, ?_, ?_, ?_, fun _ => ?_, fun filled => absurd empty filled⟩
          · rw [row]
            exact ⟨rfl, rfl, rfl⟩
          · rw [row]
            exact ⟨rfl, rfl⟩
          · rw [columnsOf_presign made]
            exact ⟨rfl, rfl⟩
          · rw [row]
            rfl
          · rw [row]
            exact ⟨rfl, rfl⟩
      · next filled =>
          split
          · exact ⟨kept.blobs, fun done => by cases done⟩
          · obtain ⟨others, copied⟩ := @importUploaded maxBytes store p target s run a r s₁ filled made
            refine ⟨others, fun done => ?_⟩
            obtain ⟨r', whole, after, copy, named, keyed⟩ := copied (isOk_of_finalized done)
            exact ⟨r', whole, after, copy, by rw [named, row]; rfl, by rw [keyed, row]; rfl⟩

/-- The rounds append a copy of each attachment, or one of them fails. -/
theorem importAttachments_cases (runs : Nat → AttachmentRun) (attachments : List ExportedAttachment)
    (bodies : ∀ a ∈ attachments, blobOf tar a.publicId.str a.filename = a.blob.data.toList) (i : Nat)
    (s : AttachmentSystem) :
    let outcome := importAttachments maxBytes store p target tar runs i
      ((attachments.map attachmentRow).map Value.obj) s
    (∀ x ∈ s.rows, head outcome.2.blobs x.s3Bucket x.s3Key = head s.blobs x.s3Bucket x.s3Key) ∧
      (outcome.1 = .ok () → ∃ new, outcome.2.rows = s.rows ++ new ∧ Kept s outcome.2 ∧
        List.Forall₂ (CopyOf store p target outcome.2) attachments new) := by
  induction attachments generalizing i s with
  | nil => exact ⟨fun _ _ => rfl, fun _ => ⟨[], (List.append_nil _).symm, Kept.refl s, .nil⟩⟩
  | cons a rest ih =>
      have round := @importAttachment_cases maxBytes store p target tar s (runs i) a
        (bodies a List.mem_cons_self)
      dsimp only at round ⊢
      rw [List.map_cons, List.map_cons, importAttachments]
      generalize importAttachment maxBytes store p target tar (runs i) s (.obj (attachmentRow a)) = first
        at round ⊢
      obtain ⟨result, s₁⟩ := first
      obtain ⟨others, copied⟩ := round
      cases result with
      | error e => exact ⟨others, fun done => by cases done⟩
      | ok done =>
          obtain ⟨r, rows, kept, copy, _⟩ := copied rfl
          obtain ⟨later, copies⟩ := ih (fun b inside => bodies b (List.mem_cons_of_mem a inside)) (i + 1) s₁
          refine ⟨fun x inside => (later x (kept.rows.subset inside)).trans (others x inside), ?_⟩
          intro finished
          obtain ⟨new, whole, after, all⟩ := copies finished
          refine ⟨r :: new, ?_, kept.trans after, ?_⟩
          · dsimp only at whole rows ⊢
            rw [whole, rows, List.append_assoc, List.singleton_append]
          · refine .cons (copy.kept ?_ after) all
            dsimp only at rows
            rw [rows]
            exact List.mem_append_right _ (List.mem_singleton_self r)

/-- These are the public ids of the copies. -/
def copyIds (runs : Nat → AttachmentRun) (i : Nat) (attachments : List ExportedAttachment) : List Uuid :=
  (attachments.zipIdx i).map fun a => (runs a.2).ctx.newPublicId

/-- These are the keys of the copies. -/
def copyKeys (p : Principal) (target : ScopeFilter) (runs : Nat → AttachmentRun) (i : Nat)
    (attachments : List ExportedAttachment) : List Str :=
  (attachments.zipIdx i).map fun a => copyKey p target (runs a.2) a.1

/-- The rounds succeed when all attachments can be imported and what is drawn at random is new. -/
theorem importAttachments_ok_iff (runs : Nat → AttachmentRun) (attachments : List ExportedAttachment)
    (bodies : ∀ a ∈ attachments, blobOf tar a.publicId.str a.filename = a.blob.data.toList) (i : Nat)
    (s : AttachmentSystem) :
    (importAttachments maxBytes store p target tar runs i
        ((attachments.map attachmentRow).map Value.obj) s).1 = .ok () ↔
      (∀ a ∈ attachments.zipIdx i, AttachmentImportable maxBytes store p target (runs a.2) a.1) ∧
        (s.rows.map Attachment.publicId ++ copyIds runs i attachments).Nodup ∧
          (s.rows.map Attachment.s3Key ++ copyKeys p target runs i attachments).Nodup := by
  induction attachments generalizing i s with
  | nil =>
      have ids : (s.rows.map Attachment.publicId).Nodup := by
        rw [List.nodup_iff_pairwise_ne, List.pairwise_map]
        exact s.store.attachments.pairwise.imp fun apart => apart.2.1
      have keys : (s.rows.map Attachment.s3Key).Nodup := by
        rw [List.nodup_iff_pairwise_ne, List.pairwise_map]
        exact s.store.attachments.pairwise.imp fun apart => apart.2.2
      refine ⟨fun _ => ⟨fun a inside => absurd inside List.not_mem_nil, ?_, ?_⟩, fun _ => rfl⟩
      · simpa [copyIds] using ids
      · simpa [copyKeys] using keys
  | cons a rest ih =>
      have round := @importAttachment_cases maxBytes store p target tar s (runs i) a
        (bodies a List.mem_cons_self)
      have possible := @importAttachment_ok_iff maxBytes store p target tar s (runs i) a
        (bodies a List.mem_cons_self)
      have ids : copyIds runs i (a :: rest) = (runs i).ctx.newPublicId :: copyIds runs (i + 1) rest := rfl
      have keys : copyKeys p target runs i (a :: rest) =
          copyKey p target (runs i) a :: copyKeys p target runs (i + 1) rest := rfl
      dsimp only at round
      rw [List.map_cons, List.map_cons, importAttachments, List.zipIdx_cons, List.forall_mem_cons, ids, keys]
      generalize importAttachment maxBytes store p target tar (runs i) s (.obj (attachmentRow a)) = first
        at round possible ⊢
      obtain ⟨result, s₁⟩ := first
      cases result with
      | error e =>
          refine ⟨(fun done => by cases done), ?_⟩
          rintro ⟨⟨importable, _⟩, ids, keys⟩
          refine absurd (possible.mpr ⟨importable, fun other inside => ⟨?_, ?_⟩⟩) (by simp)
          · exact (List.nodup_append.mp ids).2.2 _ (List.mem_map_of_mem inside) _ List.mem_cons_self
          · exact (List.nodup_append.mp keys).2.2 _ (List.mem_map_of_mem inside) _ List.mem_cons_self
      | ok done =>
          obtain ⟨r, rows, _, _, named, keyed⟩ := round.2 rfl
          obtain ⟨importable, _⟩ := possible.mp rfl
          dsimp only at rows ⊢
          rw [ih (fun b inside => bodies b (List.mem_cons_of_mem a inside)), rows, List.map_append,
            List.map_append, List.map_singleton, List.map_singleton, named, keyed, List.append_assoc,
            List.append_assoc, List.singleton_append, List.singleton_append]
          exact ⟨fun all => ⟨⟨importable, all.1⟩, all.2⟩, fun all => ⟨all.1.2, all.2⟩⟩

end Round

section

variable {maxBytes : Nat} {store : PutBlobs} {p exporter : Principal} {target scope : ScopeFilter}
  {s source : AttachmentSystem} {round : FloatText → PyFloat}

theorem publicIds_nodup (storageError : Attachment → Option Str) :
    ((exportedAttachments exporter source storageError scope).map ExportedAttachment.publicId).Nodup := by
  have rows : source.rows.Pairwise fun a b => a.publicId ≠ b.publicId :=
    source.store.attachments.pairwise.imp fun apart => apart.2.1
  have sorted : (((AttachmentRepo.liveRows exporter source).filter fun a =>
      (some scope).all (AttachmentRepo.inScope a) && none.all (· == a.processingStatus) &&
        none.all (AttachmentRepo.upTo source a)).insertionSort
          (AttachmentRepo.newestFirst source)).Pairwise fun a b => a.publicId ≠ b.publicId := by
    refine (List.Perm.pairwise_iff (fun other => other.symm) (List.perm_insertionSort _ _)).mpr ?_
    exact ((rows.sublist List.filter_sublist).sublist List.filter_sublist).sublist List.filter_sublist
  rw [exportedAttachments, List.map_map, List.nodup_iff_pairwise_ne, List.pairwise_map]
  exact (sorted.sublist (List.drop_sublist _ _)).sublist (List.take_sublist _ _)

/-- Each attachment can be imported, a line of the archive stays one line, and what is drawn at random is
new. -/
structure AllImportable (maxBytes : Nat) (store : PutBlobs) (p : Principal) (target : ScopeFilter)
    (runs : Nat → AttachmentRun) (s : AttachmentSystem) (attachments : List ExportedAttachment) :
    Prop where
  lines : ∀ a ∈ attachments, hasRawBreak (attachmentRow a) = false
  each : ∀ a ∈ attachments.zipIdx 0, AttachmentImportable maxBytes store p target (runs a.2) a.1
  ids : (s.rows.map Attachment.publicId ++ copyIds runs 0 attachments).Nodup
  keys : (s.rows.map Attachment.s3Key ++ copyKeys p target runs 0 attachments).Nodup

end

section Sample

open AttachmentSystem (sampleMember sampleState)

def sampleStore : PutBlobs := ⟨id, fun _ => none⟩

def sampleRuns (i : Nat) : AttachmentRun where
  ctx := { now := 5, newPublicId := BitVec.ofNat 128 (20 + i) }
  objectId := BitVec.ofNat 128 (40 + i)
  bucket := "kortex"
  now := 5

def sampleArchive : ExportInput :=
  ⟨1, .org, 1, [], [], exportedAttachments sampleMember sampleState (fun _ => none) ⟨.org, 1⟩⟩

theorem sampleArchive_plain : ∀ a ∈ sampleArchive.attachments,
    a.filename = ['a'] ∧ a.metadata.isEmpty = true := by
  decide +kernel

theorem sampleArchive_importable : AllImportable 100 sampleStore sampleMember ⟨.org, 1⟩ sampleRuns
    sampleState sampleArchive.attachments := by
  have each : ∀ a ∈ sampleArchive.attachments.zipIdx 0,
      AccessControl.canWrite sampleMember ⟨⟨.org, 1⟩, a.1.sensitivity⟩ = true ∧
        a.1.blob.data.toList.length ≤ 100 ∧
          columnsAccept (sampleRuns a.2).toPresignRun (copyKey sampleMember ⟨.org, 1⟩ (sampleRuns a.2) a.1)
            (copyIn ⟨.org, 1⟩ a.1) = true ∧
            Audit.acceptsColumn 200 (AttachmentService.orElse a.1.mime a.1.mime) = true := by
    decide +kernel
  refine ⟨by decide +kernel, ?_, by decide +kernel, by decide +kernel⟩
  intro a inside
  obtain ⟨allowed, small, columns, mime⟩ := each a inside
  exact ⟨by decide, allowed, small, columns, rfl, fun _ => ⟨rfl, rfl, mime⟩⟩

end Sample

end ExportService
end Kortex
