import Kortex.Model.Attachments

/-
This file proves what a refused finalize leaves of its attachment.
-/

namespace Kortex.AttachmentService

variable {p : Principal} {maxBytes : Nat} {now : Instant} {s : AttachmentStore} {blobs : List Blob}
  {publicId : Uuid} {payload : FinalizeIn}

/-- The blob was there before, and it is gone. -/
def Deleted (before after : List Blob) (bucket key : Str) : Prop :=
  head before bucket key ≠ none ∧ head after bucket key = none

/-- The row of the attachment says that the upload is too large. -/
def Recorded (s : AttachmentStore) (publicId : Uuid) (sizeBytes maxBytes : Nat) : Prop :=
  ∃ a ∈ s.attachments.rows, a.publicId = publicId ∧ a.processingStatus = .failed ∧
    a.processingError = some (uploadTooLarge sizeBytes maxBytes)

/-- The attachment has failed, and no row that waits refers to a blob that is gone. -/
structure Consistent (s : AttachmentStore) (before after : List Blob) (publicId : Uuid)
    (sizeBytes maxBytes : Nat) : Prop where
  recorded : Recorded s publicId sizeBytes maxBytes
  present : ∀ a ∈ s.attachments.rows, a.processingStatus = .pending ∨ a.processingStatus = .processing →
    ¬ Deleted before after a.s3Bucket a.s3Key

theorem getByPublicId_eq_some {a : Attachment} (found : AttachmentRepo.getByPublicId p s publicId = some a) :
    a ∈ s.attachments.rows ∧ a.publicId = publicId := by
  have inside := List.mem_of_find?_eq_some found
  have own := List.find?_some found
  simp only [Bool.and_eq_true, beq_iff_eq] at own
  exact ⟨(List.mem_filter.mp inside).1, own.1⟩

theorem mem_deleteBlob (bucket key bucket' key' : Str) (other : bucket ≠ bucket' ∨ key ≠ key') :
    head (deleteBlob blobs bucket key) bucket' key' = head blobs bucket' key' := by
  rw [head, head, deleteBlob, List.find?_filter]
  congr 1
  funext blob
  by_cases same : blob.bucket = bucket' ∧ blob.key = key'
  · rcases other with bucket_other | key_other
    · simp [same.1, same.2, Ne.symm bucket_other]
    · simp [same.1, same.2, Ne.symm key_other]
  · have none : (blob.bucket == bucket' && blob.key == key') = false := by
      rw [← Bool.not_eq_true, Bool.and_eq_true, beq_iff_eq, beq_iff_eq]
      exact same
    simp [none]

/-- A finalize that finds an upload too large has deleted its blob, and its row waited or had failed. -/
theorem finalize_tooLarge (sizeBytes : Nat)
    (refused : (finalize p maxBytes now s blobs publicId payload).1 =
      .error (.attachmentError (.tooLarge sizeBytes maxBytes))) :
    ∃ a, AttachmentRepo.getByPublicId p s publicId = some a ∧
      (finalize p maxBytes now s blobs publicId payload).2.2 = deleteBlob blobs a.s3Bucket a.s3Key ∧
      head blobs a.s3Bucket a.s3Key ≠ none := by
  rw [finalize] at refused ⊢
  split at refused
  · exact absurd refused (by simp)
  · next scope =>
      rw [if_neg scope]
      split at refused
      · exact absurd refused (by simp)
      · next a found =>
          rw [found]
          dsimp only
          split at refused
          · exact absurd refused (by simp)
          · next waits =>
              rw [if_neg waits]
              split at refused
              · exact absurd refused (by simp)
              · next blob uploaded =>
                  dsimp only at refused ⊢
                  split at refused
                  · next large =>
                      rw [if_pos large]
                      refine ⟨a, rfl, ?_, by rw [uploaded]; simp⟩
                      split <;> rfl
                  · split at refused <;> exact absurd refused (by simp)

/-- A refused request leaves the tables as they were, and the blobs as the service left them. -/
theorem finalizeRequest_refused (sizeBytes : Nat)
    (refused : (finalize p maxBytes now s blobs publicId payload).1 =
      .error (.attachmentError (.tooLarge sizeBytes maxBytes))) :
    finalizeRequest p maxBytes now s blobs publicId payload =
      (.error (.badRequest (AttachmentError.tooLarge sizeBytes maxBytes).message), s,
        (finalize p maxBytes now s blobs publicId payload).2.2) := by
  rw [finalizeRequest]
  generalize finalize p maxBytes now s blobs publicId payload = outcome at refused ⊢
  obtain ⟨result, working, left⟩ := outcome
  obtain rfl : result = _ := refused
  rfl

/-- A finalize that is refused for the size of the upload leaves a consistent row exactly when the row
said so already. -/
theorem refused_consistent_iff (sizeBytes : Nat)
    (refused : (finalize p maxBytes now s blobs publicId payload).1 =
      .error (.attachmentError (.tooLarge sizeBytes maxBytes))) :
    Consistent (finalizeRequest p maxBytes now s blobs publicId payload).2.1 blobs
        (finalizeRequest p maxBytes now s blobs publicId payload).2.2 publicId sizeBytes maxBytes ↔
      Recorded s publicId sizeBytes maxBytes := by
  obtain ⟨a, found, deleted, _⟩ := finalize_tooLarge sizeBytes refused
  rw [finalizeRequest_refused sizeBytes refused, deleted]
  constructor
  · exact fun consistent => consistent.recorded
  · intro recorded
    refine ⟨recorded, ?_⟩
    rintro b inside waits ⟨before, after⟩
    by_cases same : a.s3Bucket = b.s3Bucket ∧ a.s3Key = b.s3Key
    · obtain ⟨row, own⟩ := getByPublicId_eq_some found
      obtain ⟨c, present, named, failed, _⟩ := recorded
      have first : a = b := by
        rcases s.attachments.eq_or_apart a b row inside with equal | apart | apart
        · exact equal
        · exact absurd same.2 apart.2.2
        · exact absurd same.2.symm apart.2.2
      have second : a = c := by
        rcases s.attachments.eq_or_apart a c row present with equal | apart | apart
        · exact equal
        · exact absurd (own.trans named.symm) apart.2.1
        · exact absurd (named.trans own.symm) apart.2.1
      rw [← first, second, failed] at waits
      rcases waits with waits | waits <;> exact absurd waits (by decide)
    · rw [mem_deleteBlob _ _ _ _ (not_and_or.mp same)] at after
      exact before after

def sampleUploader : Principal := ⟨1, .user, 1, none, [], [], .internal, false⟩

def sampleAttachment : Attachment where
  id := 1
  publicId := 7
  orgId := 1
  scopeType := .org
  scopeId := 1
  filename := "notes.txt"
  mime := none
  sizeBytes := 0
  sha256 := none
  s3Bucket := "kortex"
  s3Key := "notes"
  processingStatus := .pending
  processingError := none
  processedAt := none
  deletedAt := none

def sampleStore : AttachmentStore where
  attachments := Table.empty.insert sampleAttachment (Table.fresh_empty sampleAttachment)

/-- This upload has two bytes. -/
def sampleUpload : Blob := ⟨"kortex", "notes", [104, 105], none, none⟩

theorem sample_tooLarge :
    (finalize sampleUploader 1 0 sampleStore [sampleUpload] 7 {}).1 =
      .error (.attachmentError (.tooLarge 2 1)) := by
  have storable : (⟨.failed, some (uploadTooLarge 2 1), none, none, none⟩ :
      AttachmentRepo.Mark).storable = true := by decide +kernel
  have found : AttachmentRepo.getByPublicId sampleUploader sampleStore 7 = some sampleAttachment := rfl
  have uploaded : head [sampleUpload] sampleAttachment.s3Bucket sampleAttachment.s3Key =
      some sampleUpload := rfl
  have scope : (!sampleUploader.hasKeyScope "write:attachment") = false := rfl
  rw [finalize, scope, if_neg (by decide), found]
  dsimp only
  rw [if_neg (by decide), uploaded]
  dsimp only
  rw [if_pos (by decide)]
  have marked : ∃ s', AttachmentRepo.markStatus sampleStore 0 sampleAttachment.id
      { status := .failed, error := some (uploadTooLarge sampleUpload.body.length 1) } = .ok s' :=
    ⟨_, if_pos storable⟩
  obtain ⟨s', marked⟩ := marked
  rw [marked]
  rfl

/-- The row waits for a blob that is gone. -/
theorem pending_without_blob :
    (finalize sampleUploader 1 0 sampleStore [sampleUpload] 7 {}).1 =
        .error (.attachmentError (.tooLarge 2 1)) ∧
      ¬ Consistent (finalizeRequest sampleUploader 1 0 sampleStore [sampleUpload] 7 {}).2.1 [sampleUpload]
        (finalizeRequest sampleUploader 1 0 sampleStore [sampleUpload] 7 {}).2.2 7 2 1 := by
  refine ⟨sample_tooLarge, ?_⟩
  intro consistent
  rw [finalizeRequest_refused 2 sample_tooLarge] at consistent
  obtain ⟨a, inside, _, failed, _⟩ := consistent.recorded
  rw [List.mem_singleton.mp inside] at failed
  exact absurd failed (by decide)

theorem refused_consistent_iff_pending :
    Consistent (finalizeRequest sampleUploader 1 0 sampleStore [sampleUpload] 7 {}).2.1 [sampleUpload]
        (finalizeRequest sampleUploader 1 0 sampleStore [sampleUpload] 7 {}).2.2 7 2 1 ↔
      Recorded sampleStore 7 2 1 :=
  refused_consistent_iff 2 sample_tooLarge

end Kortex.AttachmentService
