import Kortex.Library.FileTree
import Kortex.Library.Machine
import Kortex.Model.AttachmentRequests

/-
This file models the blob store on the file system, beside the blob store that the model of the attachments
uses.
-/

namespace Kortex

/-- This is `BlobMetadata`. -/
structure BlobMetadata where
  bucket : Str
  key : Str
  sizeBytes : Nat
  contentType : Option Str := none
  etag : Option Str := none
  sha256 : Option Str := none
deriving DecidableEq

/-- This is `PresignedUpload`, which the file store gives no headers. -/
structure PresignedUpload where
  url : Str
  method : Str := "PUT"
  expiresIn : Nat

inductive BlobStoreError where
  | storageError (message : Str)
  | osError (error : FileError)
  | valueError

/-- These are the calls of a blob store. -/
inductive BlobCall where
  | presignPut (bucket key : Str) (expiresIn : Nat)
  | head (bucket key : Str)
  | getBytes (bucket key : Str)
  | putBytes (bucket key : Str) (body : List UInt8) (contentType : Option Str)
  | delete (bucket key : Str)

/-- This is the object that a call is about. -/
def BlobCall.location : BlobCall → Str × Str
  | .presignPut bucket key _ => (bucket, key)
  | .head bucket key => (bucket, key)
  | .getBytes bucket key => (bucket, key)
  | .putBytes bucket key _ _ => (bucket, key)
  | .delete bucket key => (bucket, key)

inductive BlobAnswer where
  | presigned (upload : Except BlobStoreError PresignedUpload)
  | metadata (found : Except BlobStoreError (Option BlobMetadata))
  | bytes (body : Except BlobStoreError (List UInt8))
  | deleted (done : Except BlobStoreError Bool)

/-- These are the parts of a path, where `pathlib` drops the empty ones and the dots. -/
def pathParts (path : Str) : List (PathStep Str) :=
  ((path.splitOn '/').filter fun part => !decide (part = [] ∨ part = ['.'])).map fun part =>
    if part = ['.', '.'] then .up else .down part

/-- This is `path / segment`, where an absolute segment starts anew. -/
def joinPath (path : List (PathStep Str)) (segment : Str) : List (PathStep Str) :=
  if segment.head? = some '/' then pathParts segment else path ++ pathParts segment

abbrev Files := FileTree Str (List UInt8)

/-- The root is a directory of the file system; `absolute` says whether the setting names it from the top.
The hash and the text of a `file:` URL are functions of the libraries. -/
structure FilesystemBlobStore where
  root : List Str
  absolute : Bool
  sha256 : List UInt8 → Str
  asUri : List (PathStep Str) → Str

namespace FilesystemBlobStore

variable (store : FilesystemBlobStore) (t : Files)

/-- This is `_path`. -/
def path (bucket key : Str) : List (PathStep Str) :=
  joinPath (joinPath (FileTree.downs store.root) bucket) key

/-- This is `path.exists()`. -/
def pathExists (path : List (PathStep Str)) : Bool := (t.stat path).isSome

/-- This is `presign_put`; a URL needs an absolute path. -/
def presignPut (bucket key : Str) (expiresIn : Nat) : Except BlobStoreError PresignedUpload × Files :=
  let path := store.path bucket key
  match t.makeDirs path.dropLast with
  | (.error e, t) => (.error (.osError e), t)
  | (.ok (), t) =>
      if store.absolute then (.ok { url := store.asUri path, expiresIn := expiresIn }, t)
      else (.error .valueError, t)

/-- This is `head`. -/
def head (bucket key : Str) : Except BlobStoreError (Option BlobMetadata) :=
  let path := store.path bucket key
  if !pathExists t path then .ok none
  else match t.read path with
    | .error e => .error (.osError e)
    | .ok body => .ok (some
        { bucket := bucket, key := key, sizeBytes := body.length, sha256 := some (store.sha256 body) })

/-- This is `get_bytes`. -/
def getBytes (bucket key : Str) : Except BlobStoreError (List UInt8) :=
  let path := store.path bucket key
  if !pathExists t path then
    .error (.storageError ("object not found: ".toList ++ bucket ++ "/".toList ++ key))
  else (t.read path).mapError .osError

/-- This is `put_bytes`. -/
def putBytes (bucket key : Str) (body : List UInt8) (contentType : Option Str) :
    Except BlobStoreError BlobMetadata × Files :=
  let path := store.path bucket key
  match t.makeDirs path.dropLast with
  | (.error e, t) => (.error (.osError e), t)
  | (.ok (), t) =>
      match t.write path body with
      | .error e => (.error (.osError e), t)
      | .ok t => (.ok
          { bucket := bucket, key := key, sizeBytes := body.length, contentType := contentType
            sha256 := some (store.sha256 body) }, t)

/-- This is `delete`. -/
def delete (bucket key : Str) : Except BlobStoreError Bool × Files :=
  let path := store.path bucket key
  if !pathExists t path then (.ok false, t)
  else match t.unlink path with
    | .error e => (.error (.osError e), t)
    | .ok t => (.ok true, t)

def act : BlobCall → BlobAnswer × Files
  | .presignPut bucket key expiresIn =>
      let (upload, t) := store.presignPut t bucket key expiresIn
      (.presigned upload, t)
  | .head bucket key => (.metadata (store.head t bucket key), t)
  | .getBytes bucket key => (.bytes (store.getBytes t bucket key), t)
  | .putBytes bucket key body contentType =>
      let (put, t) := store.putBytes t bucket key body contentType
      (.metadata (put.map some), t)
  | .delete bucket key =>
      let (done, t) := store.delete t bucket key
      (.deleted done, t)

/-- This is the same store over the blobs of the attachments: it keeps no type of its content. -/
def actOnBlobs (blobs : List Blob) : BlobCall → BlobAnswer × List Blob
  | .presignPut bucket key expiresIn =>
      (.presigned (if store.absolute then
        .ok { url := store.asUri (store.path bucket key), expiresIn := expiresIn }
        else .error .valueError), blobs)
  | .head bucket key =>
      (.metadata (.ok ((AttachmentService.head blobs bucket key).map fun blob =>
        { bucket := bucket, key := key, sizeBytes := blob.body.length, contentType := blob.contentType
          sha256 := blob.sha256 })), blobs)
  | .getBytes bucket key =>
      (.bytes ((AttachmentSystem.getBytes blobs none bucket key).mapError .storageError), blobs)
  | .putBytes bucket key body contentType =>
      (.metadata (.ok (some
        { bucket := bucket, key := key, sizeBytes := body.length, contentType := contentType
          sha256 := some (store.sha256 body) })),
        (AttachmentSystem.put { blobs := blobs }
          ⟨bucket, key, body, none, some (store.sha256 body)⟩).blobs)
  | .delete bucket key =>
      (.deleted (.ok (AttachmentService.head blobs bucket key).isSome),
        AttachmentService.deleteBlob blobs bucket key)

end FilesystemBlobStore
end Kortex
