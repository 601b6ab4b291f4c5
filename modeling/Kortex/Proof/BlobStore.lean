import Kortex.Model.BlobStore
import Kortex.Proof.AttachmentRuns
import Kortex.Proof.Finalize

/-
This file proves that the blob store on the file system behaves like the blobs of the attachments, and that
no name of a file leads it out of the directories of its scope.
-/

namespace Kortex

open FileTree (downs)

/-- A path goes down by this part. -/
structure ProperPart (part : Str) : Prop where
  nonempty : part ≠ []
  noDot : part ≠ ['.']
  noUp : part ≠ ['.', '.']

/-- Texts with another character than a dot are proper parts. -/
theorem ProperPart.of_mem {part : Str} (c : Char) (inside : c ∈ part) (other : c ≠ '.') :
    ProperPart part := by
  refine ⟨?_, ?_, ?_⟩
  all_goals
    rintro rfl
    simp_all

theorem pathParts_cons (part rest : Str) (free : '/' ∉ part) (proper : ProperPart part) :
    pathParts (part ++ '/' :: rest) = .down part :: pathParts rest := by
  have first : ('/' :: rest).splitOn '/' = [] :: rest.splitOn '/' := by
    rw [List.splitOn_cons_eq_if_modifyHead, if_pos (by simp)]
  rw [pathParts, Split.splitOn_free_append _ _ free, first, List.modifyHead_cons, List.append_nil,
    List.filter_cons_of_pos (by simp [proper.nonempty, proper.noDot]), List.map_cons, if_neg proper.noUp]
  rfl

theorem pathParts_last (part : Str) (free : '/' ∉ part) : pathParts part =
    if part = [] ∨ part = ['.'] then [] else if part = ['.', '.'] then [.up] else [.down part] := by
  rw [pathParts, List.splitOn_eq_singleton free, List.filter_singleton]
  by_cases empty : part = [] ∨ part = ['.']
  · simp [empty]
  · rw [if_neg empty, decide_eq_false empty, Bool.not_false, Bool.cond_true, List.map_singleton]
    split <;> rfl

theorem properPart_ofNat (n : Nat) : ProperPart (Str.ofNat n) := by
  by_cases zero : n = 0
  · rw [zero]
    exact ⟨by decide, by decide, by decide⟩
  · obtain ⟨c, digits, text, _⟩ := Json.ofNat_digits n zero
    have inside : c ∈ Str.ofNat n := by
      rw [text]
      exact List.mem_cons_self
    refine .of_mem c inside ?_
    rintro rfl
    exact absurd (Json.isDigit_of_mem_ofNat n '.' inside) (by decide)

theorem properPart_value (scopeType : ScopeType) : ProperPart scopeType.value := by
  cases scopeType <;> exact ⟨by decide, by decide, by decide⟩

theorem properPart_str (u : Uuid) : ProperPart u.str := by
  refine .of_mem '-' ?_ (by decide)
  rw [Uuid.str_eq]
  exact List.mem_append_right _ List.mem_cons_self

/-- This is what `_build_key` makes a key of. -/
structure ObjectAddress where
  orgId : Nat
  scopeType : ScopeType
  scopeId : Nat
  objectId : Uuid
  filename : Str

namespace ObjectAddress

variable (a b : ObjectAddress)

def key : Str := AttachmentService.buildKey a.orgId a.scopeType a.scopeId a.objectId a.filename

def name : Str := AttachmentService.safeName a.filename

def scopeParts : List Str := ["orgs", Str.ofNat a.orgId, a.scopeType.value, Str.ofNat a.scopeId]

theorem key_eq : a.key = "orgs".toList ++ '/' :: (Str.ofNat a.orgId ++ '/' :: (a.scopeType.value ++ '/' ::
    (Str.ofNat a.scopeId ++ '/' :: (a.objectId.str ++ '/' :: a.name)))) := by
  have slash : "/".toList = ['/'] := rfl
  have orgs : "orgs/".toList = "orgs".toList ++ ['/'] := rfl
  unfold key name AttachmentService.buildKey AttachmentService.keyPrefix
  rw [slash, orgs]
  simp only [List.append_assoc, List.cons_append, List.nil_append]

theorem slash_notMem_name : '/' ∉ a.name := by
  intro inside
  obtain ⟨c, _, same⟩ := List.mem_map.mp (List.mem_of_mem_take inside)
  split at same
  · exact absurd same (by decide)
  · next other => exact other (Or.inl same)

/-- A key says all parts of its path. -/
theorem key_eq_iff : a.key = b.key ↔ a.scopeParts = b.scopeParts ∧ a.objectId.str = b.objectId.str ∧
    a.name = b.name := by
  have part {front front' rest rest' : Str} (free : '/' ∉ front) (free' : '/' ∉ front')
      (same : front ++ '/' :: rest = front' ++ '/' :: rest') : front = front' ∧ rest = rest' := by
    have first := ((Split.prefix_append_separator _ _ _ _ free free').mp (by rw [same])).1
    rw [first, List.append_cancel_left_eq, List.cons.injEq] at same
    exact ⟨first, same.2⟩
  rw [key_eq, key_eq, List.append_cancel_left_eq, List.cons.injEq, scopeParts, scopeParts]
  constructor
  · rintro ⟨-, same⟩
    obtain ⟨org, same⟩ := part (AttachmentService.slash_notMem_ofNat _)
      (AttachmentService.slash_notMem_ofNat _) same
    obtain ⟨type, same⟩ := part (AttachmentService.slash_notMem_value _)
      (AttachmentService.slash_notMem_value _) same
    obtain ⟨id, same⟩ := part (AttachmentService.slash_notMem_ofNat _)
      (AttachmentService.slash_notMem_ofNat _) same
    obtain ⟨object, name⟩ := part (AttachmentService.slash_notMem_str _)
      (AttachmentService.slash_notMem_str _) same
    rw [org, type, id]
    exact ⟨rfl, object, name⟩
  · rintro ⟨scope, object, name⟩
    simp only [List.cons.injEq, true_and, and_true] at scope
    rw [scope.1, scope.2.1, scope.2.2, object, name]
    exact ⟨rfl, rfl⟩

theorem pathParts_key : pathParts a.key = downs (a.scopeParts ++ [a.objectId.str]) ++ pathParts a.name := by
  rw [key_eq, pathParts_cons _ _ (by decide) ⟨by decide, by decide, by decide⟩,
    pathParts_cons _ _ (AttachmentService.slash_notMem_ofNat _) (properPart_ofNat _),
    pathParts_cons _ _ (AttachmentService.slash_notMem_value _) (properPart_value _),
    pathParts_cons _ _ (AttachmentService.slash_notMem_ofNat _) (properPart_ofNat _),
    pathParts_cons _ _ (AttachmentService.slash_notMem_str _) (properPart_str _)]
  rfl

end ObjectAddress

namespace FilesystemBlobStore

section

variable (store : FilesystemBlobStore) (bucket : Str) (a b : ObjectAddress)

def scopeDir : List Str := store.root ++ bucket :: a.scopeParts

def objectDir : List Str := scopeDir store bucket a ++ [a.objectId.str]

theorem path_key (free : '/' ∉ bucket) (proper : ProperPart bucket) :
    store.path bucket a.key = downs (objectDir store bucket a) ++ pathParts a.name := by
  have relative (part rest : Str) (free : '/' ∉ part) (nonempty : part ≠ []) :
      (part ++ rest).head? ≠ some '/' := by
    intro start
    cases part with
    | nil => exact nonempty rfl
    | cons c part =>
        obtain rfl : c = '/' := Option.some.inj start
        exact free List.mem_cons_self
  have inBucket : bucket.head? ≠ some '/' := by
    have start := relative bucket [] free proper.nonempty
    rwa [List.append_nil] at start
  have inKey : a.key.head? ≠ some '/' := by
    rw [ObjectAddress.key_eq]
    exact relative _ _ (by decide) (by decide)
  rw [path, joinPath, joinPath, if_neg inBucket, if_neg inKey, ObjectAddress.pathParts_key,
    pathParts_last bucket free, if_neg (not_or.mpr ⟨proper.nonempty, proper.noDot⟩), if_neg proper.noUp]
  simp only [objectDir, scopeDir, downs, List.map_append, List.map_cons, List.append_assoc,
    List.cons_append, List.nil_append]

/-- This is where an object is stored. -/
def place : List Str := objectDir store bucket a ++ [a.name]

variable {store bucket a b}

/-- The objects have distinct keys, and none is above another one. -/
theorem place_eq_iff : place store bucket a = place store bucket b ↔ a.key = b.key := by
  rw [ObjectAddress.key_eq_iff, place, place, objectDir, objectDir, scopeDir, scopeDir]
  constructor
  · intro same
    obtain ⟨dirs, name⟩ := List.append_inj' same rfl
    obtain ⟨scope, object⟩ := List.append_inj' dirs rfl
    rw [List.append_cancel_left_eq, List.cons.injEq] at scope
    exact ⟨scope.2, (List.cons.inj object).1, (List.cons.inj name).1⟩
  · rintro ⟨scope, object, name⟩
    rw [scope, object, name]

theorem not_prefix : ¬ place store bucket a <+: objectDir store bucket b := by
  intro start
  have lengths := start.length_le
  simp [place, objectDir, scopeDir, ObjectAddress.scopeParts] at lengths

/-- The name of the file is one that a path keeps. -/
def Nameable (a : ObjectAddress) : Prop := ProperPart a.name

theorem path_nameable (free : '/' ∉ bucket) (proper : ProperPart bucket) (named : Nameable a) :
    store.path bucket a.key = downs (place store bucket a) := by
  rw [path_key store bucket a free proper, pathParts_last _ a.slash_notMem_name,
    if_neg (not_or.mpr ⟨named.nonempty, named.noDot⟩), if_neg named.noUp, place, FileTree.downs_concat]

theorem parent_nameable (free : '/' ∉ bucket) (proper : ProperPart bucket) (named : Nameable a) :
    (store.path bucket a.key).dropLast = downs (objectDir store bucket a) := by
  rw [path_nameable free proper named, place, FileTree.downs_concat]
  exact List.dropLast_concat

/-- The files of the store are the blobs of the bucket, and no file is in the way of another one. -/
structure Related (store : FilesystemBlobStore) (bucket : Str) (t : Files) (blobs : List Blob) : Prop where
  files : ∀ a, Nameable a → t.lookup (place store bucket a) =
    (AttachmentService.head blobs bucket a.key).map fun blob => .file blob.body
  untyped : ∀ a : ObjectAddress, ∀ blob, AttachmentService.head blobs bucket a.key = some blob →
    blob.contentType = none ∧ blob.sha256 = some (store.sha256 blob.body)
  clear : ∀ a, FileTree.Clear t (objectDir store bucket a)

/-- The call is about an object of the bucket whose name a path keeps. -/
def Addressed (bucket : Str) (call : BlobCall) : Prop :=
  ∃ a, Nameable a ∧ call.location = (bucket, a.key)

section Steps

variable {t : Files} {blobs : List Blob} (free : '/' ∉ bucket) (proper : ProperPart bucket)
  (related : Related store bucket t blobs) (named : Nameable a)

include free proper related named

theorem pathExists_eq : pathExists t (store.path bucket a.key) =
    (AttachmentService.head blobs bucket a.key).isSome := by
  rw [pathExists, path_nameable free proper named, FileTree.stat_downs, related.files a named,
    Option.isSome_map]

theorem read_stored (blob : Blob) (stored : AttachmentService.head blobs bucket a.key = some blob) :
    t.read (store.path bucket a.key) = .ok blob.body := by
  have found := related.files a named
  rw [stored, Option.map_some] at found
  rw [path_nameable free proper named]
  exact FileTree.read_file _ _ found

/-- The directories for an object can be made, and this changes no file. -/
theorem makeDirs_related : ∃ t', t.makeDirs (store.path bucket a.key).dropLast = (.ok (), t') ∧
    Related store bucket t' blobs ∧ t'.isDir (objectDir store bucket a) = true := by
  obtain ⟨t', made, after⟩ := FileTree.makeDirs_spec _ (related.clear a)
  refine ⟨t', by rw [parent_nameable free proper named, made], ⟨?_, related.untyped, ?_⟩, ?_⟩
  · intro b other
    rw [after, if_neg not_prefix]
    exact related.files b other
  · intro b front start body
    rw [after]
    split
    · simp
    · exact related.clear b front start body
  · rw [FileTree.isDir_iff, after, if_pos List.prefix_rfl]

/-- A file is written where the object belongs. -/
theorem write_related (parent : t.isDir (objectDir store bucket a) = true) (body : List UInt8) :
    ∃ t', t.write (store.path bucket a.key) body = .ok t' ∧ Related store bucket t'
      (AttachmentSystem.put { blobs := blobs }
        ⟨bucket, a.key, body, none, some (store.sha256 body)⟩).blobs := by
  have room : t.isDir (place store bucket a) = false := by
    rw [FileTree.isDir, related.files a named]
    cases AttachmentService.head blobs bucket a.key <;> rfl
  have spec : ∃ t', t.write (downs (place store bucket a)) body = .ok t' ∧ ∀ query, t'.lookup query =
      if place store bucket a = query then some (.file body) else t.lookup query :=
    FileTree.write_spec _ _ body parent room
  obtain ⟨t', written, after⟩ := spec
  refine ⟨t', by rw [path_nameable free proper named, written], ⟨?_, ?_, ?_⟩⟩
  · intro b other
    rw [AttachmentService.head_put, after]
    by_cases same : a.key = b.key
    · rw [if_pos (place_eq_iff.mpr same), if_pos ⟨rfl, same⟩]
      rfl
    · rw [if_neg (fun placed => same (place_eq_iff.mp placed)), if_neg (fun both => same both.2)]
      exact related.files b other
  · intro b blob found
    rw [AttachmentService.head_put] at found
    split at found
    · rw [← Option.some.inj found]
      exact ⟨rfl, rfl⟩
    · exact related.untyped b blob found
  · intro b front start other
    rw [after, if_neg]
    · exact related.clear b front start other
    · rintro rfl
      exact not_prefix start

/-- The file of the object is removed. -/
theorem unlink_related (blob : Blob) (stored : AttachmentService.head blobs bucket a.key = some blob) :
    ∃ t', t.unlink (store.path bucket a.key) = .ok t' ∧
      Related store bucket t' (AttachmentService.deleteBlob blobs bucket a.key) := by
  have found := related.files a named
  rw [stored, Option.map_some] at found
  obtain ⟨t', removed, after⟩ := FileTree.unlink_spec _ _ found
  refine ⟨t', by rw [path_nameable free proper named, removed], ⟨?_, ?_, ?_⟩⟩
  · intro b other
    rw [AttachmentService.head_deleteBlob, after]
    by_cases same : a.key = b.key
    · rw [if_pos (place_eq_iff.mpr same), if_pos ⟨rfl, same⟩]
      rfl
    · rw [if_neg (fun placed => same (place_eq_iff.mp placed)), if_neg (fun both => same both.2)]
      exact related.files b other
  · intro b blob found
    rw [AttachmentService.head_deleteBlob] at found
    split at found
    · cases found
    · exact related.untyped b blob found
  · intro b front start other
    rw [after, if_neg]
    · exact related.clear b front start other
    · rintro rfl
      exact not_prefix start

end Steps

/-- An object that is not there can be deleted. -/
theorem deleteBlob_absent {blobs : List Blob} (bucket key : Str)
    (absent : AttachmentService.head blobs bucket key = none) :
    AttachmentService.deleteBlob blobs bucket key = blobs := by
  refine List.filter_eq_self.mpr fun blob inside => ?_
  simpa [imp_iff_not_or] using List.find?_eq_none.mp absent blob inside

theorem getBytes_blobs (blobs : List Blob) (bucket key : Str) :
    AttachmentSystem.getBytes blobs none bucket key = match AttachmentService.head blobs bucket key with
      | none => .error ("object not found: ".toList ++ bucket ++ "/".toList ++ key)
      | some blob => .ok blob.body := by
  unfold AttachmentSystem.getBytes
  cases AttachmentService.head blobs bucket key <;> rfl

/-- One call on the files answers like the call on the blobs. -/
theorem act_simulates (free : '/' ∉ bucket) (proper : ProperPart bucket) (t : Files) (blobs : List Blob)
    (call : BlobCall) (related : Related store bucket t blobs) (addressed : Addressed bucket call) :
    (store.act t call).1 = (store.actOnBlobs blobs call).1 ∧
      Related store bucket (store.act t call).2 (store.actOnBlobs blobs call).2 := by
  obtain ⟨a, named, about⟩ := addressed
  have there := pathExists_eq free proper related named
  cases call with
  | presignPut b key expiresIn =>
      obtain ⟨rfl, rfl⟩ := Prod.mk.inj about
      obtain ⟨t', made, related', _⟩ := makeDirs_related free proper related named
      rw [act, actOnBlobs, presignPut]
      dsimp only
      rw [made]
      dsimp only
      cases store.absolute <;> exact ⟨rfl, related'⟩
  | head b key =>
      obtain ⟨rfl, rfl⟩ := Prod.mk.inj about
      refine ⟨?_, related⟩
      rw [act, actOnBlobs, head]
      dsimp only
      rw [there]
      cases stored : AttachmentService.head blobs b a.key with
      | none => rfl
      | some blob =>
          obtain ⟨untyped, hashed⟩ := related.untyped a blob stored
          rw [read_stored free proper related named blob stored]
          dsimp only [Option.isSome_some, Option.map_some]
          rw [untyped, hashed]
          rfl
  | getBytes b key =>
      obtain ⟨rfl, rfl⟩ := Prod.mk.inj about
      refine ⟨?_, related⟩
      rw [act, actOnBlobs, getBytes, getBytes_blobs]
      dsimp only
      rw [there]
      cases stored : AttachmentService.head blobs b a.key with
      | none => rfl
      | some blob =>
          rw [read_stored free proper related named blob stored]
          rfl
  | putBytes b key body contentType =>
      obtain ⟨rfl, rfl⟩ := Prod.mk.inj about
      obtain ⟨t', made, related', parent⟩ := makeDirs_related free proper related named
      obtain ⟨t'', written, after⟩ := write_related free proper related' named parent body
      rw [act, actOnBlobs, putBytes]
      dsimp only
      rw [made]
      dsimp only
      rw [written]
      exact ⟨rfl, after⟩
  | delete b key =>
      obtain ⟨rfl, rfl⟩ := Prod.mk.inj about
      rw [act, actOnBlobs, delete]
      dsimp only
      rw [there]
      cases stored : AttachmentService.head blobs b a.key with
      | none =>
          rw [deleteBlob_absent b a.key stored]
          exact ⟨rfl, related⟩
      | some blob =>
          obtain ⟨t', removed, after⟩ := unlink_related free proper related named blob stored
          rw [removed]
          exact ⟨rfl, after⟩

/-- In a bucket without files the store has no blobs. -/
theorem related_empty (t : Files) (root : t.isDir store.root = true)
    (fresh : t.lookup (store.root ++ [bucket]) = none) : Related store bucket t [] := by
  have below (rest : List Str) : t.lookup (store.root ++ bucket :: rest) = none := by
    by_cases top : rest = []
    · rw [top]
      exact fresh
    · rw [← List.singleton_append, ← List.append_assoc]
      exact t.lookup_below _ rest top (by rw [FileTree.isDir, fresh])
  refine ⟨fun a _ => ?_, fun a blob found => (by cases found), ?_⟩
  · rw [place, objectDir, scopeDir, List.append_assoc, List.append_assoc, List.cons_append]
    exact below _
  · intro a front start body found
    rw [objectDir, scopeDir, List.append_assoc, List.cons_append] at start
    have noFile (dir : t.isDir front = true) : False := by
      rw [(t.isDir_iff front).mp dir] at found
      cases found
    rcases List.prefix_or_prefix_of_prefix start (List.prefix_append _ _) with ⟨rest, whole⟩ | ⟨rest, rfl⟩
    · refine noFile ?_
      rw [← whole] at root
      by_cases top : rest = []
      · rwa [top, List.append_nil] at root
      · exact t.isDir_above front rest .dir top ((t.isDir_iff _).mp root)
    · rw [List.prefix_append_right_inj] at start
      cases rest with
      | nil => exact noFile (by rwa [List.append_nil])
      | cons name rest =>
          obtain ⟨rfl, _⟩ := List.cons_prefix_cons.mp start
          rw [below] at found
          cases found

def sampleStore : FilesystemBlobStore := ⟨["data"], true, fun _ => "hash", fun _ => "file:///data"⟩

def sampleFiles : Files := FileTree.empty.put ["data"] .dir rfl rfl

def sampleBucket : Str := "kortex"

theorem sampleBucket_proper : '/' ∉ sampleBucket ∧ ProperPart sampleBucket :=
  ⟨by decide, by decide, by decide, by decide⟩

def sampleObject (filename : Str) : ObjectAddress := ⟨1, .org, 1, 7, filename⟩

def sampleCalls (key : Str) : List BlobCall :=
  [.presignPut sampleBucket key 900, .putBytes sampleBucket key [104, 105] none,
    .getBytes sampleBucket key, .delete sampleBucket key, .head sampleBucket key]

end

/-! No name of a file leads out of the directories of its scope. -/

section Confinement

variable {store : FilesystemBlobStore} {bucket : Str} {a : ObjectAddress} {t t' : Files}

/-- The last part of a key goes down by its name, or up, or nowhere. -/
theorem pathParts_name (a : ObjectAddress) : pathParts a.name = [] ∨ pathParts a.name = [.up] ∨
    ∃ name, pathParts a.name = [.down name] := by
  rw [pathParts_last _ a.slash_notMem_name]
  split
  · exact Or.inl rfl
  · split
    · exact Or.inr (Or.inl rfl)
    · exact Or.inr (Or.inr ⟨_, rfl⟩)

theorem dropLast_path (free : '/' ∉ bucket) (proper : ProperPart bucket) :
    ∃ names, (store.path bucket a.key).dropLast = downs names ∧ names <+: objectDir store bucket a := by
  rw [path_key store bucket a free proper]
  rcases pathParts_name a with stay | up | ⟨name, down⟩
  · refine ⟨scopeDir store bucket a, ?_, List.prefix_append _ _⟩
    rw [stay, List.append_nil, objectDir, FileTree.downs_concat, List.dropLast_concat]
  · exact ⟨_, by rw [up, List.dropLast_concat], List.prefix_rfl⟩
  · exact ⟨_, by rw [down, List.dropLast_concat], List.prefix_rfl⟩

/-- A path that leads to no directory leads below the directory of its object. -/
theorem objectDir_prefix_target (free : '/' ∉ bucket) (proper : ProperPart bucket)
    (walked : t.resolve [] (store.path bucket a.key) = .ok (FileTree.target (store.path bucket a.key)))
    (noDir : t.isDir (FileTree.target (store.path bucket a.key)) = false) :
    objectDir store bucket a <+: FileTree.target (store.path bucket a.key) := by
  have split := path_key store bucket a free proper
  rcases pathParts_name a with stay | up | ⟨name, down⟩
  · rw [split, stay, List.append_nil, FileTree.target, FileTree.foldl_downs, List.nil_append]
  · rw [split, up] at walked
    rw [split, up, FileTree.isDir_of_up _ _ walked] at noDir
    cases noDir
  · rw [split, down, FileTree.target, List.foldl_append, FileTree.foldl_downs, List.nil_append]
    exact List.prefix_append _ _

/-- Outside of the directory there are but new directories on the way to it. -/
def Outside (t t' : Files) (dir : List Str) : Prop :=
  ∀ query, ¬ dir <+: query → t'.lookup query = t.lookup query ∨
    (query <+: dir ∧ t.lookup query = none ∧ t'.lookup query = some .dir)

theorem Outside.refl (t : Files) (dir : List Str) : Outside t t dir := fun _ _ => Or.inl rfl

theorem Outside.trans {t'' : Files} {dir : List Str} (first : Outside t t' dir)
    (second : Outside t' t'' dir) : Outside t t'' dir := by
  intro query off
  rcases second query off with kept | ⟨way, free, made⟩
  · rw [kept]
    exact first query off
  · rcases first query off with before | ⟨_, _, dir⟩
    · rw [before] at free
      exact Or.inr ⟨way, free, made⟩
    · rw [dir] at free
      cases free

theorem Outside.of_grown {dir names : List Str} (grown : FileTree.Grown t t' names) (above : names <+: dir) :
    Outside t t' dir := by
  intro query _
  rcases grown query with kept | ⟨way, free, made⟩
  · exact Or.inl kept
  · exact Or.inr ⟨way.trans above, free, made⟩

theorem Outside.of_target {dir target : List Str} (below : dir <+: target)
    (same : ∀ query, target ≠ query → t'.lookup query = t.lookup query) : Outside t t' dir := by
  intro query off
  refine Or.inl (same query ?_)
  rintro rfl
  exact off below

/-- A node outside of a directory is outside of those below it. -/
theorem Outside.wider {dir : List Str} {rest : List Str} (outside : Outside t t' (dir ++ rest)) :
    Outside t t' dir := by
  intro query off
  rcases outside query (fun inside => off ((List.prefix_append dir rest).trans inside)) with
    kept | ⟨way, free, made⟩
  · exact Or.inl kept
  · rcases List.prefix_or_prefix_of_prefix way (List.prefix_append dir rest) with above | below
    · exact Or.inr ⟨above, free, made⟩
    · exact absurd below off

theorem makeDirs_outside (free : '/' ∉ bucket) (proper : ProperPart bucket) :
    Outside t (t.makeDirs (store.path bucket a.key).dropLast).2 (objectDir store bucket a) := by
  obtain ⟨names, parent, above⟩ : ∃ names, (store.path bucket a.key).dropLast = downs names ∧
      names <+: objectDir store bucket a := dropLast_path free proper
  rw [parent]
  exact .of_grown (FileTree.makeDirs_cases names).1 above

/-- A call changes nothing outside of the directory of its object. -/
theorem act_outside (free : '/' ∉ bucket) (proper : ProperPart bucket) (call : BlobCall)
    (about : call.location = (bucket, a.key)) :
    Outside t (store.act t call).2 (objectDir store bucket a) := by
  have made := @makeDirs_outside store bucket a t free proper
  cases call with
  | presignPut b key expiresIn =>
      obtain ⟨rfl, rfl⟩ := Prod.mk.inj about
      rw [act, presignPut]
      dsimp only
      generalize t.makeDirs (store.path b a.key).dropLast = outcome at made ⊢
      obtain ⟨result, t'⟩ := outcome
      cases result with
      | error e => exact made
      | ok done =>
          dsimp only
          cases store.absolute <;> exact made
  | head b key => exact .refl _ _
  | getBytes b key => exact .refl _ _
  | putBytes b key body contentType =>
      obtain ⟨rfl, rfl⟩ := Prod.mk.inj about
      rw [act, putBytes]
      dsimp only
      generalize t.makeDirs (store.path b a.key).dropLast = outcome at made ⊢
      obtain ⟨result, t'⟩ := outcome
      cases result with
      | error e => exact made
      | ok done =>
          dsimp only
          cases written : t'.write (store.path b a.key) body with
          | error e => exact made
          | ok t'' =>
              obtain ⟨noDir, walked, same⟩ := FileTree.write_frame _ body written
              exact made.trans (.of_target (objectDir_prefix_target free proper walked noDir) same)
  | delete b key =>
      obtain ⟨rfl, rfl⟩ := Prod.mk.inj about
      rw [act, delete]
      dsimp only
      split
      · exact .refl _ _
      · cases removed : t.unlink (store.path b a.key) with
        | error e => exact .refl _ _
        | ok t' =>
            obtain ⟨noDir, walked, same⟩ := FileTree.unlink_frame _ removed
            exact .of_target (objectDir_prefix_target free proper walked noDir) same

/-- The bytes that are read are those of a file in the directory of the object. -/
theorem act_bytes (free : '/' ∉ bucket) (proper : ProperPart bucket) (call : BlobCall)
    (about : call.location = (bucket, a.key)) (body : List UInt8)
    (answer : (store.act t call).1 = .bytes (.ok body)) :
    ∃ names, objectDir store bucket a <+: names ∧ t.lookup names = some (.file body) := by
  cases call with
  | presignPut b key expiresIn => cases answer
  | head b key => cases answer
  | putBytes b key body contentType => cases answer
  | delete b key => cases answer
  | getBytes b key =>
      obtain ⟨rfl, rfl⟩ := Prod.mk.inj about
      rw [act, getBytes] at answer
      dsimp only at answer
      split at answer
      · cases answer
      · cases read : t.read (store.path b a.key) with
        | error e =>
            rw [read] at answer
            cases answer
        | ok found =>
            rw [read] at answer
            cases answer
            obtain ⟨walked, stored⟩ := FileTree.read_ok _ _ read
            have noDir : t.isDir (FileTree.target (store.path b a.key)) = false := by
              rw [FileTree.isDir, stored]
            exact ⟨_, objectDir_prefix_target free proper walked noDir, stored⟩

/-- The call is about an object of the scope, under any name. -/
def InScope (bucket : Str) (scope : ObjectAddress) (call : BlobCall) : Prop :=
  ∃ a : ObjectAddress, a.scopeParts = scope.scopeParts ∧ call.location = (bucket, a.key)

end Confinement

end FilesystemBlobStore

end Kortex
