import Kortex.Library.Run
import Kortex.Proof.MemoryTool

/-
This file proves when the memory tool behaves as a map from paths to texts.
-/

namespace Kortex.MemoryTool

open MemoryService

variable (b : Backend) (db : Database)

/-- The memory is live, visible to the backend and in its scope. -/
def InScope (m : Memory) : Prop :=
  m ∈ MemoryRepo.liveRows b.principal db ∧ m.inScope b.scope = true

/-- The memory is the file under the path. -/
def AtPath (path : Str) (m : Memory) : Prop := InScope b db m ∧ pathOf m = some path

/-- Every memory of the scope is a file, and no two files have the same path. -/
structure Filed : Prop where
  path : ∀ m, InScope b db m → ∃ path, pathOf m = some path ∧ PyValue.accepts path = true
  distinct : ∀ m m', InScope b db m → InScope b db m' → pathOf m = pathOf m' → m = m'

/-- This is the text of the file under a path, as the backend looks it up. -/
def files (path : Str) : Option Str :=
  (MemoryRepo.findByMetadata b.principal db b.scope pathKey path).map Memory.body

variable {b : Backend} {db db' : Database} {ctx : CallContext} {s s' : Session}

theorem pathOf_eq_some (m : Memory) (path : Str) :
    pathOf m = some path ↔ Dict.get? m.metadata pathKey = some (.str path) := by
  rw [pathOf]
  split
  · rename_i found
    rw [found]
    simp
  · rename_i other
    constructor
    · simp
    · exact fun found => absurd found (other path)

theorem astext_of_pathOf (m : Memory) (path : Str) (own : pathOf m = some path) :
    (Dict.get? m.metadata pathKey).bind Json.astext = some path := by
  rw [(pathOf_eq_some m path).mp own]
  rfl

/-- The lookup under a path finds the file there. -/
theorem findByMetadata_eq_some (filed : Filed b db) (path : Str) (m : Memory) :
    MemoryRepo.findByMetadata b.principal db b.scope pathKey path = some m ↔ AtPath b db path m := by
  have holds (x : Memory) (inside : InScope b db x) :
      (x.inScope b.scope && (Dict.get? x.metadata pathKey).bind Json.astext == some path) = true ↔
        pathOf x = some path := by
    obtain ⟨own, named, _⟩ := filed.path x inside
    rw [astext_of_pathOf x own named, named, inside.2]
    simp
  constructor
  · intro found
    have accepted := List.find?_some found
    have inside : InScope b db m :=
      ⟨List.mem_of_find?_eq_some found, by simp only [Bool.and_eq_true] at accepted; exact accepted.1⟩
    exact ⟨inside, (holds m inside).mp accepted⟩
  · rintro ⟨inside, own⟩
    cases found : MemoryRepo.findByMetadata b.principal db b.scope pathKey path with
    | none =>
        have absent := List.find?_eq_none.mp found m inside.1
        exact absurd ((holds m inside).mpr own) absent
    | some other =>
        have accepted := List.find?_some found
        have otherInside : InScope b db other := ⟨List.mem_of_find?_eq_some found,
          by simp only [Bool.and_eq_true] at accepted; exact accepted.1⟩
        have named := (holds other otherInside).mp accepted
        rw [filed.distinct other m otherInside inside (named.trans own.symm)]

/-- Two databases with the same files under a path have the same text there. -/
theorem files_congr (filed : Filed b db) (filed' : Filed b db') (path : Str)
    (same : ∀ m, AtPath b db' path m ↔ AtPath b db path m) : files b db' path = files b db path := by
  have lookups : MemoryRepo.findByMetadata b.principal db' b.scope pathKey path =
      MemoryRepo.findByMetadata b.principal db b.scope pathKey path := by
    apply Option.ext
    intro m
    rw [findByMetadata_eq_some filed', findByMetadata_eq_some filed, same]
  rw [files, files, lookups]

theorem files_of_atPath (filed : Filed b db) (path : Str) (m : Memory) (own : AtPath b db path m) :
    files b db path = some m.body := by
  rw [files, (findByMetadata_eq_some filed path m).mpr own]
  rfl

theorem files_eq_none (filed : Filed b db) (path : Str) (absent : ∀ m, ¬ AtPath b db path m) :
    files b db path = none := by
  rw [files, Option.map_eq_none_iff]
  cases found : MemoryRepo.findByMetadata b.principal db b.scope pathKey path with
  | none => rfl
  | some m => exact absurd ((findByMetadata_eq_some filed path m).mp found) (absent m)

/-! The rows of the scope after each change. -/

/-- A change keeps the row where it is. -/
structure Stays (b : Backend) (m m' : Memory) : Prop where
  visible : Visible b.principal m → Visible b.principal m'
  inScope : m'.inScope b.scope = m.inScope b.scope

theorem inScope_updateMemory (m : Memory) (inside : InScope b db m) (change : Memory → Memory)
    (keeps : ∀ m, ((change m).id, (change m).publicId) = (m.id, m.publicId))
    (stays : Stays b m (change m)) (x : Memory) :
    InScope b (db.updateMemory m.id change keeps) x ↔ (InScope b db x ∧ x ≠ m) ∨ x = change m := by
  obtain ⟨live, ours⟩ := inside
  rw [MemoryRepo.mem_liveRows] at live
  simp only [InScope, MemoryRepo.mem_liveRows]
  rw [mem_updateMemory db m live.1]
  constructor
  · rintro ⟨⟨⟨old, other⟩ | rfl, visible⟩, inside⟩
    · exact Or.inl ⟨⟨⟨old, visible⟩, inside⟩, other⟩
    · exact Or.inr rfl
  · rintro (⟨⟨⟨old, visible⟩, inside⟩, other⟩ | rfl)
    · exact ⟨⟨Or.inl ⟨old, other⟩, visible⟩, inside⟩
    · exact ⟨⟨Or.inr rfl, stays.visible live.2⟩, stays.inScope.trans ours⟩

/-- The scope has one file replaced, or a new one. -/
structure Replaces (b : Backend) (db db' : Database) (gone : Memory → Prop) (m' : Memory)
    (path : Str) : Prop where
  rows : ∀ x, InScope b db' x ↔ (InScope b db x ∧ ¬ gone x) ∨ x = m'
  named : pathOf m' = some path
  accepted : PyValue.accepts path = true
  free : ∀ x, InScope b db x → ¬ gone x → pathOf x ≠ some path

variable {gone : Memory → Prop} {m' : Memory} {path : Str}

theorem Replaces.filed (replaces : Replaces b db db' gone m' path) (filed : Filed b db) :
    Filed b db' where
  path m inside := by
    rcases (replaces.rows m).mp inside with ⟨old, _⟩ | rfl
    · exact filed.path m old
    · exact ⟨path, replaces.named, replaces.accepted⟩
  distinct m n first second same := by
    rcases (replaces.rows m).mp first with ⟨old, kept⟩ | rfl
    · rcases (replaces.rows n).mp second with ⟨old', _⟩ | rfl
      · exact filed.distinct m n old old' same
      · exact absurd (same.trans replaces.named) (replaces.free m old kept)
    · rcases (replaces.rows n).mp second with ⟨old', kept'⟩ | rfl
      · exact absurd (same.symm.trans replaces.named) (replaces.free n old' kept')
      · rfl

theorem Replaces.atPath (replaces : Replaces b db db' gone m' path) : AtPath b db' path m' :=
  ⟨(replaces.rows m').mpr (Or.inr rfl), replaces.named⟩

/-- The other files of the scope stay under their paths. -/
theorem Replaces.frame (replaces : Replaces b db db' gone m' path) (filed : Filed b db) (other : Str)
    (different : other ≠ path) (kept : ∀ x, gone x → pathOf x ≠ some other) :
    files b db' other = files b db other := by
  apply files_congr filed (replaces.filed filed)
  intro x
  constructor
  · rintro ⟨inside, named⟩
    rcases (replaces.rows x).mp inside with ⟨old, _⟩ | rfl
    · exact ⟨old, named⟩
    · rw [replaces.named] at named
      exact absurd (Option.some.inj named).symm different
  · rintro ⟨inside, named⟩
    exact ⟨(replaces.rows x).mpr (Or.inl ⟨inside, fun lost => kept x lost named⟩), named⟩

/-- A deletion takes the row with the public id out of the visible rows. -/
theorem liveRows_delete (p : Principal) (env : Environment) (publicId : Uuid) (result : Bool)
    (done : MemoryService.delete env p ctx s publicId = .ok (result, s')) (x : Memory) :
    x ∈ MemoryRepo.liveRows p s'.db ↔ x ∈ MemoryRepo.liveRows p s.db ∧ x.publicId ≠ publicId := by
  rcases delete_cases publicId result done with ⟨absent, rfl⟩ | ⟨m, found, updated, _⟩
  · refine ⟨fun inside => ⟨inside, fun same => ?_⟩, fun inside => inside.1⟩
    rw [← same, MemoryRepo.getByPublicId_of_mem p s'.db x inside] at absent
    exact absurd absent (by simp)
  · obtain ⟨inside, named⟩ := MemoryRepo.getByPublicId_some p s.db publicId m found
    rw [MemoryRepo.mem_liveRows] at inside
    simp only [MemoryRepo.mem_liveRows, updated]
    rw [mem_updateMemory s.db m inside.1]
    constructor
    · rintro ⟨⟨old, other⟩ | rfl, visible⟩
      · refine ⟨⟨old, visible⟩, fun same => other ?_⟩
        exact memory_eq_of_publicId s.db x m old inside.1 (same.trans named.symm)
      · exact absurd visible.2 (by simp [Memory.live, Memory.softDeleted])
    · rintro ⟨⟨old, visible⟩, other⟩
      exact ⟨Or.inl ⟨old, fun same => other (same ▸ named)⟩, visible⟩

theorem liveRows_deleteAll (found : List Memory) (done : deleteAll b ctx s found = .ok s')
    (x : Memory) : x ∈ MemoryRepo.liveRows b.principal s'.db ↔
      x ∈ MemoryRepo.liveRows b.principal s.db ∧ ∀ m ∈ found, x.publicId ≠ m.publicId := by
  induction found generalizing s with
  | nil =>
      rw [deleteAll] at done
      simp [Except.ok.inj done]
  | cons m rest ih =>
      simp only [deleteAll, bind_eq_ok] at done
      obtain ⟨⟨deleted, next⟩, first, others⟩ := done
      rw [ih others, liveRows_delete _ _ _ _ first]
      simp [and_assoc]

/-- Deleting files of the scope leaves the other files. -/
theorem files_deleteAll (found : List Memory) (filed : Filed b s.db)
    (done : deleteAll b ctx s found = .ok s') :
    Filed b s'.db ∧ ∀ other, (∀ m ∈ found, InScope b s.db m ∧ pathOf m ≠ some other) →
      files b s'.db other = files b s.db other := by
  have rows (x : Memory) : InScope b s'.db x ↔
      InScope b s.db x ∧ ∀ m ∈ found, x.publicId ≠ m.publicId := by
    rw [InScope, InScope, liveRows_deleteAll found done]
    tauto
  have filed' : Filed b s'.db :=
    ⟨fun m inside => filed.path m ((rows m).mp inside).1, fun m n first second =>
      filed.distinct m n ((rows m).mp first).1 ((rows n).mp second).1⟩
  refine ⟨filed', fun other apart => files_congr filed filed' other fun x => ?_⟩
  constructor
  · rintro ⟨inside, named⟩
    exact ⟨((rows x).mp inside).1, named⟩
  · rintro ⟨inside, named⟩
    refine ⟨(rows x).mpr ⟨inside, fun m member same => ?_⟩, named⟩
    obtain ⟨owned, different⟩ := apart m member
    obtain ⟨live, _⟩ := owned
    rw [MemoryRepo.mem_liveRows] at live
    have present := inside.1
    rw [MemoryRepo.mem_liveRows] at present
    rw [memory_eq_of_publicId s.db x m present.1 live.1 same] at named
    exact different named

/-! What the handlers ask for. -/

/-- The command names the path. A deletion also names what lies under a directory. -/
def Addresses (b : Backend) (db : Database) (command : JsonDict) (path : Str) : Prop :=
  match commandOf (Dict.get? command "command".toList) with
  | some .rename => normalisePath (Dict.get? command "old_path".toList) = .ok path ∨
      normalisePath (Dict.get? command "new_path".toList) = .ok path
  | some .delete => ∃ named, normalisePath (Dict.get? command "path".toList) = .ok named ∧
      (path = named ∨
        (MemoryRepo.findByMetadata b.principal db b.scope pathKey named = none ∧
          below named path = true))
  | _ => normalisePath (Dict.get? command "path".toList) = .ok path

/-- The command creates the file under the path with the text. -/
structure Creates (command : JsonDict) (path text : Str) : Prop where
  known : commandOf (Dict.get? command "command".toList) = some .create
  normal : normalisePath (Dict.get? command "path".toList) = .ok path
  given : Dict.get? command "file_text".toList = some (.str text)

theorem file_eq_ok (path : Str) (found : Option Memory) :
    file b db path = .ok found ↔ PyValue.accepts path = true ∧
      MemoryRepo.findByMetadata b.principal db b.scope pathKey path = found := by
  rw [file]
  split
  · rename_i accepted
    simp [accepted]
  · rename_i refused
    simp [refused]

theorem requireFile_eq_ok (path missing : Str) (m : Memory)
    (done : requireFile b db path missing = .ok m) :
    MemoryRepo.findByMetadata b.principal db b.scope pathKey path = some m := by
  simp only [requireFile, bind_eq_ok, file_eq_ok] at done
  obtain ⟨found, ⟨_, looked⟩, done⟩ := done
  split at done
  · exact absurd done (throw_ne_ok _ _)
  · split at done
    · exact absurd done (throw_ne_ok _ _)
    · rw [looked, Except.ok.inj done]

/-- A plan fits its command when it touches files under the paths of the command only. -/
def Fits (b : Backend) (db : Database) (command : JsonDict) : Plan → Prop
  | .reply _ => True
  | .update m patch _ => ∃ path, AtPath b db path m ∧ Addresses b db command path ∧
      (patch.metadata = none ∨ ∃ path', Addresses b db command path' ∧
        PyValue.accepts path' = true ∧ (∀ x, ¬ AtPath b db path' x) ∧
        patch.metadata = some (Dict.set m.metadata pathKey (.str path')))
  | .write path text => Creates command path text ∧ PyValue.accepts path = true ∧
      ∀ x, ¬ AtPath b db path x
  | .delete found _ => ∀ m ∈ found, InScope b db m ∧
      ∀ path, pathOf m = some path → Addresses b db command path

theorem not_atPath (filed : Filed b db) (path : Str)
    (free : MemoryRepo.findByMetadata b.principal db b.scope pathKey path = none) (x : Memory) :
    ¬ AtPath b db path x := by
  rw [← findByMetadata_eq_some filed, free]
  simp

/-- An edit of the file under the only path of a command fits it. -/
theorem fits_edit (filed : Filed b db) (command : JsonDict) (path : Str) (m : Memory)
    (patch : MemoryPatch) (content : Str)
    (found : MemoryRepo.findByMetadata b.principal db b.scope pathKey path = some m)
    (addressed : Addresses b db command path) (still : patch.metadata = none) :
    Fits b db command (.update m patch content) :=
  ⟨path, (findByMetadata_eq_some filed path m).mp found, addressed, Or.inl still⟩

theorem fits_children (command : JsonDict) (path : Str) (content : Str)
    (addressed : ∀ path', below path path' = true → Addresses b db command path') :
    Fits b db command (.delete (children b db path) content) := by
  intro m inside
  rw [children, List.mem_filter] at inside
  obtain ⟨listed, under⟩ := inside
  have member := List.mem_of_mem_take listed
  rw [List.mem_filter] at member
  simp only [Bool.and_eq_true] at member
  refine ⟨⟨member.1, member.2.1⟩, fun path' own => addressed path' ?_⟩
  rw [own] at under
  exact under

/-! The plan of each command. -/

theorem fits_view (command : JsonDict) (plan : Plan)
    (decided : handler b .view db command = .ok plan) : Fits b db command plan := by
  simp only [handler, view, bind_eq_ok, file_eq_ok] at decided
  obtain ⟨path, _, found, _, decided⟩ := decided
  split at decided
  · simp only [bind_eq_ok] at decided
    obtain ⟨_, _, same⟩ := decided
    exact Except.ok.inj same ▸ trivial
  · split at decided <;> exact Except.ok.inj decided ▸ trivial

theorem fits_create (filed : Filed b db) (command : JsonDict) (plan : Plan)
    (known : commandOf (Dict.get? command "command".toList) = some .create)
    (decided : handler b .create db command = .ok plan) : Fits b db command plan := by
  simp only [handler, create, bind_eq_ok] at decided
  obtain ⟨path, normal, _, _, decided⟩ := decided
  split at decided
  · rename_i text given
    simp only [bind_eq_ok, file_eq_ok] at decided
    obtain ⟨found, ⟨accepted, looked⟩, decided⟩ := decided
    split at decided
    · rw [← Except.ok.inj decided]
      exact fits_edit filed command path _ _ _ looked (by simpa only [Addresses, known]) rfl
    · rw [← Except.ok.inj decided]
      exact ⟨⟨known, normal, given⟩, accepted, not_atPath filed path looked⟩
  · exact absurd decided (throw_ne_ok _ _)

theorem fits_strReplace (filed : Filed b db) (command : JsonDict) (plan : Plan)
    (known : commandOf (Dict.get? command "command".toList) = some .strReplace)
    (decided : handler b .strReplace db command = .ok plan) : Fits b db command plan := by
  simp only [handler, strReplace, bind_eq_ok] at decided
  obtain ⟨path, normal, found, required, decided⟩ := decided
  have looked := requireFile_eq_ok path _ found required
  split at decided
  · rw [← Except.ok.inj decided, replaceIn]
    split
    · trivial
    · split
      · trivial
      · exact fits_edit filed command path _ _ _ looked (by simpa only [Addresses, known]) rfl
  · exact absurd decided (throw_ne_ok _ _)

theorem fits_insert (filed : Filed b db) (command : JsonDict) (plan : Plan)
    (known : commandOf (Dict.get? command "command".toList) = some .insert)
    (decided : handler b .insert db command = .ok plan) : Fits b db command plan := by
  simp only [handler, insert, bind_eq_ok] at decided
  obtain ⟨path, normal, found, required, decided⟩ := decided
  have looked := requireFile_eq_ok path _ found required
  split at decided
  · simp only [insertAt] at decided
    split at decided
    · exact Except.ok.inj decided ▸ trivial
    · split at decided
      · rw [← Except.ok.inj decided]
        exact fits_edit filed command path _ _ _ looked (by simpa only [Addresses, known]) rfl
      · exact absurd decided (by simp)
  · exact absurd decided (throw_ne_ok _ _)

theorem fits_delete (filed : Filed b db) (command : JsonDict) (plan : Plan)
    (known : commandOf (Dict.get? command "command".toList) = some .delete)
    (decided : handler b .delete db command = .ok plan) : Fits b db command plan := by
  simp only [handler, delete, bind_eq_ok, file_eq_ok] at decided
  obtain ⟨path, normal, _, _, found, ⟨_, looked⟩, decided⟩ := decided
  split at decided
  · rename_i m
    rw [← Except.ok.inj decided]
    intro x single
    rw [List.mem_singleton.mp single]
    obtain ⟨inside, own⟩ := (findByMetadata_eq_some filed path m).mp looked
    refine ⟨inside, fun path' own' => ?_⟩
    rw [own] at own'
    simp only [Addresses, known]
    exact ⟨path, normal, Or.inl (Option.some.inj own').symm⟩
  · have under : Fits b db command (.delete (children b db path) _) :=
      fits_children command path ("Successfully deleted " ++ path) fun path' lower => by
        simp only [Addresses, known]
        exact ⟨path, normal, Or.inr ⟨looked, lower⟩⟩
    split at decided
    · exact Except.ok.inj decided ▸ trivial
    · rw [← Except.ok.inj decided]
      exact under

theorem fits_rename (filed : Filed b db) (command : JsonDict) (plan : Plan)
    (known : commandOf (Dict.get? command "command".toList) = some .rename)
    (decided : handler b .rename db command = .ok plan) : Fits b db command plan := by
  simp only [handler, rename, bind_eq_ok, file_eq_ok] at decided
  obtain ⟨oldPath, oldNormal, newPath, newNormal, _, _, found, ⟨_, looked⟩, decided⟩ := decided
  split at decided
  · exact Except.ok.inj decided ▸ trivial
  · simp only [bind_eq_ok, file_eq_ok] at decided
    obtain ⟨taken, ⟨accepted, free⟩, decided⟩ := decided
    split at decided
    · exact Except.ok.inj decided ▸ trivial
    · rw [← Except.ok.inj decided]
      refine ⟨oldPath, (findByMetadata_eq_some filed oldPath _).mp looked, ?_,
        Or.inr ⟨newPath, ?_, accepted, not_atPath filed newPath free, rfl⟩⟩
      · simp only [Addresses, known]
        exact Or.inl oldNormal
      · simp only [Addresses, known]
        exact Or.inr newNormal

/-- Every plan of a command fits it. -/
theorem fits_of_plans (filed : Filed b db) (command : JsonDict) (plan : Plan)
    (plans : Plans b db command plan) : Fits b db command plan := by
  obtain ⟨name, known, decided⟩ := plans
  cases name with
  | view => exact fits_view command plan decided
  | create => exact fits_create filed command plan known decided
  | strReplace => exact fits_strReplace filed command plan known decided
  | insert => exact fits_insert filed command plan known decided
  | delete => exact fits_delete filed command plan known decided
  | rename => exact fits_rename filed command plan known decided

end Kortex.MemoryTool
