import Kortex.Model.ReadPaths
import Kortex.Proof.AgentLoop

/-
This file proves when all read paths show only memories that `get` shows.
-/

namespace Kortex

namespace Conflicts

/-- The notes leave everything else of a hit as it is. -/
theorem mem_attach (notes : Nat → List ConflictNote) (hits : List HybridSearchHit)
    (hit : HybridSearchHit) (inside : hit ∈ attach notes hits) :
    ∃ old ∈ hits, hit.memoryId = old.memoryId ∧ hit.publicId = old.publicId := by
  induction hits with
  | nil => exact absurd inside List.not_mem_nil
  | cons first rest ih =>
      rw [attach, List.mem_cons] at inside
      rcases inside with rfl | later
      · refine ⟨first, List.mem_cons_self, ?_⟩
        split
        · exact ⟨rfl, rfl⟩
        · exact ⟨rfl, rfl⟩
      · obtain ⟨old, present, same⟩ := ih later
        exact ⟨old, List.mem_cons_of_mem _ present, same⟩

theorem mem_demoteSuperseded {A : Type} (items : List A) (demotedIds : List Nat) (key : A → Nat)
    (item : A) : item ∈ demoteSuperseded items demotedIds key ↔ item ∈ items := by
  simp only [demoteSuperseded, List.mem_append, List.mem_filter]
  cases demotedIds.contains (key item) <;> simp

theorem annotateConflicts_ne_nil (isoformat : Instant → Str) (p : Principal) (db : Database)
    (hits : List HybridSearchHit) (some : hits ≠ []) :
    (annotateConflicts isoformat p db hits).1 ≠ [] := by
  obtain ⟨first, rest, rfl⟩ := List.exists_cons_of_ne_nil some
  simp only [annotateConflicts]
  split
  · exact some
  · simp [withNotes, attach]

theorem mem_annotateConflicts (isoformat : Instant → Str) (p : Principal) (db : Database)
    (hits : List HybridSearchHit) (hit : HybridSearchHit)
    (inside : hit ∈ (annotateConflicts isoformat p db hits).1) :
    ∃ old ∈ hits, hit.memoryId = old.memoryId ∧ hit.publicId = old.publicId := by
  simp only [annotateConflicts] at inside
  split at inside
  · exact ⟨hit, inside, rfl, rfl⟩
  · exact mem_attach _ hits hit inside

end Conflicts

namespace RetrievalService

variable {env : Environment} {engine : SearchEngine} {isoformat : Instant → Str} {p : Principal}
  {db : Database}

theorem mem_search (now : Instant) (r : SearchRequest) (hit : HybridSearchHit)
    (inside : hit ∈ (search env engine isoformat p db now r).1.hits) :
    ∃ old ∈ found env engine p db r, hit.memoryId = old.memoryId ∧ hit.publicId = old.publicId := by
  simp only [search] at inside
  split at inside
  · rw [Conflicts.mem_demoteSuperseded] at inside
    exact Conflicts.mem_annotateConflicts isoformat p db _ hit inside
  · exact ⟨hit, inside, rfl, rfl⟩

variable (isoformat) in
theorem search_ne_nil (now : Instant) (r : SearchRequest) (some : found env engine p db r ≠ []) :
    (search env engine isoformat p db now r).1.hits ≠ [] := by
  simp only [search]
  split
  · obtain ⟨hit, inside⟩ :=
      List.exists_mem_of_ne_nil _ (Conflicts.annotateConflicts_ne_nil isoformat p db _ some)
    exact List.ne_nil_of_mem ((Conflicts.mem_demoteSuperseded _ _ _ hit).mpr inside)
  · exact some

end RetrievalService

namespace MemoryService

variable (env : Environment) (engine : SearchEngine) (isoformat : Instant → Str) (p : Principal)
  (db : Database)

/-- Every read path shows only memories that `get` shows to the principal. -/
structure ReadsAgree : Prop where
  list_ : ∀ r listed, MemoryService.list_ p db r = .ok listed →
    ∀ m ∈ listed, get p db m.publicId = .ok (some m)
  listLinks : ∀ publicId linked, MemoryService.listLinks p db publicId = .ok linked →
    ∀ entry ∈ linked, get p db entry.1.publicId = .ok (some entry.1)
  search : ∀ now r, ∀ hit ∈ (RetrievalService.search env engine isoformat p db now r).1.hits,
    ∃ m, hit.memoryId = m.id ∧ hit.publicId = m.publicId.str ∧
      get p db m.publicId = .ok (some m)

/-- The role of the principal in the scope of the memory reads its sensitivity. -/
def RoleReads (m : Memory) : Prop :=
  AccessControl.canRead p ⟨⟨m.scopeType, m.scopeId⟩, m.sensitivity⟩ = true

/-- The memory is approved and below the ceiling of the principal, or linked with a visible one. -/
def Shown (m : Memory) : Prop :=
  (m.reviewStatus = .approved ∧ (p.isSuperuser = true ∨ m.upTo p.maxSensitivity = true)) ∨
    ∃ anchor ∈ MemoryRepo.liveRows p db, ∃ link ∈ db.links,
      link.touches anchor.id = true ∧ link.other anchor.id = m.id

/-- Some search matches the memory, and its filters admit it. -/
def Findable (m : Memory) : Prop :=
  ∃ r : RetrievalService.SearchRequest,
    m.admitted env.settings r.scopes p.maxSensitivity = true ∧
      Retrieval.Matches engine env.settings db
        { query := r.query, queryVector := RetrievalService.queryVector env r, scopes := r.scopes
          maxSensitivity := p.maxSensitivity, limit := 20 } p m

/-- The roles of the principal cover all memories that the read paths show. -/
structure RolesCover : Prop where
  shown : p.hasKeyScope "read:memory" = true →
    ∀ m ∈ MemoryRepo.liveRows p db, Shown p db m → RoleReads p m
  findable : p.hasKeyScope "read:memory" = false →
    ∀ m ∈ MemoryRepo.liveRows p db, ¬ Findable env engine p db m

variable {env engine isoformat p db}

theorem requireScope_eq_ok (name : Str) (u : Unit) :
    requireScope p name = .ok u ↔ p.hasKeyScope name = true := by
  rw [requireScope]
  split
  · rename_i held
    simp [held]
  · rename_i missing
    simp [missing]

/-- A visible memory is shown by `get` exactly when the key scope and the role allow it. -/
theorem get_eq_some (m : Memory) (present : m ∈ MemoryRepo.liveRows p db) :
    get p db m.publicId = .ok (some m) ↔ p.hasKeyScope "read:memory" = true ∧ RoleReads p m := by
  simp only [get, bind_eq_ok, requireScope_eq_ok, MemoryRepo.getByPublicId_of_mem p db m present,
    RoleReads]
  split
  · rename_i reads
    simp [reads, pure, Except.pure]
  · rename_i denied
    simp [denied, pure, Except.pure]

theorem mem_list_ (r : ListRequest) (listed : List Memory) (done : list_ p db r = .ok listed)
    (m : Memory) (inside : m ∈ listed) :
    p.hasKeyScope "read:memory" = true ∧ m ∈ MemoryRepo.liveRows p db ∧ Shown p db m := by
  simp only [list_, bind_eq_ok, requireScope_eq_ok] at done
  obtain ⟨_, held, same⟩ := done
  rw [← Except.ok.inj same] at inside
  have sorted := List.mem_of_mem_drop (List.mem_of_mem_take inside)
  rw [List.mem_insertionSort, List.mem_filter] at sorted
  simp only [Bool.and_eq_true, beq_iff_eq] at sorted
  refine ⟨held, sorted.1, Or.inl ⟨sorted.2.1.1.1.1, ?_⟩⟩
  have capped := sorted.2.2
  by_cases super : p.isSuperuser = true
  · exact Or.inl super
  · rw [if_neg super] at capped
    exact Or.inr capped

theorem mem_listLinks (publicId : Uuid) (linked : List (Memory × MemoryLinkType))
    (done : listLinks p db publicId = .ok linked) (entry : Memory × MemoryLinkType)
    (inside : entry ∈ linked) :
    p.hasKeyScope "read:memory" = true ∧ entry.1 ∈ MemoryRepo.liveRows p db ∧ Shown p db entry.1 := by
  simp only [listLinks, bind_eq_ok, requireScope_eq_ok] at done
  obtain ⟨_, held, done⟩ := done
  split at done
  · rw [← Except.ok.inj done] at inside
    exact absurd inside List.not_mem_nil
  · rename_i anchor found
    rw [← Except.ok.inj done, List.mem_filterMap] at inside
    obtain ⟨link, neighbor, built⟩ := inside
    obtain ⟨other, looked, rfl⟩ := Option.map_eq_some_iff.mp built
    obtain ⟨row, same⟩ := MemoryRepo.getById_some p db _ other looked
    rw [MemoryLinkRepo.neighbors, List.mem_filter] at neighbor
    have touches : link.touches anchor.id = true := by simpa using neighbor.2
    exact ⟨held, row, Or.inr ⟨anchor, (MemoryRepo.getByPublicId_some p db _ _ found).1, link,
      neighbor.1, touches, same.symm⟩⟩

theorem list_of_held (held : p.hasKeyScope "read:memory" = true) (r : ListRequest) :
    list_ p db r = .ok (MemoryRepo.list_ p db r.scope r.tier r.kind r.limit r.offset
      (if p.isSuperuser then none else some p.maxSensitivity)) := by
  rw [list_, (requireScope_eq_ok _ ()).mpr held]
  rfl

theorem listLinks_of_held (held : p.hasKeyScope "read:memory" = true) (anchor : Memory)
    (visible : anchor ∈ MemoryRepo.liveRows p db) :
    listLinks p db anchor.publicId = .ok ((MemoryLinkRepo.neighbors db anchor.id []).filterMap
      fun link => (MemoryRepo.getById p db (link.other anchor.id)).map fun other =>
        (other, link.linkType)) := by
  rw [listLinks, (requireScope_eq_ok _ ()).mpr held, MemoryRepo.getByPublicId_of_mem p db anchor visible]
  rfl

/-- Some listing or some link shows every memory that a read path may show. -/
theorem shown_is_read (held : p.hasKeyScope "read:memory" = true) (m : Memory)
    (present : m ∈ MemoryRepo.liveRows p db) (shown : Shown p db m) :
    (∃ r listed, list_ p db r = .ok listed ∧ m ∈ listed) ∨
      ∃ publicId linked linkType, listLinks p db publicId = .ok linked ∧ (m, linkType) ∈ linked := by
  rcases shown with ⟨approved, capped⟩ | ⟨anchor, visible, link, stored, touches, same⟩
  · refine Or.inl ⟨{ limit := (MemoryRepo.liveRows p db).length }, _, list_of_held held _, ?_⟩
    rw [MemoryRepo.list_, List.drop_zero, List.take_of_length_le]
    · rw [List.mem_insertionSort, List.mem_filter]
      refine ⟨present, ?_⟩
      have below : (if p.isSuperuser then none else some p.maxSensitivity).all m.upTo = true := by
        rcases capped with super | below
        · rw [if_pos super]
          rfl
        · split
          · rfl
          · exact below
      simp [approved, below]
    · rw [List.length_insertionSort]
      exact List.length_filter_le _ _
  · refine Or.inr ⟨anchor.publicId, _, link.linkType, listLinks_of_held held anchor visible, ?_⟩
    rw [List.mem_filterMap]
    refine ⟨link, ?_, ?_⟩
    · rw [MemoryLinkRepo.neighbors, List.mem_filter]
      exact ⟨stored, by simp [touches]⟩
    · rw [same, MemoryRepo.getById_of_mem p db m present]
      rfl

/-- A hit of the search is a visible row that some search finds. -/
theorem mem_found (r : RetrievalService.SearchRequest) (hit : HybridSearchHit)
    (inside : hit ∈ RetrievalService.found env engine p db r) :
    ∃ m ∈ MemoryRepo.liveRows p db, hit.memoryId = m.id ∧ hit.publicId = m.publicId.str ∧
      Shown p db m ∧ Findable env engine p db m := by
  obtain ⟨m, present, admitted, matched, score, rfl⟩ :=
    Retrieval.mem_hybridSearch engine env.settings db _ p hit inside
  refine ⟨m, present, rfl, rfl, Or.inl ?_, r, admitted, matched⟩
  simp only [Memory.admitted, Bool.and_eq_true, beq_iff_eq] at admitted
  exact ⟨admitted.1.1.2, Or.inr admitted.1.1.1.2⟩

/-- All read paths show only what `get` shows, exactly when the roles of the principal cover all
memories that the other paths show. -/
theorem readsAgree_iff (env : Environment) (engine : SearchEngine) (isoformat : Instant → Str)
    (p : Principal) (db : Database) :
    ReadsAgree env engine isoformat p db ↔ RolesCover env engine p db := by
  constructor
  · intro agree
    refine ⟨fun held m present shown => ?_, fun missing m present findable => ?_⟩
    · rcases shown_is_read held m present shown with
        ⟨r, listed, done, inside⟩ | ⟨publicId, linked, linkType, done, inside⟩
      · exact ((get_eq_some m present).mp (agree.list_ r listed done m inside)).2
      · exact ((get_eq_some m present).mp (agree.listLinks publicId linked done _ inside)).2
    · obtain ⟨r, admitted, matched⟩ := findable
      have some : RetrievalService.found env engine p db { r with limit := 20 } ≠ [] :=
        Retrieval.hybridSearch_ne_nil engine env.settings db _ p (show (0 : Int) < 20 by decide) m present
          admitted matched
      obtain ⟨hit, inside⟩ := List.exists_mem_of_ne_nil _
        (RetrievalService.search_ne_nil isoformat 0 _ some)
      obtain ⟨m', _, _, reads⟩ := agree.search 0 _ hit inside
      simp only [get, bind_eq_ok, requireScope_eq_ok, missing] at reads
      obtain ⟨_, held, _⟩ := reads
      exact absurd held (by decide)
  · intro cover
    refine ⟨fun r listed done m inside => ?_, fun publicId linked done entry inside => ?_,
      fun now r hit inside => ?_⟩
    · obtain ⟨held, present, shown⟩ := mem_list_ r listed done m inside
      exact (get_eq_some m present).mpr ⟨held, cover.shown held m present shown⟩
    · obtain ⟨held, present, shown⟩ := mem_listLinks publicId linked done entry inside
      exact (get_eq_some entry.1 present).mpr ⟨held, cover.shown held entry.1 present shown⟩
    · obtain ⟨old, found, sameId, samePublicId⟩ := RetrievalService.mem_search now r hit inside
      obtain ⟨m, present, id, publicId, shown, findable⟩ := mem_found r old found
      have held : p.hasKeyScope "read:memory" = true := by
        by_contra missing
        exact cover.findable (by simpa using missing) m present findable
      exact ⟨m, sameId.trans id, samePublicId.trans publicId,
        (get_eq_some m present).mpr ⟨held, cover.shown held m present shown⟩⟩

/-- A memory of another workspace is listed, but not shown by its id. -/
def sampleElsewhere : Database where
  memories := Table.empty.insert
    { AgentLoop.sampleMemory 1 "x" .approved with scopeId := 2 } (Table.fresh_empty _)

theorem list_shows_unreadable_memory :
    ¬ ∀ (env : Environment) (engine : SearchEngine) (isoformat : Instant → Str) (p : Principal)
      (db : Database), ReadsAgree env engine isoformat p db := by
  intro claim
  have agree := claim sampleEnvironment AgentLoop.sampleEngine (fun _ => "1970-01-01")
    AgentLoop.sampleMember sampleElsewhere
  have reads := agree.list_ {} [{ AgentLoop.sampleMemory 1 "x" .approved with scopeId := 2 }] rfl _
    List.mem_cons_self
  have present : { AgentLoop.sampleMemory 1 "x" .approved with scopeId := 2 } ∈
      MemoryRepo.liveRows AgentLoop.sampleMember sampleElsewhere := List.mem_cons_self
  have roleReads := ((get_eq_some _ present).mp reads).2
  exact absurd roleReads (by unfold RoleReads; decide)

end MemoryService
end Kortex
