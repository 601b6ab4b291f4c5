import Kortex.Proof.AgentLoop
import Kortex.Proof.Archive

/-
This file proves when the conflict notes of search results name readable memories alone.
-/

namespace Kortex.Conflicts

/-- The memory is live and approved, belongs to the org of the principal and is within its ceiling. -/
structure Readable (p : Principal) (m : Memory) : Prop where
  live : m.live = true
  approved : m.reviewStatus = .approved
  own : m.orgId = p.orgId
  ceiling : m.upTo p.maxSensitivity = true

/-- Every note names a readable memory, and none of them names one again with the same relation. -/
structure Discreet (p : Principal) (db : Database) (notes : List ConflictNote) : Prop where
  named : ∀ note ∈ notes, ∃ m ∈ db.memories.rows, m.publicId.str = note.publicId ∧ Readable p m
  once : (notes.map fun note => (note.publicId, note.relation)).Nodup

variable (isoformat : Instant → Str) (p : Principal) (db : Database)

/-- These are the ends of the conflict links at a memory, where the tenant query finds the other end. -/
def shown (memoryId : Nat) : List Anchored :=
  ((db.links.filter fun link => link.linkType == .supersedes || link.linkType == .contradicts).flatMap
    anchorsOf).filter fun entry => entry.anchor == memoryId &&
      (tenantQuery Memory.orgId p db.memories.rows).any fun m => m.id == entry.other

/-- The other ends of the conflict links at a memory are readable, and no two of the links read alike. -/
structure OnlyReadable (memoryId : Nat) : Prop where
  readable : ∀ entry ∈ shown p db memoryId, ∀ m ∈ db.memories.rows, m.id = entry.other → Readable p m
  apart : (shown p db memoryId).Nodup

/-- These are the notes of a hit. -/
def notesAt (memoryId : Nat) : List ConflictNote :=
  (shown p db memoryId).filterMap fun entry =>
    describe isoformat (tenantQuery Memory.orgId p db.memories.rows) entry.relation entry.other

/-- This is the text of the public id of a memory. -/
def publicIdOf (memoryId : Nat) : Str :=
  (((tenantQuery Memory.orgId p db.memories.rows).find? fun m => m.id == memoryId).map
    fun m => m.publicId.str).getD []

variable {p db}

theorem mem_shown (memoryId : Nat) (entry : Anchored) (inside : entry ∈ shown p db memoryId) :
    entry.anchor = memoryId ∧ ∃ m ∈ db.memories.rows, m.id = entry.other ∧
      ((tenantQuery Memory.orgId p db.memories.rows).find? fun m => m.id == entry.other) = some m := by
  obtain ⟨_, holds⟩ := List.mem_filter.mp inside
  rw [Bool.and_eq_true, beq_iff_eq] at holds
  refine ⟨holds.1, ?_⟩
  obtain ⟨m, found⟩ := Option.isSome_iff_exists.mp (List.find?_isSome.mpr (List.any_eq_true.mp holds.2))
  refine ⟨m, ?_, by simpa using List.find?_some found, found⟩
  exact (List.mem_filter.mp (List.mem_of_find?_eq_some found)).1

/-- The notes of a hit name the other ends of its links. -/
theorem map_notesAt (memoryId : Nat) :
    (notesAt isoformat p db memoryId).map (fun note => (note.publicId, note.relation)) =
      (shown p db memoryId).map fun entry => (publicIdOf p db entry.other, entry.relation) := by
  rw [notesAt, List.map_filterMap, ← List.filterMap_eq_map]
  apply List.filterMap_congr
  intro entry inside
  obtain ⟨_, m, _, _, found⟩ := mem_shown memoryId entry inside
  simp only [describe, publicIdOf, found, Option.map_some, Function.comp, Option.getD_some]

theorem publicIdOf_inj (memoryId : Nat) (a b : Anchored) (first : a ∈ shown p db memoryId)
    (second : b ∈ shown p db memoryId)
    (same : (publicIdOf p db a.other, a.relation) = (publicIdOf p db b.other, b.relation)) : a = b := by
  obtain ⟨anchor, m, row, own, found⟩ := mem_shown memoryId a first
  obtain ⟨anchor', m', row', own', found'⟩ := mem_shown memoryId b second
  obtain ⟨ids, relations⟩ := Prod.mk.inj same
  simp only [publicIdOf, found, found', Option.map_some, Option.getD_some] at ids
  have equal := memory_eq_of_publicId db m m' row row' (Uuid.str_injective ids)
  obtain ⟨x, y, z⟩ := a
  obtain ⟨x', y', z'⟩ := b
  simp only at anchor anchor' own own' relations
  rw [anchor, anchor', ← own, ← own', equal, relations]

/-- The notes of a hit are discreet exactly when its links lead to readable memories alone. -/
theorem discreet_notesAt_iff (memoryId : Nat) :
    Discreet p db (notesAt isoformat p db memoryId) ↔ OnlyReadable p db memoryId := by
  constructor
  · intro discreet
    constructor
    · intro entry inside m row own
      obtain ⟨_, m', row', own', found⟩ := mem_shown memoryId entry inside
      obtain rfl := memory_eq_of_id db m m' row row' (own.trans own'.symm)
      obtain ⟨readable, present, same, reads⟩ := discreet.named _ (List.mem_filterMap.mpr
        ⟨entry, inside, by rw [describe, found]; rfl⟩)
      rwa [memory_eq_of_publicId db readable m present row (Uuid.str_injective same)] at reads
    · have once := discreet.once
      rw [map_notesAt] at once
      exact once.of_map _
  · intro only
    constructor
    · intro note inside
      obtain ⟨entry, listed, described⟩ := List.mem_filterMap.mp inside
      obtain ⟨_, m, row, own, found⟩ := mem_shown memoryId entry listed
      rw [describe, found, Option.map_some] at described
      exact ⟨m, row, by rw [← Option.some.inj described], only.readable entry listed m row own⟩
    · rw [map_notesAt]
      exact only.apart.map_on fun a first b second => publicIdOf_inj memoryId a b first second

/-! The notes that the hits get. -/

/-- The links of the hits have the same ends at a hit as all links. -/
theorem anchors_conflictLinks (present : List Nat) (memoryId : Nat) (inside : memoryId ∈ present) :
    ((MemoryLinkRepo.conflictLinks db present).flatMap anchorsOf).filter
        (fun entry => entry.anchor == memoryId) =
      ((db.links.filter fun link => link.linkType == .supersedes ||
        link.linkType == .contradicts).flatMap anchorsOf).filter fun entry => entry.anchor == memoryId := by
  rw [MemoryLinkRepo.conflictLinks]
  induction db.links with
  | nil => rfl
  | cons link rest ih =>
      cases conflict : (link.linkType == .supersedes || link.linkType == .contradicts) with
      | false => simpa [List.filter_cons, conflict] using ih
      | true =>
          cases touched : (present.contains link.fromMemoryId || present.contains link.toMemoryId) with
          | true =>
              simp only [List.filter_cons, conflict, touched, Bool.and_true, if_true, List.flatMap_cons,
                List.filter_append, ih]
          | false =>
              have none : (anchorsOf link).filter (fun entry => entry.anchor == memoryId) = [] := by
                rw [List.filter_eq_nil_iff]
                intro entry anchored own
                rw [beq_iff_eq] at own
                rw [Bool.or_eq_false_iff] at touched
                have start := ends_of_mem_anchorsOf link entry anchored
                rw [own] at start
                cases start with
                | inl forth => simp [← forth.1, inside] at touched
                | inr back => simp [← back.1, inside] at touched
              simp only [List.filter_cons, conflict, touched, Bool.and_false, Bool.false_eq_true, if_false,
                if_true, List.flatMap_cons, List.filter_append, none, List.nil_append, ih]

theorem notes_of_notesOf (rows : List Memory) (present : List Nat) (memoryId : Nat)
    (inside : memoryId ∈ present) (entries : List Anchored) :
    ((entries.filterMap fun entry => if present.contains entry.anchor then
      (describe isoformat rows entry.relation entry.other).map fun note => (entry, note)
        else none).filter fun entry => entry.1.anchor == memoryId).map Prod.snd =
      (entries.filter fun entry => entry.anchor == memoryId).filterMap fun entry =>
        describe isoformat rows entry.relation entry.other := by
  induction entries with
  | nil => rfl
  | cons entry rest ih =>
      simp only [List.contains_iff_mem] at ih ⊢
      by_cases own : entry.anchor = memoryId
      · cases described : describe isoformat rows entry.relation entry.other with
        | none => simp [own, described, ih]
        | some note => simp [own, inside, described, ih]
      · by_cases listed : entry.anchor ∈ present
        · cases described : describe isoformat rows entry.relation entry.other with
          | none => simp [own, listed, described, ih]
          | some note => simp [own, listed, described, ih]
        · simp [own, listed, ih]

/-- Links whose other end the tenant query does not find give no notes. -/
theorem filterMap_shown (memoryId : Nat) (entries : List Anchored) :
    (entries.filter fun entry => entry.anchor == memoryId).filterMap (fun entry =>
      describe isoformat (tenantQuery Memory.orgId p db.memories.rows) entry.relation entry.other) =
    (entries.filter fun entry => entry.anchor == memoryId &&
      (tenantQuery Memory.orgId p db.memories.rows).any fun m => m.id == entry.other).filterMap
        fun entry => describe isoformat (tenantQuery Memory.orgId p db.memories.rows) entry.relation
          entry.other := by
  induction entries with
  | nil => rfl
  | cons entry rest ih =>
      by_cases own : entry.anchor = memoryId
      · cases known : (tenantQuery Memory.orgId p db.memories.rows).any fun m => m.id == entry.other with
        | true => simp only [own, known, beq_self_eq_true, Bool.and_true, List.filter_cons_of_pos,
            List.filterMap_cons, ih]
        | false =>
            have missing : describe isoformat (tenantQuery Memory.orgId p db.memories.rows)
                entry.relation entry.other = none := by
              rw [describe, List.find?_eq_none.mpr]
              · rfl
              · intro m present same
                rw [List.any_eq_false] at known
                exact known m present same
            simp [own, known, missing, ih]
      · simp [own, ih]

/-- Each memory among the hits has its notes at one of them, and the other hits keep theirs. -/
theorem forall_attach_iff (notes : Nat → List ConflictNote) (P : List ConflictNote → Prop)
    (empty : P []) (hits : List HybridSearchHit) (fresh : ∀ hit ∈ hits, hit.conflicts = []) :
    (∀ hit ∈ attach notes hits, P hit.conflicts) ↔ ∀ hit ∈ hits, P (notes hit.memoryId) := by
  induction hits with
  | nil => simp [attach]
  | cons first rest ih =>
      rw [List.forall_mem_cons] at fresh
      rw [attach, List.forall_mem_cons, List.forall_mem_cons, ih fresh.2]
      split
      · rename_i again
        obtain ⟨other, later, same⟩ := List.any_eq_true.mp again
        rw [beq_iff_eq] at same
        constructor
        · intro ⟨_, others⟩
          exact ⟨same ▸ others other later, others⟩
        · intro ⟨_, others⟩
          exact ⟨fresh.1 ▸ empty, others⟩
      · exact Iff.rfl

/-- The conflict notes disclose nothing exactly when the conflict links of the hits, as far as the tenant
query finds their other ends, lead to readable memories and no two of them read alike. -/
theorem notes_discreet_iff (isoformat : Instant → Str) (p : Principal) (db : Database)
    (hits : List HybridSearchHit) (fresh : ∀ hit ∈ hits, hit.conflicts = []) :
    (∀ hit ∈ (annotateConflicts isoformat p db hits).1, Discreet p db hit.conflicts) ↔
      ∀ hit ∈ hits, OnlyReadable p db hit.memoryId := by
  have nothing : Discreet p db [] :=
    ⟨fun _ inside => absurd inside List.not_mem_nil, List.nodup_nil⟩
  have own (hit : HybridSearchHit) (inside : hit ∈ hits) :
      ((notesOf isoformat (tenantQuery Memory.orgId p db.memories.rows)
        (hits.map HybridSearchHit.memoryId)
        (MemoryLinkRepo.conflictLinks db (hits.map HybridSearchHit.memoryId))).filter fun entry =>
          entry.1.anchor == hit.memoryId).map Prod.snd = notesAt isoformat p db hit.memoryId := by
    have present : hit.memoryId ∈ hits.map HybridSearchHit.memoryId := List.mem_map.mpr ⟨hit, inside, rfl⟩
    rw [notesOf, notes_of_notesOf isoformat _ _ _ present, anchors_conflictLinks _ _ present,
      filterMap_shown]
    rfl
  simp only [← discreet_notesAt_iff isoformat]
  simp only [annotateConflicts]
  split
  · rename_i none
    have unnoted (hit : HybridSearchHit) (inside : hit ∈ hits) :
        notesAt isoformat p db hit.memoryId = [] := by
      rw [← own hit inside, none]
      rfl
    constructor
    · intro _ hit inside
      exact unnoted hit inside ▸ nothing
    · intro _ hit inside
      exact fresh hit inside ▸ nothing
  · rw [withNotes, notesOf_listByIds, forall_attach_iff _ (Discreet p db) nothing hits fresh]
    constructor
    · intro discreet hit inside
      exact own hit inside ▸ discreet hit inside
    · intro discreet hit inside
      exact (own hit inside).symm ▸ discreet hit inside

/-- The approved memory of this store contradicts one that waits for its review. -/
def contradicted : Database :=
  { AgentLoop.sampleLinked with links := [⟨1, 2, .contradicts, onePointZero, 0⟩] }

def firstHit : HybridSearchHit := hitOf (AgentLoop.sampleMemory 1 "x" .approved) onePointZero

theorem firstHit_fresh : ∀ hit ∈ [firstHit], hit.conflicts = [] := by
  intro hit inside
  rw [List.mem_singleton.mp inside]
  rfl

/-- The note of the first memory names the one that waits for its review. -/
theorem note_names_pending_memory :
    ¬ ∀ (isoformat : Instant → Str) (p : Principal) (db : Database) (hits : List HybridSearchHit),
      (∀ hit ∈ hits, hit.conflicts = []) →
        ∀ hit ∈ (annotateConflicts isoformat p db hits).1, Discreet p db hit.conflicts := by
  intro claim
  have discreet := claim (fun _ => []) AgentLoop.sampleMember contradicted [firstHit] firstHit_fresh
  have noted : (annotateConflicts (fun _ => []) AgentLoop.sampleMember contradicted [firstHit]).1.map
      (fun hit => hit.conflicts.map ConflictNote.publicId) = [[Uuid.str 2]] := by decide +kernel
  obtain ⟨hit, alone, named⟩ := List.map_eq_singleton_iff.mp noted
  obtain ⟨note, only, text⟩ := List.map_eq_singleton_iff.mp named
  obtain ⟨m, row, same, readable⟩ :=
    (discreet hit (by rw [alone]; exact List.mem_cons_self)).named note
      (by rw [only]; exact List.mem_cons_self)
  have second : m.publicId = 2 := Uuid.str_injective (same.trans text)
  have rows : m = AgentLoop.sampleMemory 1 "x" .approved ∨
      m = AgentLoop.sampleMemory 2 "y" .pending := by
    simpa [contradicted, AgentLoop.sampleLinked, Table.insert, Table.empty] using row
  cases rows with
  | inl approved =>
      rw [approved] at second
      exact absurd second (by decide)
  | inr pending =>
      have approved := readable.approved
      rw [pending] at approved
      exact absurd approved (by decide)

theorem first_fresh : ∀ other ∈ (Table.empty : MemoryTable).rows,
    other.id < 1 ∧ other.publicId ≠ 1 :=
  Table.fresh_empty (AgentLoop.sampleMemory 1 "x" .approved)

theorem second_fresh : ∀ other ∈ ((Table.empty : MemoryTable).insert
      (AgentLoop.sampleMemory 1 "x" .approved) first_fresh).rows,
    other.id < 2 ∧ other.publicId ≠ 2 := by
  intro other present
  rw [List.mem_singleton.mp present]
  decide

/-- Both memories of this store are approved, and one supersedes the other. -/
def superseded : Database where
  memories := (Table.empty.insert (AgentLoop.sampleMemory 1 "x" .approved) first_fresh).insert
    (AgentLoop.sampleMemory 2 "y" .approved) second_fresh
  links := [⟨2, 1, .supersedes, onePointZero, 0⟩]

theorem superseded_onlyReadable : OnlyReadable AgentLoop.sampleMember superseded 1 := by
  have one : shown AgentLoop.sampleMember superseded 1 = [⟨1, 2, "superseded_by"⟩] := rfl
  constructor
  · intro entry listed m row own
    rw [one, List.mem_singleton] at listed
    have rows : m = AgentLoop.sampleMemory 1 "x" .approved ∨
        m = AgentLoop.sampleMemory 2 "y" .approved := by
      simpa [superseded, Table.insert, Table.empty] using row
    rw [listed] at own
    cases rows with
    | inl first =>
        rw [first] at own
        exact absurd own (by decide)
    | inr second =>
        rw [second]
        exact ⟨rfl, rfl, rfl, rfl⟩
  · exact one ▸ List.nodup_singleton _

/-- The note of the first memory names a readable one. -/
theorem superseded_notes_discreet : OnlyReadable AgentLoop.sampleMember superseded firstHit.memoryId ∧
    ∀ hit ∈ (annotateConflicts (fun _ => []) AgentLoop.sampleMember superseded [firstHit]).1,
      Discreet AgentLoop.sampleMember superseded hit.conflicts := by
  refine ⟨superseded_onlyReadable, ?_⟩
  refine (notes_discreet_iff (fun _ => []) AgentLoop.sampleMember superseded [firstHit]
    firstHit_fresh).mpr ?_
  intro hit inside
  rw [List.mem_singleton.mp inside]
  exact superseded_onlyReadable

end Kortex.Conflicts
