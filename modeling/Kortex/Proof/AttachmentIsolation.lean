import Kortex.Proof.AttachmentReads

/-
This file proves that no request of another org changes what a member reads of its attachments.
-/

namespace Kortex

namespace AttachmentSystem

open AttachmentSearch (Query located allHits scoresOf candidates attachmentOf attachmentOf_eq_some admitted)

variable {deployment : Deployment} {o : Nat} {s s' : AttachmentSystem} {a b : Attachment}

/-- These are the attachments of an org. -/
def ownRows (o : Nat) (s : AttachmentSystem) : List Attachment := s.rows.filter fun a => a.orgId == o

/-- These are the chunks of the attachments of an org, with or without their ids. -/
def ownChunks {Chunk : Type} (o : Nat) (s : AttachmentSystem) (attachmentId : Chunk → Nat)
    (chunks : List Chunk) : List Chunk :=
  chunks.filter fun c => (ownRows o s).any fun a => a.id == attachmentId c

/-- The two states have the same attachments and projects of the org. -/
structure AgreeOn (o : Nat) (s s' : AttachmentSystem) : Prop where
  rows : ownRows o s = ownRows o s'
  columns : ∀ a ∈ ownRows o s, s.columnsOf a = s'.columnsOf a
  db : Agree o s.store.db s'.store.db

theorem mem_ownRows : a ∈ ownRows o s ↔ a ∈ s.rows ∧ a.orgId = o := by
  rw [ownRows, List.mem_filter, beq_iff_eq]

theorem Agree.refl (o : Nat) (db : Database) : Agree o db db := ⟨rfl, rfl, rfl⟩

theorem Agree.trans {db db' db'' : Database} (first : Agree o db db') (second : Agree o db' db'') :
    Agree o db db'' :=
  ⟨first.memories.trans second.memories, first.projects.trans second.projects,
    first.links.trans second.links⟩

namespace AgreeOn

theorem refl (o : Nat) (s : AttachmentSystem) : AgreeOn o s s :=
  ⟨rfl, fun _ _ => rfl, Agree.refl o _⟩

theorem trans {s'' : AttachmentSystem} (first : AgreeOn o s s') (second : AgreeOn o s' s'') :
    AgreeOn o s s'' where
  rows := first.rows.trans second.rows
  columns a inside := (first.columns a inside).trans (second.columns a (first.rows ▸ inside))
  db := Agree.trans first.db second.db

end AgreeOn

section Reads

variable {p : Principal} (member : p.isSuperuser = false) (agree : AgreeOn p.orgId s s')

include member

theorem tenantRows_eq (s : AttachmentSystem) :
    tenantQuery Attachment.orgId p s.rows = ownRows p.orgId s :=
  tenantQuery_eq_filter member _ _

include agree

theorem AgreeOn.getByPublicId (publicId : Uuid) :
    AttachmentRepo.getByPublicId p s.store publicId = AttachmentRepo.getByPublicId p s'.store publicId := by
  change (tenantQuery Attachment.orgId p s.rows).find? _ = (tenantQuery Attachment.orgId p s'.rows).find? _
  rw [tenantRows_eq member, tenantRows_eq member, agree.rows]

theorem AgreeOn.get (publicId : Uuid) :
    AttachmentService.get p s publicId = AttachmentService.get p s' publicId := by
  rw [AttachmentService.get, AttachmentService.get, ← agree.getByPublicId member]
  cases found : AttachmentRepo.getByPublicId p s.store publicId with
  | none => rfl
  | some a =>
      have inside := List.mem_of_find?_eq_some found
      change a ∈ tenantQuery Attachment.orgId p s.rows at inside
      rw [tenantRows_eq member] at inside
      simp only [resource, agree.columns a inside]
      rfl

theorem AgreeOn.list_ (r : AttachmentService.ListRequest) :
    AttachmentService.list_ p s r = AttachmentService.list_ p s' r := by
  have live : AttachmentRepo.liveRows p s = AttachmentRepo.liveRows p s' := by
    rw [AttachmentRepo.liveRows, AttachmentRepo.liveRows, tenantRows_eq member, tenantRows_eq member,
      agree.rows]
  have own (a : Attachment) (inside : a ∈ AttachmentRepo.liveRows p s) : s.columnsOf a = s'.columnsOf a := by
    rw [AttachmentRepo.liveRows, tenantRows_eq member] at inside
    exact agree.columns a (List.mem_of_mem_filter inside)
  have kept (maxSensitivity : Option Sensitivity) :
      ((AttachmentRepo.liveRows p s').filter fun a => r.scope.all (AttachmentRepo.inScope a) &&
        r.status.all (· == a.processingStatus) && maxSensitivity.all (AttachmentRepo.upTo s' a)) =
      (AttachmentRepo.liveRows p s).filter fun a => r.scope.all (AttachmentRepo.inScope a) &&
        r.status.all (· == a.processingStatus) && maxSensitivity.all (AttachmentRepo.upTo s a) := by
    rw [← live]
    apply List.filter_congr
    intro a inside
    have cap : AttachmentRepo.upTo s' a = AttachmentRepo.upTo s a := by
      funext maxSensitivity
      rw [AttachmentRepo.upTo, AttachmentRepo.upTo, own a inside]
    rw [cap]
  rw [AttachmentService.list_, AttachmentService.list_]
  simp only [AttachmentRepo.list_, kept]
  generalize (if p.isSuperuser = true then none else some p.maxSensitivity) = cap
  have sorted := List.map_insertionSort (AttachmentRepo.newestFirst s) (AttachmentRepo.newestFirst s') id
    ((AttachmentRepo.liveRows p s).filter fun a => r.scope.all (AttachmentRepo.inScope a) &&
        r.status.all (· == a.processingStatus) && cap.all (AttachmentRepo.upTo s a)) (by
      intro a first b second
      rw [AttachmentRepo.newestFirst, AttachmentRepo.newestFirst, own a (List.mem_of_mem_filter first),
        own b (List.mem_of_mem_filter second), id, id])
  rw [List.map_id, List.map_id] at sorted
  rw [sorted]

end Reads
section Search

variable {p : Principal} {chunks chunks' : List ChunkRow} {engine : ChunkEngine} {settings : Settings}
  {q : Query}

/-- A row of the org is found beside its chunks in both states. -/
theorem attachmentOf_eq_iff (agree : AgreeOn o s s') (own : a.orgId = o) (c : ChunkRow) :
    attachmentOf s c = some a ↔ attachmentOf s' c = some a := by
  have found {s : AttachmentSystem} (inside : a ∈ ownRows o s) (same : a.id = c.attachmentId) :
      attachmentOf s c = some a := by
    have row := (mem_ownRows.mp inside).1
    cases looked : attachmentOf s c with
    | none => exact absurd (List.find?_eq_none.mp looked a row) (by simp [same])
    | some b =>
        obtain ⟨row', same'⟩ := attachmentOf_eq_some looked
        rw [row_eq_of_id s row row' (same.trans same'.symm)]
  constructor
  · intro looked
    obtain ⟨row, same⟩ := attachmentOf_eq_some looked
    exact found (agree.rows ▸ mem_ownRows.mpr ⟨row, own⟩) same
  · intro looked
    obtain ⟨row, same⟩ := attachmentOf_eq_some looked
    exact found (agree.rows ▸ mem_ownRows.mpr ⟨row, own⟩) same

theorem mem_ownChunks (c : ChunkRow) : c ∈ ownChunks o s (·.attachmentId) chunks ↔
    c ∈ chunks ∧ ∃ a, attachmentOf s c = some a ∧ a.orgId = o := by
  rw [ownChunks, List.mem_filter, List.any_eq_true]
  constructor
  · rintro ⟨present, a, own, same⟩
    obtain ⟨row, org⟩ := mem_ownRows.mp own
    have same : a.id = c.attachmentId := by simpa using same
    refine ⟨present, a, ?_, org⟩
    cases looked : attachmentOf s c with
    | none => exact absurd (List.find?_eq_none.mp looked a row) (by simp [same])
    | some b =>
        obtain ⟨row', same'⟩ := attachmentOf_eq_some looked
        rw [row_eq_of_id s row row' (same.trans same'.symm)]
  · rintro ⟨present, a, looked, org⟩
    obtain ⟨row, same⟩ := attachmentOf_eq_some looked
    exact ⟨present, a, mem_ownRows.mpr ⟨row, org⟩, by simpa using same⟩

variable (member : p.isSuperuser = false) (agree : AgreeOn p.orgId s s')
  (same : ownChunks p.orgId s (·.attachmentId) chunks = ownChunks p.orgId s' (·.attachmentId) chunks')

include member

/-- The candidates of a member are among the chunks of its org. -/
theorem candidates_eq (s : AttachmentSystem) (chunks : List ChunkRow) (q : Query) :
    candidates p s chunks q = (ownChunks p.orgId s (·.attachmentId) chunks).filter fun c =>
      (attachmentOf s c).any (admitted s q.scopes q.maxSensitivity) := by
  rw [candidates, ownChunks, List.filter_filter]
  apply List.filter_congr
  intro c present
  have own : c ∈ ownChunks p.orgId s (·.attachmentId) [c] ↔
      c ∈ [c] ∧ ∃ a, attachmentOf s c = some a ∧ a.orgId = p.orgId := mem_ownChunks c
  rw [ownChunks, List.mem_filter] at own
  cases looked : attachmentOf s c with
  | none => rfl
  | some a =>
      rw [looked] at own
      have org : ((ownRows p.orgId s).any fun row => row.id == c.attachmentId) = (a.orgId == p.orgId) := by
        rw [Bool.eq_iff_iff, beq_iff_eq]
        exact ⟨fun inside => (own.mp ⟨List.mem_cons_self, inside⟩).2.elim fun _ found =>
          Option.some.inj found.1 ▸ found.2, fun org => (own.mpr ⟨List.mem_cons_self, a, rfl, org⟩).2⟩
      simp only [Option.any_some, member, Bool.false_or, org]

include agree same

theorem AgreeOn.candidates : AttachmentSearch.candidates p s chunks q =
    AttachmentSearch.candidates p s' chunks' q := by
  rw [candidates_eq member, candidates_eq member, same]
  apply List.filter_congr
  intro c own
  obtain ⟨_, a, looked, org⟩ := (mem_ownChunks c).mp own
  rw [(attachmentOf_eq_iff agree org c).mpr looked, looked, Option.any_some,
    Option.any_some, admitted, admitted, AttachmentRepo.upTo, AttachmentRepo.upTo,
    agree.columns a (agree.rows ▸ mem_ownRows.mpr ⟨(attachmentOf_eq_some looked).1, org⟩)]

theorem AgreeOn.scoresOf : AttachmentSearch.scoresOf engine settings p s chunks q =
    AttachmentSearch.scoresOf engine settings p s' chunks' q := by
  rw [AttachmentSearch.scoresOf, AttachmentSearch.scoresOf, AttachmentSearch.vectorIdsOf,
    AttachmentSearch.vectorIdsOf, AttachmentSearch.bm25IdsOf, AttachmentSearch.bm25IdsOf,
    agree.candidates member same, agree.db.configForScopes member]

variable (distinct : (chunks.map ChunkRow.id).Nodup) (distinct' : (chunks'.map ChunkRow.id).Nodup)

include distinct distinct'

theorem AgreeOn.hybridSearch : AttachmentSearch.hybridSearch engine settings p s chunks q =
    AttachmentSearch.hybridSearch engine settings p s' chunks' q := by
  have hits : allHits engine settings p s chunks q = allHits engine settings p s' chunks' q := by
    rw [allHits, allHits, AttachmentSearch.hitsOf, AttachmentSearch.hitsOf,
      ← agree.scoresOf member same]
    apply List.filterMap_congr
    intro id ordered
    have scored := (AttachmentSearch.mem_orderedIds _ id).mp ordered
    obtain ⟨c, candidate, a, known, looked, found⟩ := AttachmentSearch.find?_scored distinct scored
    rw [candidates_eq member] at candidate
    have own := List.mem_of_mem_filter candidate
    obtain ⟨_, b, looked', org⟩ := (mem_ownChunks c).mp own
    obtain rfl : b = a := Option.some.inj (looked'.symm.trans looked)
    obtain ⟨present, _⟩ := (mem_ownChunks c).mp (same ▸ own)
    have found' := AttachmentSearch.find?_located distinct' present
      ((attachmentOf_eq_iff agree org c).mp looked)
    rw [known] at found'
    rw [found, found']
  rw [AttachmentSearch.hybridSearch_eq distinct, AttachmentSearch.hybridSearch_eq distinct', hits]

end Search

section Foreign

/-- The event comes from another org, or is about an attachment of another org. What a client puts into the
blob store concerns no org here, since no read looks into the blob store. -/
def Foreign (o : Nat) (s : AttachmentSystem) : Event → Prop
  | .presign p _ _ => p.orgId ≠ o
  | .upload _ => True
  | .finalize p _ _ _ => p.isSuperuser = false ∧ p.orgId ≠ o
  | .process _ attachmentId => ∀ a ∈ s.rows, a.id = attachmentId → a.orgId ≠ o
  | .delete p _ _ => p.isSuperuser = false ∧ p.orgId ≠ o

/-- The change of a row of another org keeps the rows of the org. -/
theorem ownRows_changeRow (row : b ∈ s.rows) (other : b.orgId ≠ o) (change : Attachment → Attachment)
    (kept : ∀ a, (change a).orgId = a.orgId)
    (rows : s'.rows = s.rows.map (Table.changeRow (fun row => row.id == b.id) change)) :
    ownRows o s' = ownRows o s := by
  have org (a : Attachment) : (Table.changeRow (fun row => row.id == b.id) change a).orgId = a.orgId := by
    rw [Table.changeRow]
    split
    · exact kept a
    · rfl
  have unchanged : (s.rows.filter fun a => a.orgId == o).map
      (Table.changeRow (fun row => row.id == b.id) change) = s.rows.filter fun a => a.orgId == o := by
    refine (List.map_congr_left ?_).trans (List.map_id _)
    intro a inside
    obtain ⟨present, own⟩ := mem_ownRows.mp inside
    rw [Table.changeRow, if_neg, id]
    intro same
    exact other (row_eq_of_id s present row (by simpa using same) ▸ own)
  rw [ownRows, rows, List.filter_map]
  simp only [Function.comp_def, org, ownRows, unchanged]

theorem agreeOn_changeRow (row : b ∈ s.rows) (other : b.orgId ≠ o) (change : Attachment → Attachment)
    (kept : ∀ a, (change a).orgId = a.orgId)
    (rows : s'.rows = s.rows.map (Table.changeRow (fun row => row.id == b.id) change))
    (columns : s'.columns = s.columns) (db : s'.store.db = s.store.db) : AgreeOn o s s' where
  rows := (ownRows_changeRow row other change kept rows).symm
  columns a _ := by rw [columnsOf, columnsOf, columns]
  db := db ▸ Agree.refl o _

/-- Where the chunks are the same, the chunks of the org are those of its attachments. -/
theorem AgreeOn.ownChunks {Chunk : Type} (agree : AgreeOn o s s') (attachmentId : Chunk → Nat)
    (chunks : List Chunk) :
    AttachmentSystem.ownChunks o s' attachmentId chunks =
      AttachmentSystem.ownChunks o s attachmentId chunks := by
  rw [AttachmentSystem.ownChunks, AttachmentSystem.ownChunks, agree.rows]

/-- What replaces the chunks of an attachment of another org keeps the chunks of the org. -/
theorem ownChunks_replaced {rows : List AttachmentChunk} (other : b.orgId ≠ o) (row : b ∈ s.rows)
    (written : ∀ c ∈ rows, c.attachmentId = b.id) :
    ownChunks o s AttachmentChunk.attachmentId
        ((s.store.chunks.filter fun c => c.attachmentId != b.id) ++ rows) =
      ownChunks o s AttachmentChunk.attachmentId s.store.chunks := by
  have apart (c : AttachmentChunk) (own : (ownRows o s).any (fun a => a.id == c.attachmentId) = true) :
      c.attachmentId ≠ b.id := by
    intro same
    obtain ⟨a, inside, found⟩ := List.any_eq_true.mp own
    obtain ⟨present, org⟩ := mem_ownRows.mp inside
    exact other (row_eq_of_id s present row ((by simpa using found : a.id = c.attachmentId).trans same) ▸ org)
  have none : ownChunks o s AttachmentChunk.attachmentId rows = [] := by
    rw [ownChunks, List.filter_eq_nil_iff]
    intro c present own
    exact apart c own (written c present)
  rw [ownChunks] at none
  rw [ownChunks, ownChunks, List.filter_append, none, List.append_nil, List.filter_filter]
  apply List.filter_congr
  intro c _
  cases own : (ownRows o s).any fun a => a.id == c.attachmentId with
  | false => rfl
  | true => simpa using apart c own

theorem presigned_columns {p : Principal} {maxBytes : Nat} {run : PresignRun} {input : PresignIn}
    (done : AttachmentService.presignUpload p s maxBytes run input = .ok (a, s')) :
    s'.store.db = s.store.db ∧ ∀ b ∈ s.rows, s'.columnsOf b = s.columnsOf b := by
  rw [AttachmentService.presignUpload] at done
  dsimp only at done
  split at done
  · cases done
  · split at done
    · cases done
    · split at done
      · cases done
      · split at done
        · cases done
        · next created making =>
            split at done
            · obtain rfl := Except.ok.inj done
              rw [AttachmentRepo.create] at making
              split at making
              · obtain ⟨attachments, inserted, same⟩ := Option.map_eq_some_iff.mp making
                obtain ⟨rfl, rfl⟩ := Prod.mk.inj same
                refine ⟨rfl, ?_⟩
                intro b inside
                have fresh := (Table.insert?_eq_some _ _ _ inserted).2 b inside
                rw [columnsOf, columnsOf, Dict.get?_set, if_neg (Nat.ne_of_gt fresh.1)]
              · cases making
            · cases done

/-- A foreign event changes nothing of the org. -/
theorem foreign_step (event : Event) (foreign : Foreign o s event) :
    AgreeOn o s (step deployment s event) ∧
      ownChunks o s AttachmentChunk.attachmentId s.store.chunks =
        ownChunks o (step deployment s event) AttachmentChunk.attachmentId
          (step deployment s event).store.chunks := by
  have unchanged {s' : AttachmentSystem} (agree : AgreeOn o s s')
      (chunks : s'.store.chunks = s.store.chunks) : AgreeOn o s s' ∧
        ownChunks o s AttachmentChunk.attachmentId s.store.chunks =
          ownChunks o s' AttachmentChunk.attachmentId s'.store.chunks :=
    ⟨agree, by rw [chunks, agree.ownChunks]⟩
  cases event with
  | presign p run input =>
      rw [step]
      split
      · exact unchanged (AgreeOn.refl o s) rfl
      · next done =>
          obtain ⟨new, rows, chunks, _, _⟩ := AttachmentService.presignUpload_ok done
          obtain ⟨db, columns⟩ := presigned_columns done
          refine unchanged ⟨?_, ?_, ?_⟩ chunks
          · have other : (p.orgId == o) = false := beq_eq_false_iff_ne.mpr foreign
            rw [ownRows, ownRows, rows, List.filter_append, new]
            simp [AttachmentRepo.newRow, other]
          · intro a own
            exact (columns a (mem_ownRows.mp own).1).symm
          · rw [db]
            exact Agree.refl o _
  | upload blob =>
      rw [step]
      split
      · exact unchanged ⟨rfl, fun _ _ => rfl, Agree.refl o _⟩ rfl
      · exact unchanged (AgreeOn.refl o s) rfl
  | finalize p now publicId payload =>
      have outcome := (AttachmentService.finalizeRequest_finalized p deployment.maxBytes now s.store s.blobs
        publicId payload).1
      rw [step]
      revert outcome
      generalize (AttachmentService.finalizeRequest p deployment.maxBytes now s.store s.blobs publicId
        payload).2 = left
      intro outcome
      obtain ⟨store, blobs⟩ := left
      cases outcome with
      | kept => exact unchanged ⟨rfl, fun _ _ => rfl, Agree.refl o _⟩ rfl
      | handed b row _ own _ mark _ =>
          have other : b.orgId ≠ o := by
            rw [own.resolve_left (by simp [foreign.1])]
            exact foreign.2
          exact unchanged (agreeOn_changeRow row other (AttachmentRepo.marked now mark) (fun _ => rfl)
            rfl rfl rfl) rfl
  | process w attachmentId =>
      have outcome := AttachmentTask.run_outcome (w.on deployment s.blobs) s.store attachmentId
      rw [step]
      revert outcome
      generalize AttachmentTask.run (w.on deployment s.blobs) s.store attachmentId = store
      intro outcome
      cases outcome with
      | kept => exact unchanged (AgreeOn.refl o s) rfl
      | failed b found error =>
          obtain ⟨row, _⟩ := AttachmentTask.getById_live found
          obtain rfl := (AttachmentTask.mem_of_getById found).2
          exact unchanged (agreeOn_changeRow row (foreign b row rfl) (AttachmentRepo.marked w.now _)
            (fun _ => rfl) rfl rfl rfl) rfl
      | ready b found text _ _ _ rows written _ =>
          obtain ⟨row, _⟩ := AttachmentTask.getById_live found
          obtain rfl := (AttachmentTask.mem_of_getById found).2
          have agree : AgreeOn o s { s with store := { s.store with
              attachments := AttachmentTask.markedAt s.store b.id w.now { status := .ready }
              chunks := (s.store.chunks.filter fun c => c.attachmentId != b.id) ++ rows } } :=
            agreeOn_changeRow row (foreign b row rfl) (AttachmentRepo.marked w.now { status := .ready })
              (fun _ => rfl) rfl rfl rfl
          exact ⟨agree, ((agree.ownChunks _ _).trans
            (ownChunks_replaced (foreign b row rfl) row written.own)).symm⟩
  | delete p now publicId =>
      rw [step]
      split
      · exact unchanged (AgreeOn.refl o s) rfl
      · next done =>
          rcases AttachmentService.delete_ok done with rfl | ⟨b, row, _, own, rfl⟩
          · exact unchanged (AgreeOn.refl o _) rfl
          · have other : b.orgId ≠ o := by
              rw [own.resolve_left (by simp [foreign.1])]
              exact foreign.2
            exact unchanged (agreeOn_changeRow row other (AttachmentRepo.softDeleted now) (fun _ => rfl)
              rfl rfl rfl) rfl

theorem foreign_run (events : List Event) (foreign : Run.Each (step deployment) (Foreign o) s events) :
    AgreeOn o s (Run.final (step deployment) s events) ∧
      ownChunks o s AttachmentChunk.attachmentId s.store.chunks =
        ownChunks o (Run.final (step deployment) s events) AttachmentChunk.attachmentId
          (Run.final (step deployment) s events).store.chunks := by
  induction events generalizing s with
  | nil => exact ⟨AgreeOn.refl o s, rfl⟩
  | cons event rest ih =>
      obtain ⟨first, chunks⟩ := @foreign_step deployment o s event foreign.1
      obtain ⟨second, chunks'⟩ := ih foreign.2
      exact ⟨first.trans second, chunks.trans chunks'⟩

/-- Whatever other orgs do, a member reads the same attachments and finds the same chunks in the same order
as before, although the SELECT of the rows under their ids does not ask for the org. -/
theorem foreign_events_invisible (deployment : Deployment) (s : AttachmentSystem) (events : List Event)
    (p : Principal) (member : p.isSuperuser = false)
    (foreign : Run.Each (step deployment) (Foreign p.orgId) s events) :
    (∀ publicId, AttachmentService.get p (Run.final (step deployment) s events) publicId =
        AttachmentService.get p s publicId) ∧
      (∀ r, AttachmentService.list_ p (Run.final (step deployment) s events) r =
        AttachmentService.list_ p s r) ∧
      ownChunks p.orgId (Run.final (step deployment) s events) AttachmentChunk.attachmentId
          (Run.final (step deployment) s events).store.chunks =
        ownChunks p.orgId s AttachmentChunk.attachmentId s.store.chunks ∧
      ∀ chunks chunks' : List ChunkRow, (chunks.map ChunkRow.id).Nodup → (chunks'.map ChunkRow.id).Nodup →
        ownChunks p.orgId s (·.attachmentId) chunks =
            ownChunks p.orgId (Run.final (step deployment) s events) (·.attachmentId) chunks' →
          ∀ engine env r, AttachmentSearch.searchAttachments engine p
              (Run.final (step deployment) s events) chunks' env r =
            AttachmentSearch.searchAttachments engine p s chunks env r := by
  obtain ⟨agree, kept⟩ := foreign_run events foreign
  refine ⟨fun publicId => (agree.get member publicId).symm, fun r => (agree.list_ member r).symm,
    kept.symm, ?_⟩
  intro chunks chunks' distinct distinct' same engine env r
  simp only [AttachmentSearch.searchAttachments, agree.hybridSearch member same distinct distinct']

/-- This presign comes from another org. -/
def sampleForeign : Event :=
  .presign { sampleMember with orgId := 2 } ⟨{ now := 4, newPublicId := 9 }, 8, "kortex", true⟩
    ⟨.org, 1, "b", none, .internal, none, []⟩

theorem foreign_presign_invisible :
    AttachmentService.list_ sampleMember (step sampleDeployment sampleState sampleForeign) =
      AttachmentService.list_ sampleMember sampleState := by
  funext r
  exact (foreign_events_invisible sampleDeployment sampleState [sampleForeign] sampleMember rfl
    ⟨(by decide : (2 : Nat) ≠ 1), trivial⟩).2.1 r

end Foreign

end AttachmentSystem
end Kortex
