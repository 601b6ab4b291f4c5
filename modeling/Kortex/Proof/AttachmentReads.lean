import Mathlib.Data.List.Chain
import Kortex.Library.Sorted
import Kortex.Proof.AttachmentRuns
import Kortex.Proof.Noninterference

/-
This file proves what the read paths show of the attachments and of their chunks.
-/

namespace Kortex

namespace AttachmentSystem

section Sample

def sampleDeployment : Deployment where
  maxBytes := 100
  chunkTokens := 512
  chunkOverlap := 64
  extractors := ⟨id, fun _ => .ok [], fun _ => .ok [],
    fun bytes => bytes.map fun byte => Char.ofNat byte.toNat⟩

def sampleMember : Principal where
  actorId := 1
  actorKind := .user
  orgId := 1
  roles := [(⟨.org, 1⟩, .member)]

/-- A member puts a file of two bytes, and the worker stores its text without a vector. -/
def sampleEvents : List Event :=
  [.presign sampleMember ⟨{ now := 0, newPublicId := 8 }, 7, "kortex", true⟩
      ⟨.org, 1, "a", none, .internal, none, []⟩,
    .upload ⟨"kortex", AttachmentService.buildKey 1 .org 1 7 "a", [104, 105], none, none⟩,
    .finalize sampleMember 1 8 {},
    .process { getEmbedder := .error .keyError, now := 2, columns := ⟨fun _ => true, fun _ => true⟩ } 1]

def sampleState : AttachmentSystem := Run.final (step sampleDeployment) {} sampleEvents

def sampleChunks : List ChunkRow :=
  sampleState.store.chunks.zipIdx.map fun entry => { toAttachmentChunk := entry.1, id := entry.2 }

def sampleEngine : ChunkEngine where
  toSearchEngine := AgentLoop.sampleEngine
  rankChunk _ query c := if Str.contains c.content query then some zeroPointFive else none

theorem sampleChunks_distinct : (sampleChunks.map ChunkRow.id).Nodup := by decide +kernel

theorem sampleChunks_stored : sampleChunks.map ChunkRow.toAttachmentChunk = sampleState.store.chunks := by
  rw [sampleChunks, List.map_map]
  exact List.zipIdx_map_fst 0 _

end Sample

end AttachmentSystem

namespace AttachmentSearch

open Retrieval (zeroPointZero bestFirst highestFirst orderedIds rrfFuse)

variable {engine : ChunkEngine} {settings : Settings} {p : Principal} {s : AttachmentSystem}
  {chunks : List ChunkRow} {q : Query}

/-- These are all chunks beside their attachments. -/
def located (s : AttachmentSystem) (chunks : List ChunkRow) : List (ChunkRow × Attachment) :=
  chunks.filterMap fun c => (attachmentOf s c).map fun a => (c, a)

/-- These are the scores of the ranked chunks. -/
def scores (engine : ChunkEngine) (settings : Settings) (vectorIds bm25Ids : List Nat) : Dict Nat PyFloat :=
  rrfFuse engine.toSearchEngine ([vectorIds, bm25Ids].filter fun ranking => !ranking.isEmpty)
    settings.retrievalRrfK []

theorem rowsByIds_eq (ids : List Nat) :
    rowsByIds s chunks ids = (located s chunks).filter fun row => ids.contains row.1.id := by
  rw [rowsByIds, located, List.filter_filterMap]
  apply List.filterMap_congr
  intro c _
  cases attachmentOf s c with
  | none => simp
  | some a => simp [Option.filter]

theorem mem_located (row : ChunkRow × Attachment) :
    row ∈ located s chunks ↔ row.1 ∈ chunks ∧ attachmentOf s row.1 = some row.2 := by
  rw [located, List.mem_filterMap]
  constructor
  · rintro ⟨c, present, same⟩
    obtain ⟨a, found, rfl⟩ := Option.map_eq_some_iff.mp same
    exact ⟨present, found⟩
  · rintro ⟨present, found⟩
    exact ⟨row.1, present, by rw [found]; rfl⟩

theorem attachmentOf_eq_some {c : ChunkRow} {a : Attachment} (found : attachmentOf s c = some a) :
    a ∈ s.rows ∧ a.id = c.attachmentId :=
  ⟨List.mem_of_find?_eq_some found, by simpa using List.find?_some found⟩

theorem mem_candidates (c : ChunkRow) : c ∈ candidates p s chunks q ↔ c ∈ chunks ∧
    ∃ a, attachmentOf s c = some a ∧ admitted s q.scopes q.maxSensitivity a = true ∧
      (p.isSuperuser = true ∨ a.orgId = p.orgId) := by
  rw [candidates, List.mem_filter, Option.any_eq_true]
  simp only [Bool.and_eq_true, Bool.or_eq_true, beq_iff_eq]

theorem mem_vectorIds {candidates : List ChunkRow} {vector : Option (List PyFloat)} {id : Nat}
    (inside : id ∈ vectorIds engine settings candidates vector) : ∃ c ∈ candidates, c.id = id := by
  cases vector with
  | none => exact absurd inside List.not_mem_nil
  | some vector =>
      obtain ⟨c, taken, same⟩ := List.mem_map.mp inside
      have sorted := List.mem_of_mem_take taken
      rw [List.mem_insertionSort] at sorted
      exact ⟨c, List.mem_of_mem_filter sorted, same⟩

theorem mem_bm25Ids {candidates : List ChunkRow} {tsConfig query : Str} {id : Nat}
    (inside : id ∈ bm25Ids engine settings candidates tsConfig query) : ∃ c ∈ candidates, c.id = id := by
  obtain ⟨entry, taken, rfl⟩ := List.mem_map.mp inside
  have sorted := List.mem_of_mem_take taken
  rw [List.mem_insertionSort] at sorted
  obtain ⟨c, candidate, built⟩ := List.mem_filterMap.mp sorted
  obtain ⟨rank, _, rfl⟩ := Option.map_eq_some_iff.mp built
  exact ⟨c, candidate, rfl⟩

/-- This is the vector ranking of a query. -/
def vectorIdsOf (engine : ChunkEngine) (settings : Settings) (p : Principal) (s : AttachmentSystem)
    (chunks : List ChunkRow) (q : Query) : List Nat :=
  vectorIds engine settings (candidates p s chunks q) q.queryVector

/-- This is the keyword ranking of a query. -/
def bm25IdsOf (engine : ChunkEngine) (settings : Settings) (p : Principal) (s : AttachmentSystem)
    (chunks : List ChunkRow) (q : Query) : List Nat :=
  bm25Ids engine settings (candidates p s chunks q) (Retrieval.configForScopes p s.store.db q.scopes) q.query

/-- These are the scores of a query. -/
def scoresOf (engine : ChunkEngine) (settings : Settings) (p : Principal) (s : AttachmentSystem)
    (chunks : List ChunkRow) (q : Query) : Dict Nat PyFloat :=
  scores engine settings (vectorIdsOf engine settings p s chunks q) (bm25IdsOf engine settings p s chunks q)

/-- Every candidate that is in a ranking, with its score, the best one first. -/
def allHits (engine : ChunkEngine) (settings : Settings) (p : Principal) (s : AttachmentSystem)
    (chunks : List ChunkRow) (q : Query) : List AttachmentChunkHit :=
  hitsOf (located s chunks) (scoresOf engine settings p s chunks q)
    (orderedIds (scoresOf engine settings p s chunks q))

theorem mem_orderedIds (scores : Dict Nat PyFloat) (id : Nat) :
    id ∈ orderedIds scores ↔ id ∈ scores.map Prod.fst := by
  simp only [orderedIds, List.mem_map, List.mem_insertionSort]

/-- The scored ids are ids of candidates. -/
theorem mem_scoresOf {id : Nat} (inside : id ∈ (scoresOf engine settings p s chunks q).map Prod.fst) :
    ∃ c ∈ candidates p s chunks q, c.id = id := by
  rw [scoresOf, scores, Retrieval.mem_keys_rrfFuse] at inside
  obtain ⟨ranking, ranked, inside⟩ := inside
  have member := List.mem_of_mem_filter ranked
  rw [List.mem_cons, List.mem_singleton] at member
  rcases member with rfl | rfl
  · exact mem_vectorIds inside
  · exact mem_bm25Ids inside

theorem nodup_scores (vectorIds bm25Ids : List Nat) :
    ((scores engine settings vectorIds bm25Ids).map Prod.fst).Nodup := by
  have ranked (entries : List (Nat × Nat)) (scores : Dict Nat PyFloat)
      (distinct : (scores.map Prod.fst).Nodup) :
      ((entries.foldl (Retrieval.addRank engine.toSearchEngine settings.retrievalRrfK) scores).map
        Prod.fst).Nodup := by
    induction entries generalizing scores with
    | nil => exact distinct
    | cons entry rest ih => exact ih _ (Dict.nodup_set _ _ _ distinct)
  have all (rankings : List (List Nat)) (scores : Dict Nat PyFloat)
      (distinct : (scores.map Prod.fst).Nodup) :
      ((rankings.foldl (fun scores ranking => (ranking.zipIdx 1).foldl
        (Retrieval.addRank engine.toSearchEngine settings.retrievalRrfK) scores) scores).map
          Prod.fst).Nodup := by
    induction rankings generalizing scores with
    | nil => exact distinct
    | cons ranking rest ih => exact ih _ (ranked _ _ distinct)
  exact all _ [] List.nodup_nil

theorem bestFirst_total {A : Type} (score : A → PyFloat) (a b : A) :
    bestFirst score a b ∨ bestFirst score b a := by
  simp only [bestFirst, PyFloat.lt]
  cases (score a).rank with
  | none => exact Or.inl rfl
  | some x =>
      cases (score b).rank with
      | none => exact Or.inl rfl
      | some y =>
          simp only [Bool.not_eq_false', PyFloat.rankLe_iff]
          exact le_total _ _

theorem nodup_orderedIds (scores : Dict Nat PyFloat) (distinct : (scores.map Prod.fst).Nodup) :
    (orderedIds scores).Nodup :=
  ((List.perm_insertionSort _ scores).map Prod.fst).nodup_iff.mpr distinct

/-- The rows that were fetched are enough for the ids that they were fetched for. -/
theorem hitsOf_rowsByIds (scores : Dict Nat PyFloat) (front back : List Nat)
    (apart : (front ++ back).Nodup) :
    hitsOf (rowsByIds s chunks front) scores (front ++ back) = hitsOf (located s chunks) scores front := by
  have found (id : Nat) : ((rowsByIds s chunks front).find? fun row => row.1.id == id) =
      if id ∈ front then (located s chunks).find? fun row => row.1.id == id else none := by
    rw [rowsByIds_eq, List.find?_filter]
    split
    · next inside =>
        congr 1
        funext row
        by_cases same : row.1.id = id
        · simp [same, inside]
        · simp [same]
    · next outside =>
        rw [List.find?_eq_none]
        intro row _
        by_cases same : row.1.id = id
        · simp [same, outside]
        · simp [same]
  have others := (List.nodup_append.mp apart).2.2
  rw [hitsOf, hitsOf, List.filterMap_append]
  have none : (back.filterMap fun chunkId => ((rowsByIds s chunks front).find? fun row =>
      row.1.id == chunkId).map fun row =>
        hitOf row.1 row.2 ((Dict.get? scores chunkId).getD zeroPointZero)) = [] := by
    rw [List.filterMap_eq_nil_iff]
    intro id later
    rw [found, if_neg fun inside => others id inside id later rfl]
    rfl
  rw [none, List.append_nil]
  apply List.filterMap_congr
  intro id inside
  rw [found, if_pos inside]

section Distinct

variable (distinct : (chunks.map ChunkRow.id).Nodup)

include distinct

/-- A chunk is found beside its attachment under its id. -/
theorem find?_located {c : ChunkRow} {a : Attachment} (present : c ∈ chunks)
    (found : attachmentOf s c = some a) :
    ((located s chunks).find? fun row => row.1.id == c.id) = some (c, a) := by
  have inside : (c, a) ∈ located s chunks := (mem_located (c, a)).mpr ⟨present, found⟩
  cases looked : (located s chunks).find? fun row => row.1.id == c.id with
  | none => exact absurd (List.find?_eq_none.mp looked (c, a) inside) (by simp)
  | some row =>
      have same : row.1.id = c.id := by simpa using List.find?_some looked
      obtain ⟨listed, own⟩ := (mem_located row).mp (List.mem_of_find?_eq_some looked)
      have chunk : row.1 = c := List.inj_on_of_nodup_map distinct listed present same
      rw [chunk, found] at own
      rw [← chunk, Option.some.inj own]

/-- The hit of a scored id. -/
theorem find?_scored {id : Nat} (inside : id ∈ (scoresOf engine settings p s chunks q).map Prod.fst) :
    ∃ c ∈ candidates p s chunks q, ∃ a, c.id = id ∧ attachmentOf s c = some a ∧
      ((located s chunks).find? fun row => row.1.id == id) = some (c, a) := by
  obtain ⟨c, candidate, rfl⟩ := mem_scoresOf inside
  obtain ⟨present, a, found, _⟩ := (mem_candidates c).mp candidate
  exact ⟨c, candidate, a, rfl, found, find?_located distinct present found⟩

/-- Every hit is a candidate beside its attachment. -/
theorem mem_allHits (hit : AttachmentChunkHit) (inside : hit ∈ allHits engine settings p s chunks q) :
    ∃ c ∈ chunks, ∃ a ∈ s.rows, a.id = c.attachmentId ∧
      admitted s q.scopes q.maxSensitivity a = true ∧ (p.isSuperuser = true ∨ a.orgId = p.orgId) ∧
        ∃ score, hit = hitOf c a score := by
  obtain ⟨id, ordered, built⟩ := List.mem_filterMap.mp inside
  obtain ⟨row, looked, rfl⟩ := Option.map_eq_some_iff.mp built
  obtain ⟨c, candidate, a, _, found, own⟩ := find?_scored distinct ((mem_orderedIds _ id).mp ordered)
  obtain ⟨present, a', found', admitted, tenant⟩ := (mem_candidates c).mp candidate
  rw [own] at looked
  obtain rfl := Option.some.inj looked
  rw [found] at found'
  obtain rfl := Option.some.inj found'
  obtain ⟨row, same⟩ := attachmentOf_eq_some found
  exact ⟨c, present, a, row, same, admitted, tenant, _, rfl⟩

/-- Each scored id has a hit with its score. -/
theorem hitsOf_scored {id : Nat} (inside : id ∈ (scoresOf engine settings p s chunks q).map Prod.fst) :
    ∃ hit, (((located s chunks).find? fun row => row.1.id == id).map fun row => hitOf row.1 row.2
        ((Dict.get? (scoresOf engine settings p s chunks q) id).getD zeroPointZero)) = some hit ∧
      hit.score = (Dict.get? (scoresOf engine settings p s chunks q) id).getD zeroPointZero := by
  obtain ⟨c, _, a, _, _, found⟩ := find?_scored distinct inside
  rw [found]
  exact ⟨_, rfl, rfl⟩

theorem scores_allHits : (allHits engine settings p s chunks q).map AttachmentChunkHit.score =
    ((scoresOf engine settings p s chunks q).insertionSort (bestFirst Prod.snd)).map Prod.snd := by
  rw [allHits, hitsOf, map_filterMap_of_forall _ _ (fun id =>
    (Dict.get? (scoresOf engine settings p s chunks q) id).getD zeroPointZero) _ fun id ordered =>
      hitsOf_scored distinct ((mem_orderedIds _ id).mp ordered), orderedIds, List.map_map]
  apply List.map_congr_left
  intro entry sorted
  rw [List.mem_insertionSort] at sorted
  have own := Dict.get?_of_mem _ (@nodup_scores engine settings _ _) entry sorted
  change (Dict.get? _ entry.1).getD zeroPointZero = entry.2
  rw [scoresOf, own]
  rfl

/-- No hit has a lower score than the next one. -/
theorem isChain_allHits : (allHits engine settings p s chunks q).IsChain
    (bestFirst AttachmentChunkHit.score) := by
  have sorted := isChain_insertionSort (bestFirst_total Prod.snd) (scoresOf engine settings p s chunks q)
  have scored : (((scoresOf engine settings p s chunks q).insertionSort (bestFirst Prod.snd)).map
      Prod.snd).IsChain fun a b => PyFloat.lt a b = false := (List.isChain_map Prod.snd).mpr sorted
  rw [← scores_allHits distinct] at scored
  exact (List.isChain_map AttachmentChunkHit.score).mp scored

theorem fuse_eq (limit : Nat) :
    fuse engine settings s chunks limit (vectorIdsOf engine settings p s chunks q)
        (bm25IdsOf engine settings p s chunks q) =
      (allHits engine settings p s chunks q).take limit := by
  have whole : max (limit * 2) limit = limit * 2 := by omega
  have cut := List.take_append_drop (limit * 2) (orderedIds (scoresOf engine settings p s chunks q))
  have fetched := @hitsOf_rowsByIds s chunks (scoresOf engine settings p s chunks q)
    _ _ (cut.symm ▸ nodup_orderedIds _ (nodup_scores _ _))
  rw [cut] at fetched
  have front : hitsOf (located s chunks) (scoresOf engine settings p s chunks q)
      ((orderedIds (scoresOf engine settings p s chunks q)).take (limit * 2)) =
        (allHits engine settings p s chunks q).take (limit * 2) := by
    rw [allHits, hitsOf, hitsOf, filterMap_take]
    intro id ordered
    obtain ⟨hit, own, _⟩ := hitsOf_scored distinct ((mem_orderedIds _ id).mp ordered)
    exact ⟨hit, own⟩
  have chain := (@isChain_allHits engine settings p s chunks q distinct).take (limit * 2)
  change ((hitsOf (rowsByIds s chunks ((orderedIds (scoresOf engine settings p s chunks q)).take
    (max (limit * 2) limit))) (scoresOf engine settings p s chunks q)
      (orderedIds (scoresOf engine settings p s chunks q))).insertionSort
        (bestFirst AttachmentChunkHit.score)).take limit = _
  rw [whole, fetched, front, insertionSort_of_isChain _ chain, List.take_take]
  congr 1
  omega

/-- A search shows the first of all hits. -/
theorem hybridSearch_eq : hybridSearch engine settings p s chunks q =
    (allHits engine settings p s chunks q).take q.limit := by
  change (if vectorIdsOf engine settings p s chunks q = [] ∧ bm25IdsOf engine settings p s chunks q = []
    then [] else fuse engine settings s chunks q.limit (vectorIdsOf engine settings p s chunks q)
      (bm25IdsOf engine settings p s chunks q)) = _
  split
  · next unranked =>
      have unscored : scoresOf engine settings p s chunks q = [] := by
        rw [scoresOf, unranked.1, unranked.2]
        rfl
      rw [allHits, unscored]
      exact List.take_nil.symm
  · exact fuse_eq distinct q.limit

theorem chunkIds_allHits : (allHits engine settings p s chunks q).map AttachmentChunkHit.chunkId =
    orderedIds (scoresOf engine settings p s chunks q) := by
  rw [allHits, hitsOf, map_filterMap_of_forall _ _ id, List.map_id]
  intro id ordered
  obtain ⟨c, _, a, same, _, found⟩ := find?_scored distinct ((mem_orderedIds _ id).mp ordered)
  rw [found]
  exact ⟨_, rfl, same⟩

/-- This is a chunk that one of the two rankings has. -/
def Ranked (engine : ChunkEngine) (settings : Settings) (p : Principal) (s : AttachmentSystem)
    (chunks : List ChunkRow) (q : Query) (chunkId : Nat) : Prop :=
  chunkId ∈ vectorIdsOf engine settings p s chunks q ∨ chunkId ∈ bm25IdsOf engine settings p s chunks q

omit distinct in
theorem mem_keys_scoresOf (id : Nat) :
    id ∈ (scoresOf engine settings p s chunks q).map Prod.fst ↔ Ranked engine settings p s chunks q id := by
  rw [scoresOf, scores, Retrieval.mem_keys_rrfFuse]
  constructor
  · rintro ⟨ranking, ranked, inside⟩
    have member := List.mem_of_mem_filter ranked
    rw [List.mem_cons, List.mem_singleton] at member
    rcases member with rfl | rfl
    · exact Or.inl inside
    · exact Or.inr inside
  · rintro (inside | inside)
    · exact ⟨_, List.mem_filter.mpr ⟨List.mem_cons_self, by simp [List.ne_nil_of_mem inside]⟩, inside⟩
    · exact ⟨_, List.mem_filter.mpr ⟨List.mem_cons_of_mem _ List.mem_cons_self,
        by simp [List.ne_nil_of_mem inside]⟩, inside⟩

/-- The rows that are fetched under the ids and the second sort lose nothing: a search shows the best of the
ranked chunks, each of them once, a higher limit shows the same chunks first, and where there is room it
shows all of them. -/
theorem hybridSearch_shows_best (limit : Nat) (higher : limit ≤ q.limit) :
    hybridSearch engine settings p s chunks { q with limit := limit } =
        (hybridSearch engine settings p s chunks q).take limit ∧
      (hybridSearch engine settings p s chunks q).IsChain (bestFirst AttachmentChunkHit.score) ∧
      ((hybridSearch engine settings p s chunks q).map AttachmentChunkHit.chunkId).Nodup ∧
      ((hybridSearch engine settings p s chunks q).length < q.limit → ∀ id,
        id ∈ (hybridSearch engine settings p s chunks q).map AttachmentChunkHit.chunkId ↔
          Ranked engine settings p s chunks q id) := by
  rw [hybridSearch_eq distinct, hybridSearch_eq distinct]
  refine ⟨?_, (isChain_allHits distinct).take q.limit, ?_, ?_⟩
  · change (allHits engine settings p s chunks q).take limit = _
    rw [List.take_take, Nat.min_eq_left higher]
  · rw [List.map_take, chunkIds_allHits distinct]
    exact (nodup_orderedIds _ (nodup_scores _ _)).sublist (List.take_sublist _ _)
  · intro room id
    have few : (allHits engine settings p s chunks q).length ≤ q.limit := by
      rw [List.length_take] at room
      omega
    rw [List.take_of_length_le few, chunkIds_allHits distinct, mem_orderedIds, mem_keys_scoresOf]

end Distinct

open AttachmentSystem (sampleEngine sampleMember sampleState sampleChunks sampleChunks_distinct)

theorem hybridSearch_shows_best_sample :
    hybridSearch sampleEngine {} sampleMember sampleState sampleChunks
        { query := "h", queryVector := none, limit := 1 } =
      (hybridSearch sampleEngine {} sampleMember sampleState sampleChunks
        { query := "h", queryVector := none }).take 1 :=
  (@hybridSearch_shows_best sampleEngine {} sampleMember sampleState sampleChunks
    { query := "h", queryVector := none } sampleChunks_distinct 1 (by decide)).1

end AttachmentSearch

namespace AttachmentSystem

open AttachmentSearch (attachmentOf_eq_some)

variable {deployment : Deployment} {s s' : AttachmentSystem} {a : Attachment}

/-- No request shows the attachment or a chunk of it. -/
structure Hidden (s : AttachmentSystem) (attachmentId : Nat) : Prop where
  get : ∀ p publicId b, AttachmentService.get p s publicId = .ok (some b) → b.id ≠ attachmentId
  list_ : ∀ p r listed, AttachmentService.list_ p s r = .ok listed → ∀ b ∈ listed, b.id ≠ attachmentId
  search : ∀ engine env p chunks r, (chunks.map ChunkRow.id).Nodup →
    ∀ hit ∈ (AttachmentSearch.searchAttachments engine p s chunks env r).1, hit.attachmentId ≠ attachmentId

theorem mem_list_ {p : Principal} {scope : Option ScopeFilter} {status : Option AttachmentStatus}
    {limit offset : Nat} {maxSensitivity : Option Sensitivity}
    (inside : a ∈ AttachmentRepo.list_ p s scope status limit offset maxSensitivity) :
    a ∈ s.rows ∧ a.deletedAt = none := by
  have sorted := List.mem_of_mem_drop (List.mem_of_mem_take inside)
  rw [List.mem_insertionSort] at sorted
  have live := List.mem_filter.mp (List.mem_of_mem_filter sorted)
  exact ⟨(List.mem_filter.mp live.1).1, Option.isNone_iff_eq_none.mp live.2⟩

/-- A hit of a search stands for an attachment that is not deleted. -/
theorem mem_searchAttachments {engine : ChunkEngine} {env : Environment} {p : Principal}
    {chunks : List ChunkRow} {r : RetrievalService.SearchRequest}
    (distinct : (chunks.map ChunkRow.id).Nodup) {hit : AttachmentChunkHit}
    (shown : hit ∈ (AttachmentSearch.searchAttachments engine p s chunks env r).1) :
    ∃ c ∈ chunks, ∃ a ∈ s.rows, a.id = c.attachmentId ∧
      AttachmentSearch.admitted s r.scopes p.maxSensitivity a = true ∧
        (p.isSuperuser = true ∨ a.orgId = p.orgId) ∧ ∃ score, hit = AttachmentSearch.hitOf c a score := by
  simp only [AttachmentSearch.searchAttachments, AttachmentSearch.hybridSearch_eq distinct] at shown
  exact AttachmentSearch.mem_allHits distinct hit (List.mem_of_mem_take shown)

theorem hidden_of_deleted (inside : a ∈ s.rows) (gone : a.deletedAt ≠ none) : Hidden s a.id where
  get p publicId b done same := by
    simp only [AttachmentService.get, bind_eq_ok] at done
    obtain ⟨_, _, done⟩ := done
    split at done
    · cases Except.ok.inj done
    · next found =>
        split at done
        · obtain rfl := Option.some.inj (Except.ok.inj done)
          obtain ⟨present, live⟩ := AttachmentService.getByPublicId_live found
          exact gone (row_eq_of_id s present inside same ▸ live)
        · cases Except.ok.inj done
  list_ p r listed done b present same := by
    simp only [AttachmentService.list_, bind_eq_ok] at done
    obtain ⟨_, _, done⟩ := done
    rw [← Except.ok.inj done] at present
    obtain ⟨row, live⟩ := mem_list_ present
    exact gone (row_eq_of_id s row inside same ▸ live)
  search engine env p chunks r distinct hit shown same := by
    obtain ⟨c, _, b, row, own, admitted, _, _, rfl⟩ := mem_searchAttachments distinct shown
    simp only [AttachmentSearch.admitted, Bool.and_eq_true, Option.isNone_iff_eq_none] at admitted
    exact gone (row_eq_of_id s row inside (own.trans same) ▸ admitted.1.1)

/-- What a change of another row leaves. -/
theorem mem_changed (inside : a ∈ s.rows) (gone : a.deletedAt ≠ none) {b : Attachment} (row : b ∈ s.rows)
    (live : b.deletedAt = none) (change : Attachment → Attachment)
    (changed : ∀ b, b.deletedAt = none → Evolves b (change b)) :
    a ∈ s.rows.map (Table.changeRow (fun row => row.id == b.id) change) := by
  have kept := (evolves_changeRow row live change changed a inside).deleted gone
  exact List.mem_map.mpr ⟨a, inside, kept⟩

/-- No event changes a deleted attachment or its chunks. -/
theorem deleted_step (event : Event) (inside : a ∈ s.rows) (gone : a.deletedAt ≠ none) :
    a ∈ (step deployment s event).rows ∧ (step deployment s event).chunksOf a.id = s.chunksOf a.id := by
  cases event with
  | presign p run input =>
      rw [step]
      split
      · exact ⟨inside, rfl⟩
      · next done =>
          obtain ⟨_, rows, chunks, _, _⟩ := AttachmentService.presignUpload_ok done
          refine ⟨?_, ?_⟩
          · rw [rows]
            exact List.mem_append_left _ inside
          · rw [chunksOf, chunksOf, chunks]
  | upload blob =>
      rw [step]
      split
      · exact ⟨inside, rfl⟩
      · exact ⟨inside, rfl⟩
  | finalize p now publicId payload =>
      have outcome := (AttachmentService.finalizeRequest_finalized p deployment.maxBytes now s.store s.blobs
        publicId payload).1
      rw [step]
      revert outcome
      generalize (AttachmentService.finalizeRequest p deployment.maxBytes now s.store s.blobs publicId
        payload).2 = left
      intro outcome
      obtain ⟨store, blobs⟩ := left
      cases outcome with
      | kept => exact ⟨inside, rfl⟩
      | handed b row live _ _ mark processing =>
          exact ⟨mem_changed inside gone row live _
            (evolves_marked now mark (by rw [processing]; decide)), rfl⟩
  | process w attachmentId =>
      have outcome := AttachmentTask.run_outcome (w.on deployment s.blobs) s.store attachmentId
      rw [step]
      revert outcome
      generalize AttachmentTask.run (w.on deployment s.blobs) s.store attachmentId = store
      intro outcome
      cases outcome with
      | kept => exact ⟨inside, rfl⟩
      | failed b found error =>
          obtain ⟨row, live⟩ := AttachmentTask.getById_live found
          obtain rfl := (AttachmentTask.mem_of_getById found).2
          exact ⟨mem_changed inside gone row live _ (evolves_marked w.now _ (by simp)), rfl⟩
      | ready b found text _ _ _ rows written _ =>
          obtain ⟨row, live⟩ := AttachmentTask.getById_live found
          obtain rfl := (AttachmentTask.mem_of_getById found).2
          refine ⟨mem_changed inside gone row live _ (evolves_marked w.now _ (by simp)), ?_⟩
          have other : a.id ≠ b.id := fun same => gone (row_eq_of_id s inside row same ▸ live)
          rw [chunksOf, filter_replaced s.store.chunks written.own, if_neg other]
          rfl
  | delete p now publicId =>
      rw [step]
      split
      · exact ⟨inside, rfl⟩
      · next done =>
          rcases AttachmentService.delete_ok done with rfl | ⟨b, row, live, _, rfl⟩
          · exact ⟨inside, rfl⟩
          · exact ⟨mem_changed inside gone row live _ (evolves_softDeleted now), rfl⟩

theorem deleted_run (events : List Event) (inside : a ∈ s.rows) (gone : a.deletedAt ≠ none) :
    a ∈ (Run.final (step deployment) s events).rows ∧
      (Run.final (step deployment) s events).chunksOf a.id = s.chunksOf a.id := by
  refine (Run.always_of_step (P := fun later : AttachmentSystem =>
    a ∈ later.rows ∧ later.chunksOf a.id = s.chunksOf a.id) ?_ events ⟨inside, rfl⟩).final
  intro later event ⟨present, same⟩
  obtain ⟨kept, unchanged⟩ := @deleted_step deployment later a event present gone
  exact ⟨kept, unchanged.trans same⟩

/-- A delete that says so has marked the live attachment under its public id. -/
theorem delete_found {p : Principal} {now : Instant} {publicId : Uuid}
    (done : AttachmentService.delete p s now publicId = .ok (true, s')) :
    ∃ a ∈ s.rows, a.publicId = publicId ∧ a.deletedAt = none ∧
      AccessControl.canWrite p (s.resource a) = true ∧ s' = AttachmentRepo.softDelete s now a := by
  simp only [AttachmentService.delete, bind_eq_ok] at done
  obtain ⟨_, _, done⟩ := done
  split at done
  · exact absurd (congrArg Prod.fst (Except.ok.inj done)) Bool.false_ne_true
  · next a present =>
      obtain ⟨inside, live⟩ := AttachmentService.getByPublicId_live present
      have own := List.find?_some present
      simp only [Bool.and_eq_true, beq_iff_eq] at own
      split at done
      · next allowed =>
          exact ⟨a, inside, own.1, live, allowed, (congrArg Prod.snd (Except.ok.inj done)).symm⟩
      · cases done

/-- A deleted attachment stays as it is, with its chunks, and nothing shows it again, whatever comes after
the delete: a finalize, a run of the worker, or another delete. -/
theorem deleted_for_good (deployment : Deployment) (p : Principal) (now : Instant) (publicId : Uuid)
    (events : List Event) (done : AttachmentService.delete p s now publicId = .ok (true, s')) :
    ∃ a ∈ s.rows, a.publicId = publicId ∧ a.deletedAt = none ∧
      AttachmentRepo.softDeleted now a ∈ (Run.final (step deployment) s' events).rows ∧
      (Run.final (step deployment) s' events).chunksOf a.id = s.chunksOf a.id ∧
      Hidden (Run.final (step deployment) s' events) a.id := by
  obtain ⟨a, inside, own, live, _, rfl⟩ := delete_found done
  have marked : AttachmentRepo.softDeleted now a ∈ (AttachmentRepo.softDelete s now a).rows := by
    refine List.mem_map.mpr ⟨a, inside, ?_⟩
    rw [Table.changeRow, if_pos (beq_self_eq_true a.id)]
  have gone : (AttachmentRepo.softDeleted now a).deletedAt ≠ none := Option.some_ne_none now
  obtain ⟨kept, chunks⟩ := @deleted_run deployment _ _ events marked gone
  exact ⟨a, inside, own, live, kept, chunks,
    @hidden_of_deleted _ (AttachmentRepo.softDeleted now a) kept gone⟩

theorem deleted_for_good_sample : ∃ s', ∃ a ∈ sampleState.rows, a.publicId = 8 ∧ a.deletedAt = none ∧
    AttachmentRepo.softDeleted 3 a ∈ (Run.final (step sampleDeployment) s' sampleEvents).rows ∧
    (Run.final (step sampleDeployment) s' sampleEvents).chunksOf a.id = sampleState.chunksOf a.id ∧
    Hidden (Run.final (step sampleDeployment) s' sampleEvents) a.id := by
  have deletes : (AttachmentService.delete sampleMember sampleState 3 8).toOption.map Prod.fst =
      some true := by decide +kernel
  cases done : AttachmentService.delete sampleMember sampleState 3 8 with
  | error e =>
      rw [done] at deletes
      cases deletes
  | ok outcome =>
      obtain ⟨found, s'⟩ := outcome
      rw [done] at deletes
      obtain rfl : found = true := Option.some.inj deletes
      exact ⟨s', deleted_for_good sampleDeployment sampleMember 3 8 sampleEvents done⟩

/-- The hit is a chunk of an attachment that the principal may find, and its text was read from a blob that
was put in the directories of the org of the principal. -/
structure OwnUpload (deployment : Deployment) (s : AttachmentSystem) (p : Principal)
    (scopes : List ScopeFilter) (hit : AttachmentChunkHit) (a : Attachment) : Prop where
  orgId : a.orgId = p.orgId
  live : a.deletedAt = none
  sensitivity : (s.columnsOf a).sensitivity.rank ≤ p.maxSensitivity.rank
  scopes : scopes = [] ∨ ∃ scope ∈ scopes, a.scopeType = scope.scopeType ∧ a.scopeId = scope.scopeId
  attachmentId : hit.attachmentId = a.id
  publicId : hit.attachmentPublicId = a.publicId.str
  filename : hit.filename = a.filename
  source : ∃ blob ∈ s.uploads, blob.bucket = a.s3Bucket ∧
    AttachmentService.keyPrefix p.orgId a.scopeType a.scopeId <+: blob.key ∧ ∃ mime text,
      extractText deployment.extractors blob.body mime a.filename = .ok text ∧
        (hit.chunkIndex, hit.content) ∈
          Chunker.chunkText text deployment.chunkTokens deployment.chunkOverlap

/-- What a member finds in the chunks was put under a key of its own org. -/
theorem search_finds_own_uploads (deployment : Deployment) (events : List Event) (engine : ChunkEngine)
    (env : Environment) (p : Principal) (member : p.isSuperuser = false) (chunks : List ChunkRow)
    (stored : chunks.map ChunkRow.toAttachmentChunk = (Run.final (step deployment) {} events).store.chunks)
    (distinct : (chunks.map ChunkRow.id).Nodup) (r : RetrievalService.SearchRequest)
    (hit : AttachmentChunkHit) (shown : hit ∈ (AttachmentSearch.searchAttachments engine p
      (Run.final (step deployment) {} events) chunks env r).1) :
    ∃ a ∈ (Run.final (step deployment) {} events).rows,
      OwnUpload deployment (Run.final (step deployment) {} events) p r.scopes hit a := by
  have sound := sound_of_run deployment events
  generalize Run.final (step deployment) {} events = s at stored shown sound ⊢
  obtain ⟨c, present, a, row, same, admitted, tenant, score, rfl⟩ := mem_searchAttachments distinct shown
  have listed : c.toAttachmentChunk ∈ s.store.chunks := stored ▸ List.mem_map_of_mem present
  obtain ⟨a', row', belongs⟩ := sound.chunks _ listed
  obtain rfl := row_eq_of_id s row row' (same.trans belongs.attachment.symm)
  obtain ⟨blob, put, bucket, key, mime, text, read, inside⟩ := belongs.source
  obtain ⟨objectId, built⟩ := sound.keys a row
  have org : a.orgId = p.orgId := tenant.resolve_left (by simp [member])
  simp only [AttachmentSearch.admitted, AttachmentRepo.upTo, AttachmentRepo.inScope, Bool.and_eq_true,
    Option.isNone_iff_eq_none, decide_eq_true_eq, Bool.or_eq_true, List.isEmpty_iff, List.any_eq_true,
    beq_iff_eq] at admitted
  refine ⟨a, row, org, admitted.1.1, admitted.1.2, admitted.2, same.symm, rfl, rfl, blob, put, bucket, ?_,
    mime, text, read, inside⟩
  rw [key, built, AttachmentService.buildKey, List.append_assoc, List.append_assoc, org]
  exact List.prefix_append _ _

theorem search_finds_sample : ∃ hit ∈ (AttachmentSearch.searchAttachments sampleEngine sampleMember
      sampleState sampleChunks (.ascii id) { query := "h" }).1,
    ∃ a ∈ sampleState.rows, OwnUpload sampleDeployment sampleState sampleMember [] hit a := by
  have some_hit : (AttachmentSearch.searchAttachments sampleEngine sampleMember sampleState sampleChunks
      (.ascii id) { query := "h" }).1.length = 1 := by decide +kernel
  obtain ⟨hit, shown⟩ := List.length_eq_one_iff.mp some_hit
  have inside := shown ▸ List.mem_singleton_self hit
  exact ⟨hit, inside, search_finds_own_uploads sampleDeployment sampleEvents sampleEngine (.ascii id)
    sampleMember rfl sampleChunks sampleChunks_stored sampleChunks_distinct { query := "h" } hit inside⟩

end AttachmentSystem
end Kortex
