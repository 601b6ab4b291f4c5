import Kortex.Library.Closure
import Kortex.Library.Run
import Kortex.Model.AgentLoop
import Kortex.Proof.MemoryRepo

/-
This file proves when the candidates of a loop pass the filters of the search.
-/

namespace Kortex

namespace PyFloat

theorem rankLe_iff (a b : Int × ℚ) : rankLe a b = true ↔ toLex a ≤ toLex b := by
  rw [Prod.Lex.toLex_le_toLex, rankLe, Bool.or_eq_true, Bool.and_eq_true, beq_iff_eq, decide_eq_true_iff,
    decide_eq_true_iff]

theorem sqlLe_total (a b : PyFloat) : sqlLe a b = true ∨ sqlLe b a = true := by
  simp only [sqlLe]
  cases a.rank with
  | none => cases b.rank <;> simp
  | some x =>
      cases b.rank with
      | none => simp
      | some y => simpa only [rankLe_iff] using le_total (toLex x) (toLex y)

theorem sqlLe_trans (a b c : PyFloat) (first : sqlLe a b = true) (second : sqlLe b c = true) :
    sqlLe a c = true := by
  simp only [sqlLe] at first second ⊢
  cases hc : c.rank with
  | none => simp
  | some z =>
      cases hb : b.rank with
      | none => simp [hb, hc] at second
      | some y =>
          cases ha : a.rank with
          | none => simp [ha, hb] at first
          | some x =>
              simp only [ha, hb, hc, rankLe_iff] at first second ⊢
              exact le_trans first second

end PyFloat

namespace Retrieval

variable (engine : SearchEngine)

theorem mem_of_mem_sliceTo {A : Type} (n : Int) (items : List A) (a : A)
    (inside : a ∈ sliceTo n items) : a ∈ items := by
  rw [sliceTo] at inside
  split at inside
  · exact List.mem_of_mem_take inside
  · exact List.mem_of_mem_take inside

/-- The fused scores are those of the ranked memories. -/
theorem mem_keys_rrfFuse (rankings : List (List Nat)) (k : Nat) (pinned : List Nat) (id : Nat) :
    id ∈ (rrfFuse engine rankings k pinned).map Prod.fst ↔ ∃ ranking ∈ rankings, id ∈ ranking := by
  have ranked (entries : List (Nat × Nat)) (scores : Dict Nat PyFloat) :
      id ∈ (entries.foldl (addRank engine k) scores).map Prod.fst ↔
        id ∈ entries.map Prod.fst ∨ id ∈ scores.map Prod.fst := by
    induction entries generalizing scores with
    | nil => simp
    | cons entry rest ih =>
        rw [List.foldl_cons, ih, addRank, Dict.mem_keys_set, List.map_cons, List.mem_cons]
        tauto
  have fused (scores : Dict Nat PyFloat) : id ∈ (rankings.foldl (fun scores ranking =>
      (ranking.zipIdx 1).foldl (addRank engine k) scores) scores).map Prod.fst ↔
        (∃ ranking ∈ rankings, id ∈ ranking) ∨ id ∈ scores.map Prod.fst := by
    induction rankings generalizing scores with
    | nil => simp
    | cons ranking rest ih =>
        rw [List.foldl_cons, ih, ranked, List.zipIdx_map_fst]
        simp only [List.mem_cons, exists_eq_or_imp]
        rw [or_left_comm, or_assoc]
  have raised (floor : PyFloat) (scores : Dict Nat PyFloat) :
      id ∈ (pinned.foldl (raiseToFloor floor) scores).map Prod.fst ↔ id ∈ scores.map Prod.fst := by
    induction pinned generalizing scores with
    | nil => rfl
    | cons first rest ih =>
        rw [List.foldl_cons, ih, raiseToFloor]
        split
        · rename_i score found
          rw [Dict.mem_keys_set, or_iff_right_iff_imp]
          rintro rfl
          rw [← Dict.isSome_get?, found]
          rfl
        · rfl
  rw [rrfFuse, raised, fused]
  simp

variable (settings : Settings) (db : Database) (q : SearchQuery) (vectorIds bm25Ids : List Nat)

/-- The ids of a fusion are the ranked ones. -/
theorem mem_orderedIds (id : Nat) : id ∈ orderedIds (fusedScores engine settings db q vectorIds bm25Ids) ↔
    id ∈ vectorIds ∨ id ∈ bm25Ids := by
  have sorted : id ∈ orderedIds (fusedScores engine settings db q vectorIds bm25Ids) ↔
      id ∈ (fusedScores engine settings db q vectorIds bm25Ids).map Prod.fst := by
    simp only [orderedIds, List.mem_map, List.mem_insertionSort]
  rw [sorted, fusedScores, mem_keys_rrfFuse]
  simp only [List.mem_filter, List.mem_cons, List.not_mem_nil, or_false]
  constructor
  · rintro ⟨ranking, ⟨rfl | rfl, _⟩, inside⟩
    · exact Or.inl inside
    · exact Or.inr inside
  · rintro (inside | inside)
    · exact ⟨vectorIds, ⟨Or.inl rfl, by simp [List.ne_nil_of_mem inside]⟩, inside⟩
    · exact ⟨bm25Ids, ⟨Or.inr rfl, by simp [List.ne_nil_of_mem inside]⟩, inside⟩

theorem mem_hitsOf (rows : List Memory) (scores : Dict Nat PyFloat) (ids : List Nat)
    (hit : HybridSearchHit) (inside : hit ∈ hitsOf engine rows scores ids) :
    ∃ m ∈ rows, m.id ∈ ids ∧ ∃ score, hit = hitOf m score := by
  obtain ⟨id, listed, built⟩ := List.mem_filterMap.mp inside
  obtain ⟨m, found, rfl⟩ := Option.map_eq_some_iff.mp built
  have same := List.find?_some found
  rw [beq_iff_eq] at same
  exact ⟨m, List.mem_of_find?_eq_some found, same ▸ listed, _, rfl⟩

/-- Every hit of a fusion is the row of a ranked memory. -/
theorem mem_fuse (hit : HybridSearchHit) (inside : hit ∈ fuse engine settings db q vectorIds bm25Ids) :
    ∃ m ∈ db.memories.rows, (m.id ∈ vectorIds ∨ m.id ∈ bm25Ids) ∧ ∃ score, hit = hitOf m score := by
  have member := mem_of_mem_sliceTo _ _ _ inside
  rw [List.mem_insertionSort] at member
  obtain ⟨m, row, ordered, built⟩ := mem_hitsOf engine _ _ _ hit member
  rw [mem_orderedIds] at ordered
  exact ⟨m, List.mem_of_mem_filter row, ordered, built⟩

theorem hitsOf_ne_nil (rows : List Memory) (scores : Dict Nat PyFloat) (ids : List Nat) (m : Memory)
    (row : m ∈ rows) (listed : m.id ∈ ids) : hitsOf engine rows scores ids ≠ [] := by
  intro empty
  have absent := List.filterMap_eq_nil_iff.mp empty m.id listed
  rw [Option.map_eq_none_iff, List.find?_eq_none] at absent
  exact absent m row (by simp)

theorem mem_sliceTo_cons {A : Type} (n : Int) (positive : 0 < n) (first : A) (rest : List A) :
    first ∈ sliceTo n (first :: rest) := by
  obtain ⟨k, same⟩ : ∃ k, n.toNat = k + 1 := ⟨n.toNat - 1, by omega⟩
  simp [sliceTo, show (0 : Int) ≤ n by omega, same]

theorem insertionSort_ne_nil {A : Type} (before : A → A → Prop) [DecidableRel before] (items : List A)
    (some : items ≠ []) : items.insertionSort before ≠ [] := by
  intro none
  have length := (List.perm_insertionSort before items).length_eq
  rw [none] at length
  exact some (List.length_eq_zero_iff.mp length.symm)

/-- A fusion with a ranked row finds something. -/
theorem fuse_ne_nil (positive : 0 < q.limit) (ranked : ∃ id, id ∈ vectorIds ∨ id ∈ bm25Ids)
    (rows : ∀ id, id ∈ vectorIds ∨ id ∈ bm25Ids → ∃ m ∈ db.memories.rows, m.id = id) :
    fuse engine settings db q vectorIds bm25Ids ≠ [] := by
  obtain ⟨id, ranked⟩ := ranked
  have present := (mem_orderedIds engine settings db q vectorIds bm25Ids id).mpr ranked
  cases ordered : orderedIds (fusedScores engine settings db q vectorIds bm25Ids) with
  | nil => exact absurd (ordered ▸ present) List.not_mem_nil
  | cons first rest =>
      have firstRanked := (mem_orderedIds engine settings db q vectorIds bm25Ids first).mp
        (ordered ▸ List.mem_cons_self)
      obtain ⟨m, row, same⟩ := rows first firstRanked
      have kept := mem_sliceTo_cons (max (q.limit * 2) q.limit) (by omega) first rest
      have fetched : m ∈ rowsByIds db (sliceTo (max (q.limit * 2) q.limit) (first :: rest)) := by
        rw [rowsByIds, List.mem_filter, List.contains_iff_mem, same]
        exact ⟨row, kept⟩
      have found := hitsOf_ne_nil engine _ (fusedScores engine settings db q vectorIds bm25Ids)
        (first :: rest) m fetched (by rw [same]; exact List.mem_cons_self)
      simp only [fuse, ordered]
      obtain ⟨best, others, sorted⟩ := List.exists_cons_of_ne_nil
        (insertionSort_ne_nil (bestFirst HybridSearchHit.score) _ found)
      rw [sorted]
      exact List.ne_nil_of_mem (mem_sliceTo_cons q.limit positive best others)

theorem mem_vectorIds (candidates : List Memory) (vector : Option (List PyFloat)) (limit id : Nat)
    (inside : id ∈ Retrieval.vectorIds engine candidates vector limit) :
    ∃ m ∈ candidates, m.id = id ∧ vector.isSome = true ∧ m.embedding.isSome = true ∧ 0 < limit := by
  cases vector with
  | none => exact absurd inside List.not_mem_nil
  | some vector =>
      rw [Retrieval.vectorIds, List.mem_map] at inside
      obtain ⟨m, taken, same⟩ := inside
      have sorted := List.mem_of_mem_take taken
      rw [List.mem_insertionSort, List.mem_filter] at sorted
      have positive : 0 < limit := by
        rcases Nat.eq_zero_or_pos limit with zero | positive
        · simp [zero] at taken
        · exact positive
      exact ⟨m, sorted.1, same, rfl, sorted.2, positive⟩

theorem mem_bm25Ids (candidates : List Memory) (tsConfig query : Str) (limit id : Nat)
    (inside : id ∈ Retrieval.bm25Ids engine candidates tsConfig query limit) :
    ∃ m ∈ candidates, m.id = id ∧ (engine.rank tsConfig query m).isSome = true ∧ 0 < limit := by
  rw [Retrieval.bm25Ids, List.mem_map] at inside
  obtain ⟨entry, taken, rfl⟩ := inside
  have sorted := List.mem_of_mem_take taken
  rw [List.mem_insertionSort, List.mem_filterMap] at sorted
  obtain ⟨m, present, ranked⟩ := sorted
  obtain ⟨rank, matched, rfl⟩ := Option.map_eq_some_iff.mp ranked
  have positive : 0 < limit := by
    rcases Nat.eq_zero_or_pos limit with zero | positive
    · simp [zero] at taken
    · exact positive
  exact ⟨m, present, rfl, by rw [matched]; rfl, positive⟩

theorem vectorIds_ne_nil (candidates : List Memory) (vector : List PyFloat) (limit : Nat)
    (positive : 0 < limit) (m : Memory) (present : m ∈ candidates)
    (embedded : m.embedding.isSome = true) :
    Retrieval.vectorIds engine candidates (some vector) limit ≠ [] := by
  have selected : candidates.filter (fun m => m.embedding.isSome) ≠ [] :=
    List.ne_nil_of_mem (List.mem_filter.mpr ⟨present, embedded⟩)
  have sorted := insertionSort_ne_nil (nearestFirst engine vector) _ selected
  simp only [Retrieval.vectorIds, ne_eq, List.map_eq_nil_iff, List.take_eq_nil_iff, not_or]
  exact ⟨positive.ne', sorted⟩

theorem bm25Ids_ne_nil (candidates : List Memory) (tsConfig query : Str) (limit : Nat)
    (positive : 0 < limit) (m : Memory) (present : m ∈ candidates)
    (ranked : (engine.rank tsConfig query m).isSome = true) :
    Retrieval.bm25Ids engine candidates tsConfig query limit ≠ [] := by
  obtain ⟨rank, matched⟩ := Option.isSome_iff_exists.mp ranked
  have selected : candidates.filterMap (fun m => (engine.rank tsConfig query m).map fun rank =>
      (m.id, rank)) ≠ [] :=
    List.ne_nil_of_mem (List.mem_filterMap.mpr ⟨m, present, by rw [matched]; rfl⟩)
  have sorted := insertionSort_ne_nil highestFirst _ selected
  simp only [Retrieval.bm25Ids, ne_eq, List.map_eq_nil_iff, List.take_eq_nil_iff, not_or]
  exact ⟨positive.ne', sorted⟩

/-- One of the two rankings of the search ranks the row. -/
def Matches (p : Principal) (m : Memory) : Prop :=
  (q.queryVector.isSome = true ∧ m.embedding.isSome = true ∧
      0 < orSetting q.topKVector settings.retrievalTopKVector) ∨
    ((engine.rank (configForScopes p db q.scopes) q.query m).isSome = true ∧
      0 < orSetting q.topKBm25 settings.retrievalTopKBm25)

variable (p : Principal)

theorem mem_candidates (p : Principal) (m : Memory) : m ∈ candidates settings p db q ↔
    m ∈ MemoryRepo.liveRows p db ∧ m.admitted settings q.scopes q.maxSensitivity = true := by
  have live (admitted : m.admitted settings q.scopes q.maxSensitivity = true) : m.live = true := by
    simp only [Memory.admitted, Bool.and_eq_true] at admitted
    exact admitted.1.1.1.1
  rw [candidates, List.mem_filter, MemoryRepo.liveRows, List.mem_filter]
  tauto

variable (p : Principal)

/-- Every hit of a search is a visible row that passes its filters. -/
theorem mem_hybridSearch (hit : HybridSearchHit) (inside : hit ∈ hybridSearch engine settings p db q) :
    ∃ m ∈ MemoryRepo.liveRows p db, m.admitted settings q.scopes q.maxSensitivity = true ∧
      Matches engine settings db q p m ∧ ∃ score, hit = hitOf m score := by
  simp only [hybridSearch] at inside
  split at inside
  · exact absurd inside List.not_mem_nil
  · obtain ⟨m, present, ranked, built⟩ := mem_fuse engine settings db q _ _ hit inside
    have candidate : ∃ m' ∈ candidates settings p db q,
        m'.id = m.id ∧ Matches engine settings db q p m' := by
      rcases ranked with inVector | inKeywords
      · obtain ⟨m', listed, same, matched⟩ := mem_vectorIds engine _ _ _ _ inVector
        exact ⟨m', listed, same, Or.inl matched⟩
      · obtain ⟨m', listed, same, matched⟩ := mem_bm25Ids engine _ _ _ _ _ inKeywords
        exact ⟨m', listed, same, Or.inr matched⟩
    obtain ⟨m', listed, same, matched⟩ := candidate
    rw [mem_candidates] at listed
    obtain rfl := memory_eq_of_id db m' m ((MemoryRepo.mem_liveRows p db m').mp listed.1).1 present same
    exact ⟨m', listed.1, listed.2, matched, built⟩

/-- A search that matches an admitted row finds something. -/
theorem hybridSearch_ne_nil (positive : 0 < q.limit) (m : Memory)
    (present : m ∈ MemoryRepo.liveRows p db)
    (admitted : m.admitted settings q.scopes q.maxSensitivity = true)
    (matched : Matches engine settings db q p m) : hybridSearch engine settings p db q ≠ [] := by
  have candidate := (mem_candidates settings db q p m).mpr ⟨present, admitted⟩
  have rowOf (m' : Memory) (listed : m' ∈ candidates settings p db q) : m' ∈ db.memories.rows :=
    ((MemoryRepo.mem_liveRows p db m').mp ((mem_candidates settings db q p m').mp listed).1).1
  have nonempty : Retrieval.vectorIds engine (candidates settings p db q) q.queryVector
        (orSetting q.topKVector settings.retrievalTopKVector) ≠ [] ∨
      Retrieval.bm25Ids engine (candidates settings p db q) (configForScopes p db q.scopes) q.query
        (orSetting q.topKBm25 settings.retrievalTopKBm25) ≠ [] := by
    rcases matched with ⟨given, embedded, some⟩ | ⟨ranked, some⟩
    · obtain ⟨vector, same⟩ := Option.isSome_iff_exists.mp given
      rw [same]
      exact Or.inl (vectorIds_ne_nil engine _ vector _ some m candidate embedded)
    · exact Or.inr (bm25Ids_ne_nil engine _ _ _ _ some m candidate ranked)
  simp only [hybridSearch]
  rw [if_neg (by tauto)]
  apply fuse_ne_nil engine settings db q _ _ positive
  · rcases nonempty with some | some
    · obtain ⟨id, inside⟩ := List.exists_mem_of_ne_nil _ some
      exact ⟨id, Or.inl inside⟩
    · obtain ⟨id, inside⟩ := List.exists_mem_of_ne_nil _ some
      exact ⟨id, Or.inr inside⟩
  · rintro id (inVector | inKeywords)
    · obtain ⟨m', listed, same, _⟩ := mem_vectorIds engine _ _ _ _ inVector
      exact ⟨m', rowOf m' listed, same⟩
    · obtain ⟨m', listed, same, _⟩ := mem_bm25Ids engine _ _ _ _ _ inKeywords
      exact ⟨m', rowOf m' listed, same⟩

end Retrieval

namespace Conflicts

variable {p : Principal} {db : Database} (isoformat : Instant → Str)

theorem ends_of_mem_anchorsOf (link : MemoryLink) (entry : Anchored) (inside : entry ∈ anchorsOf link) :
    (entry.anchor = link.fromMemoryId ∧ entry.other = link.toMemoryId) ∨
      (entry.anchor = link.toMemoryId ∧ entry.other = link.fromMemoryId) := by
  simp only [anchorsOf, List.mem_cons, List.not_mem_nil, or_false] at inside
  rcases inside with rfl | rfl
  · exact Or.inl ⟨rfl, rfl⟩
  · exact Or.inr ⟨rfl, rfl⟩

/-- The rows under the ids of the links describe the ends of the links as all rows do. -/
theorem notesOf_listByIds (present : List Nat) (links : List MemoryLink) :
    notesOf isoformat (MemoryRepo.listByIds p db (links.flatMap fun link =>
        [link.fromMemoryId, link.toMemoryId])) present links =
      notesOf isoformat (tenantQuery Memory.orgId p db.memories.rows) present links := by
  rw [notesOf, notesOf]
  apply List.filterMap_congr
  intro entry inside
  obtain ⟨link, listed, anchored⟩ := List.mem_flatMap.mp inside
  have named : entry.other ∈ links.flatMap fun link => [link.fromMemoryId, link.toMemoryId] := by
    apply List.mem_flatMap.mpr
    refine ⟨link, listed, ?_⟩
    rcases ends_of_mem_anchorsOf link entry anchored with ⟨_, same⟩ | ⟨_, same⟩ <;> simp [same]
  have looked : (MemoryRepo.listByIds p db (links.flatMap fun link =>
      [link.fromMemoryId, link.toMemoryId])).find? (fun m => m.id == entry.other) =
        (tenantQuery Memory.orgId p db.memories.rows).find? fun m => m.id == entry.other := by
    rw [MemoryRepo.listByIds, List.find?_filter]
    apply congrArg (fun accepts => List.find? accepts _)
    funext m
    by_cases same : m.id = entry.other
    · rw [same, List.contains_iff_mem.mpr named, beq_self_eq_true]
      rfl
    · simp [same]
  simp only [describe, looked]

end Conflicts
end Kortex
