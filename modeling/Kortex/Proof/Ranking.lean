import Kortex.Library.Sorted
import Kortex.Model.Ranking

/-
This file relates the ranking over any numbers to the floats of the code, and proves what a token budget
keeps.
-/

namespace Kortex.Ranking

/-! The floats of the code are one choice of the numbers. -/

/-- These are the columns of a row that the ranking reads. -/
def candidateOf (m : Memory) : Candidate PyFloat := ⟨m.id, m.title, m.body, m.pinned, m.decayScore⟩

def rankedOf (hit : HybridSearchHit) : RankedHit PyFloat :=
  ⟨⟨hit.memoryId, hit.title, hit.body, hit.pinned, hit.decayScore⟩, hit.score⟩

def blendedOf (r : RerankedHit) : BlendedHit PyFloat := ⟨rankedOf r.hit, r.finalScore⟩

def itemOf (item : BudgetItem) : Item PyFloat := ⟨item.id, item.text, item.score⟩

/-- These are the tokens that a text takes of the budget. -/
def tokensOf (budget : TokenBudget) (text : Str) : Nat := min (estimateTokens text) budget.perItemMax

/-- This is the text that is packed. -/
def cutText (budget : TokenBudget) (text : Str) : Str :=
  if budget.perItemMax < estimateTokens text then text.take (budget.perItemMax * 4) else text

theorem pack_eq {S : Type} (budget : TokenBudget) (packed : List (Item S) × Nat) (item : Item S) :
    pack budget packed item = if budget.maxTokens < packed.2 + tokensOf budget item.text then packed
      else (packed.1 ++ [{ item with text := cutText budget item.text }],
        packed.2 + tokensOf budget item.text) := by
  rw [pack, tokensOf, cutText]
  by_cases long : budget.perItemMax < estimateTokens item.text
  · simp only [if_pos long, Nat.min_eq_right (Nat.le_of_lt long)]
  · simp only [if_neg long, Nat.min_eq_left (Nat.le_of_not_lt long)]

section Floats

variable (engine : SearchEngine) (reranker : Reranker)

theorem byIds_floats (rows : List Memory) (ids : List Nat) :
    byIds (rows.map candidateOf) ids =
      (rows.filter fun m => ids.contains m.id).map candidateOf := by
  rw [byIds, List.filter_map]
  rfl

theorem addRank_floats : Retrieval.addRank engine = addRank (floats engine reranker) := rfl

theorem raiseToFloor_floats :
    Retrieval.raiseToFloor onePointZero = raiseToFloor (floats engine reranker) := by
  funext scores memoryId
  rw [Retrieval.raiseToFloor, raiseToFloor]
  cases Dict.get? scores memoryId with
  | none => rfl
  | some score => rfl

theorem fusedScores_floats (settings : Settings) (db : Database) (q : Retrieval.SearchQuery)
    (vectorIds bm25Ids : List Nat) :
    Retrieval.fusedScores engine settings db q vectorIds bm25Ids =
      fusedScores (floats engine reranker) (db.memories.rows.map candidateOf)
        (Retrieval.orSetting q.rrfK settings.retrievalRrfK) vectorIds bm25Ids := by
  have pinned : ((Retrieval.rowsByIds db (vectorIds ++ bm25Ids)).filter Memory.pinned).map Memory.id =
      ((byIds (db.memories.rows.map candidateOf) (vectorIds ++ bm25Ids)).filter
        Candidate.pinned).map Candidate.memoryId := by
    rw [byIds_floats, List.filter_map, List.map_map]
    rfl
  rw [Retrieval.fusedScores, fusedScores, pinned, Retrieval.rrfFuse, rrfFuse,
    addRank_floats engine reranker, raiseToFloor_floats engine reranker]

theorem hitsOf_floats (rows : List Memory) (scores : Dict Nat PyFloat) (ids : List Nat) :
    (Retrieval.hitsOf engine rows scores ids).map rankedOf =
      hitsOf (floats engine reranker) (rows.map candidateOf) scores ids := by
  rw [Retrieval.hitsOf, hitsOf, List.map_filterMap]
  congr 1
  funext memoryId
  rw [List.find?_map, Option.map_map, Option.map_map]
  cases found : rows.find? fun m => m.id == memoryId with
  | none =>
      have absent : (rows.find? ((fun c : Candidate PyFloat => c.memoryId == memoryId) ∘ candidateOf)) =
          none := found
      rw [absent]
      rfl
  | some m =>
      have present : (rows.find? ((fun c : Candidate PyFloat => c.memoryId == memoryId) ∘ candidateOf)) =
          some m := found
      have own : m.id = memoryId := by simpa using List.find?_some found
      rw [present, ← own]
      rfl

/-- The search of the code ranks by the scores over the floats. -/
theorem fuse_floats (settings : Settings) (db : Database) (q : Retrieval.SearchQuery)
    (vectorIds bm25Ids : List Nat) (limit : Nat) (whole : q.limit = limit) :
    (Retrieval.fuse engine settings db q vectorIds bm25Ids).map rankedOf =
      hybridSearch (floats engine reranker) (db.memories.rows.map candidateOf)
        (Retrieval.orSetting q.rrfK settings.retrievalRrfK) vectorIds bm25Ids limit := by
  have cut (ids : List Nat) : sliceTo (max (q.limit * 2) q.limit) ids =
      ids.take (max (limit * 2) limit) := by
    rw [sliceTo, whole, if_pos (by omega)]
    congr 1
    omega
  have front (hits : List HybridSearchHit) : sliceTo q.limit hits = hits.take limit := by
    rw [sliceTo, whole, if_pos (by omega)]
    rfl
  have sorted (hits : List HybridSearchHit) :
      (hits.insertionSort (Retrieval.bestFirst HybridSearchHit.score)).map rankedOf =
        (hits.map rankedOf).insertionSort (bestFirst (floats engine reranker) RankedHit.score) :=
    List.map_insertionSort _ _ _ _ fun _ _ _ _ => Iff.rfl
  simp only [Retrieval.fuse, hybridSearch, cut, front, List.map_take, sorted,
    fusedScores_floats engine reranker, hitsOf_floats engine reranker]
  rw [Retrieval.rowsByIds, ← byIds_floats]
  rfl

theorem pack_eq_floats (budget : TokenBudget) (packed : List BudgetItem × Nat) (item : BudgetItem) :
    budget.pack packed item = if budget.maxTokens < packed.2 + tokensOf budget item.text then packed
      else (packed.1 ++ [{ item with text := cutText budget item.text }],
        packed.2 + tokensOf budget item.text) := by
  rw [TokenBudget.pack, tokensOf, cutText]
  by_cases long : budget.perItemMax < estimateTokens item.text
  · simp only [if_pos long, Nat.min_eq_right (Nat.le_of_lt long)]
  · simp only [if_neg long, Nat.min_eq_left (Nat.le_of_not_lt long)]

theorem pack_floats (budget : TokenBudget) (items : List BudgetItem) (packed : List BudgetItem × Nat) :
    (items.map itemOf).foldl (pack budget) (packed.1.map itemOf, packed.2) =
      ((items.foldl budget.pack packed).1.map itemOf, (items.foldl budget.pack packed).2) := by
  induction items generalizing packed with
  | nil => rfl
  | cons item rest ih =>
      have one : pack budget (packed.1.map itemOf, packed.2) (itemOf item) =
          ((budget.pack packed item).1.map itemOf, (budget.pack packed item).2) := by
        rw [pack_eq, pack_eq_floats]
        show (if budget.maxTokens < packed.2 + tokensOf budget item.text then _ else _) = _
        split
        · rfl
        · rw [List.map_append]
          rfl
      rw [List.map_cons, List.foldl_cons, List.foldl_cons, one, ih]

theorem fit_floats (budget : TokenBudget) (items : List BudgetItem) :
    fit (floats engine reranker) budget (items.map itemOf) =
      ((budget.fit items).1.map itemOf, (budget.fit items).2) := by
  have sorted : (items.insertionSort (Retrieval.bestFirst BudgetItem.score)).map itemOf =
      (items.map itemOf).insertionSort (bestFirst (floats engine reranker) Item.score) :=
    List.map_insertionSort _ _ _ _ fun _ _ _ _ => Iff.rfl
  rw [fit, ← sorted]
  exact pack_floats budget _ ([], 0)

/-- These are the hits with the scores that the reranker gives them. -/
def scoredBy (query : Str) (hits : List HybridSearchHit) : List (RankedHit PyFloat × PyFloat) :=
  hits.map fun hit => (rankedOf hit, reranker.score query hit.text hit.score)

theorem sorted_floats (rs : List RerankedHit) :
    (rs.insertionSort (Retrieval.bestFirst RerankedHit.finalScore)).map blendedOf =
      (rs.map blendedOf).insertionSort (bestFirst (floats engine reranker) BlendedHit.finalScore) :=
  List.map_insertionSort _ _ _ _ fun _ _ _ _ => Iff.rfl

theorem rerank_floats (query : Str) (hits : List HybridSearchHit) :
    (reranker.rerank query hits).map blendedOf =
      rerank (floats engine reranker) (scoredBy reranker query hits) := by
  cases hits with
  | nil => rfl
  | cons first rest =>
      rw [Reranker.rerank, rerank, sorted_floats engine reranker]
      congr 1
      rw [List.map_map, scoredBy, List.map_map]
      apply List.map_congr_left
      intro hit _
      simp only [Function.comp, blendedOf, blended, spread, List.map_cons, List.map_map]
      rfl

/-- The pipeline of the code packs by the scores over the floats. -/
theorem rerankAndPack_floats (query : Str) (hits : List HybridSearchHit) (budget : TokenBudget) :
    (reranker.rerankAndPack query hits budget).1.map blendedOf =
      (rerankAndPack (floats engine reranker) (scoredBy reranker query hits) budget).1 := by
  have items (reranked : List RerankedHit) :
      ((reranked.map blendedOf).mapIdx fun i r => (⟨i, r.hit.text, r.finalScore⟩ : Item PyFloat)) =
        (reranked.mapIdx fun i r => (⟨i, r.hit.text, r.finalScore⟩ : BudgetItem)).map itemOf := by
    rw [List.mapIdx_eq_zipIdx_map, List.mapIdx_eq_zipIdx_map, List.zipIdx_map, List.map_map,
      List.map_map]
    rfl
  have ids (kept : List BudgetItem) : (kept.map itemOf).map Item.id = kept.map BudgetItem.id := by
    rw [List.map_map]
    rfl
  simp only [Reranker.rerankAndPack, rerankAndPack, ← rerank_floats, items, fit_floats, ids]
  rw [sorted_floats engine reranker]
  congr 1
  rw [List.zipIdx_map, List.filter_map, List.map_map, List.map_map]
  rfl

end Floats

/-! What a token budget keeps. -/

section Packing

variable {S : Type} {numbers : Numbers S} {budget : TokenBudget}

/-- These are the items that the loop of `fit` keeps when some tokens are used. -/
def keptOf (budget : TokenBudget) : Nat → List (Item S) → List (Item S)
  | _, [] => []
  | used, item :: rest =>
      if budget.maxTokens < used + tokensOf budget item.text then keptOf budget used rest
      else item :: keptOf budget (used + tokensOf budget item.text) rest

def tokensOfAll (budget : TokenBudget) (items : List (Item S)) : Nat :=
  (items.map fun item => tokensOf budget item.text).sum

theorem foldl_pack (items : List (Item S)) (packed : List (Item S) × Nat) :
    items.foldl (pack budget) packed = (packed.1 ++ (keptOf budget packed.2 items).map fun item =>
      { item with text := cutText budget item.text },
        packed.2 + tokensOfAll budget (keptOf budget packed.2 items)) := by
  induction items generalizing packed with
  | nil => simp [keptOf, tokensOfAll]
  | cons item rest ih =>
      rw [List.foldl_cons, pack_eq, keptOf]
      split
      · exact ih packed
      · rw [ih]
        simp [tokensOfAll, Nat.add_assoc]

theorem sublist_keptOf (items : List (Item S)) (used : Nat) :
    (keptOf budget used items).Sublist items := by
  induction items generalizing used with
  | nil => exact List.Sublist.refl _
  | cons item rest ih =>
      rw [keptOf]
      split
      · exact (ih used).cons item
      · exact (ih _).cons_cons item

variable (budget) in
theorem keptOf_fits (items : List (Item S)) (used : Nat) (room : used ≤ budget.maxTokens) :
    used + tokensOfAll budget (keptOf budget used items) ≤ budget.maxTokens := by
  induction items generalizing used with
  | nil => simpa [keptOf, tokensOfAll] using room
  | cons item rest ih =>
      rw [keptOf]
      split
      · exact ih used room
      · have later := ih (used + tokensOf budget item.text) (by omega)
        rw [tokensOfAll, List.map_cons, List.sum_cons]
        rw [tokensOfAll] at later
        omega

/-- A budget for all items keeps all of them. -/
theorem keptOf_of_fits (items : List (Item S)) (used : Nat)
    (fits : used + tokensOfAll budget items ≤ budget.maxTokens) : keptOf budget used items = items := by
  induction items generalizing used with
  | nil => rfl
  | cons item rest ih =>
      rw [tokensOfAll, List.map_cons, List.sum_cons, ← tokensOfAll] at fits
      rw [keptOf, if_neg (by omega), ih _ (by omega)]

variable (numbers) in
/-- These are the hits as items of the budget, with their places as ids. -/
def itemsOf (scored : List (RankedHit S × S)) : List (Item S) :=
  (rerank numbers scored).mapIdx fun i r => ⟨i, r.hit.text, r.finalScore⟩

variable (numbers budget) in
/-- These are the items that the pipeline keeps. -/
def kept (scored : List (RankedHit S × S)) : List (Item S) :=
  keptOf budget 0 ((itemsOf numbers scored).insertionSort (bestFirst numbers Item.score))

theorem itemsOf_eq (scored : List (RankedHit S × S)) : itemsOf numbers scored =
    (rerank numbers scored).zipIdx.map fun entry =>
      ⟨entry.2, entry.1.hit.text, entry.1.finalScore⟩ := by
  rw [itemsOf, List.mapIdx_eq_zipIdx_map]

variable (numbers) in
theorem itemsOf_distinct (scored : List (RankedHit S × S)) :
    ((itemsOf numbers scored).map Item.id).Nodup := by
  have places : (itemsOf numbers scored).map Item.id = (rerank numbers scored).zipIdx.map Prod.snd := by
    rw [itemsOf_eq, List.map_map]
    rfl
  rw [places, List.zipIdx_map_snd]
  exact List.nodup_range'

theorem ids_fit (scored : List (RankedHit S × S)) :
    (fit numbers budget (itemsOf numbers scored)).1.map Item.id =
      (kept numbers budget scored).map Item.id := by
  rw [fit, foldl_pack, kept]
  simp [Function.comp_def]

/-- The items whose ids are kept are those that are kept. -/
theorem filter_kept (scored : List (RankedHit S × S)) :
    ((itemsOf numbers scored).filter fun item =>
      ((kept numbers budget scored).map Item.id).contains item.id).Perm (kept numbers budget scored) := by
  have distinct := itemsOf_distinct numbers scored
  have inside : (kept numbers budget scored).Sublist
      ((itemsOf numbers scored).insertionSort (bestFirst numbers Item.score)) := sublist_keptOf _ 0
  have same := List.perm_insertionSort (bestFirst numbers Item.score) (itemsOf numbers scored)
  have unique := distinct.of_map
  rw [List.perm_ext_iff_of_nodup (unique.filter _) ((same.nodup_iff.mpr unique).sublist inside)]
  intro item
  rw [List.mem_filter, List.contains_iff_mem, List.mem_map]
  constructor
  · intro ⟨own, other, chosen, equal⟩
    rwa [← List.inj_on_of_nodup_map distinct (same.mem_iff.mp (inside.subset chosen)) own equal]
  · intro chosen
    exact ⟨same.mem_iff.mp (inside.subset chosen), item, chosen, rfl⟩

variable (numbers budget) in
/-- The texts of the returned hits are those of the items that are kept, before they are cut. -/
theorem texts_rerankAndPack (scored : List (RankedHit S × S)) :
    ((rerankAndPack numbers scored budget).1.map fun r => r.hit.text).Perm
      ((kept numbers budget scored).map Item.text) := by
  have chosen : ((rerank numbers scored).zipIdx.filter fun entry =>
      ((kept numbers budget scored).map Item.id).contains entry.2).map (fun entry => entry.1.hit.text) =
        ((itemsOf numbers scored).filter fun item =>
          ((kept numbers budget scored).map Item.id).contains item.id).map Item.text := by
    rw [itemsOf_eq, List.filter_map, List.map_map]
    rfl
  have packed : (rerankAndPack numbers scored budget).1 =
      (((rerank numbers scored).zipIdx.filter fun entry =>
        ((kept numbers budget scored).map Item.id).contains entry.2).map Prod.fst).insertionSort
          (bestFirst numbers BlendedHit.finalScore) := by
    rw [← ids_fit]
    rfl
  rw [packed]
  refine ((List.perm_insertionSort _ _).map _).trans ?_
  rw [List.map_map]
  show List.Perm (List.map (fun entry : BlendedHit S × Nat => entry.1.hit.text) _) _
  rw [chosen]
  exact (filter_kept scored).map _

end Packing
end Kortex.Ranking
