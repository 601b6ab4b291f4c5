import Kortex.Library.Sorted
import Kortex.Proof.RankingFront

/-
This file proves when the pinned memories stay in front of the others.
-/

namespace Kortex.Ranking

/-- No pinned item is behind one that is not pinned. -/
def PinnedFirst {A : Type} (pinned : A → Bool) (items : List A) : Prop :=
  items.Pairwise fun a b => pinned b = true → pinned a = true

instance {A : Type} (pinned : A → Bool) (items : List A) : Decidable (PinnedFirst pinned items) :=
  inferInstanceAs (Decidable (items.Pairwise fun a b => pinned b = true → pinned a = true))

theorem pinnedFirst_map {A B : Type} (f : A → B) (pinned : B → Bool) (items : List A) :
    PinnedFirst pinned (items.map f) ↔ PinnedFirst (pinned ∘ f) items := List.pairwise_map

variable (blend : ℚ)

theorem bestFirst_iff {A : Type} (score : A → ℚ) (a b : A) :
    bestFirst (rationals blend) score a b ↔ score b ≤ score a := by
  simp [bestFirst, rationals]

/-- A stable sort of such a list leaves the pinned items in front exactly when none of the others scores
higher than one of them. -/
theorem pinnedFirst_sort_iff {A : Type} (pinned : A → Bool) (score : A → ℚ) (items : List A)
    (first : PinnedFirst pinned items) :
    PinnedFirst pinned (items.insertionSort (bestFirst (rationals blend) score)) ↔
      ∀ p ∈ items, ∀ u ∈ items, pinned p = true → pinned u = false → score u ≤ score p := by
  constructor
  · intro front p inside u other own plain
    have sorted := List.pairwise_insertionSort (bestFirst (rationals blend) score) items
    -- a pinned item can only stand in front, where its score is the higher one
    have ahead : (items.insertionSort (bestFirst (rationals blend) score)).Pairwise fun a b =>
        pinned a = true → pinned b = false → score b ≤ score a :=
      sorted.imp fun below _ _ => (bestFirst_iff blend score _ _).mp below
    have behind : (items.insertionSort (bestFirst (rationals blend) score)).Pairwise fun a b =>
        pinned b = true → pinned a = false → score a ≤ score b :=
      front.imp fun first own plain => absurd (first own) (by simp [plain])
    exact ahead.forall_of_forall_of_flip (fun _ _ _ _ => le_refl _) behind
      ((List.mem_insertionSort _).mpr inside) ((List.mem_insertionSort _).mpr other) own plain
  · intro higher
    apply pairwise_insertionSort_of _ items first
    intro a inside b other above own
    rw [bestFirst_iff, not_le] at above
    by_contra plain
    exact absurd (higher b other a inside own (by simpa using plain)) (not_le.mpr above)

/-! The hits of a search. -/

section Search

variable (r : Rankings ℚ) (k : Nat)

/-- These are the ranked memories that are pinned. -/
def Rankings.pinnedIds : List Nat :=
  ((byIds r.candidates (r.vectorIds ++ r.bm25Ids)).filter Candidate.pinned).map Candidate.memoryId

theorem Rankings.mem_pinnedIds (c : Candidate ℚ) (present : c ∈ r.candidates)
    (ranked : c.memoryId ∈ r.vectorIds ++ r.bm25Ids) :
    c.memoryId ∈ r.pinnedIds ↔ c.pinned = true := by
  rw [pinnedIds, List.mem_map]
  constructor
  · intro ⟨other, inside, same⟩
    obtain ⟨fetched, own⟩ := List.mem_filter.mp inside
    rwa [← List.inj_on_of_nodup_map r.distinct (List.mem_filter.mp fetched).1 present same]
  · intro own
    have fetched : c ∈ byIds r.candidates (r.vectorIds ++ r.bm25Ids) :=
      List.mem_filter.mpr ⟨present, List.contains_iff_mem.mpr ranked⟩
    exact ⟨c, List.mem_filter.mpr ⟨fetched, own⟩, rfl⟩

/-- Without the floor, a score is at most two first places. -/
theorem Rankings.scoreOf_scores (id : Nat) (ranked : id ∈ r.vectorIds ++ r.bm25Ids) :
    ∃ score ≤ 2 * (1 / ((k : ℚ) + 1)), Dict.get? (r.scores (rationals blend) k) id =
      some (if id ∈ r.pinnedIds then max score 1 else score) := by
  have rankings : ∀ ranking ∈ [r.vectorIds, r.bm25Ids].filter fun ranking => !ranking.isEmpty,
      ranking.Nodup := by
    intro ranking inside
    have member := (List.mem_filter.mp inside).1
    simp only [List.mem_cons, List.not_mem_nil, or_false] at member
    cases member with
    | inl vector => exact vector ▸ r.vectorDistinct
    | inr bm25 => exact bm25 ▸ r.bm25Distinct
  have known : (Dict.get? (r.scores (rationals blend) k) id).isSome :=
    (Dict.isSome_get? _ _).mpr ((r.mem_keys k id).mpr ranked)
  have fused : Dict.get? (r.scores (rationals blend) k) id = _ :=
    get?_rrfFuse blend 1 _ rankings k r.pinnedIds id
  rw [fused] at known ⊢
  refine ⟨reciprocalRanks k ([r.vectorIds, r.bm25Ids].filter fun ranking => !ranking.isEmpty) id,
    ?_, ?_⟩
  · have two : (([r.vectorIds, r.bm25Ids].filter fun ranking => !ranking.isEmpty).length : ℚ) ≤ 2 := by
      exact_mod_cast List.length_filter_le _ [r.vectorIds, r.bm25Ids]
    have place : (0 : ℚ) ≤ 1 / ((k : ℚ) + 1) := by positivity
    exact (reciprocalRanks_le k _ id).trans (mul_le_mul_of_nonneg_right two place)
  · split at known
    · rename_i inside
      rw [if_pos inside]
    · exact absurd known Bool.false_ne_true

/-- The score of a memory is halved at most. -/
theorem Rankings.fused_score (hit : RankedHit ℚ) (inside : hit ∈ r.fused (rationals blend) k) :
    hit.toCandidate ∈ r.candidates ∧ ∃ score ≤ 2 * (1 / ((k : ℚ) + 1)),
      hit.score = (if hit.pinned then max score 1 else score) * (1 / 2 + 1 / 2 * hit.decayScore) := by
  rw [fused, hitsOf, List.mem_filterMap] at inside
  obtain ⟨id, ordered, made⟩ := inside
  obtain ⟨c, present, own, found⟩ := r.find_known k id ordered
  have ranked := (r.mem_keys k id).mp ((r.orderedIds_perm k).mem_iff.mp ordered)
  obtain ⟨score, small, value⟩ := r.scoreOf_scores blend k id ranked
  rw [found, Option.map_some, Option.some.injEq] at made
  subst own
  simp only [r.mem_pinnedIds c present ranked] at value
  refine ⟨made ▸ present, score, small, ?_⟩
  rw [← made]
  show (Option.getD _ _) * _ = _
  rw [value]
  rfl

variable {r k}

/-- Such a pinned memory scores higher than the others. -/
theorem Rankings.pinned_score (large : 4 ≤ k)
    (decays : ∀ c ∈ r.candidates, 0 ≤ c.decayScore ∧ c.decayScore ≤ 1) (hit : RankedHit ℚ)
    (inside : hit ∈ r.fused (rationals blend) k) :
    if hit.pinned then 1 / 2 ≤ hit.score else hit.score ≤ 2 / 5 := by
  obtain ⟨present, score, small, value⟩ := r.fused_score blend k hit inside
  obtain ⟨low, high⟩ := decays _ present
  split
  · rename_i own
    rw [if_pos own] at value
    rw [value]
    nlinarith [le_max_right score 1]
  · rename_i plain
    rw [if_neg plain] at value
    have place : 1 / ((k : ℚ) + 1) ≤ 1 / 5 := by
      have large : (4 : ℚ) ≤ k := by exact_mod_cast large
      apply one_div_le_one_div_of_le
      · norm_num
      · linarith
    rw [value]
    nlinarith

theorem Rankings.mem_fused_of_search (limit : Nat) (hit : RankedHit ℚ)
    (inside : hit ∈ r.search (rationals blend) k limit) : hit ∈ r.fused (rationals blend) k := by
  rw [r.search_eq] at inside
  exact List.mem_of_mem_take ((List.mem_insertionSort _).mp (List.mem_of_mem_take inside))

/-- A search has its pinned memories in front. -/
theorem Rankings.search_pinnedFirst (large : 4 ≤ k)
    (decays : ∀ c ∈ r.candidates, 0 ≤ c.decayScore ∧ c.decayScore ≤ 1) (limit : Nat) :
    PinnedFirst (fun hit => hit.pinned) (r.search (rationals blend) k limit) := by
  have sorted : (r.search (rationals blend) k limit).Pairwise
      (bestFirst (rationals blend) RankedHit.score) := by
    rw [r.search_eq]
    exact (List.pairwise_insertionSort _ _).sublist (List.take_sublist _ _)
  apply sorted.imp_of_mem
  intro a b inside other below own
  have high := r.pinned_score blend large decays b (r.mem_fused_of_search blend limit b other)
  have low := r.pinned_score blend large decays a (r.mem_fused_of_search blend limit a inside)
  rw [bestFirst_iff] at below
  rw [if_pos own] at high
  by_contra plain
  rw [if_neg plain] at low
  linarith

end Search

/-! The hits of the pipeline. -/

section Pipeline

variable (budget : TokenBudget) (scored : List (RankedHit ℚ × ℚ))

/-- The budget has room for all hits. -/
def FitsAll : Prop := (scored.map fun x => tokensOf budget x.1.text).sum ≤ budget.maxTokens

/-- This is the distance between the least and the greatest of some scores. -/
def spanOf (score : RankedHit ℚ × ℚ → ℚ) : ℚ :=
  match scored with
  | [] => 0
  | first :: rest => greatest (rationals blend) (score first) (rest.map score) -
      least (rationals blend) (score first) (rest.map score)

/-- The scores of the search outweigh those of the reranker for a pinned and another hit. -/
def Outweighs (p u : RankedHit ℚ × ℚ) : Prop :=
  blend * ((u.2 - p.2) / if spanOf blend scored Prod.snd = 0 then 1 else spanOf blend scored Prod.snd) ≤
    (1 - blend) * ((p.1.score - u.1.score) /
      max (1 / 1000000000) (spanOf blend scored fun x => x.1.score))

variable {budget scored}

/-- The difference of two final scores has the differences of the scores. -/
theorem finalScore_le_iff (p u : RankedHit ℚ × ℚ) (inside : p ∈ scored) :
    (blended (rationals blend) scored u).finalScore ≤ (blended (rationals blend) scored p).finalScore ↔
      Outweighs blend scored p u := by
  cases scored with
  | nil => exact absurd inside List.not_mem_nil
  | cons first rest =>
      rw [Outweighs, spanOf, spanOf]
      simp only [blended, spread, rationals, exactBlend]
      simp only [sub_div]
      constructor
      · intro below
        linarith
      · intro below
        linarith

/-- With room for all hits, the pipeline returns all of them, the best ones first. -/
theorem rerankAndPack_of_fits (fits : FitsAll budget scored) :
    (rerankAndPack (rationals blend) scored budget).1 = rerank (rationals blend) scored := by
  have texts : ((itemsOf (rationals blend) scored).map Item.text).Perm (scored.map fun x => x.1.text) := by
    have same := ((List.perm_insertionSort (bestFirst (rationals blend) BlendedHit.finalScore)
      (scored.map (blended (rationals blend) scored))).map fun b => b.hit.text)
    rw [List.map_map] at same
    have places : (itemsOf (rationals blend) scored).map Item.text =
        (rerank (rationals blend) scored).map fun b => b.hit.text := by
      rw [itemsOf_eq, List.map_map]
      calc (rerank (rationals blend) scored).zipIdx.map (fun entry => entry.1.hit.text)
          = ((rerank (rationals blend) scored).zipIdx.map Prod.fst).map fun b => b.hit.text := by
            rw [List.map_map]
            rfl
        _ = (rerank (rationals blend) scored).map fun b => b.hit.text := by rw [List.zipIdx_map_fst]
    rw [places]
    exact same
  have all : kept (rationals blend) budget scored =
      (itemsOf (rationals blend) scored).insertionSort (bestFirst (rationals blend) Item.score) := by
    apply keptOf_of_fits
    have items := (List.perm_insertionSort (bestFirst (rationals blend) Item.score)
      (itemsOf (rationals blend) scored)).map Item.text
    have sums := ((items.trans texts).map (tokensOf budget)).sum_eq
    rw [List.map_map, List.map_map] at sums
    rw [Nat.zero_add, tokensOfAll]
    exact sums.trans_le fits
  have whole : ((rerank (rationals blend) scored).zipIdx.filter fun entry =>
      ((kept (rationals blend) budget scored).map Item.id).contains entry.2) =
        (rerank (rationals blend) scored).zipIdx := by
    rw [List.filter_eq_self]
    intro entry inside
    rw [List.contains_iff_mem, all, List.mem_map]
    refine ⟨⟨entry.2, entry.1.hit.text, entry.1.finalScore⟩, ?_, rfl⟩
    rw [List.mem_insertionSort, itemsOf_eq]
    exact List.mem_map_of_mem inside
  have packed : (rerankAndPack (rationals blend) scored budget).1 =
      (((rerank (rationals blend) scored).zipIdx.filter fun entry =>
        ((kept (rationals blend) budget scored).map Item.id).contains entry.2).map Prod.fst).insertionSort
          (bestFirst (rationals blend) BlendedHit.finalScore) := by
    rw [← ids_fit]
    rfl
  rw [packed, whole, List.zipIdx_map_fst]
  exact (List.pairwise_insertionSort _ _).insertionSort_eq

/-- The pipeline keeps the pinned hits in front exactly when the scores of the search outweigh those of
the reranker. -/
theorem rerankAndPack_pinnedFirst_iff (first : PinnedFirst (fun x => x.1.pinned) scored)
    (fits : FitsAll budget scored) :
    PinnedFirst (fun b => b.hit.pinned) (rerankAndPack (rationals blend) scored budget).1 ↔
      ∀ p ∈ scored, ∀ u ∈ scored, p.1.pinned = true → u.1.pinned = false →
        Outweighs blend scored p u := by
  have front : PinnedFirst (fun b => b.hit.pinned) (scored.map (blended (rationals blend) scored)) :=
    (pinnedFirst_map _ _ _).mpr first
  rw [rerankAndPack_of_fits blend fits, rerank, pinnedFirst_sort_iff blend _ _ _ front,
    List.forall_mem_map]
  simp only [List.forall_mem_map]
  constructor
  · intro higher p inside u other own plain
    exact (finalScore_le_iff blend p u inside).mp (higher p inside u other own plain)
  · intro outweighs p inside u other own plain
    exact (finalScore_le_iff blend p u inside).mpr (outweighs p inside u other own plain)

end Pipeline

/-- A search has its pinned memories in front; the pipeline keeps them there exactly when the scores of
the search outweigh those of the reranker for each pinned memory and each other one. -/
theorem pinned_first_iff (r : Rankings ℚ) (k : Nat) (large : 4 ≤ k)
    (decays : ∀ c ∈ r.candidates, 0 ≤ c.decayScore ∧ c.decayScore ≤ 1) (limit : Nat) :
    PinnedFirst (fun hit => hit.pinned) (r.search rationals k limit) ∧
      ∀ (blend : ℚ) (scored : List (RankedHit ℚ × ℚ)) (budget : TokenBudget),
        scored.map Prod.fst = r.search rationals k limit → FitsAll budget scored →
          (PinnedFirst (fun b => b.hit.pinned) (rerankAndPack (rationals blend) scored budget).1 ↔
            ∀ p ∈ scored, ∀ u ∈ scored, p.1.pinned = true → u.1.pinned = false →
              Outweighs blend scored p u) := by
  have first := r.search_pinnedFirst (7 / 10) large decays limit
  refine ⟨first, ?_⟩
  intro blend scored budget hits fits
  apply rerankAndPack_pinnedFirst_iff blend _ fits
  rw [← hits] at first
  exact (pinnedFirst_map Prod.fst _ scored).mp first

theorem twoIds_distinct : [1, 2].Nodup := by decide

theorem plainFirst_distinct : [2, 1].Nodup := by decide

theorem plainFirst_known : ∀ id ∈ [2, 1] ++ [], id ∈ [1, 2] := by decide

/-- These are a pinned memory and another one, which nothing has decayed. -/
def pinnedAndPlain : Rankings ℚ where
  candidates := [⟨1, [], [], true, 1⟩, ⟨2, [], [], false, 1⟩]
  distinct := twoIds_distinct
  vectorIds := [2, 1]
  bm25Ids := []
  vectorDistinct := plainFirst_distinct
  bm25Distinct := List.nodup_nil
  known := plainFirst_known

/-- The reranker scores the other memory higher, which puts it in front. -/
theorem plain_before_pinned :
    ¬ ∀ (r : Rankings ℚ) (k : Nat) (limit : Nat) (scored : List (RankedHit ℚ × ℚ))
      (budget : TokenBudget), 4 ≤ k → (∀ c ∈ r.candidates, 0 ≤ c.decayScore ∧ c.decayScore ≤ 1) →
        scored.map Prod.fst = r.search rationals k limit → FitsAll budget scored →
          PinnedFirst (fun b => b.hit.pinned) (rerankAndPack rationals scored budget).1 := by
  intro claim
  have front := claim pinnedAndPlain 60 2 ((pinnedAndPlain.search rationals 60 2).zip [0, 1])
    ⟨1000, 800⟩ (by decide) (by decide +kernel) (List.map_fst_zip (by decide +kernel))
    (by unfold FitsAll; decide +kernel)
  exact absurd front (by decide +kernel)

/-- With equal scores of the reranker, the pinned memory stays in front. -/
theorem pinned_first_equal_scores : PinnedFirst (fun b => b.hit.pinned) (rerankAndPack rationals
    ((pinnedAndPlain.search rationals 60 2).zip [1, 1]) ⟨1000, 800⟩).1 := by
  have kept := (pinned_first_iff pinnedAndPlain 60 (by decide) (by decide +kernel) 2).2 (7 / 10)
    ((pinnedAndPlain.search rationals 60 2).zip [1, 1]) ⟨1000, 800⟩
    (List.map_fst_zip (by decide +kernel)) (by unfold FitsAll; decide +kernel)
  exact kept.mpr (by unfold Outweighs; decide +kernel)

end Kortex.Ranking
