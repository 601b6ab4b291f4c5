import Kortex.Proof.Ranking

/-
This file proves when the search returns the candidates with the best scores, and the laws of the fused scores
over the rationals.
-/

namespace Kortex.Ranking

/-- Two rankings rank rows of one table, each row once at most. -/
structure Rankings (S : Type) where
  candidates : List (Candidate S)
  distinct : (candidates.map Candidate.memoryId).Nodup
  vectorIds : List Nat
  bm25Ids : List Nat
  vectorDistinct : vectorIds.Nodup
  bm25Distinct : bm25Ids.Nodup
  known : ∀ id ∈ vectorIds ++ bm25Ids, id ∈ candidates.map Candidate.memoryId

variable {S : Type} (numbers : Numbers S)

namespace Rankings

variable (r : Rankings S) (k : Nat)

def scores : Dict Nat S := fusedScores numbers r.candidates k r.vectorIds r.bm25Ids

/-- These are all fused candidates with their final scores, in the order of their fused scores. -/
def fused : List (RankedHit S) :=
  hitsOf numbers r.candidates (r.scores numbers k) (orderedIds numbers (r.scores numbers k))

/-- This is what the search returns. -/
def search (limit : Nat) : List (RankedHit S) :=
  hybridSearch numbers r.candidates k r.vectorIds r.bm25Ids limit

end Rankings

variable {numbers}

/-! The keys of the fused scores. -/

theorem nodup_addRanks (k : Nat) (entries : List (Nat × Nat)) (scores : Dict Nat S)
    (distinct : (scores.map Prod.fst).Nodup) :
    ((entries.foldl (addRank numbers k) scores).map Prod.fst).Nodup := by
  induction entries generalizing scores with
  | nil => exact distinct
  | cons entry rest ih => exact ih _ (Dict.nodup_set _ _ _ distinct)

theorem mem_addRanks (k : Nat) (entries : List (Nat × Nat)) (scores : Dict Nat S) (id : Nat) :
    id ∈ (entries.foldl (addRank numbers k) scores).map Prod.fst ↔
      id ∈ entries.map Prod.fst ∨ id ∈ scores.map Prod.fst := by
  induction entries generalizing scores with
  | nil => simp
  | cons entry rest ih =>
      rw [List.foldl_cons, ih, addRank, Dict.mem_keys_set, List.map_cons, List.mem_cons, ← or_assoc,
        or_comm (a := id ∈ rest.map Prod.fst)]

theorem keys_raiseToFloor (scores : Dict Nat S) (memoryId : Nat) :
    (raiseToFloor numbers scores memoryId).map Prod.fst = scores.map Prod.fst := by
  rw [raiseToFloor]
  cases found : Dict.get? scores memoryId with
  | none => rfl
  | some score =>
      simp only
      generalize (if numbers.less score numbers.floor = true then numbers.floor else score) = raised
      induction scores with
      | nil => exact absurd found (by simp [Dict.get?])
      | cons pair rest ih =>
          obtain ⟨id, value⟩ := pair
          by_cases own : id = memoryId
          · simp [Dict.set, own]
          · rw [Dict.get?, if_neg own] at found
            simp [Dict.set, own, ih found]

theorem keys_raiseAll (pinned : List Nat) (scores : Dict Nat S) :
    (pinned.foldl (raiseToFloor numbers) scores).map Prod.fst = scores.map Prod.fst := by
  induction pinned generalizing scores with
  | nil => rfl
  | cons memoryId rest ih => rw [List.foldl_cons, ih, keys_raiseToFloor]

theorem nodup_rankings (k : Nat) (rankings : List (List Nat)) (scores : Dict Nat S)
    (distinct : (scores.map Prod.fst).Nodup) :
    ((rankings.foldl (fun scores ranking => (ranking.zipIdx 1).foldl (addRank numbers k) scores)
      scores).map Prod.fst).Nodup := by
  induction rankings generalizing scores with
  | nil => exact distinct
  | cons ranking rest ih => exact ih _ (nodup_addRanks k _ _ distinct)

theorem mem_rankings (k : Nat) (rankings : List (List Nat)) (scores : Dict Nat S) (id : Nat) :
    id ∈ (rankings.foldl (fun scores ranking => (ranking.zipIdx 1).foldl (addRank numbers k) scores)
      scores).map Prod.fst ↔ (∃ ranking ∈ rankings, id ∈ ranking) ∨ id ∈ scores.map Prod.fst := by
  induction rankings generalizing scores with
  | nil => simp
  | cons ranking rest ih =>
      rw [List.foldl_cons, ih, mem_addRanks, List.zipIdx_map_fst, List.exists_mem_cons_iff, ← or_assoc,
        or_comm (a := id ∈ ranking)]

variable (r : Rankings S) (k : Nat)

theorem Rankings.keys_nodup : ((r.scores numbers k).map Prod.fst).Nodup := by
  rw [scores, fusedScores, rrfFuse, keys_raiseAll]
  exact nodup_rankings k _ _ List.nodup_nil

/-- The fused ids are those of the two rankings. -/
theorem Rankings.mem_keys (id : Nat) :
    id ∈ (r.scores numbers k).map Prod.fst ↔ id ∈ r.vectorIds ++ r.bm25Ids := by
  rw [scores, fusedScores, rrfFuse, keys_raiseAll, mem_rankings, List.mem_append]
  simp only [List.map_nil, List.not_mem_nil, or_false]
  constructor
  · rintro ⟨ranking, ranked, inside⟩
    have member := (List.mem_filter.mp ranked).1
    simp only [List.mem_cons, List.not_mem_nil, or_false] at member
    rcases member with rfl | rfl
    · exact Or.inl inside
    · exact Or.inr inside
  · intro inside
    have nonempty (ranking : List Nat) (own : id ∈ ranking) : (!ranking.isEmpty) = true := by
      cases ranking with
      | nil => exact absurd own List.not_mem_nil
      | cons first rest => rfl
    rcases inside with own | own
    · exact ⟨r.vectorIds, List.mem_filter.mpr ⟨List.mem_cons_self, nonempty _ own⟩, own⟩
    · exact ⟨r.bm25Ids, List.mem_filter.mpr ⟨by simp, nonempty _ own⟩, own⟩

theorem Rankings.orderedIds_perm :
    (orderedIds numbers (r.scores numbers k)).Perm ((r.scores numbers k).map Prod.fst) :=
  (List.perm_insertionSort _ _).map _

theorem Rankings.orderedIds_nodup : (orderedIds numbers (r.scores numbers k)).Nodup :=
  (r.orderedIds_perm k).nodup_iff.mpr (r.keys_nodup k)

theorem Rankings.find_known (id : Nat) (ranked : id ∈ orderedIds numbers (r.scores numbers k)) :
    ∃ c ∈ r.candidates, c.memoryId = id ∧
      (r.candidates.find? fun c => c.memoryId == id) = some c := by
  have known := r.known id ((r.mem_keys k id).mp ((r.orderedIds_perm k).mem_iff.mp ranked))
  obtain ⟨c, present, same⟩ := List.mem_map.mp known
  cases found : r.candidates.find? fun c => c.memoryId == id with
  | none => exact absurd (List.find?_eq_none.mp found c present) (by simp [same])
  | some c' => exact ⟨c', List.mem_of_find?_eq_some found, by simpa using List.find?_some found, rfl⟩

/-! The cut of the search. -/

theorem find?_byIds (candidates : List (Candidate S)) (ids : List Nat) (id : Nat) :
    ((byIds candidates ids).find? fun c => c.memoryId == id) =
      if id ∈ ids then candidates.find? fun c => c.memoryId == id else none := by
  rw [byIds, List.find?_filter]
  split
  · rename_i inside
    congr 1
    funext c
    by_cases own : c.memoryId = id
    · simp [own, inside]
    · simp [own]
  · rename_i outside
    rw [List.find?_eq_none]
    intro c _
    by_cases own : c.memoryId = id
    · simp [own, outside]
    · simp [own]

variable (numbers) in
/-- The rows of some ids give the hits of these ids. -/
theorem hitsOf_byIds (candidates : List (Candidate S)) (scores : Dict Nat S) (front back : List Nat)
    (distinct : (front ++ back).Nodup) :
    hitsOf numbers (byIds candidates front) scores (front ++ back) =
      hitsOf numbers candidates scores front := by
  have apart := (List.nodup_append.mp distinct).2.2
  rw [hitsOf, List.filterMap_append]
  have none : (back.filterMap fun memoryId => ((byIds candidates front).find?
      fun c => c.memoryId == memoryId).map (hitOf numbers scores)) = [] := by
    rw [List.filterMap_eq_nil_iff]
    intro id behind
    rw [find?_byIds, if_neg fun ahead => apart id ahead id behind rfl]
    rfl
  rw [none, List.append_nil, hitsOf]
  apply List.filterMap_congr
  intro id ahead
  rw [find?_byIds, if_pos ahead]

theorem length_hitsOf (scores : Dict Nat S) (ids : List Nat)
    (ranked : ∀ id ∈ ids, id ∈ orderedIds numbers (r.scores numbers k)) :
    (hitsOf numbers r.candidates scores ids).length = ids.length := by
  induction ids with
  | nil => rfl
  | cons id rest ih =>
      obtain ⟨c, _, _, found⟩ := r.find_known k id (ranked id List.mem_cons_self)
      rw [hitsOf, List.filterMap_cons, found, Option.map_some, List.length_cons, List.length_cons]
      exact congrArg (· + 1) (ih fun other later => ranked other (List.mem_cons_of_mem _ later))

/-- The search sorts the first candidates by their final scores. -/
theorem Rankings.search_eq (limit : Nat) : r.search numbers k limit =
    (((r.fused numbers k).take (limit * 2)).insertionSort
      (bestFirst numbers RankedHit.score)).take limit := by
  have whole : max (limit * 2) limit = limit * 2 := by omega
  have split := List.take_append_drop (limit * 2) (orderedIds numbers (r.scores numbers k))
  have hits : hitsOf numbers (byIds r.candidates
      ((orderedIds numbers (r.scores numbers k)).take (limit * 2))) (r.scores numbers k)
        (orderedIds numbers (r.scores numbers k)) = (r.fused numbers k).take (limit * 2) := by
    have distinct : (orderedIds numbers (r.scores numbers k)).Nodup := r.orderedIds_nodup k
    rw [← split] at distinct
    have front := hitsOf_byIds numbers r.candidates (r.scores numbers k) _ _ distinct
    rw [split] at front
    rw [front, fused]
    have parts : hitsOf numbers r.candidates (r.scores numbers k)
        (orderedIds numbers (r.scores numbers k)) =
          hitsOf numbers r.candidates (r.scores numbers k)
            ((orderedIds numbers (r.scores numbers k)).take (limit * 2)) ++
          hitsOf numbers r.candidates (r.scores numbers k)
            ((orderedIds numbers (r.scores numbers k)).drop (limit * 2)) := by
      rw [hitsOf, hitsOf, hitsOf, ← List.filterMap_append, split]
    have lengthFront := length_hitsOf r k (r.scores numbers k)
      ((orderedIds numbers (r.scores numbers k)).take (limit * 2))
      fun id inside => List.mem_of_mem_take inside
    rw [parts]
    by_cases long : limit * 2 ≤ (orderedIds numbers (r.scores numbers k)).length
    · rw [List.take_left' (by rw [lengthFront, List.length_take]; omega)]
    · rw [List.drop_eq_nil_of_le (by omega), hitsOf, hitsOf, List.filterMap_nil, List.append_nil]
      apply (List.take_of_length_le _).symm
      rw [hitsOf] at lengthFront
      rw [lengthFront]
      exact List.length_take_le _ _
  show ((hitsOf numbers (byIds r.candidates ((orderedIds numbers (r.scores numbers k)).take
    (max (limit * 2) limit))) (r.scores numbers k) (orderedIds numbers (r.scores numbers k))).insertionSort
      (bestFirst numbers RankedHit.score)).take limit = _
  rw [whole, hits]

/-! The rationals. -/

variable (blend : ℚ)

instance {A : Type} (score : A → ℚ) : Std.Total (bestFirst (rationals blend) score) where
  total a b := by
    simp only [bestFirst, rationals, decide_eq_false_iff_not, not_lt]
    exact le_total (score b) (score a)

instance {A : Type} (score : A → ℚ) : IsTrans A (bestFirst (rationals blend) score) where
  trans a b c := by
    simp only [bestFirst, rationals, decide_eq_false_iff_not, not_lt]
    exact fun first second => le_trans second first

/-- Enough of the first candidates score as high as each candidate that is cut off. -/
def Rankings.CutsNoBest (r : Rankings ℚ) (k limit : Nat) : Prop :=
  ∀ c ∈ (r.fused rationals k).drop (limit * 2),
    limit ≤ ((r.fused rationals k).take (limit * 2)).countP fun a => decide (c.score ≤ a.score)

/-- The search returns the candidates with the best final scores exactly when, of the candidates in
front of the cut, enough score as high as each one behind it. -/
theorem search_isFront_iff (r : Rankings ℚ) (k limit : Nat) :
    Cut.IsFront (bestFirst rationals RankedHit.score) (r.search rationals k limit)
      (r.fused rationals k) limit ↔ r.CutsNoBest k limit := by
  rw [r.search_eq, Cut.isFront_iff _ _ _ (by omega), Cut.Suffices, Rankings.CutsNoBest]
  have same (c : RankedHit ℚ) : (fun a => decide (bestFirst rationals RankedHit.score a c)) =
      fun a => decide (c.score ≤ a.score) := by
    funext a
    simp [bestFirst, rationals]
  simp only [same]

/-- These are three memories in one ranking, of which only the last one has not decayed. -/
def decayed : Rankings ℚ where
  candidates := [⟨1, [], [], false, 0⟩, ⟨2, [], [], false, 0⟩, ⟨3, [], [], false, 1⟩]
  distinct := by decide
  vectorIds := [1, 2, 3]
  bm25Ids := []
  vectorDistinct := by decide
  bm25Distinct := by decide
  known := by decide

/-- The third memory scores best, but is not among the two that are fetched. -/
theorem decayed_search_misses_best :
    ¬ ∀ (r : Rankings ℚ) (k limit : Nat),
      (∀ c ∈ r.candidates, 0 ≤ c.decayScore ∧ c.decayScore ≤ 1) → 1 ≤ limit →
        Cut.IsFront (bestFirst rationals RankedHit.score) (r.search rationals k limit)
          (r.fused rationals k) limit := by
  intro claim
  have front := claim decayed 60 1 (by decide +kernel) (by decide)
  rw [Rankings.search_eq, Cut.isFront_iff _ _ _ (by decide)] at front
  unfold Cut.Suffices at front
  exact absurd front (by decide +kernel)

end Kortex.Ranking

namespace Kortex.Ranking

/-- These are the rationals with a floor for the pinned memories. -/
def floored (blend floor : ℚ) : Numbers ℚ := { rationals blend with floor := floor }

/-- The best id of a ranking has the rank one. -/
def rankIn (ranking : List Nat) (id : Nat) : Nat := ranking.idxOf id + 1

/-- This is what a ranking adds to the score of an id. -/
def share (k id : Nat) (ranking : List Nat) : ℚ :=
  if id ∈ ranking then 1 / ((k : ℚ) + rankIn ranking id) else 0

/-- This is the sum over the rankings that contain the id. -/
def reciprocalRanks (k : Nat) (rankings : List (List Nat)) (id : Nat) : ℚ :=
  ((rankings.filter fun ranking => id ∈ ranking).map fun ranking =>
    1 / ((k : ℚ) + rankIn ranking id)).sum

theorem reciprocalRanks_eq (k : Nat) (rankings : List (List Nat)) (id : Nat) :
    reciprocalRanks k rankings id = (rankings.map (share k id)).sum := by
  induction rankings with
  | nil => rfl
  | cons ranking rest ih =>
      rw [reciprocalRanks] at ih ⊢
      rw [List.map_cons, List.sum_cons, share, ← ih]
      by_cases inside : id ∈ ranking
      · have kept : (decide (id ∈ ranking)) = true := decide_eq_true inside
        rw [if_pos inside, List.filter_cons, if_pos kept, List.map_cons, List.sum_cons]
      · rw [if_neg inside, List.filter_cons_of_neg (by simpa using inside), zero_add]

theorem share_le (k id : Nat) (ranking : List Nat) : share k id ranking ≤ 1 / ((k : ℚ) + 1) := by
  rw [share]
  split
  · apply one_div_le_one_div_of_le
    · positivity
    · rw [rankIn, Nat.cast_succ]
      have place : (0 : ℚ) ≤ ranking.idxOf id := Nat.cast_nonneg _
      linarith
  · positivity

/-- The score is at most one first place for each ranking. -/
theorem reciprocalRanks_le (k : Nat) (rankings : List (List Nat)) (id : Nat) :
    reciprocalRanks k rankings id ≤ rankings.length * (1 / ((k : ℚ) + 1)) := by
  rw [reciprocalRanks_eq]
  have bound := List.sum_le_card_nsmul (rankings.map (share k id)) (1 / ((k : ℚ) + 1)) (by
    intro x inside
    obtain ⟨ranking, _, rfl⟩ := List.mem_map.mp inside
    exact share_le k id ranking)
  simpa only [List.length_map, nsmul_eq_mul] using bound

variable (blend floor : ℚ)

/-- The rounds of the inner loop give one share to each id of the ranking. -/
theorem get?_addRanks (k n : Nat) (ranking : List Nat) (distinct : ranking.Nodup)
    (scores : Dict Nat ℚ) (id : Nat) :
    Dict.get? ((ranking.zipIdx n).foldl (addRank (floored blend floor) k) scores) id =
      if id ∈ ranking then
        some ((Dict.get? scores id).getD 0 + 1 / ((k : ℚ) + (n + ranking.idxOf id : Nat)))
      else Dict.get? scores id := by
  induction ranking generalizing n scores with
  | nil => rfl
  | cons first rest ih =>
      obtain ⟨fresh, distinct⟩ := List.nodup_cons.mp distinct
      rw [List.zipIdx_cons, List.foldl_cons, ih (n + 1) distinct, addRank, Dict.get?_set]
      by_cases own : first = id
      · subst own
        rw [if_neg fresh, if_pos rfl, if_pos List.mem_cons_self, List.idxOf_cons_self]
        simp [floored, rationals]
      · rw [if_neg own, List.idxOf_cons_ne rest own, Nat.add_right_comm, Nat.add_assoc]
        simp only [List.mem_cons, Ne.symm own, false_or]

/-- The rounds of the outer loop add up the shares. -/
theorem get?_addRankings (k : Nat) (rankings : List (List Nat))
    (distinct : ∀ ranking ∈ rankings, ranking.Nodup) (scores : Dict Nat ℚ) (id : Nat) :
    Dict.get? (rankings.foldl (fun scores ranking =>
      (ranking.zipIdx 1).foldl (addRank (floored blend floor) k) scores) scores) id =
      if ∃ ranking ∈ rankings, id ∈ ranking then
        some ((Dict.get? scores id).getD 0 + (rankings.map (share k id)).sum)
      else Dict.get? scores id := by
  induction rankings generalizing scores with
  | nil => simp
  | cons ranking rest ih =>
      rw [List.forall_mem_cons] at distinct
      rw [List.foldl_cons, ih distinct.2, get?_addRanks blend floor k 1 ranking distinct.1,
        List.map_cons, List.sum_cons, share, rankIn, Nat.add_comm 1]
      simp only [List.exists_mem_cons_iff]
      by_cases inside : id ∈ ranking
      · by_cases later : ∃ ranking ∈ rest, id ∈ ranking
        · simp only [inside, later, true_or, if_true, Option.getD_some, add_assoc]
        · have none : (rest.map (share k id)).sum = 0 := by
            apply List.sum_eq_zero
            intro x present
            obtain ⟨other, member, rfl⟩ := List.mem_map.mp present
            rw [share, if_neg fun inside => later ⟨other, member, inside⟩]
          simp only [inside, later, true_or, if_true, if_false, none, add_zero]
      · simp only [inside, false_or, if_false, zero_add]

/-- A pinned memory that is ranked has at least the floor, and the others keep their scores. -/
theorem get?_raiseToFloor (pinned : List Nat) (scores : Dict Nat ℚ) (id : Nat) :
    Dict.get? (pinned.foldl (raiseToFloor (floored blend floor)) scores) id =
      (Dict.get? scores id).map fun score => if id ∈ pinned then max score floor else score := by
  induction pinned generalizing scores with
  | nil => simp
  | cons first rest ih =>
      have raised : Dict.get? (raiseToFloor (floored blend floor) scores first) id =
          (Dict.get? scores id).map fun score => if id = first then max score floor else score := by
        rw [raiseToFloor]
        by_cases same : id = first
        · subst same
          cases found : Dict.get? scores id with
          | none => simp [found]
          | some score =>
              simp only [Dict.get?_set, if_pos, Option.map_some, floored, rationals]
              by_cases low : score < floor
              · simp [low, max_eq_right (le_of_lt low)]
              · simp [low, max_eq_left (not_lt.mp low)]
        · simp only [if_neg same, Option.map_id']
          split
          · rw [Dict.get?_set, if_neg (Ne.symm same)]
          · rfl
      rw [List.foldl_cons, ih, raised, Option.map_map]
      congr 1
      funext score
      by_cases same : id = first
      · simp [same]
      · simp [same]

/-- A fused id has the sum of its shares as its score, which the floor raises if it is pinned. -/
theorem get?_rrfFuse (rankings : List (List Nat)) (distinct : ∀ ranking ∈ rankings, ranking.Nodup)
    (k : Nat) (pinned : List Nat) (id : Nat) :
    Dict.get? (rrfFuse (floored blend floor) rankings k pinned) id =
      if ∃ ranking ∈ rankings, id ∈ ranking then
        some (if id ∈ pinned then max (reciprocalRanks k rankings id) floor
          else reciprocalRanks k rankings id)
      else none := by
  rw [rrfFuse, get?_raiseToFloor, get?_addRankings blend floor k rankings distinct,
    reciprocalRanks_eq]
  by_cases ranked : ∃ ranking ∈ rankings, id ∈ ranking
  · simp only [if_pos ranked, Dict.get?, Option.getD_none, zero_add, Option.map_some]
  · simp only [if_neg ranked, Dict.get?, Option.map_none]

/-! The laws of the scores. -/

/-- The rank of the first id is no worse wherever the second one is ranked. -/
def NoWorse (rankings : List (List Nat)) (a b : Nat) : Prop :=
  ∀ ranking ∈ rankings, b ∈ ranking → a ∈ ranking ∧ rankIn ranking a ≤ rankIn ranking b

/-- Some ranking puts the first id before the second one, or has only the first one. -/
def BetterInOne (rankings : List (List Nat)) (a b : Nat) : Prop :=
  ∃ ranking ∈ rankings, a ∈ ranking ∧ (b ∈ ranking → rankIn ranking a < rankIn ranking b)

theorem share_le_share (k a b : Nat) (ranking : List Nat)
    (worse : b ∈ ranking → a ∈ ranking ∧ rankIn ranking a ≤ rankIn ranking b) :
    share k b ranking ≤ share k a ranking := by
  rw [share, share]
  by_cases inside : b ∈ ranking
  · obtain ⟨other, rank⟩ := worse inside
    rw [if_pos inside, if_pos other]
    apply one_div_le_one_div_of_le
    · rw [rankIn, Nat.cast_succ]
      positivity
    · exact_mod_cast Nat.add_le_add_left rank k
  · rw [if_neg inside]
    split
    · positivity
    · exact le_rfl

theorem share_lt_share_iff (k a b : Nat) (ranking : List Nat) :
    share k b ranking < share k a ranking ↔
      a ∈ ranking ∧ (b ∈ ranking → rankIn ranking a < rankIn ranking b) := by
  have positive (id : Nat) : 0 < (k : ℚ) + rankIn ranking id := by
    rw [rankIn, Nat.cast_succ]
    positivity
  rw [share, share]
  by_cases own : a ∈ ranking
  · by_cases other : b ∈ ranking
    · rw [if_pos own, if_pos other, one_div_lt_one_div (positive b) (positive a), add_lt_add_iff_left,
        Nat.cast_lt]
      simp only [own, other, true_and, true_implies]
    · rw [if_pos own, if_neg other]
      exact iff_of_true (one_div_pos.mpr (positive a)) ⟨own, fun inside => absurd inside other⟩
  · rw [if_neg own]
    refine iff_of_false (not_lt.mpr ?_) fun both => own both.1
    split
    · exact (one_div_pos.mpr (positive b)).le
    · exact le_rfl

/-- An id that is no worse everywhere has at least the score, and a higher one exactly when it is better
in one ranking. -/
theorem reciprocalRanks_dominates (k : Nat) (rankings : List (List Nat)) (a b : Nat)
    (worse : NoWorse rankings a b) :
    reciprocalRanks k rankings b ≤ reciprocalRanks k rankings a ∧
      (reciprocalRanks k rankings b < reciprocalRanks k rankings a ↔ BetterInOne rankings a b) := by
  have each (ranking : List Nat) (inside : ranking ∈ rankings) :=
    share_le_share k a b ranking (worse ranking inside)
  rw [reciprocalRanks_eq, reciprocalRanks_eq]
  refine ⟨List.sum_le_sum each, ?_⟩
  constructor
  · intro higher
    by_contra none
    refine absurd higher (not_lt.mpr (List.sum_le_sum fun ranking inside => not_lt.mp fun less => ?_))
    exact none ⟨ranking, inside, (share_lt_share_iff k a b ranking).mp less⟩
  · rintro ⟨ranking, inside, better⟩
    exact List.sum_lt_sum _ _ each ⟨ranking, inside, (share_lt_share_iff k a b ranking).mpr better⟩

/-- These are the laws of reciprocal rank fusion. -/
structure Fuses (blend floor : ℚ) (rankings : List (List Nat)) (k : Nat) : Prop where
  distinct : ((rrfFuse (floored blend floor) rankings k []).map Prod.fst).Nodup
  scores : ∀ id, Dict.get? (rrfFuse (floored blend floor) rankings k []) id =
    if ∃ ranking ∈ rankings, id ∈ ranking then some (reciprocalRanks k rankings id) else none
  permuted : ∀ rankings' : List (List Nat), rankings'.Perm rankings → ∀ id,
    Dict.get? (rrfFuse (floored blend floor) rankings' k []) id =
      Dict.get? (rrfFuse (floored blend floor) rankings k []) id
  dominates : ∀ a b, NoWorse rankings a b → ∀ lower,
    Dict.get? (rrfFuse (floored blend floor) rankings k []) b = some lower →
      ∃ higher, Dict.get? (rrfFuse (floored blend floor) rankings k []) a = some higher ∧
        lower ≤ higher ∧ (lower < higher ↔ BetterInOne rankings a b)
  unpinned : ∀ (pinned : List Nat) id, id ∉ pinned →
    Dict.get? (rrfFuse (floored blend floor) rankings k pinned) id =
      Dict.get? (rrfFuse (floored blend floor) rankings k []) id
  pinned : ∀ (pinned : List Nat) id, id ∈ pinned →
    Dict.get? (rrfFuse (floored blend floor) rankings k pinned) id =
      (Dict.get? (rrfFuse (floored blend floor) rankings k []) id).map fun score => max score floor

theorem reciprocalRanks_perm (k : Nat) (rankings rankings' : List (List Nat))
    (same : rankings'.Perm rankings) (id : Nat) :
    reciprocalRanks k rankings' id = reciprocalRanks k rankings id :=
  ((same.filter _).map _).sum_eq

theorem rrfFuse_fuses (rankings : List (List Nat)) (distinct : ∀ ranking ∈ rankings, ranking.Nodup)
    (k : Nat) : Fuses blend floor rankings k where
  distinct := nodup_rankings k rankings [] List.nodup_nil
  scores id := by
    rw [get?_rrfFuse blend floor rankings distinct]
    simp only [List.not_mem_nil, if_false]
  permuted rankings' same id := by
    rw [get?_rrfFuse blend floor rankings distinct, get?_rrfFuse blend floor rankings'
      fun ranking inside => distinct ranking (same.mem_iff.mp inside)]
    simp only [same.mem_iff, reciprocalRanks_perm k rankings rankings' same]
  dominates a b worse lower found := by
    rw [get?_rrfFuse blend floor rankings distinct] at found ⊢
    simp only [List.not_mem_nil, if_false] at found ⊢
    split at found
    · rename_i ranked
      obtain ⟨ranking, inside, present⟩ := ranked
      obtain rfl := Option.some.inj found
      rw [if_pos ⟨ranking, inside, (worse ranking inside present).1⟩]
      exact ⟨_, rfl, reciprocalRanks_dominates k rankings a b worse⟩
    · cases found
  unpinned pinned id other := by
    simp only [get?_rrfFuse blend floor rankings distinct, other, List.not_mem_nil, if_false]
  pinned pinned id own := by
    simp only [get?_rrfFuse blend floor rankings distinct, own, List.not_mem_nil, if_true, if_false]
    split
    · rfl
    · rfl

/-- The second ranking has an id more. -/
theorem rrfFuse_fuses_two : Fuses (7 / 10) 1 [[1, 2], [2, 1, 3]] 60 :=
  rrfFuse_fuses (7 / 10) 1 [[1, 2], [2, 1, 3]] (by decide) 60

end Kortex.Ranking
