import Kortex.Library.Greedy
import Kortex.Library.Sorted
import Kortex.Proof.Ranking
import Kortex.Proof.Retrieval

/-
This file proves what a token budget packs.
-/

namespace Kortex.TokenBudget

variable (budget : TokenBudget)

/-- This is the item with the text that is packed. -/
def truncate (item : BudgetItem) : BudgetItem :=
  { item with text := Ranking.cutText budget item.text }

/-- The cut text is the longest beginning of the text that has no more tokens than one item may have. -/
structure Truncates (text cut : Str) : Prop where
  front : cut <+: text
  few : estimateTokens cut ≤ budget.perItemMax
  whole : estimateTokens text ≤ budget.perItemMax → cut = text
  longest : ∀ other, other <+: text → estimateTokens other ≤ budget.perItemMax →
    other.length ≤ cut.length

theorem estimateTokens_eq (text : Str) : estimateTokens text = (text.length + 3) / 4 := by
  rw [estimateTokens]
  split
  · rename_i empty
    rw [empty]
    rfl
  · rename_i nonempty
    have long := List.length_pos_iff.mpr nonempty
    omega

theorem estimateTokens_cutText (text : Str) :
    estimateTokens (Ranking.cutText budget text) = Ranking.tokensOf budget text := by
  rw [Ranking.cutText, Ranking.tokensOf]
  split
  · rename_i long
    rw [estimateTokens_eq] at long
    rw [estimateTokens_eq, estimateTokens_eq, List.length_take]
    omega
  · omega

theorem truncates_cutText (text : Str) : Truncates budget text (Ranking.cutText budget text) where
  front := by
    rw [Ranking.cutText]
    split
    · exact List.take_prefix _ _
    · exact List.prefix_rfl
  few := by
    rw [estimateTokens_cutText]
    exact Nat.min_le_right _ _
  whole short := by rw [Ranking.cutText, if_neg (Nat.not_lt.mpr short)]
  longest other front few := by
    rw [Ranking.cutText]
    split
    · have shorter := front.length_le
      rw [estimateTokens_eq] at few
      rw [List.length_take]
      omega
    · exact front.length_le

/-- The items come with descending scores, and those with equal scores come in the order of the list. -/
structure BestFirst (items ordered : List BudgetItem) : Prop where
  perm : ordered.Perm items
  descends : (∀ item ∈ items, item.score.rank ≠ none) →
    ordered.Pairwise (Retrieval.bestFirst BudgetItem.score)
  stable : ∀ rank, (ordered.filter fun item => decide (item.score.rank = rank)) =
    items.filter fun item => decide (item.score.rank = rank)

/-- This is the greedy choice of the items, where marks say which are kept. -/
structure Packs (ordered : List BudgetItem) (marks : List Bool) (kept : List BudgetItem)
    (used : Nat) : Prop where
  length : marks.length = ordered.length
  chosen : (Greedy.marked ordered marks).Sublist ordered
  texts : kept = (Greedy.marked ordered marks).map budget.truncate
  total : used = (kept.map fun item => estimateTokens item.text).sum
  within : used ≤ budget.maxTokens
  omitted : ∀ i item, ordered[i]? = some item → marks[i]? = some false →
    budget.maxTokens < (((Greedy.marked (ordered.take i) marks).map budget.truncate).map
      fun item => estimateTokens item.text).sum + estimateTokens (budget.truncate item).text

/-- These are the tokens that an item takes of the budget. -/
def weight (item : BudgetItem) : Nat := Ranking.tokensOf budget item.text

theorem tokens_truncate (items : List BudgetItem) :
    ((items.map budget.truncate).map fun item => estimateTokens item.text).sum =
      Greedy.total budget.weight items := by
  rw [Greedy.total, List.map_map]
  congr 1
  exact List.map_congr_left fun item _ => estimateTokens_cutText budget item.text

theorem foldl_pack_scan (items kept : List BudgetItem) (used : Nat) :
    items.foldl budget.pack (kept, used) =
      let chosen := Greedy.marked items (Greedy.scan budget.maxTokens budget.weight used items)
      (kept ++ chosen.map budget.truncate, used + Greedy.total budget.weight chosen) := by
  induction items generalizing kept used with
  | nil => simp [Greedy.marked, Greedy.total]
  | cons item rest ih =>
      have one : budget.pack (kept, used) item =
          if budget.maxTokens < used + budget.weight item then (kept, used)
          else (kept ++ [budget.truncate item], used + budget.weight item) :=
        Ranking.pack_eq_floats budget (kept, used) item
      rw [List.foldl_cons, one, Greedy.scan]
      by_cases full : budget.maxTokens < used + budget.weight item
      · rw [if_pos full, if_pos full, ih]
        rfl
      · rw [if_neg full, if_neg full, ih]
        simp only [Greedy.marked, if_true, Greedy.total_cons, List.map_cons, List.append_assoc,
          List.singleton_append, Nat.add_assoc]

theorem bestFirst_iff (a b : BudgetItem) (x y : Int × ℚ) (first : a.score.rank = some x)
    (second : b.score.rank = some y) :
    Retrieval.bestFirst BudgetItem.score a b ↔ toLex y ≤ toLex x := by
  simp only [Retrieval.bestFirst, PyFloat.lt, first, second, Bool.not_eq_false', PyFloat.rankLe_iff]

theorem bestFirst_insertionSort (items : List BudgetItem) :
    BestFirst items (items.insertionSort (Retrieval.bestFirst BudgetItem.score)) where
  perm := List.perm_insertionSort _ items
  descends known := by
    apply pairwise_insertionSort_on _ (fun item => item.score.rank ≠ none) items known
    · intro a b first second
      obtain ⟨x, first⟩ := Option.ne_none_iff_exists'.mp first
      obtain ⟨y, second⟩ := Option.ne_none_iff_exists'.mp second
      rw [bestFirst_iff a b x y first second, bestFirst_iff b a y x second first]
      exact le_total _ _
    · intro a b c first second third
      obtain ⟨x, first⟩ := Option.ne_none_iff_exists'.mp first
      obtain ⟨y, second⟩ := Option.ne_none_iff_exists'.mp second
      obtain ⟨z, third⟩ := Option.ne_none_iff_exists'.mp third
      rw [bestFirst_iff a b x y first second, bestFirst_iff b c y z second third,
        bestFirst_iff a c x z first third]
      exact fun below below' => below'.trans below
  stable rank := by
    apply filter_insertionSort
    intro a b first second
    rw [decide_eq_true_iff] at first second
    cases rank with
    | none => simp only [Retrieval.bestFirst, PyFloat.lt, first]
    | some x => exact (bestFirst_iff a b x x first second).mpr le_rfl

theorem packs_fit (items : List BudgetItem) :
    ∃ marks, Packs budget (items.insertionSort (Retrieval.bestFirst BudgetItem.score)) marks
      (budget.fit items).1 (budget.fit items).2 := by
  generalize same : items.insertionSort (Retrieval.bestFirst BudgetItem.score) = ordered
  have choice : Greedy.Choice budget.maxTokens budget.weight 0 ordered _ :=
    Greedy.choice_scan ordered 0 (Nat.zero_le _)
  have within := choice.within
  rw [Nat.zero_add] at within
  rw [fit, same, foldl_pack_scan]
  simp only [List.nil_append, Nat.zero_add]
  refine ⟨_, choice.length, Greedy.sublist_marked _ _, rfl, ?_, within, ?_⟩
  · exact (tokens_truncate budget _).symm
  · intro i item here unmarked
    have full := choice.full i item here unmarked
    rw [Nat.zero_add] at full
    rw [tokens_truncate, truncate, estimateTokens_cutText]
    exact full

/-- `fit` is the greedy choice from the items with the best scores, whose texts are cut first. -/
theorem fit_greedy (items : List BudgetItem) :
    (∃ ordered marks, BestFirst items ordered ∧
      Packs budget ordered marks (budget.fit items).1 (budget.fit items).2) ∧
      ∀ item : BudgetItem, (budget.truncate item).id = item.id ∧
        (budget.truncate item).score = item.score ∧
          Truncates budget item.text (budget.truncate item).text := by
  constructor
  · obtain ⟨marks, packs⟩ := packs_fit budget items
    exact ⟨_, marks, bestFirst_insertionSort items, packs⟩
  · intro item
    exact ⟨rfl, rfl, truncates_cutText budget item.text⟩

end Kortex.TokenBudget
