import Kortex.Library.Run
import Kortex.Proof.Ranking
import Kortex.Proof.Recall

/-
This file proves when the memories that recall returns are within its token budget.
-/

namespace Kortex

namespace TokenBudget

/-- The loop of `fit` packs the item, which is longer than the budget allows for one item. -/
def PacksLong (budget : TokenBudget) (packed : List BudgetItem × Nat) (item : BudgetItem) : Prop :=
  budget.perItemMax < estimateTokens item.text ∧ packed.2 + budget.perItemMax ≤ budget.maxTokens

/-- The loop packs no long item exactly when all items that it keeps are short. -/
theorem packsNoLong_iff (budget : TokenBudget) (items : List BudgetItem)
    (packed : List BudgetItem × Nat) :
    Run.Each budget.pack (fun packed item => ¬ PacksLong budget packed item) packed items ↔
      ∀ item ∈ Ranking.keptOf budget packed.2 (items.map Ranking.itemOf),
        estimateTokens item.text ≤ budget.perItemMax := by
  induction items generalizing packed with
  | nil => exact ⟨fun _ _ inside => absurd inside List.not_mem_nil, fun _ => trivial⟩
  | cons item rest ih =>
      have text : (Ranking.itemOf item).text = item.text := rfl
      rw [Run.Each, ih, Ranking.pack_eq_floats, List.map_cons, Ranking.keptOf, text, PacksLong]
      by_cases full : budget.maxTokens < packed.2 + Ranking.tokensOf budget item.text
      · have short : ¬ (budget.perItemMax < estimateTokens item.text ∧
            packed.2 + budget.perItemMax ≤ budget.maxTokens) := by
          rintro ⟨long, room⟩
          rw [Ranking.tokensOf, Nat.min_eq_right (Nat.le_of_lt long)] at full
          omega
        rw [if_pos full, if_pos full]
        exact and_iff_right short
      · rw [if_neg full, if_neg full, List.forall_mem_cons, text]
        apply and_congr_left'
        constructor
        · intro short
          by_contra long
          rw [Ranking.tokensOf, Nat.min_eq_right (by omega)] at full
          exact short ⟨by omega, by omega⟩
        · rintro short ⟨long, _⟩
          omega

end TokenBudget

namespace Conflicts

theorem texts_attach (notes : Nat → List ConflictNote) (hits : List HybridSearchHit) :
    (attach notes hits).map HybridSearchHit.text = hits.map HybridSearchHit.text := by
  induction hits with
  | nil => rfl
  | cons first rest ih =>
      rw [attach, List.map_cons, List.map_cons, ih]
      split
      · rfl
      · rfl

/-- The notes leave the texts of the hits as they are. -/
theorem texts_annotateConflicts (isoformat : Instant → Str) (p : Principal) (db : Database)
    (hits : List HybridSearchHit) :
    (annotateConflicts isoformat p db hits).1.map HybridSearchHit.text =
      hits.map HybridSearchHit.text := by
  simp only [annotateConflicts]
  split
  · rfl
  · exact texts_attach _ hits

theorem demoteSuperseded_perm {A : Type} (items : List A) (demotedIds : List Nat) (key : A → Nat) :
    (demoteSuperseded items demotedIds key).Perm items := by
  have parted := List.filter_append_perm (fun item => !demotedIds.contains (key item)) items
  simpa only [demoteSuperseded, Bool.not_not] using parted

end Conflicts

namespace AgenticRetriever

variable (retriever : AgenticRetriever) (request : RecallRequest)

/-- These are the tokens of the memories as they are returned, and as the prompt of the synthesis has
them. -/
def returnedTokens (kept : List RerankedHit) : Nat :=
  (kept.map fun r => estimateTokens r.hit.text).sum

/-- The returned memories are within the budget, and the bundle counts their tokens. -/
structure WithinBudget (bundle : ContextBundle) : Prop where
  tokens : returnedTokens bundle.candidates ≤ retriever.maxTokens request
  used : bundle.usedTokens = returnedTokens bundle.candidates

/-- This is the budget that the hits are packed into. -/
def packing : TokenBudget where
  maxTokens := retriever.maxTokens request
  perItemMax := request.perItemMax

/-- These are the hits as items, the best ones first. -/
def packedItems (hits : List HybridSearchHit) : List BudgetItem :=
  ((retriever.reranker.rerank request.query hits).mapIdx fun i r =>
    ⟨i, r.hit.text, r.finalScore⟩).insertionSort (Retrieval.bestFirst BudgetItem.score)

/-- No hit with more tokens than one item may have is packed. -/
def PacksNoLong (hits : List HybridSearchHit) : Prop :=
  Run.Each (packing retriever request).pack
    (fun packed item => ¬ TokenBudget.PacksLong (packing retriever request) packed item) ([], 0)
    (packedItems retriever request hits)

/-- The prompt of the synthesis has the texts of the memories. -/
theorem memoriesBlock_eq (kept : List RerankedHit) : memoriesBlock kept =
    Str.join "\n\n" (kept.map fun r => "[m:" ++ r.hit.publicId ++ "] " ++ r.hit.text) := by
  simp only [memoriesBlock, HybridSearchHit.text, List.append_assoc]

variable {retriever request}

/-- These are the items that the budget keeps, before their texts are cut. -/
def keptItems (retriever : AgenticRetriever) (request : RecallRequest) (hits : List HybridSearchHit) :
    List (Ranking.Item PyFloat) :=
  Ranking.keptOf (packing retriever request) 0 ((packedItems retriever request hits).map Ranking.itemOf)

theorem keptItems_eq (hits : List HybridSearchHit) : keptItems retriever request hits =
    Ranking.kept (Ranking.floats retriever.engine retriever.reranker) (packing retriever request)
      (Ranking.scoredBy retriever.reranker request.query hits) := by
  have sorted (items : List BudgetItem) :
      (items.insertionSort (Retrieval.bestFirst BudgetItem.score)).map Ranking.itemOf =
        (items.map Ranking.itemOf).insertionSort
          (Ranking.bestFirst (Ranking.floats retriever.engine retriever.reranker) Ranking.Item.score) :=
    List.map_insertionSort _ _ _ _ fun _ _ _ _ => Iff.rfl
  rw [keptItems, packedItems, sorted, Ranking.kept, Ranking.itemsOf_eq, ← Ranking.rerank_floats,
    List.mapIdx_eq_zipIdx_map, List.zipIdx_map, List.map_map, List.map_map]
  rfl

/-- These are packed hits with their conflict notes, the superseded ones last. -/
def annotated (retriever : AgenticRetriever) (packed : List RerankedHit) : List RerankedHit :=
  let noted := Conflicts.annotateConflicts retriever.isoformat retriever.principal retriever.db
    (packed.map RerankedHit.hit)
  Conflicts.demoteSuperseded ((packed.zip noted.1).map fun entry => { entry.1 with hit := entry.2 })
    noted.2 fun r => r.hit.memoryId

theorem rerankPack_eq (hits : List HybridSearchHit) : retriever.rerankPack request hits =
    if hits = [] then [] else
      let packed := (retriever.reranker.rerankAndPack request.query hits (packing retriever request)).1
      if retriever.settings.conflictDetection then annotated retriever packed else packed := rfl

theorem texts_annotated (packed : List RerankedHit) :
    ((annotated retriever packed).map fun r => r.hit.text).Perm (packed.map fun r => r.hit.text) := by
  rw [annotated]
  refine ((Conflicts.demoteSuperseded_perm _ _ _).map _).trans ?_
  have same := Conflicts.texts_annotateConflicts retriever.isoformat retriever.principal retriever.db
    (packed.map RerankedHit.hit)
  generalize (Conflicts.annotateConflicts retriever.isoformat retriever.principal retriever.db
    (packed.map RerankedHit.hit)).1 = noted at same ⊢
  have lengths : noted.length = packed.length := by
    simpa using congrArg List.length same
  have texts : (((packed.zip noted).map fun entry => { entry.1 with hit := entry.2 }).map
      fun r : RerankedHit => r.hit.text) = packed.map fun r => r.hit.text := by
    calc (((packed.zip noted).map fun entry => { entry.1 with hit := entry.2 }).map
          fun r : RerankedHit => r.hit.text)
        = ((packed.zip noted).map Prod.snd).map HybridSearchHit.text := by
          rw [List.map_map, List.map_map]
          rfl
      _ = noted.map HybridSearchHit.text := by rw [List.map_snd_zip (by omega)]
      _ = packed.map fun r => r.hit.text := by
          rw [same, List.map_map]
          rfl
  rw [texts]

variable (retriever request) in
/-- The texts of the returned memories are those of the items that the budget keeps. -/
theorem texts_rerankPack (hits : List HybridSearchHit) :
    ((retriever.rerankPack request hits).map fun r => r.hit.text).Perm
      ((keptItems retriever request hits).map Ranking.Item.text) := by
  have packed : ((retriever.reranker.rerankAndPack request.query hits (packing retriever request)).1.map
      fun r => r.hit.text).Perm ((keptItems retriever request hits).map Ranking.Item.text) := by
    have texts := Ranking.texts_rerankAndPack (Ranking.floats retriever.engine retriever.reranker)
      (packing retriever request) (Ranking.scoredBy retriever.reranker request.query hits)
    rw [← Ranking.rerankAndPack_floats, List.map_map, ← keptItems_eq] at texts
    exact texts
  rw [rerankPack_eq]
  by_cases empty : hits = []
  · subst empty
    exact List.Perm.refl []
  · rw [if_neg empty]
    simp only
    split
    · exact (texts_annotated _).trans packed
    · exact packed

/-- The returned memories are within the budget exactly when no long one is packed. -/
theorem tokens_rerankPack_iff (hits : List HybridSearchHit) :
    (returnedTokens (retriever.rerankPack request hits) ≤ retriever.maxTokens request ∧
      usedTokens request (retriever.rerankPack request hits) =
        returnedTokens (retriever.rerankPack request hits)) ↔ PacksNoLong retriever request hits := by
  have texts := texts_rerankPack retriever request hits
  have returned : returnedTokens (retriever.rerankPack request hits) =
      ((keptItems retriever request hits).map fun item => estimateTokens item.text).sum := by
    have sums := (texts.map estimateTokens).sum_eq
    rwa [List.map_map, List.map_map] at sums
  have used : usedTokens request (retriever.rerankPack request hits) =
      Ranking.tokensOfAll (packing retriever request) (keptItems retriever request hits) := by
    have sums := (texts.map (Ranking.tokensOf (packing retriever request))).sum_eq
    rwa [List.map_map, List.map_map] at sums
  have fits := Ranking.keptOf_fits (packing retriever request)
    ((packedItems retriever request hits).map Ranking.itemOf) 0 (Nat.zero_le _)
  rw [Nat.zero_add] at fits
  rw [returned, used, PacksNoLong, TokenBudget.packsNoLong_iff]
  constructor
  · intro ⟨_, same⟩ item inside
    by_contra long
    have less : Ranking.tokensOfAll (packing retriever request) (keptItems retriever request hits) <
        ((keptItems retriever request hits).map fun item => estimateTokens item.text).sum := by
      apply List.sum_lt_sum
      · exact fun item _ => Nat.min_le_left _ _
      · refine ⟨item, inside, ?_⟩
        rw [Ranking.tokensOf, Nat.min_eq_right (by omega)]
        omega
    omega
  · intro short
    have same : Ranking.tokensOfAll (packing retriever request) (keptItems retriever request hits) =
        ((keptItems retriever request hits).map fun item => estimateTokens item.text).sum := by
      rw [Ranking.tokensOfAll]
      congr 1
      exact List.map_congr_left fun item inside => Nat.min_eq_left (short item inside)
    exact ⟨same ▸ fits, same⟩

/-- Every bundle of recall has the hits of a search, reranked and packed. -/
theorem bundle_of_recall (bundle : ContextBundle) (db : Database)
    (done : retriever.recall_ request = .ok (bundle, db)) :
    ∃ hits, bundle.candidates = retriever.rerankPack request hits ∧
      bundle.usedTokens = usedTokens request bundle.candidates := by
  have fallback (usage : RecallUsage) (rationale : Str)
      (same : (Except.ok (retriever.fallbackHybrid request usage rationale) :
        Except RecallError (ContextBundle × Database)) = .ok (bundle, db)) :
      ∃ hits, bundle.candidates = retriever.rerankPack request hits ∧
        bundle.usedTokens = usedTokens request bundle.candidates := by
    rw [← (Prod.mk.inj (Except.ok.inj same)).1]
    exact ⟨_, rfl, rfl⟩
  rw [recall_] at done
  split at done
  · split at done
    · exact fallback _ _ done
    · obtain ⟨plan, _, ran⟩ := (bind_eq_ok _ _ _).mp done
      obtain ⟨result, _, same⟩ := (bind_eq_ok _ _ _).mp ran
      rw [← (Prod.mk.inj (Except.ok.inj same)).1]
      exact ⟨result.candidates, rfl, rfl⟩
  · exact fallback _ _ done

/-- What recall hands out is within its token budget, and is counted right, exactly when no memory with
more tokens than one item may have is packed. -/
theorem within_budget_iff (retriever : AgenticRetriever) (request : RecallRequest) :
    (∀ hits, (returnedTokens (retriever.rerankPack request hits) ≤ retriever.maxTokens request ∧
      usedTokens request (retriever.rerankPack request hits) =
        returnedTokens (retriever.rerankPack request hits)) ↔ PacksNoLong retriever request hits) ∧
    ∀ bundle db, retriever.recall_ request = .ok (bundle, db) → ∃ hits,
      bundle.candidates = retriever.rerankPack request hits ∧
        (WithinBudget retriever request bundle ↔ PacksNoLong retriever request hits) := by
  refine ⟨tokens_rerankPack_iff, ?_⟩
  intro bundle db done
  obtain ⟨hits, candidates, used⟩ := bundle_of_recall bundle db done
  refine ⟨hits, candidates, ?_⟩
  rw [← tokens_rerankPack_iff, ← candidates, ← used]
  exact ⟨fun within => ⟨within.tokens, within.used⟩, fun ⟨tokens, used⟩ => ⟨tokens, used⟩⟩

/-- This hit has one token more than one item may have. -/
def longHit : HybridSearchHit where
  memoryId := 1
  publicId := []
  title := []
  body := List.replicate 256 'x'
  tier := .long
  sensitivity := .internal
  importance := onePointZero
  decayScore := onePointZero
  pinned := false
  score := onePointZero

/-- The budget counts 64 tokens for a memory that is returned with 65. -/
theorem long_memory_exceeds_budget :
    ¬ ∀ (retriever : AgenticRetriever) (request : RecallRequest) (hits : List HybridSearchHit),
      64 ≤ request.perItemMax →
        returnedTokens (retriever.rerankPack request hits) ≤ retriever.maxTokens request ∧
          usedTokens request (retriever.rerankPack request hits) =
            returnedTokens (retriever.rerankPack request hits) := by
  intro claim
  have within := (claim (answering .null) { query := "x", maxTokens := 64, perItemMax := 64 } [longHit]
    (by decide)).1
  exact absurd within (by decide +kernel)

end AgenticRetriever
end Kortex
