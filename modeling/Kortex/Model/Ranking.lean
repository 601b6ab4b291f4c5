import Kortex.Model.Retrieval

/-
This file models the scores of the search and of the reranker pipeline over any numbers. The floats of
the code are one choice, and the rationals are another.
-/

namespace Kortex.Ranking

/-- These are the numbers of the scores with the operations of the code. -/
structure Numbers (S : Type) where
  zero : S
  half : S
  floor : S
  add : S → S → S
  mul : S → S → S
  /-- This is `1.0 / n`. -/
  reciprocal : Nat → S
  less : S → S → Bool
  /-- This blends a rerank score with a prior score, each one beside its minimum and its maximum. -/
  blend : S × S × S → S × S × S → S

/-- These are the columns of a candidate that the ranking reads. -/
structure Candidate (S : Type) where
  memoryId : Nat
  title : Str
  body : Str
  pinned : Bool
  decayScore : S

structure RankedHit (S : Type) extends Candidate S where
  score : S

structure BlendedHit (S : Type) where
  hit : RankedHit S
  finalScore : S

structure Item (S : Type) where
  id : Nat
  text : Str
  score : S

/-- This is the text of a hit for the reranker and the budget. -/
def RankedHit.text {S : Type} (hit : RankedHit S) : Str := hit.title ++ "\n" ++ hit.body

variable {S : Type} (numbers : Numbers S)

/-- The best score comes first. -/
def bestFirst {A : Type} (score : A → S) (a b : A) : Prop :=
  numbers.less (score a) (score b) = false

instance {A : Type} (score : A → S) : DecidableRel (bestFirst numbers score) :=
  fun a b => inferInstanceAs (Decidable (numbers.less (score a) (score b) = false))

/-- This is one round of the inner loop of `rrf_fuse`. -/
def addRank (k : Nat) (scores : Dict Nat S) (entry : Nat × Nat) : Dict Nat S :=
  Dict.set scores entry.1
    (numbers.add ((Dict.get? scores entry.1).getD numbers.zero) (numbers.reciprocal (k + entry.2)))

/-- A pinned memory that is ranked has at least the floor as its score. -/
def raiseToFloor (scores : Dict Nat S) (memoryId : Nat) : Dict Nat S :=
  match Dict.get? scores memoryId with
  | some score => Dict.set scores memoryId (if numbers.less score numbers.floor then numbers.floor
      else score)
  | none => scores

/-- This is `rrf_fuse`, where the rank of the best memory is one. -/
def rrfFuse (rankings : List (List Nat)) (k : Nat) (pinned : List Nat) : Dict Nat S :=
  let scores := rankings.foldl (fun scores ranking =>
    (ranking.zipIdx 1).foldl (addRank numbers k) scores) []
  pinned.foldl (raiseToFloor numbers) scores

/-- This is a SELECT of the candidates with the ids. -/
def byIds (candidates : List (Candidate S)) (ids : List Nat) : List (Candidate S) :=
  candidates.filter fun c => ids.contains c.memoryId

/-- These are the scores of the ranked memories; a pinned memory has a floor. -/
def fusedScores (candidates : List (Candidate S)) (k : Nat) (vectorIds bm25Ids : List Nat) :
    Dict Nat S :=
  let pinned := ((byIds candidates (vectorIds ++ bm25Ids)).filter Candidate.pinned).map
    Candidate.memoryId
  rrfFuse numbers ([vectorIds, bm25Ids].filter fun ranking => !ranking.isEmpty) k pinned

/-- The ids with the best scores come first. -/
def orderedIds (scores : Dict Nat S) : List Nat :=
  (scores.insertionSort (bestFirst numbers Prod.snd)).map Prod.fst

/-- The score of a hit decays with its memory. -/
def hitOf (scores : Dict Nat S) (c : Candidate S) : RankedHit S where
  toCandidate := c
  score := numbers.mul ((Dict.get? scores c.memoryId).getD numbers.zero)
    (numbers.add numbers.half (numbers.mul numbers.half c.decayScore))

def hitsOf (candidates : List (Candidate S)) (scores : Dict Nat S) (ids : List Nat) :
    List (RankedHit S) :=
  ids.filterMap fun memoryId => (candidates.find? fun c => c.memoryId == memoryId).map
    (hitOf numbers scores)

/-- This is the part of `hybrid_search` that fuses the rankings and fetches the candidates. -/
def hybridSearch (candidates : List (Candidate S)) (k : Nat) (vectorIds bm25Ids : List Nat)
    (limit : Nat) : List (RankedHit S) :=
  let scores := fusedScores numbers candidates k vectorIds bm25Ids
  let ids := orderedIds numbers scores
  let rows := byIds candidates (ids.take (max (limit * 2) limit))
  ((hitsOf numbers rows scores ids).insertionSort (bestFirst numbers RankedHit.score)).take limit

/-- This is the body of the loop of `fit`. -/
def pack (budget : TokenBudget) (packed : List (Item S) × Nat) (item : Item S) :
    List (Item S) × Nat :=
  let tokens := estimateTokens item.text
  let (text, tokens) := if budget.perItemMax < tokens then
    (item.text.take (budget.perItemMax * 4), budget.perItemMax) else (item.text, tokens)
  if budget.maxTokens < packed.2 + tokens then packed
  else (packed.1 ++ [{ item with text := text }], packed.2 + tokens)

/-- This is `fit`: the items with the best scores are packed first. -/
def fit (budget : TokenBudget) (items : List (Item S)) : List (Item S) × Nat :=
  (items.insertionSort (bestFirst numbers Item.score)).foldl (pack budget) ([], 0)

/-- This is `min` of a list that is not empty. -/
def least (first : S) (rest : List S) : S :=
  rest.foldl (fun best x => if numbers.less x best then x else best) first

/-- This is `max` of a list that is not empty. -/
def greatest (first : S) (rest : List S) : S :=
  rest.foldl (fun best x => if numbers.less best x then x else best) first

/-- The score of a hit beside the least and the greatest one of its list. -/
def spread (score : RankedHit S × S → S) (scored : List (RankedHit S × S)) (x : RankedHit S × S) :
    S × S × S :=
  match scored with
  | [] => (score x, score x, score x)
  | first :: rest =>
      (score x, least numbers (score first) (rest.map score),
        greatest numbers (score first) (rest.map score))

/-- This blends the two scores of a hit. -/
def blended (scored : List (RankedHit S × S)) (x : RankedHit S × S) : BlendedHit S where
  hit := x.1
  finalScore := numbers.blend (spread numbers Prod.snd scored x)
    (spread numbers (fun x => x.1.score) scored x)

/-- These are the hits with their scores, the best ones first. -/
def rerank (scored : List (RankedHit S × S)) : List (BlendedHit S) :=
  (scored.map (blended numbers scored)).insertionSort (bestFirst numbers BlendedHit.finalScore)

/-- This is `rerank_and_pack` for hits with the scores of the reranker. -/
def rerankAndPack (scored : List (RankedHit S × S)) (budget : TokenBudget) :
    List (BlendedHit S) × Nat :=
  let reranked := rerank numbers scored
  let (kept, used) := fit numbers budget (reranked.mapIdx fun i r => ⟨i, r.hit.text, r.finalScore⟩)
  let chosen := reranked.zipIdx.filter fun entry => (kept.map Item.id).contains entry.2
  ((chosen.map Prod.fst).insertionSort (bestFirst numbers BlendedHit.finalScore), used)

/-- These are the floats of a search engine and a reranker. -/
def floats (engine : SearchEngine) (reranker : Reranker) : Numbers PyFloat where
  zero := Retrieval.zeroPointZero
  half := zeroPointFive
  floor := onePointZero
  add := engine.add
  mul := engine.mul
  reciprocal := engine.reciprocal
  less := PyFloat.lt
  blend := reranker.blend

/-- This is the final score over the rationals; a span of zero does not divide. -/
def exactBlend (blend : ℚ) (reranked prior : ℚ × ℚ × ℚ) : ℚ :=
  let (score, least, greatest) := reranked
  let (priorScore, priorLeast, priorGreatest) := prior
  let span := if greatest - least = 0 then 1 else greatest - least
  let priorSpan := max (1 / 1000000000) (priorGreatest - priorLeast)
  blend * ((score - least) / span) + (1 - blend) * ((priorScore - priorLeast) / priorSpan)

/-- These are the rational numbers, where nothing is rounded. -/
def rationals (blend : ℚ := 7 / 10) : Numbers ℚ where
  zero := 0
  half := 1 / 2
  floor := 1
  add x y := x + y
  mul x y := x * y
  reciprocal n := 1 / n
  less x y := decide (x < y)
  blend := exactBlend blend

end Kortex.Ranking
