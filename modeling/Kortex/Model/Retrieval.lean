import Kortex.Model.MemoryService

/-
This file models the hybrid search, the links and the conflict notes of search results, and the reranker
pipeline, which packs its hits into a token budget.
-/

namespace Kortex

/-- These are the functions of the database and the float operations that rank the memories. -/
structure SearchEngine where
  /-- This is `embedding <=> vector`. -/
  distance : List PyFloat → List PyFloat → PyFloat
  /-- This is `ts_rank_cd` for a query under an analyser, where the row matches the query. -/
  rank : Str → Str → Memory → Option PyFloat
  add : PyFloat → PyFloat → PyFloat
  mul : PyFloat → PyFloat → PyFloat
  /-- This is `1.0 / n`. -/
  reciprocal : Nat → PyFloat

/-- This is the order of a float column, where NaN comes last. -/
def PyFloat.sqlLe (a b : PyFloat) : Bool :=
  match a.rank, b.rank with
  | _, none => true
  | none, some _ => false
  | some x, some y => rankLe x y

/-- This is `items[:n]`, where a negative bound counts from the end. -/
def sliceTo {A : Type} (n : Int) (items : List A) : List A :=
  if 0 ≤ n then items.take n.toNat else items.take (items.length - n.natAbs)

/-- This is a conflicting memory, seen from the hit that it is noted at. -/
structure ConflictNote where
  publicId : Str
  title : Str
  relation : Str
  createdAt : Str
deriving DecidableEq

/-- This is one candidate of a search. -/
structure HybridSearchHit where
  memoryId : Nat
  publicId : Str
  title : Str
  body : Str
  tier : MemoryTier
  sensitivity : Sensitivity
  importance : PyFloat
  decayScore : PyFloat
  pinned : Bool
  score : PyFloat
  conflicts : List ConflictNote := []

/-- This is the hit that a row becomes. -/
def hitOf (m : Memory) (score : PyFloat) : HybridSearchHit where
  memoryId := m.id
  publicId := m.publicId.str
  title := m.title
  body := m.body
  tier := m.tier
  sensitivity := m.sensitivity
  importance := m.importance
  decayScore := m.decayScore
  pinned := m.pinned
  score := score

/-- These are the filters that both rankings of a search share, but for the org. -/
def Memory.admitted (settings : Settings) (scopes : List ScopeFilter) (maxSensitivity : Sensitivity)
    (m : Memory) : Bool :=
  m.live && m.upTo maxSensitivity && m.reviewStatus == .approved &&
    (!settings.trustFiltering || (trustsAllowedFor maxSensitivity).all (·.contains m.trust)) &&
    (scopes.isEmpty || scopes.any m.inScope)

namespace Retrieval

def zeroPointZero : PyFloat := .finite (floatText "0.0" zero_scanned zero_tail)

variable (engine : SearchEngine)

/-- This is one round of the inner loop of `rrf_fuse`. -/
def addRank (k : Nat) (scores : Dict Nat PyFloat) (entry : Nat × Nat) : Dict Nat PyFloat :=
  Dict.set scores entry.1
    (engine.add ((Dict.get? scores entry.1).getD zeroPointZero) (engine.reciprocal (k + entry.2)))

/-- A pinned memory that is ranked has at least the floor as its score. -/
def raiseToFloor (floor : PyFloat) (scores : Dict Nat PyFloat) (memoryId : Nat) :
    Dict Nat PyFloat :=
  match Dict.get? scores memoryId with
  | some score => Dict.set scores memoryId (if PyFloat.lt score floor then floor else score)
  | none => scores

/-- This is `rrf_fuse`, where the rank of the best memory is one. -/
def rrfFuse (rankings : List (List Nat)) (k : Nat) (pinned : List Nat)
    (pinnedFloor : PyFloat := onePointZero) : Dict Nat PyFloat :=
  let scores := rankings.foldl (fun scores ranking => (ranking.zipIdx 1).foldl (addRank engine k) scores) []
  pinned.foldl (raiseToFloor pinnedFloor) scores

/-- The best score comes first. -/
def bestFirst {A : Type} (score : A → PyFloat) (a b : A) : Prop :=
  PyFloat.lt (score a) (score b) = false

instance {A : Type} (score : A → PyFloat) : DecidableRel (bestFirst score) :=
  fun a b => inferInstanceAs (Decidable (PyFloat.lt (score a) (score b) = false))

/-- The nearest embedding comes first. -/
def nearestFirst (vector : List PyFloat) (a b : Memory) : Prop :=
  PyFloat.sqlLe (engine.distance (a.embedding.getD []) vector)
    (engine.distance (b.embedding.getD []) vector) = true

instance (vector : List PyFloat) : DecidableRel (nearestFirst engine vector) :=
  fun _ _ => inferInstanceAs (Decidable (_ = true))

/-- This is the vector ranking; there is none without a query vector. -/
def vectorIds (candidates : List Memory) (vector : Option (List PyFloat)) (limit : Nat) : List Nat :=
  match vector with
  | none => []
  | some vector => (((candidates.filter fun m => m.embedding.isSome).insertionSort
      (nearestFirst engine vector)).take limit).map Memory.id

/-- The highest rank comes first. -/
def highestFirst (a b : Nat × PyFloat) : Prop := PyFloat.sqlLe b.2 a.2 = true

instance : DecidableRel highestFirst := fun a b => inferInstanceAs (Decidable (PyFloat.sqlLe b.2 a.2 = true))

/-- This is the ranking by keywords. -/
def bm25Ids (candidates : List Memory) (tsConfig query : Str) (limit : Nat) : List Nat :=
  (((candidates.filterMap fun m => (engine.rank tsConfig query m).map fun rank =>
    (m.id, rank)).insertionSort highestFirst).take limit).map Prod.fst

/-- This is `config_for_scopes`: the analyser of the first project that is searched. -/
def configForScopes (p : Principal) (db : Database) (scopes : List ScopeFilter) : Str :=
  match scopes.find? fun scope => scope.scopeType == .project with
  | some scope => ((MemoryService.projectById p db scope.scopeId).map
      Project.textSearchConfig).getD MemoryService.defaultTsConfig
  | none => MemoryService.defaultTsConfig

/-- This is the argument if it is given and not zero. -/
def orSetting (argument : Option Nat) (setting : Nat) : Nat :=
  match argument with
  | some (n + 1) => n + 1
  | _ => setting

/-- These are the arguments of `hybrid_search`. -/
structure SearchQuery where
  query : Str
  queryVector : Option (List PyFloat)
  scopes : List ScopeFilter := []
  maxSensitivity : Sensitivity := .secret
  topKVector : Option Nat := none
  topKBm25 : Option Nat := none
  rrfK : Option Nat := none
  limit : Int := 20

/-- The raw SELECTs by id have no filter for the org. -/
def rowsByIds (db : Database) (ids : List Nat) : List Memory :=
  db.memories.rows.filter fun m => ids.contains m.id

/-- These are the scores of the ranked memories; a pinned memory has a floor. -/
def fusedScores (settings : Settings) (db : Database) (q : SearchQuery)
    (vectorIds bm25Ids : List Nat) : Dict Nat PyFloat :=
  let pinned := ((rowsByIds db (vectorIds ++ bm25Ids)).filter Memory.pinned).map Memory.id
  rrfFuse engine ([vectorIds, bm25Ids].filter fun ranking => !ranking.isEmpty)
    (orSetting q.rrfK settings.retrievalRrfK) pinned

/-- The ids with the best scores come first. -/
def orderedIds (scores : Dict Nat PyFloat) : List Nat :=
  (scores.insertionSort (bestFirst Prod.snd)).map Prod.fst

/-- The score of a hit decays with its memory. -/
def hitsOf (rows : List Memory) (scores : Dict Nat PyFloat) (ids : List Nat) : List HybridSearchHit :=
  ids.filterMap fun memoryId => (rows.find? fun m => m.id == memoryId).map fun m =>
    hitOf m (engine.mul ((Dict.get? scores memoryId).getD zeroPointZero)
      (engine.add zeroPointFive (engine.mul zeroPointFive m.decayScore)))

/-- This is the part of `hybrid_search` that fuses the rankings and fetches the rows. -/
def fuse (settings : Settings) (db : Database) (q : SearchQuery) (vectorIds bm25Ids : List Nat) :
    List HybridSearchHit :=
  let scores := fusedScores engine settings db q vectorIds bm25Ids
  let ids := orderedIds scores
  let rows := rowsByIds db (sliceTo (max (q.limit * 2) q.limit) ids)
  sliceTo q.limit ((hitsOf engine rows scores ids).insertionSort (bestFirst HybridSearchHit.score))

/-- These are the rows that both rankings of a search select from. -/
def candidates (settings : Settings) (p : Principal) (db : Database) (q : SearchQuery) : List Memory :=
  (tenantQuery Memory.orgId p db.memories.rows).filter
    (Memory.admitted settings q.scopes q.maxSensitivity)

/-- This is `hybrid_search`. -/
def hybridSearch (settings : Settings) (p : Principal) (db : Database) (q : SearchQuery) :
    List HybridSearchHit :=
  let candidates := candidates settings p db q
  let vectorIds := vectorIds engine candidates q.queryVector
    (orSetting q.topKVector settings.retrievalTopKVector)
  let bm25Ids := bm25Ids engine candidates (configForScopes p db q.scopes) q.query
    (orSetting q.topKBm25 settings.retrievalTopKBm25)
  if vectorIds = [] ∧ bm25Ids = [] then []
  else fuse engine settings db q vectorIds bm25Ids

end Retrieval

/-- This is the end of the link that is not the memory. -/
def MemoryLink.other (link : MemoryLink) (memoryId : Nat) : Nat :=
  if link.fromMemoryId = memoryId then link.toMemoryId else link.fromMemoryId

def MemoryLink.touches (link : MemoryLink) (memoryId : Nat) : Bool :=
  link.fromMemoryId == memoryId || link.toMemoryId == memoryId

namespace MemoryLinkRepo

/-- This is `neighbors`; no type at all stands for every type. -/
def neighbors (db : Database) (memoryId : Nat) (linkTypes : List MemoryLinkType) : List MemoryLink :=
  db.links.filter fun link => link.touches memoryId &&
    (linkTypes.isEmpty || linkTypes.contains link.linkType)

/-- This is `conflict_links`. -/
def conflictLinks (db : Database) (memoryIds : List Nat) : List MemoryLink :=
  db.links.filter fun link => (link.linkType == .supersedes || link.linkType == .contradicts) &&
    (memoryIds.contains link.fromMemoryId || memoryIds.contains link.toMemoryId)

end MemoryLinkRepo

namespace Conflicts

/-- This is `demote_superseded`. -/
def demoteSuperseded {A : Type} (items : List A) (demotedIds : List Nat) (key : A → Nat) : List A :=
  (items.filter fun item => !demotedIds.contains (key item)) ++
    items.filter fun item => demotedIds.contains (key item)

/-- A link has a note at each of its two ends. -/
structure Anchored where
  anchor : Nat
  other : Nat
  relation : Str

def anchorsOf (link : MemoryLink) : List Anchored :=
  let supersedes := link.linkType == .supersedes
  [⟨link.fromMemoryId, link.toMemoryId, if supersedes then "supersedes" else "contradicts"⟩,
    ⟨link.toMemoryId, link.fromMemoryId, if supersedes then "superseded_by" else "contradicts"⟩]

/-- This is `describe`. -/
def describe (isoformat : Instant → Str) (rows : List Memory) (relation : Str) (memoryId : Nat) :
    Option ConflictNote :=
  (rows.find? fun m => m.id == memoryId).map fun m =>
    { publicId := m.publicId.str, title := m.title, relation := relation
      createdAt := isoformat m.createdAt }

/-- The notes of a hit take the place of its old ones; of two hits of one memory, the last one. -/
def attach (notes : Nat → List ConflictNote) : List HybridSearchHit → List HybridSearchHit
  | [] => []
  | hit :: rest =>
      (if rest.any fun other => other.memoryId == hit.memoryId then hit
        else { hit with conflicts := notes hit.memoryId }) :: attach notes rest

/-- These are the notes that the links give to the hits, in the order of the links. -/
def notesOf (isoformat : Instant → Str) (rows : List Memory) (present : List Nat)
    (links : List MemoryLink) : List (Anchored × ConflictNote) :=
  (links.flatMap anchorsOf).filterMap fun entry =>
    if present.contains entry.anchor then
      (describe isoformat rows entry.relation entry.other).map fun note => (entry, note)
    else none

/-- The hits get their notes, and those that another hit supersedes sort last. -/
def withNotes (hits : List HybridSearchHit) (noted : List (Anchored × ConflictNote)) :
    List HybridSearchHit × List Nat :=
  let present := hits.map HybridSearchHit.memoryId
  let demoted := (noted.filter fun entry => entry.1.relation == "superseded_by".toList &&
    present.contains entry.1.other).map fun entry => entry.1.anchor
  (attach (fun memoryId => (noted.filter fun entry => entry.1.anchor == memoryId).map Prod.snd) hits,
    demoted)

/-- This is `annotate_conflicts`: the hits with their notes, and the ids that sort last. -/
def annotateConflicts (isoformat : Instant → Str) (p : Principal) (db : Database)
    (hits : List HybridSearchHit) : List HybridSearchHit × List Nat :=
  let present := hits.map HybridSearchHit.memoryId
  let links := MemoryLinkRepo.conflictLinks db present
  if links = [] then (hits, [])
  else
    let rows := MemoryRepo.listByIds p db (links.flatMap fun link =>
      [link.fromMemoryId, link.toMemoryId])
    withNotes hits (notesOf isoformat rows present links)

end Conflicts
end Kortex

namespace Kortex

structure RerankedHit where
  hit : HybridSearchHit
  rerankScore : PyFloat
  finalScore : PyFloat

/-- These are the scores of the reranker and the float operations of the pipeline. -/
structure Reranker where
  /-- This scores a text against a query; the third argument is the prior score. -/
  score : Str → Str → PyFloat → PyFloat
  /-- This blends a rerank score with a prior score, each one beside its minimum and its maximum. -/
  blend : PyFloat × PyFloat × PyFloat → PyFloat × PyFloat × PyFloat → PyFloat

/-- This is the text of a hit for the reranker and the budget. -/
def HybridSearchHit.text (hit : HybridSearchHit) : Str := hit.title ++ "\n" ++ hit.body

/-- This is `estimate_tokens`. -/
def estimateTokens (text : Str) : Nat :=
  if text = [] then 0 else max 1 ((text.length + 3) / 4)

structure BudgetItem where
  id : Nat
  text : Str
  score : PyFloat

structure TokenBudget where
  maxTokens : Nat
  perItemMax : Nat := 800

namespace TokenBudget

variable (budget : TokenBudget)

/-- This is the body of the loop of `fit`. -/
def pack (packed : List BudgetItem × Nat) (item : BudgetItem) : List BudgetItem × Nat :=
  let tokens := estimateTokens item.text
  let (text, tokens) := if budget.perItemMax < tokens then
    (item.text.take (budget.perItemMax * 4), budget.perItemMax) else (item.text, tokens)
  if budget.maxTokens < packed.2 + tokens then packed
  else (packed.1 ++ [{ item with text := text }], packed.2 + tokens)

/-- This is `fit`: the items with the best scores are packed first. -/
def fit (items : List BudgetItem) : List BudgetItem × Nat :=
  (items.insertionSort (Retrieval.bestFirst BudgetItem.score)).foldl (pack budget) ([], 0)

end TokenBudget

namespace Reranker

/-- This is `min` of a list that is not empty. -/
def least (first : PyFloat) (rest : List PyFloat) : PyFloat :=
  rest.foldl (fun best x => if PyFloat.lt x best then x else best) first

/-- This is `max` of a list that is not empty. -/
def greatest (first : PyFloat) (rest : List PyFloat) : PyFloat :=
  rest.foldl (fun best x => if PyFloat.lt best x then x else best) first

variable (reranker : Reranker)

/-- These are the hits with their scores, the best ones first. -/
def rerank (query : Str) : List HybridSearchHit → List RerankedHit
  | [] => []
  | first :: rest =>
      let score (hit : HybridSearchHit) := reranker.score query hit.text hit.score
      let scores := rest.map score
      let priors := rest.map HybridSearchHit.score
      let reranked (hit : HybridSearchHit) : RerankedHit :=
        { hit := hit, rerankScore := score hit
          finalScore := reranker.blend
            (score hit, least (score first) scores, greatest (score first) scores)
            (hit.score, least first.score priors, greatest first.score priors) }
      ((first :: rest).map reranked).insertionSort (Retrieval.bestFirst RerankedHit.finalScore)

/-- This is `rerank_and_pack`. -/
def rerankAndPack (query : Str) (hits : List HybridSearchHit) (budget : TokenBudget) :
    List RerankedHit × Nat :=
  let reranked := reranker.rerank query hits
  let (kept, used) := budget.fit (reranked.mapIdx fun i r => ⟨i, r.hit.text, r.finalScore⟩)
  let chosen := reranked.zipIdx.filter fun entry => (kept.map BudgetItem.id).contains entry.2
  ((chosen.map Prod.fst).insertionSort (Retrieval.bestFirst RerankedHit.finalScore), used)

end Reranker
end Kortex
