import Kortex.Library.Highest
import Kortex.Proof.Recall

/-
This file proves that the order of search steps does not change what a loop finds.
-/

namespace Kortex

namespace PyFloat

theorem lt_iff (a b : PyFloat) :
    lt a b = true ↔ ∃ x y, a.rank = some x ∧ b.rank = some y ∧ toLex x < toLex y := by
  rw [lt]
  cases a.rank with
  | none => simp
  | some x =>
      cases b.rank with
      | none => simp
      | some y =>
          have below : rankLe y x = false ↔ toLex x < toLex y := by
            rw [← not_le, ← rankLe_iff, Bool.not_eq_true]
          simpa using below

theorem lt_irrefl (a : PyFloat) : lt a a = false := by
  rw [← Bool.not_eq_true, lt_iff]
  intro ⟨x, y, first, second, below⟩
  rw [Option.some.inj (first.symm.trans second)] at below
  exact below.ne rfl

/-- What is not above a float is not above a higher one. -/
theorem lt_of_lower (a b c : PyFloat) (above : lt a b = true) (below : lt a c = false) :
    lt b c = false := by
  rw [← Bool.not_eq_true, lt_iff] at below ⊢
  obtain ⟨x, y, first, second, less⟩ := (lt_iff a b).mp above
  intro ⟨y', z, same, third, higher⟩
  obtain rfl := Option.some.inj (second.symm.trans same)
  exact below ⟨x, z, first, third, less.trans higher⟩

theorem rank_of_ne_nan (a : PyFloat) (number : a ≠ nan) : ∃ x, a.rank = some x := by
  cases a with
  | nan => exact absurd rfl number
  | inf negative => cases negative <;> exact ⟨_, rfl⟩
  | finite repr => exact ⟨_, rfl⟩

/-- Two numbers of which neither is below the other are equal. -/
theorem rank_eq_of_not_lt (a b : PyFloat) (number : a ≠ nan) (number' : b ≠ nan)
    (first : lt a b = false) (second : lt b a = false) : a.rank = b.rank := by
  obtain ⟨x, left⟩ := rank_of_ne_nan a number
  obtain ⟨y, right⟩ := rank_of_ne_nan b number'
  rw [← Bool.not_eq_true, lt_iff] at first second
  have same : toLex x = toLex y := by
    apply le_antisymm
    · exact not_lt.mp fun less => second ⟨y, x, right, left, less⟩
    · exact not_lt.mp fun less => first ⟨x, y, left, right, less⟩
  rw [left, right, toLex.injective same]

end PyFloat

namespace AgentLoop

/-- The score of a hit is the lower one. -/
def scoreLess (a b : HybridSearchHit) : Bool := PyFloat.lt a.score b.score

theorem ingest_eq_keep : ingest = Highest.keep HybridSearchHit.memoryId scoreLess := by
  funext seen hit
  rw [ingest, Highest.keep]
  cases Dict.get? seen hit.memoryId with
  | none => rfl
  | some existing => rfl

theorem scores_ordered : Highest.Ordered scoreLess where
  irrefl a := PyFloat.lt_irrefl a.score
  lower a b c := PyFloat.lt_of_lower a.score b.score c.score

def Searches : PlanStep → Prop
  | .semanticSearch .. | .keywordSearch .. => True
  | _ => False

variable {loop : Loop} {s : LoopState}

/-- A search step merges its hits into the candidates, and changes nothing else that a step reads. -/
theorem execute_of_searches (embedding : s.embedding = true)
    (steady : ∀ embed, loop.embedder = some embed → ∀ query, (embed query).isSome = true)
    (step : PlanStep) (searches : Searches step) :
    (execute loop s step).seen = (stepHits loop step).foldl ingest s.seen ∧
      (execute loop s step).hops = s.hops ∧ (execute loop s step).embedding = true ∧
      (execute loop s step).stopped = s.stopped := by
  cases step with
  | stopAndAnswer reason => exact absurd searches id
  | timeFilter after before => exact absurd searches id
  | linkExpand types maxDepth => exact absurd searches id
  | keywordSearch query topK => exact ⟨rfl, rfl, embedding, rfl⟩
  | semanticSearch query topK =>
      simp only [execute, embedding, if_true, stepHits]
      cases found : loop.embedder with
      | none => exact ⟨rfl, rfl, embedding, rfl⟩
      | some embed =>
          obtain ⟨vector, embedded⟩ := Option.isSome_iff_exists.mp (steady embed found query)
          simp only [embedded, Option.bind_some]
          exact ⟨rfl, rfl, embedding, rfl⟩

/-- Without a budget, a step within the hops is refused only where the candidates are too many. -/
theorem refusal_of_hops (headroom : ∀ n, loop.headroom n = true)
    (few : s.hops < loop.settings.retrievalMaxHops) :
    refusal loop s = none ∨ refusal loop s = some "max_candidates" := by
  rw [refusal, headroom, if_neg (by simp), if_neg (by omega)]
  split
  · exact Or.inr rfl
  · exact Or.inl rfl

/-- A run of search steps whose candidates are never too many merges the hits of all steps. -/
theorem seen_of_searches
    (steady : ∀ embed, loop.embedder = some embed → ∀ query, (embed query).isSome = true)
    (headroom : ∀ n, loop.headroom n = true) (steps : List PlanStep)
    (searches : ∀ step ∈ steps, Searches step)
    (few : s.hops + steps.length ≤ loop.settings.retrievalMaxHops) (running : s.stopped = none)
    (embedding : s.embedding = true)
    (room : (steps.foldl (round loop) s).stopped ≠ some "max_candidates") :
    (steps.foldl (round loop) s).seen = (steps.flatMap (stepHits loop)).foldl ingest s.seen := by
  induction steps generalizing s with
  | nil => rfl
  | cons step rest ih =>
      rw [List.forall_mem_cons] at searches
      rw [List.length_cons] at few
      rw [List.foldl_cons] at room ⊢
      cases refusal_of_hops (s := s) headroom (by omega) with
      | inr full =>
          have stopped : (round loop s step).stopped = some "max_candidates" := by
            simp [round, running, full]
          rw [rounds_of_stopped (by simp [stopped]), stopped] at room
          exact absurd rfl room
      | inl accepted =>
          obtain ⟨seen, hops, embeds, stopped⟩ :=
            execute_of_searches (s := { s with hops := s.hops + 1 }) embedding steady step searches.1
          rw [round_of_running step running accepted] at room ⊢
          have next : (execute loop { s with hops := s.hops + 1 } step).hops + rest.length ≤
              loop.settings.retrievalMaxHops := by
            rw [hops]
            show s.hops + 1 + rest.length ≤ _
            omega
          rw [ih searches.2 next (stopped.trans running) embeds room, seen,
            List.flatMap_cons, List.foldl_append]

/-- These are the hits of all steps. -/
def allHits (loop : Loop) (steps : List PlanStep) : List HybridSearchHit :=
  steps.flatMap (stepHits loop)

/-- Each memory that a step finds is a candidate once, with a score that no step exceeds. -/
structure Merged (loop : Loop) (steps : List PlanStep) (candidates : List HybridSearchHit) : Prop where
  once : (candidates.map HybridSearchHit.memoryId).Nodup
  ids : ∀ id, id ∈ candidates.map HybridSearchHit.memoryId ↔
    ∃ hit ∈ allHits loop steps, hit.memoryId = id
  found : ∀ hit ∈ candidates, hit ∈ allHits loop steps
  highest : ∀ hit ∈ candidates, ∀ other ∈ allHits loop steps, other.memoryId = hit.memoryId →
    PyFloat.lt hit.score other.score = false

/-- All scores of the memory are numbers. -/
def Numeric (loop : Loop) (steps : List PlanStep) (id : Nat) : Prop :=
  ∀ hit ∈ allHits loop steps, hit.memoryId = id → hit.score ≠ .nan

theorem merged_perm {steps steps' : List PlanStep} (same : steps.Perm steps')
    {candidates : List HybridSearchHit} (merged : Merged loop steps candidates) :
    Merged loop steps' candidates := by
  have hits (hit : HybridSearchHit) : hit ∈ allHits loop steps' ↔ hit ∈ allHits loop steps :=
    (same.symm.flatMap_right _).mem_iff
  refine ⟨merged.once, ?_, ?_, ?_⟩
  · intro id
    simp only [merged.ids, hits]
  · intro hit inside
    exact (hits hit).mpr (merged.found hit inside)
  · intro hit inside other found
    exact merged.highest hit inside other ((hits other).mp found)

/-- A loop merges the hits of a plan that has only search steps. -/
theorem merged_run (plan : QueryPlan)
    (steady : ∀ embed, loop.embedder = some embed → ∀ query, (embed query).isSome = true)
    (headroom : ∀ n, loop.headroom n = true) (searches : ∀ step ∈ plan.steps, Searches step)
    (few : plan.steps.length ≤ loop.settings.retrievalMaxHops)
    (room : (run loop plan).stoppedReason ≠ "max_candidates") :
    Merged loop plan.steps (run loop plan).candidates := by
  have unfilled : (plan.steps.foldl (round loop) {}).stopped ≠ some "max_candidates" := by
    intro full
    rw [run, full] at room
    exact room rfl
  have seen : (plan.steps.foldl (round loop) {}).seen = (allHits loop plan.steps).foldl
      (Highest.keep HybridSearchHit.memoryId scoreLess) [] := by
    rw [← ingest_eq_keep]
    exact seen_of_searches steady headroom plan.steps searches (by simpa using few) rfl rfl unfilled
  have kept : Highest.Kept HybridSearchHit.memoryId scoreLess ([] ++ allHits loop plan.steps)
      ((allHits loop plan.steps).foldl (Highest.keep HybridSearchHit.memoryId scoreLess) []) :=
    Highest.kept_foldl scores_ordered (allHits loop plan.steps) Highest.kept_nil
  rw [← seen, List.nil_append] at kept
  have entry (hit : HybridSearchHit) (inside : hit ∈ (run loop plan).candidates) :
      ∃ id, Dict.get? (plan.steps.foldl (round loop) {}).seen id = some hit := by
    obtain ⟨entry, present, rfl⟩ := List.mem_map.mp inside
    exact ⟨entry.1, Dict.get?_of_mem _ kept.distinct entry present⟩
  constructor
  · show (((plan.steps.foldl (round loop) {}).seen.map Prod.snd).map HybridSearchHit.memoryId).Nodup
    rw [kept.map_key]
    exact kept.distinct
  · intro id
    show id ∈ ((plan.steps.foldl (round loop) {}).seen.map Prod.snd).map HybridSearchHit.memoryId ↔ _
    rw [kept.map_key, kept.mem_keys]
    exact Iff.rfl
  · intro hit inside
    obtain ⟨id, found⟩ := entry hit inside
    exact (kept.own id hit found).1
  · intro hit inside other found same
    obtain ⟨id, stored⟩ := entry hit inside
    exact kept.highest id hit stored other ⟨found, same.trans (kept.own id hit stored).2⟩

/-- Two plans with the same search steps in any order give the same memories, each one once, with the
highest of its scores. -/
theorem search_order_irrelevant (loop : Loop) (plan plan' : QueryPlan)
    (same : plan.steps.Perm plan'.steps) (searches : ∀ step ∈ plan.steps, Searches step)
    (few : plan.steps.length ≤ loop.settings.retrievalMaxHops)
    (headroom : ∀ n, loop.headroom n = true)
    (steady : ∀ embed, loop.embedder = some embed → ∀ query, (embed query).isSome = true)
    (room : (run loop plan).stoppedReason ≠ "max_candidates")
    (room' : (run loop plan').stoppedReason ≠ "max_candidates") :
    Merged loop plan.steps (run loop plan).candidates ∧
      Merged loop plan.steps (run loop plan').candidates ∧
      ∀ hit ∈ (run loop plan).candidates, ∀ hit' ∈ (run loop plan').candidates,
        hit.memoryId = hit'.memoryId → Numeric loop plan.steps hit.memoryId →
          hit.score.rank = hit'.score.rank := by
  have first := merged_run plan steady headroom searches few room
  have second := merged_perm same.symm (merged_run plan' steady headroom
    (fun step inside => searches step (same.mem_iff.mpr inside)) (same.length_eq ▸ few) room')
  refine ⟨first, second, ?_⟩
  intro hit inside hit' inside' own numeric
  have found := first.found hit inside
  have found' := second.found hit' inside'
  exact PyFloat.rank_eq_of_not_lt _ _ (numeric hit found rfl) (numeric hit' found' own.symm)
    (first.highest hit inside hit' found' own.symm) (second.highest hit' inside' hit found own)

/-- These are two searches by keywords, of which the first one finds the memory of the sample. -/
def twoSearches : QueryPlan where
  steps := [.keywordSearch "x" 20, .keywordSearch "z" 5]

def swappedSearches : QueryPlan where
  steps := [.keywordSearch "z" 5, .keywordSearch "x" 20]

theorem swapped_searches_merge :
    Merged sampleLoop twoSearches.steps (run sampleLoop swappedSearches).candidates :=
  (search_order_irrelevant sampleLoop twoSearches swappedSearches (List.Perm.swap _ _ _)
    (by simp [twoSearches, Searches]) (by decide) (fun _ => rfl)
    (fun embed found => absurd found (by simp [sampleLoop])) (by decide +kernel) (by decide +kernel)).2.1

end AgentLoop
end Kortex
