import Kortex.Proof.LinkExpansion
import Kortex.Proof.MemoryService
import Kortex.Proof.Retrieval

/-
This file proves what the loop collects, and when all of it passes the filters of the search.
-/

namespace Kortex.AgentLoop

variable {p : Principal} {db : Database} {types : List MemoryLinkType} {seen : Dict Nat HybridSearchHit}

variable (loop : Loop)

/-- The filters of the search admit the memory with this id. -/
def AdmittedId (id : Nat) : Prop := ∃ m ∈ MemoryRepo.liveRows loop.principal loop.db, m.id = id ∧
  m.admitted loop.settings loop.scopes loop.principal.maxSensitivity = true

/-- The filters of the search admit the row that the candidate shows. -/
def Admitted (hit : HybridSearchHit) : Prop :=
  ∃ m ∈ MemoryRepo.liveRows loop.principal loop.db,
    m.admitted loop.settings loop.scopes loop.principal.maxSensitivity = true ∧
      ∃ score, hit = hitOf m score

/-- The filters admit everything that is collected. -/
def Sandboxed (s : LoopState) : Prop := ∀ id ∈ keys s.seen, AdmittedId loop id

/-- Where the step expands links, the filters admit all memories within its depth. -/
def StaysInside (s : LoopState) (step : PlanStep) : Prop :=
  s.stopped = none → refusal loop s = none → ∀ types maxDepth, step = .linkExpand types maxDepth →
    ∀ id ∈ Closure.ball (Linked loop.principal loop.db types) {id | id ∈ keys s.seen} maxDepth,
      AdmittedId loop id

variable {loop} {s : LoopState}

theorem mem_keys_ingest (hit : HybridSearchHit) (id : Nat) :
    id ∈ keys (ingest seen hit) ↔ id = hit.memoryId ∨ id ∈ keys seen := by
  have present (existing : HybridSearchHit) (found : Dict.get? seen hit.memoryId = some existing) :
      hit.memoryId ∈ keys seen := by
    rw [keys, ← Dict.isSome_get?, found]
    rfl
  rw [ingest]
  split
  · rename_i existing found
    split
    · exact Dict.mem_keys_set _ _ _ _
    · constructor
      · exact Or.inr
      · rintro (rfl | old)
        · exact present existing found
        · exact old
  · exact Dict.mem_keys_set _ _ _ _

theorem mem_keys_ingests (hits : List HybridSearchHit) (id : Nat) :
    id ∈ keys (hits.foldl ingest seen) ↔ (∃ hit ∈ hits, id = hit.memoryId) ∨ id ∈ keys seen := by
  induction hits generalizing seen with
  | nil => simp
  | cons hit rest ih =>
      rw [List.foldl_cons, ih, mem_keys_ingest, List.exists_mem_cons_iff, or_left_comm, or_assoc]

theorem Collected.ingest (collected : Collected p db seen) (m : Memory)
    (present : m ∈ MemoryRepo.liveRows p db) (score : PyFloat) :
    Collected p db (AgentLoop.ingest seen (hitOf m score)) := by
  rw [AgentLoop.ingest]
  split
  · split
    · exact collected.set m present score
    · exact collected
  · exact collected.set m present score

theorem Collected.ingests (collected : Collected p db seen) (hits : List HybridSearchHit)
    (rows : ∀ hit ∈ hits, ∃ m ∈ MemoryRepo.liveRows p db, ∃ score, hit = hitOf m score) :
    Collected p db (hits.foldl AgentLoop.ingest seen) := by
  induction hits generalizing seen with
  | nil => exact collected
  | cons hit rest ih =>
      obtain ⟨m, present, score, rfl⟩ := rows hit List.mem_cons_self
      exact ih (collected.ingest m present score) fun other inside =>
        rows other (List.mem_cons_of_mem _ inside)

/-- A search step collects live rows that the filters admit. -/
theorem searchStep_spec (collected : Collected loop.principal loop.db s.seen) (step : PlanStep)
    (query : Str) (topK : Nat) (vector : Option (List PyFloat)) :
    Collected loop.principal loop.db (searchStep loop s step query topK vector).seen ∧
      (∀ id ∈ keys s.seen, id ∈ keys (searchStep loop s step query topK vector).seen) ∧
      ∀ id ∈ keys (searchStep loop s step query topK vector).seen,
        AdmittedId loop id ∨ id ∈ keys s.seen := by
  have rows := Retrieval.mem_hybridSearch loop.engine loop.settings loop.db
    { query := query, queryVector := vector, scopes := loop.scopes
      maxSensitivity := loop.principal.maxSensitivity, limit := topK } loop.principal
  refine ⟨collected.ingests _ fun hit inside => ?_, fun id present => ?_, fun id inside => ?_⟩
  · obtain ⟨m, present, _, _, built⟩ := rows hit inside
    exact ⟨m, present, built⟩
  · exact (mem_keys_ingests _ id).mpr (Or.inr present)
  · rcases (mem_keys_ingests _ id).mp inside with ⟨hit, found, rfl⟩ | old
    · obtain ⟨m, present, admitted, _, score, rfl⟩ := rows hit found
      exact Or.inl ⟨m, present, rfl, admitted⟩
    · exact Or.inr old

variable (types) in
/-- What a link expansion collects are live rows, those within its depth. -/
theorem linkExpand_spec (collected : Collected p db seen) (maxDepth : Nat) :
    Collected p db (expandLinks p db types maxDepth seen (keys seen)) ∧
      {x | x ∈ keys (expandLinks p db types maxDepth seen (keys seen))} =
        Closure.ball (Linked p db types) {x | x ∈ keys seen} maxDepth := by
  obtain ⟨new, adds, reached⟩ := adds_expandLinks p db types maxDepth seen
  rw [expandLinks_counted] at adds reached
  exact ⟨adds.collected collected, reached⟩

theorem subset_ball {Node : Type} (next : Node → Node → Prop) (seeds : Set Node) (n : Nat) :
    seeds ⊆ Closure.ball next seeds n := fun x inside => ⟨x, inside, Closure.Within.refl n x⟩

/-- An executed step collects live rows, and it stays in the sandbox unless its links lead out. -/
theorem execute_spec (collected : Collected loop.principal loop.db s.seen) (step : PlanStep) :
    Collected loop.principal loop.db (execute loop s step).seen ∧
      (∀ id ∈ keys s.seen, id ∈ keys (execute loop s step).seen) ∧
      (Sandboxed loop s → (Sandboxed loop (execute loop s step) ↔ ∀ types maxDepth,
        step = .linkExpand types maxDepth → ∀ id ∈ Closure.ball (Linked loop.principal loop.db types)
          {id | id ∈ keys s.seen} maxDepth, AdmittedId loop id)) := by
  have search (s' : LoopState) (same : s'.seen = s.seen) (query : Str) (topK : Nat)
      (vector : Option (List PyFloat)) (noLinks : ∀ types maxDepth, step ≠ .linkExpand types maxDepth) :
      Collected loop.principal loop.db (searchStep loop s' step query topK vector).seen ∧
        (∀ id ∈ keys s.seen, id ∈ keys (searchStep loop s' step query topK vector).seen) ∧
        (Sandboxed loop s → (Sandboxed loop (searchStep loop s' step query topK vector) ↔
          ∀ types maxDepth, step = .linkExpand types maxDepth →
            ∀ id ∈ Closure.ball (Linked loop.principal loop.db types) {id | id ∈ keys s.seen} maxDepth,
              AdmittedId loop id)) := by
    obtain ⟨collected', grows, admits⟩ :=
      searchStep_spec (s := s') (same ▸ collected) step query topK vector
    rw [same] at grows admits
    refine ⟨collected', grows, fun sandboxed => ⟨fun _ types maxDepth equal => ?_, fun _ id inside => ?_⟩⟩
    · exact absurd equal (noLinks types maxDepth)
    · exact (admits id inside).elim (fun admitted => admitted) (sandboxed id)
  cases step with
  | stopAndAnswer reason =>
      exact ⟨collected, fun _ present => present, fun sandboxed =>
        ⟨fun _ _ _ equal => absurd equal (by simp), fun _ => sandboxed⟩⟩
  | timeFilter after before =>
      exact ⟨collected, fun _ present => present, fun sandboxed =>
        ⟨fun _ _ _ equal => absurd equal (by simp), fun _ => sandboxed⟩⟩
  | keywordSearch query topK => exact search s rfl query topK none (by simp)
  | semanticSearch query topK =>
      simp only [execute]
      split
      · exact search s rfl query topK none (by simp)
      · split
        · exact search s rfl query topK _ (by simp)
        · exact search _ rfl query topK none (by simp)
  | linkExpand types maxDepth =>
      obtain ⟨collected', reached⟩ := linkExpand_spec types collected maxDepth
      have members (id : Nat) : id ∈ keys (execute loop s (.linkExpand types maxDepth)).seen ↔
          id ∈ Closure.ball (Linked loop.principal loop.db types) {x | x ∈ keys s.seen} maxDepth := by
        rw [← reached]
        exact Iff.rfl
      refine ⟨collected', fun id present => ?_, fun _ => ?_⟩
      · rw [members]
        exact subset_ball _ _ _ present
      · constructor
        · rintro sandboxed types' maxDepth' equal id inside
          obtain ⟨rfl, rfl⟩ := PlanStep.linkExpand.inj equal
          exact sandboxed id ((members id).mpr inside)
        · exact fun stays id inside => stays types maxDepth rfl id ((members id).mp inside)

theorem round_of_running (step : PlanStep) (running : s.stopped = none)
    (accepted : refusal loop s = none) :
    round loop s step = execute loop { s with hops := s.hops + 1 } step := by
  simp only [round, running, accepted, Option.isSome_none, Bool.false_eq_true, if_false]

theorem round_seen (step : PlanStep) (idle : ¬ (s.stopped = none ∧ refusal loop s = none)) :
    (round loop s step).seen = s.seen := by
  rw [round]
  split
  · rfl
  · rename_i running
    split
    · rfl
    · rename_i accepted
      exact absurd ⟨by simpa using running, accepted⟩ idle

/-- A round collects live rows, and it stays in the sandbox unless its links lead out. -/
theorem round_spec (collected : Collected loop.principal loop.db s.seen) (step : PlanStep) :
    Collected loop.principal loop.db (round loop s step).seen ∧
      (∀ id ∈ keys s.seen, id ∈ keys (round loop s step).seen) ∧
      (Sandboxed loop s → (Sandboxed loop (round loop s step) ↔ StaysInside loop s step)) := by
  by_cases going : s.stopped = none ∧ refusal loop s = none
  · obtain ⟨running, accepted⟩ := going
    obtain ⟨collected', grows, stays⟩ :=
      execute_spec (s := { s with hops := s.hops + 1 }) collected step
    rw [round_of_running step running accepted]
    refine ⟨collected', grows, fun sandboxed => ?_⟩
    rw [stays sandboxed, StaysInside]
    simp only [running, accepted, forall_const]
  · have same := round_seen step going
    have unchanged : Sandboxed loop (round loop s step) ↔ Sandboxed loop s := by
      rw [Sandboxed, Sandboxed, same]
    rw [unchanged, same]
    refine ⟨collected, fun _ present => present, fun sandboxed => ?_⟩
    exact ⟨fun _ running accepted => absurd ⟨running, accepted⟩ going, fun _ => sandboxed⟩

theorem collected_rounds (collected : Collected loop.principal loop.db s.seen) (steps : List PlanStep) :
    Run.Always (round loop) (fun s => Collected loop.principal loop.db s.seen) s steps :=
  Run.always_of_step (fun _ step collected => (round_spec collected step).1) steps collected

/-- A loop whose result is in the sandbox was in it all the time. -/
theorem sandboxed_rounds_iff (collected : Collected loop.principal loop.db s.seen)
    (sandboxed : Sandboxed loop s) (steps : List PlanStep) :
    Sandboxed loop (steps.foldl (round loop) s) ↔ Run.Each (round loop) (StaysInside loop) s steps := by
  induction steps generalizing s with
  | nil => exact ⟨fun _ => trivial, fun _ => sandboxed⟩
  | cons step rest ih =>
      obtain ⟨collected', _, stays⟩ := round_spec collected step
      have grows : ∀ id ∈ keys (round loop s step).seen,
          id ∈ keys (rest.foldl (round loop) (round loop s step)).seen := by
        have kept : Run.Always (round loop) (fun s' => Collected loop.principal loop.db s'.seen ∧
            ∀ id ∈ keys (round loop s step).seen, id ∈ keys s'.seen) (round loop s step) rest :=
          Run.always_of_step (fun s' step' holds => ⟨(round_spec holds.1 step').1, fun id present =>
            (round_spec holds.1 step').2.1 id (holds.2 id present)⟩) rest
            ⟨collected', fun _ present => present⟩
        exact kept.final.2
      rw [List.foldl_cons]
      constructor
      · intro last
        have next : Sandboxed loop (round loop s step) := fun id present => last id (grows id present)
        exact ⟨(stays sandboxed).mp next, (ih collected' next).mp last⟩
      · rintro ⟨first, others⟩
        exact (ih collected' ((stays sandboxed).mpr first)).mpr others

/-- All candidates of a plan pass the filters of the search exactly when at each of its link
expansions the filters admit every memory within the depth of the candidates so far. -/
theorem candidates_admitted_iff (loop : Loop) (plan : QueryPlan) :
    (∀ hit ∈ (run loop plan).candidates, Admitted loop hit) ↔
      Run.Each (round loop) (StaysInside loop) {} plan.steps := by
  have start : Collected loop.principal loop.db ({} : LoopState).seen := fun _ inside =>
    absurd inside List.not_mem_nil
  have empty : Sandboxed loop {} := fun _ inside => absurd inside List.not_mem_nil
  have collected := (collected_rounds start plan.steps).final
  rw [← sandboxed_rounds_iff start empty]
  constructor
  · intro admitted id inside
    obtain ⟨entry, present, rfl⟩ := List.mem_map.mp inside
    obtain ⟨m, row, passes, score, same⟩ := admitted entry.2 (List.mem_map.mpr ⟨entry, present, rfl⟩)
    obtain ⟨m', _, score', equal⟩ := collected entry present
    refine ⟨m, row, ?_, passes⟩
    have shown : (hitOf m score).memoryId = (hitOf m' score').memoryId := by
      rw [← same, equal]
    rw [equal]
    exact shown
  · intro sandboxed hit inside
    obtain ⟨entry, present, rfl⟩ := List.mem_map.mp inside
    obtain ⟨m, row, score, rfl⟩ := collected entry present
    obtain ⟨m', row', same, passes⟩ := sandboxed m.id (List.mem_map.mpr ⟨_, present, rfl⟩)
    rw [MemoryRepo.mem_liveRows] at row row'
    obtain rfl := memory_eq_of_id _ m' m row'.1 row.1 same
    exact ⟨m', (MemoryRepo.mem_liveRows _ _ m').mpr row, passes, score, rfl⟩

/-! A sample of a loop. -/

/-- The operations of this engine are right for the numbers of the samples. -/
def sampleEngine : SearchEngine where
  distance _ _ := Retrieval.zeroPointZero
  rank _ query m := if Str.contains m.body query then some zeroPointFive else none
  add a b := if PyFloat.lt Retrieval.zeroPointZero a then onePointZero else b
  mul a _ := a
  reciprocal _ := zeroPointFive

def sampleLoop : Loop where
  settings := {}
  engine := sampleEngine
  principal := sampleMember
  db := sampleLinked

def samplePlan : QueryPlan where
  steps := [.keywordSearch "x" 20, .linkExpand [.related] 1]

theorem samplePlan_candidates :
    (run sampleLoop samplePlan).candidates.map HybridSearchHit.memoryId = [1, 2] := by decide +kernel

/-- The links lead to a memory that the search withholds. -/
theorem link_expansion_leaves_sandbox :
    ¬ ∀ (loop : Loop) (plan : QueryPlan), ∀ hit ∈ (run loop plan).candidates, Admitted loop hit := by
  intro claim
  have second : 2 ∈ (run sampleLoop samplePlan).candidates.map HybridSearchHit.memoryId := by
    rw [samplePlan_candidates]
    decide
  obtain ⟨hit, candidate, same⟩ := List.mem_map.mp second
  obtain ⟨m, row, admitted, score, rfl⟩ := claim sampleLoop samplePlan hit candidate
  rw [MemoryRepo.mem_liveRows] at row
  have rows : m = sampleMemory 1 "x" .approved ∨ m = sampleMemory 2 "y" .pending := by
    simpa [sampleLoop, sampleLinked, Table.insert, Table.empty] using row.1
  rcases rows with rfl | rfl
  · exact absurd (show (1 : Nat) = 2 from same) (by decide)
  · exact absurd admitted (by decide)

end Kortex.AgentLoop
