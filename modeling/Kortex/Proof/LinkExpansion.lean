import Kortex.Library.Closure
import Kortex.Model.AgentLoop
import Kortex.Proof.MemoryRepo
import Kortex.Proof.MemoryService

/-
This file proves which memories the walk along the links adds to the candidates.
-/

namespace Kortex.AgentLoop

variable (p : Principal) (db : Database)

/-- The memory with this id is live and visible. -/
def Known (id : Nat) : Prop := ∃ m ∈ MemoryRepo.liveRows p db, m.id = id

/-- A link of one of the types leads from one memory to another that is live and visible. -/
def Linked (types : List MemoryLinkType) (a b : Nat) : Prop :=
  (∃ link ∈ MemoryLinkRepo.neighbors db a types, link.other a = b) ∧ Known p db b

/-- Every entry is a live and visible row under its own id. -/
def Collected (seen : Dict Nat HybridSearchHit) : Prop :=
  ∀ entry ∈ seen, ∃ m ∈ MemoryRepo.liveRows p db, ∃ score, entry = (m.id, hitOf m score)

variable {p db} {types : List MemoryLinkType} {seen : Dict Nat HybridSearchHit}

theorem Collected.set (collected : Collected p db seen) (m : Memory)
    (present : m ∈ MemoryRepo.liveRows p db) (score : PyFloat) :
    Collected p db (Dict.set seen m.id (hitOf m score)) := by
  intro entry inside
  rcases Dict.mem_set _ _ _ entry inside with rfl | old
  · exact ⟨m, present, score, rfl⟩
  · exact collected entry old

theorem Collected.known (collected : Collected p db seen) (id : Nat) (inside : id ∈ keys seen) :
    Known p db id := by
  obtain ⟨entry, present, rfl⟩ := List.mem_map.mp inside
  obtain ⟨m, row, score, rfl⟩ := collected entry present
  exact ⟨m, row, rfl⟩

theorem getById_eq_none (id : Nat) : MemoryRepo.getById p db id = none ↔ ¬ Known p db id := by
  constructor
  · rintro absent ⟨m, present, rfl⟩
    rw [MemoryRepo.getById_of_mem p db m present] at absent
    exact absurd absent (by simp)
  · intro unknown
    cases found : MemoryRepo.getById p db id with
    | none => rfl
    | some m => exact absurd ⟨m, MemoryRepo.getById_some p db id m found⟩ unknown

/-- This is the entry of a memory that is found along a link. -/
def entryOf (m : Memory) : Nat × HybridSearchHit := (m.id, hitOf m zeroScore)

/-- These live rows are added to the candidates, each one once. -/
structure Adds (p : Principal) (db : Database) (new : List Memory) (w w' : Walk) : Prop where
  rows : ∀ m ∈ new, m ∈ MemoryRepo.liveRows p db
  seen : w'.seen = w.seen ++ new.map entryOf
  added : w'.added = w.added + new.length
  fresh : ∀ m ∈ new, m.id ∉ keys w.seen
  once : (new.map Memory.id).Nodup

variable {w w' w'' : Walk} {new others : List Memory}

theorem adds_nothing : Adds p db [] w w where
  rows _ inside := absurd inside List.not_mem_nil
  seen := (List.append_nil _).symm
  added := rfl
  fresh _ inside := absurd inside List.not_mem_nil
  once := List.nodup_nil

theorem Adds.mem_keys (adds : Adds p db new w w') (id : Nat) :
    id ∈ keys w'.seen ↔ id ∈ keys w.seen ∨ id ∈ new.map Memory.id := by
  rw [keys, adds.seen, List.map_append, List.map_map, List.mem_append]
  exact Iff.rfl

theorem Adds.trans (first : Adds p db new w w') (second : Adds p db others w' w'') :
    Adds p db (new ++ others) w w'' where
  rows := List.forall_mem_append.mpr ⟨first.rows, second.rows⟩
  seen := by rw [second.seen, first.seen, List.map_append, List.append_assoc]
  added := by rw [second.added, first.added, List.length_append, Nat.add_assoc]
  fresh := by
    rw [List.forall_mem_append]
    constructor
    · exact first.fresh
    · intro m inside old
      exact second.fresh m inside ((first.mem_keys m.id).mpr (Or.inl old))
  once := by
    rw [List.map_append, List.nodup_append]
    refine ⟨first.once, second.once, ?_⟩
    intro id earlier other later same
    obtain ⟨m, inside, rfl⟩ := List.mem_map.mp later
    exact second.fresh m inside ((first.mem_keys m.id).mpr (Or.inr (same ▸ earlier)))

theorem Adds.collected (adds : Adds p db new w w') (collected : Collected p db w.seen) :
    Collected p db w'.seen := by
  intro entry inside
  rw [adds.seen, List.mem_append] at inside
  cases inside with
  | inl old => exact collected entry old
  | inr later =>
      obtain ⟨m, present, made⟩ := List.mem_map.mp later
      exact ⟨m, adds.rows m present, zeroScore, made.symm⟩

/-- A part of a round adds the known memories among its targets, and they are next. -/
structure Extends (p : Principal) (db : Database) (targets : Nat → Prop) (new : List Memory)
    (w w' : Walk) : Prop extends Adds p db new w w' where
  next : w'.next = w.next ++ new.map Memory.id
  reached : ∀ id, id ∈ keys w'.seen ↔ id ∈ keys w.seen ∨ (targets id ∧ Known p db id)

variable {targets targets' : Nat → Prop}

theorem extends_nothing : Extends p db (fun _ => False) [] w w where
  toAdds := adds_nothing
  next := (List.append_nil _).symm
  reached id := by simp

theorem Extends.trans (first : Extends p db targets new w w')
    (second : Extends p db targets' others w' w'') :
    Extends p db (fun id => targets id ∨ targets' id) (new ++ others) w w'' where
  toAdds := first.toAdds.trans second.toAdds
  next := by rw [second.next, first.next, List.map_append, List.append_assoc]
  reached id := by
    rw [second.reached, first.reached]
    tauto

/-- A link leads to one memory, which is added if it is new and known. -/
theorem visit_extends (memoryId : Nat) (link : MemoryLink) (w : Walk) :
    ∃ new, Extends p db (fun id => link.other memoryId = id) new w (visit p db memoryId w link) := by
  rw [visit]
  by_cases old : (Dict.get? w.seen (link.other memoryId)).isSome
  · refine ⟨[], ?_⟩
    simp only [old, if_true]
    rw [Dict.isSome_get?] at old
    refine ⟨adds_nothing, (List.append_nil _).symm, fun id => ⟨Or.inl, ?_⟩⟩
    intro reached
    cases reached with
    | inl present => exact present
    | inr target => exact target.1 ▸ old
  · simp only [old, Bool.false_eq_true, if_false]
    rw [Dict.isSome_get?] at old
    cases looked : MemoryRepo.getById p db (link.other memoryId) with
    | none =>
        refine ⟨[], adds_nothing, (List.append_nil _).symm, fun id => ⟨Or.inl, ?_⟩⟩
        intro reached
        cases reached with
        | inl present => exact present
        | inr target => exact absurd (target.1 ▸ target.2) ((getById_eq_none _).mp looked)
    | some m =>
        obtain ⟨row, same⟩ := MemoryRepo.getById_some p db _ m looked
        have fresh : m.id ∉ keys w.seen := same ▸ old
        have adds : Adds p db [m] w
            { seen := Dict.set w.seen m.id (hitOf m zeroScore), next := w.next ++ [m.id],
              added := w.added + 1 } := by
          refine ⟨?_, Dict.set_eq_append _ _ _ fresh, rfl, ?_, List.nodup_singleton _⟩
          · exact fun other inside => List.mem_singleton.mp inside ▸ row
          · exact fun other inside => List.mem_singleton.mp inside ▸ fresh
        refine ⟨[m], adds, rfl, fun id => ?_⟩
        rw [adds.mem_keys, List.map_singleton, List.mem_singleton, ← same]
        constructor
        · intro reached
          cases reached with
          | inl present => exact Or.inl present
          | inr own => exact Or.inr ⟨own.symm, m, row, own.symm⟩
        · intro reached
          exact reached.imp_right fun target => target.1.symm

theorem visits_extend (memoryId : Nat) (links : List MemoryLink) (w : Walk) :
    ∃ new, Extends p db (fun id => ∃ link ∈ links, link.other memoryId = id) new w
      (links.foldl (visit p db memoryId) w) := by
  induction links generalizing w with
  | nil => exact ⟨[], by simpa using extends_nothing⟩
  | cons link rest ih =>
      obtain ⟨new, first⟩ := visit_extends memoryId link w
      obtain ⟨others, second⟩ := ih (visit p db memoryId w link)
      refine ⟨new ++ others, ?_⟩
      simp only [List.foldl_cons, List.exists_mem_cons_iff]
      exact first.trans second

variable (p db) in
/-- A round adds what the links of the frontier lead to. -/
theorem visitAll_extends (types : List MemoryLinkType) (frontier : List Nat) (w : Walk) :
    ∃ new, Extends p db
      (fun id => ∃ y ∈ frontier, ∃ link ∈ MemoryLinkRepo.neighbors db y types, link.other y = id) new
      { w with next := [] } (visitAll p db types w frontier) := by
  rw [visitAll]
  generalize { w with next := [] } = start
  induction frontier generalizing start with
  | nil => exact ⟨[], by simpa using extends_nothing⟩
  | cons memoryId rest ih =>
      obtain ⟨new, first⟩ := visits_extend memoryId (MemoryLinkRepo.neighbors db memoryId types) start
      obtain ⟨others, second⟩ := ih ((MemoryLinkRepo.neighbors db memoryId types).foldl
        (visit p db memoryId) start)
      refine ⟨new ++ others, ?_⟩
      simp only [List.foldl_cons, List.exists_mem_cons_iff]
      exact first.trans second

variable (p db) in
/-- The walk adds the live rows within its number of links of the memories it starts from. -/
theorem walk_spec (types : List MemoryLinkType) (depth : Nat) (w : Walk) (seeds : Set Nat) (n : Nat)
    (frontier : List Nat)
    (ahead : ∀ x ∈ frontier, x ∈ keys w.seen)
    (searched : Closure.Searched (Linked p db types) seeds n {x | x ∈ keys w.seen}
      {x | x ∈ frontier}) :
    ∃ new, Adds p db new w (walk p db types depth w frontier) ∧
      {x | x ∈ keys (walk p db types depth w frontier).seen} =
        Closure.ball (Linked p db types) seeds (n + depth) := by
  induction depth generalizing w n frontier with
  | zero => exact ⟨[], adds_nothing, searched.seen_eq⟩
  | succ depth ih =>
      obtain ⟨new, round⟩ := visitAll_extends p db types frontier w
      have sorted (x : Nat) : x ∈ (visitAll p db types w frontier).next.insertionSort (· ≤ ·) ↔
          x ∈ new.map Memory.id := by
        rw [List.mem_insertionSort, round.next, List.nil_append]
      have adds : Adds p db new w (visitAll p db types w frontier) :=
        ⟨round.rows, round.seen, round.added, round.fresh, round.once⟩
      have next : Closure.Searched (Linked p db types) seeds (n + 1)
          {x | x ∈ keys (visitAll p db types w frontier).seen}
          {x | x ∈ (visitAll p db types w frontier).next.insertionSort (· ≤ ·)} := by
        apply searched.round ahead
        · intro x
          rw [Set.mem_ofPred_eq, round.reached]
          apply or_congr_right
          constructor
          · intro ⟨⟨y, front, linked⟩, known⟩
            exact ⟨y, front, linked, known⟩
          · intro ⟨y, front, linked, known⟩
            exact ⟨⟨y, front, linked⟩, known⟩
        · intro x present outside
          exact ((adds.mem_keys x).mp present).resolve_right fun inside => outside ((sorted x).mpr inside)
      simp only [walk]
      rw [show n + (depth + 1) = n + 1 + depth by omega]
      split
      · rename_i none
        rw [none] at next
        refine ⟨new, adds, Closure.Searched.stop ?_ depth⟩
        simpa using next
      · obtain ⟨others, more, reached⟩ := ih (visitAll p db types w frontier) (n + 1) _
          (fun x inside => (adds.mem_keys x).mpr (Or.inr ((sorted x).mp inside))) next
        exact ⟨new ++ others, adds.trans more, reached⟩

/-! The walk with its count finds what the walk of the loop finds. -/

theorem visit_eq_follow (memoryId : Nat) (link : MemoryLink) (w : Walk) :
    follow p db memoryId (w.seen, w.next) link =
      ((visit p db memoryId w link).seen, (visit p db memoryId w link).next) := by
  rw [follow, visit]
  by_cases old : (Dict.get? w.seen (link.other memoryId)).isSome
  · simp only [old, if_true]
  · simp only [old, Bool.false_eq_true, if_false]
    cases MemoryRepo.getById p db (link.other memoryId) with
    | none => rfl
    | some m => rfl

theorem visits_eq_follow (memoryId : Nat) (links : List MemoryLink) (w : Walk) :
    links.foldl (follow p db memoryId) (w.seen, w.next) =
      ((links.foldl (visit p db memoryId) w).seen, (links.foldl (visit p db memoryId) w).next) := by
  induction links generalizing w with
  | nil => rfl
  | cons link rest ih => rw [List.foldl_cons, visit_eq_follow, ih, List.foldl_cons]

theorem visitAll_eq_followAll (types : List MemoryLinkType) (frontier : List Nat) (w : Walk) :
    followAll p db types w.seen frontier =
      ((visitAll p db types w frontier).seen, (visitAll p db types w frontier).next) := by
  rw [followAll, visitAll]
  show frontier.foldl _ ({ w with next := [] }.seen, { w with next := [] }.next) = _
  generalize { w with next := [] } = start
  induction frontier generalizing start with
  | nil => rfl
  | cons memoryId rest ih => rw [List.foldl_cons, visits_eq_follow, ih, List.foldl_cons]

theorem expandLinks_eq_walk (types : List MemoryLinkType) (depth : Nat) (frontier : List Nat)
    (w : Walk) :
    expandLinks p db types depth w.seen frontier = (walk p db types depth w frontier).seen := by
  induction depth generalizing frontier w with
  | zero => rfl
  | succ depth ih =>
      simp only [expandLinks, walk, visitAll_eq_followAll]
      split
      · rfl
      · exact ih _ _

/-- The next frontier of a round has known memories. -/
theorem followAll_known (collected : Collected p db seen) (types : List MemoryLinkType)
    (frontier : List Nat) : Collected p db (followAll p db types seen frontier).1 ∧
      ∀ id ∈ (followAll p db types seen frontier).2, Known p db id := by
  obtain ⟨new, round⟩ := visitAll_extends p db types frontier { seen := seen }
  rw [visitAll_eq_followAll types frontier { seen := seen }]
  refine ⟨round.toAdds.collected collected, ?_⟩
  intro id inside
  simp only [round.next, List.nil_append] at inside
  obtain ⟨m, present, same⟩ := List.mem_map.mp inside
  exact ⟨m, round.rows m present, same⟩

variable (p db) in
/-- A walk that starts from all candidates adds the live rows within its number of links. -/
theorem adds_expandLinks (types : List MemoryLinkType) (maxDepth : Nat)
    (seen : Dict Nat HybridSearchHit) :
    ∃ new, Adds p db new { seen := seen }
      { seen := (expandLinks_ p db (keys seen) types maxDepth seen).1
        added := (expandLinks_ p db (keys seen) types maxDepth seen).2 } ∧
      {x | x ∈ keys (expandLinks_ p db (keys seen) types maxDepth seen).1} =
        Closure.ball (Linked p db types) {x | x ∈ keys seen} maxDepth := by
  rw [expandLinks_]
  split
  · rename_i none
    refine ⟨[], adds_nothing, ?_⟩
    have empty : {x | x ∈ keys seen} = (∅ : Set Nat) := by simp [none]
    rw [empty]
    ext x
    exact ⟨fun inside => absurd inside (Set.notMem_empty x), fun ⟨seed, inside, _⟩ =>
      absurd inside (Set.notMem_empty seed)⟩
  · have walked := walk_spec p db types maxDepth { seen := seen } {x | x ∈ keys seen} 0
      (keys seen) (fun _ present => present) Closure.searched_start
    rw [Nat.zero_add] at walked
    obtain ⟨new, adds, reached⟩ := walked
    exact ⟨new, ⟨adds.rows, adds.seen, adds.added, adds.fresh, adds.once⟩, reached⟩

/-- The loop of a plan uses the same candidates, and counts them alike. -/
theorem expandLinks_counted (types : List MemoryLinkType) (maxDepth : Nat)
    (seen : Dict Nat HybridSearchHit) :
    expandLinks_ p db (keys seen) types maxDepth seen =
      (expandLinks p db types maxDepth seen (keys seen),
        (expandLinks p db types maxDepth seen (keys seen)).length - seen.length) := by
  obtain ⟨new, adds, _⟩ := adds_expandLinks p db types maxDepth seen
  have same : (expandLinks_ p db (keys seen) types maxDepth seen).1 =
      expandLinks p db types maxDepth seen (keys seen) := by
    rw [expandLinks_]
    split
    · rename_i none
      have empty : seen = [] := List.map_eq_nil_iff.mp none
      subst empty
      cases maxDepth with
      | zero => rfl
      | succ depth => rfl
    · exact (expandLinks_eq_walk types maxDepth (keys seen) { seen := seen }).symm
  have lengths := congrArg List.length adds.seen
  have count := adds.added
  simp only [List.length_append, List.length_map, same] at lengths count
  apply Prod.ext
  · exact same
  · rw [lengths, count]
    omega

/-! What a link expansion is to add. -/

/-- A link of one of the types joins the two memories, in either direction, and the second one is live
and visible. -/
def Joined (p : Principal) (db : Database) (types : List MemoryLinkType) (a b : Nat) : Prop :=
  (∃ link ∈ db.links, link.linkType ∈ types ∧
    ((link.fromMemoryId = a ∧ link.toMemoryId = b) ∨ (link.toMemoryId = a ∧ link.fromMemoryId = b))) ∧
  Known p db b

/-- A path of links of the types leads from a candidate to the live and visible memory, through others
such. -/
def Reachable (p : Principal) (db : Database) (types : List MemoryLinkType) (maxDepth : Nat)
    (seen : Dict Nat HybridSearchHit) (id : Nat) : Prop :=
  Known p db id ∧ id ∈ Closure.ball (Joined p db types) {x | x ∈ keys seen} maxDepth

/-- Exactly the reachable memories that are no candidates yet are added, each one once, and counted. -/
structure Expanded (p : Principal) (db : Database) (types : List MemoryLinkType) (maxDepth : Nat)
    (seen : Dict Nat HybridSearchHit) (new : List Memory) (result : Dict Nat HybridSearchHit × Nat) :
    Prop where
  candidates : result.1 = seen ++ new.map entryOf
  rows : ∀ m ∈ new, m ∈ MemoryRepo.liveRows p db
  once : (new.map Memory.id).Nodup
  count : result.2 = new.length
  exact : ∀ id, id ∈ new.map Memory.id ↔ id ∉ keys seen ∧ Reachable p db types maxDepth seen id

/-- No link of any type leads from a candidate to a live and visible memory that is no candidate. -/
def NoWayOut (p : Principal) (db : Database) (seen : Dict Nat HybridSearchHit) : Prop :=
  ∀ a ∈ keys seen, ∀ b, Linked p db [] a b → b ∈ keys seen

theorem touches_other_iff (link : MemoryLink) (a b : Nat) :
    link.touches a = true ∧ link.other a = b ↔
      (link.fromMemoryId = a ∧ link.toMemoryId = b) ∨ (link.toMemoryId = a ∧ link.fromMemoryId = b) := by
  simp only [MemoryLink.touches, MemoryLink.other, Bool.or_eq_true, beq_iff_eq]
  by_cases start : link.fromMemoryId = a
  · rw [if_pos start]
    constructor
    · exact fun holds => Or.inl ⟨start, holds.2⟩
    · intro joined
      cases joined with
      | inl forth => exact ⟨Or.inl start, forth.2⟩
      | inr back => exact ⟨Or.inl start, by rw [back.1, ← start, back.2]⟩
  · simp only [start, false_or, if_false, false_and]

/-- With some types, the code follows the links of these types. -/
theorem linked_iff (typed : types ≠ []) (a b : Nat) : Linked p db types a b ↔ Joined p db types a b := by
  have empty : types.isEmpty = false := by simpa using typed
  rw [Linked, Joined]
  apply and_congr_left'
  apply exists_congr
  intro link
  rw [MemoryLinkRepo.neighbors, List.mem_filter, ← touches_other_iff, empty, Bool.false_or,
    Bool.and_eq_true, List.contains_iff_mem]
  tauto

/-- Without types, there is no path. -/
theorem ball_joined_nil (seeds : Set Nat) (n : Nat) :
    Closure.ball (Joined p db []) seeds n = seeds := by
  apply Closure.ball_of_closed
  intro a _ b ⟨⟨link, _, own, _⟩, _⟩
  exact absurd own List.not_mem_nil

/-- A link expansion adds exactly what the links of its types reach exactly when it has types or no link
of another type leads out of the candidates. -/
theorem expanded_iff (p : Principal) (db : Database) (types : List MemoryLinkType) (maxDepth : Nat)
    (valid : (PlanStep.linkExpand types maxDepth).valid = true) (seen : Dict Nat HybridSearchHit) :
    (∃ new, Expanded p db types maxDepth seen new
      (expandLinks_ p db (keys seen) types maxDepth seen)) ↔ types ≠ [] ∨ NoWayOut p db seen := by
  obtain ⟨new, adds, reached⟩ := adds_expandLinks p db types maxDepth seen
  have members (id : Nat) : id ∈ keys (expandLinks_ p db (keys seen) types maxDepth seen).1 ↔
      id ∈ Closure.ball (Linked p db types) {x | x ∈ keys seen} maxDepth := by
    rw [← reached]
    exact Iff.rfl
  constructor
  · intro ⟨new, expanded⟩
    by_cases untyped : types = []
    · subst untyped
      right
      intro a inside b linked
      obtain ⟨depth, rfl⟩ : ∃ depth, maxDepth = depth + 1 := by
        have bounds := of_decide_eq_true valid
        exact ⟨maxDepth - 1, by omega⟩
      have found := (members b).mpr ⟨a, inside, Closure.Within.tail (Closure.Within.refl depth a) linked⟩
      rw [keys, expanded.candidates, List.map_append, List.map_map, List.mem_append] at found
      cases found with
      | inl old => exact old
      | inr later =>
          have reachable := ((expanded.exact b).mp later).2.2
          rwa [ball_joined_nil] at reachable
    · exact Or.inl untyped
  · intro condition
    have same : Closure.ball (Linked p db types) {x | x ∈ keys seen} maxDepth =
        Closure.ball (Joined p db types) {x | x ∈ keys seen} maxDepth := by
      by_cases untyped : types = []
      · subst untyped
        have closed := condition.resolve_left (by simp)
        have still : Closure.ball (Linked p db []) {x | x ∈ keys seen} maxDepth = {x | x ∈ keys seen} :=
          Closure.ball_of_closed closed maxDepth
        rw [ball_joined_nil, still]
      · have relations : Linked p db types = Joined p db types := by
          funext a b
          exact propext (linked_iff untyped a b)
        rw [relations]
    refine ⟨new, adds.seen, adds.rows, adds.once, by simpa using adds.added, fun id => ?_⟩
    rw [Reachable, ← same, ← members]
    constructor
    · intro inside
      obtain ⟨m, row, own⟩ := List.mem_map.mp inside
      exact ⟨own ▸ adds.fresh m row, ⟨m, adds.rows m row, own⟩, (adds.mem_keys id).mpr (Or.inr inside)⟩
    · intro ⟨fresh, _, present⟩
      exact ((adds.mem_keys id).mp present).resolve_left fresh

def sampleMember : Principal where
  actorId := 2
  actorKind := .user
  orgId := 1
  roles := [(⟨.workspace, 1⟩, .member)]

def sampleMemory (id : Nat) (body : Str) (status : ReviewStatus) : Memory :=
  let payload : CreateMemoryInput := { scope := MemoryService.sampleScope, body := body }
  { MemoryService.newRow MemoryService.sampleEnvironment sampleMember
      { now := id, newPublicId := BitVec.ofNat 128 id } payload
      (MemoryService.screen MemoryService.sampleEnvironment payload) ⟨status, []⟩
      MemoryService.defaultTsConfig none with id := id }

/-- A memory is linked with another one that waits for its review. -/
def sampleLinked : Database where
  memories := (Table.empty.insert (sampleMemory 1 "x" .approved) (Table.fresh_empty _)).insert
    (sampleMemory 2 "y" .pending) (by
      intro other present
      rw [List.mem_singleton.mp present]
      decide)
  links := [⟨1, 2, .related, onePointZero, 0⟩]

/-- These are the candidates after a search that found the first memory. -/
def sampleSeen : Dict Nat HybridSearchHit := [entryOf (sampleMemory 1 "x" .approved)]

/-- A step without types follows the links of every type. -/
theorem untyped_expansion_follows_links :
    ¬ ∀ (p : Principal) (db : Database) (types : List MemoryLinkType) (maxDepth : Nat)
      (seen : Dict Nat HybridSearchHit), (PlanStep.linkExpand types maxDepth).valid = true →
        ∃ new, Expanded p db types maxDepth seen new
          (expandLinks_ p db (keys seen) types maxDepth seen) := by
  intro claim
  obtain ⟨new, expanded⟩ := claim sampleMember sampleLinked [] 1 sampleSeen (by decide)
  have found : 2 ∈ keys (expandLinks_ sampleMember sampleLinked (keys sampleSeen) [] 1 sampleSeen).1 := by
    decide +kernel
  rw [keys, expanded.candidates, List.map_append, List.map_map, List.mem_append] at found
  cases found with
  | inl old => exact absurd old (by decide)
  | inr later =>
      have reachable := ((expanded.exact 2).mp later).2.2
      rw [ball_joined_nil] at reachable
      exact absurd reachable (show 2 ∉ keys sampleSeen by decide)

/-- A step with the type of the link adds the other memory. -/
theorem typed_expansion_follows_links : ∃ new, Expanded sampleMember sampleLinked [.related] 1 sampleSeen
    new (expandLinks_ sampleMember sampleLinked (keys sampleSeen) [.related] 1 sampleSeen) :=
  (expanded_iff sampleMember sampleLinked [.related] 1 (by decide) sampleSeen).mpr
    (Or.inl (by decide))

end Kortex.AgentLoop
