import Kortex.Library.Sorted
import Kortex.Proof.ConflictDirection

/-
This file proves when the conflict task has judged all similar memories on their current texts.
-/

namespace Kortex

namespace ConflictTask

/-- The candidate shows the memory with its current texts. -/
def Shows (c : ConflictCandidate) (m : Memory) : Prop :=
  c.memoryId = m.id ∧ c.title = m.title ∧ c.body = m.body

/-- The judge was asked about the first memory beside the second, both with their current texts. -/
def JudgedAgainst (s : State) (a b : Memory) : Prop :=
  ∃ judged ∈ s.judged, Shows judged.incoming a ∧ ∃ c ∈ judged.existing, Shows c b

variable (env : Environment) (engine : SearchEngine) (complement : PyFloat → PyFloat)

/-- The memory is similar to the vector of another one. -/
def similar (vector : List PyFloat) (m : Memory) : Bool :=
  (MemoryRepo.similarity engine complement vector m).ge env.settings.conflictSimilarityThreshold

/-- Two memories of a judged kind may conflict: they have the same org, scope and kind, and their
vectors are similar. -/
structure Comparable (a b : Memory) : Prop where
  distinct : a.id ≠ b.id
  live : a.live = true ∧ b.live = true
  approved : a.reviewStatus = .approved ∧ b.reviewStatus = .approved
  judgedKind : a.kind ∈ judgedKinds
  kind : b.kind = a.kind
  orgId : b.orgId = a.orgId
  scopeType : b.scopeType = a.scopeType
  scopeId : b.scopeId = a.scopeId
  embedded : b.embedding.isSome = true
  near : ∃ vector, a.embedding = some vector ∧ similar env engine complement vector b = true

/-- No memory waits for its conflict check. -/
def NoneAwaits (s : State) : Prop := ∀ m ∈ s.db.memories.rows, awaitsCheck s.checkedAt m = false

/-- The link comes from a verdict on the two memories with their current texts. -/
structure Verdict (judged : Judgement) (link : MemoryLink) (a b : Memory) : Prop where
  incoming : Shows judged.incoming a
  existing : ∃ c ∈ judged.existing, Shows c b
  verdict : ∃ verdict ∈ judged.verdicts, verdict.memoryId = link.toMemoryId ∧
    linkTypeOf verdict.relation = some link.linkType

/-- All comparable memories were judged on their current texts, and so were the ends of all links that
the task has written between live memories. -/
structure CurrentlyJudged (s : State) : Prop where
  pairs : ∀ a ∈ s.db.memories.rows, ∀ b ∈ s.db.memories.rows, Comparable env engine complement a b →
    JudgedAgainst s a b ∨ JudgedAgainst s b a
  links : ∀ judged ∈ s.judged, ∀ link ∈ judged.links, ∀ a ∈ s.db.memories.rows,
    ∀ b ∈ s.db.memories.rows, a.live = true → b.live = true → a.id = link.fromMemoryId →
      b.id = link.toMemoryId → Verdict judged link a b

/-- The distance is symmetric, and nearer vectors are more similar. -/
structure CosineDistance : Prop where
  symmetric : ∀ v w, engine.distance v w = engine.distance w v
  falls : ∀ d d' threshold, PyFloat.sqlLe d d' = true → (complement d').ge threshold = true →
    (complement d).ge threshold = true

/-- Each memory that is checked has fewer similar candidates than the task looks at. -/
def Uncrowded (s : State) : Event → Prop
  | .worker _ => True
  | .detect _ => ∀ m ∈ listPendingConflictCheck env s, ∀ vector, m.embedding = some vector →
      ((s.db.memories.rows.filter (MemoryRepo.isConflictCandidate m)).filter
        (similar env engine complement vector)).length < env.settings.conflictMaxCandidates

/-- The memory has the mark of a conflict check. -/
def Marked (s : State) (m : Memory) : Prop := s.checkedAt m.id ≠ none

/-- A link of the task stands between the memory and a live one. -/
def Linked (s : State) (m : Memory) : Prop :=
  ∃ link ∈ s.written, ∃ other ∈ s.db.memories.rows, other.live = true ∧
    ((m.id = link.fromMemoryId ∧ other.id = link.toMemoryId) ∨
      (other.id = link.fromMemoryId ∧ m.id = link.toMemoryId))

/-- The turn edits no text or kind of a marked memory and no text of a linked one, and approves no
marked memory. -/
structure SparesChecked (s : State) (t : MemoryTool.Turn) : Prop where
  marked : ∀ patch, ∀ m ∈ s.db.memories.rows, MemoryTool.EditsRow env s.worker.session t patch m →
    Marked s m → patch.title.getD m.title = m.title ∧ patch.body = none ∧
      patch.kind.getD m.kind = m.kind
  linked : ∀ patch, ∀ m ∈ s.db.memories.rows, MemoryTool.EditsRow env s.worker.session t patch m →
    Linked s m → patch.title.getD m.title = m.title ∧ patch.body.getD m.body = m.body
  approves : ∀ m ∈ s.db.memories.rows, MemoryTool.ReviewsRow s.worker.session t true m → ¬ Marked s m

/-- The step changes nothing that the conflict check of a memory has read. -/
def KeepsChecked (s : State) : Event → Prop
  | .worker (.turn t) => SparesChecked env s t
  | .worker (.store run _ _) => ∀ pending vector rest,
      s.worker.phase run = .storing ((pending, some vector) :: rest) → ∀ m ∈ s.db.memories.rows,
        m.id = pending.memory.id → Marked s m → m.embedding = some vector
  | _ => True

/-- These facts about the marks and the links carry over from step to step. -/
structure Checked (s : State) : Prop where
  known : ∀ id, s.checkedAt id ≠ none → ∃ m ∈ s.db.memories.rows, m.id = id
  anchored : Anchored s
  pairs : ∀ a ∈ s.db.memories.rows, ∀ b ∈ s.db.memories.rows, Marked s a → Marked s b →
    Comparable env engine complement a b → JudgedAgainst s a b ∨ JudgedAgainst s b a
  links : ∀ judged ∈ s.judged, ∀ link ∈ judged.links, ∀ a ∈ s.db.memories.rows,
    ∀ b ∈ s.db.memories.rows, a.live = true → b.live = true → a.id = link.fromMemoryId →
      b.id = link.toMemoryId → Verdict judged link a b

variable {env engine complement}

theorem Comparable.symm (cosine : CosineDistance engine complement) {a b : Memory}
    (pair : Comparable env engine complement a b) : Comparable env engine complement b a := by
  obtain ⟨vector, own, near⟩ := pair.near
  obtain ⟨other, embedded⟩ := Option.isSome_iff_exists.mp pair.embedded
  have back : similar env engine complement other a = true := by
    rw [similar, MemoryRepo.similarity, embedded, Option.getD_some] at near
    rw [similar, MemoryRepo.similarity, own, Option.getD_some, cosine.symmetric]
    exact near
  exact ⟨pair.distinct.symm, pair.live.symm, pair.approved.symm, pair.kind ▸ pair.judgedKind,
    pair.kind.symm, pair.orgId.symm, pair.scopeType.symm, pair.scopeId.symm,
    Option.isSome_iff_exists.mpr ⟨vector, own⟩, other, embedded, back⟩

theorem mem_neighbours_rows (db : Database) (m n : Memory)
    (inside : n ∈ neighbours env engine complement db m) : n ∈ db.memories.rows := by
  rw [neighbours, MemoryRepo.listConflictCandidates] at inside
  split at inside
  · exact absurd inside List.not_mem_nil
  · rw [List.mem_insertionSort, List.mem_filter] at inside
    have nearest := List.mem_of_mem_take inside.1
    rw [List.mem_insertionSort, List.mem_filter] at nearest
    exact nearest.1

/-- A comparable memory is among the neighbours, unless more similar ones take all places. -/
theorem mem_neighbours_of_comparable (cosine : CosineDistance engine complement) (db : Database)
    (a b : Memory) (present : b ∈ db.memories.rows) (pair : Comparable env engine complement a b)
    (few : ∀ vector, a.embedding = some vector →
      ((db.memories.rows.filter (MemoryRepo.isConflictCandidate a)).filter
        (similar env engine complement vector)).length < env.settings.conflictMaxCandidates) :
    b ∈ neighbours env engine complement db a := by
  obtain ⟨vector, own, near⟩ := pair.near
  have candidate : b ∈ db.memories.rows.filter (MemoryRepo.isConflictCandidate a) := by
    rw [List.mem_filter]
    refine ⟨present, ?_⟩
    simp [MemoryRepo.isConflictCandidate, pair.live.2, pair.approved.2, pair.embedded, pair.orgId,
      pair.scopeType, pair.scopeId, pair.kind, pair.distinct.symm]
  have total : Std.Total (Retrieval.nearestFirst engine vector) := ⟨fun _ _ => PyFloat.sqlLe_total _ _⟩
  have transitive : IsTrans _ (Retrieval.nearestFirst engine vector) :=
    ⟨fun _ _ _ => PyFloat.sqlLe_trans _ _ _⟩
  simp only [neighbours, MemoryRepo.listConflictCandidates, own, List.mem_insertionSort, List.mem_filter]
  refine ⟨?_, near⟩
  apply mem_take_of_falls (similar env engine complement vector) (r := Retrieval.nearestFirst engine vector)
  · exact fun x y nearer close => cosine.falls _ _ _ nearer close
  · exact List.pairwise_insertionSort _ _
  · rw [((List.perm_insertionSort _ _).filter _).length_eq]
    exact le_of_lt (few vector own)
  · exact (List.mem_insertionSort _).mpr candidate
  · exact near

theorem Shows.congr {c : ConflictCandidate} {m m' : Memory} (shows' : Shows c m) (id : m'.id = m.id)
    (title : m'.title = m.title) (body : m'.body = m.body) : Shows c m' :=
  ⟨shows'.1.trans id.symm, shows'.2.1.trans title.symm, shows'.2.2.trans body.symm⟩

theorem marked_of_noneAwaits (s : State) (none : NoneAwaits s) (m : Memory)
    (present : m ∈ s.db.memories.rows) (live : m.live = true) (embedded : m.embedding.isSome = true)
    (kind : m.kind ∈ judgedKinds) : Marked s m := by
  intro unmarked
  have awaits := none m present
  simp [awaitsCheck, live, embedded, unmarked] at awaits
  exact awaits kind

/-- When no memory waits, the marks cover all comparable memories. -/
theorem currentlyJudged_of_checked (s : State)
    (checked : Checked env engine complement s)
    (none : NoneAwaits s) : CurrentlyJudged env engine complement s where
  pairs a first b second pair := by
    obtain ⟨vector, own, _⟩ := pair.near
    have markA := marked_of_noneAwaits s none a first pair.live.1
      (Option.isSome_iff_exists.mpr ⟨vector, own⟩) pair.judgedKind
    have markB := marked_of_noneAwaits s none b second pair.live.2 pair.embedded
      (pair.kind ▸ pair.judgedKind)
    exact checked.pairs a first b second markA markB pair
  links := checked.links

theorem Comparable.of_content {a b a' b' : Memory} (idA : a'.id = a.id) (idB : b'.id = b.id)
    (originA : SameOrigin a a') (originB : SameOrigin b b') (contentA : content a' = content a)
    (contentB : content b' = content b) (pair : Comparable env engine complement a' b') :
    Comparable env engine complement a b := by
  simp only [content, Prod.mk.injEq] at contentA contentB
  obtain ⟨_, _, kindA, embeddingA, reviewA⟩ := contentA
  obtain ⟨_, _, kindB, embeddingB, reviewB⟩ := contentB
  obtain ⟨vector, own, near⟩ := pair.near
  refine ⟨?_, ⟨originA.live pair.live.1, originB.live pair.live.2⟩,
    ⟨reviewA ▸ pair.approved.1, reviewB ▸ pair.approved.2⟩, kindA ▸ pair.judgedKind, ?_, ?_, ?_, ?_,
    embeddingB ▸ pair.embedded, vector, embeddingA ▸ own, ?_⟩
  · rw [← idA, ← idB]
    exact pair.distinct
  · rw [← kindA, ← kindB, pair.kind]
  · rw [← originA.orgId, ← originB.orgId, pair.orgId]
  · rw [← originA.scopeType, ← originB.scopeType, pair.scopeType]
  · rw [← originA.scopeId, ← originB.scopeId, pair.scopeId]
  · rw [similar, MemoryRepo.similarity, ← embeddingB]
    exact near

/-- A row of a marked memory comes from the row that was marked. -/
theorem origin_of_known {R : Memory → Memory → Prop} {db db' : Database} (evolves : Evolves R db db')
    (m' : Memory) (inside : m' ∈ db'.memories.rows) (known : ∃ m ∈ db.memories.rows, m.id = m'.id) :
    ∃ m ∈ db.memories.rows, m'.id = m.id ∧ R m m' := by
  rcases evolves.origin m' inside with old | new
  · exact old
  · obtain ⟨m, present, same⟩ := known
    exact absurd (new m present) (by omega)

/-- A step that keeps what was checked changes no column of a marked memory that the check has read,
unless a review rejects it. -/
theorem content_of_keeps (s : State) (e : EmbeddingTask.Event)
    (keeps : KeepsChecked env s (.worker e)) (m m' : Memory) (present : m ∈ s.db.memories.rows)
    (changed : WorkerChange env s.worker e m m') (marked : Marked s m)
    (approved : m'.reviewStatus = .approved) : content m' = content m := by
  cases changed with
  | touched touched => exact touched.2
  | turned t same changed =>
      subst same
      cases changed with
      | touched touched => exact touched.2
      | patched patch asked =>
          obtain ⟨title, body, kind⟩ := keeps.marked patch m present asked marked
          simp [content, Memory.patched, title, body, kind]
      | reviewed approve reviewerId asked =>
          cases approve with
          | true => exact absurd marked (keeps.approves m present asked)
          | false => exact absurd approved (by simp [Memory.withReview])
  | embedded run now error pending vector rest same storing own =>
      subst same
      have vector := keeps pending vector rest storing m present own marked
      simp [content, Memory.embedded, vector]

theorem texts_of_keeps (s : State) (e : EmbeddingTask.Event)
    (keeps : KeepsChecked env s (.worker e)) (m m' : Memory) (present : m ∈ s.db.memories.rows)
    (changed : WorkerChange env s.worker e m m') (linked : Linked s m) :
    m'.title = m.title ∧ m'.body = m.body := by
  cases changed with
  | touched touched =>
      have same := touched.2
      simp only [content, Prod.mk.injEq] at same
      exact ⟨same.1, same.2.1⟩
  | turned t same changed =>
      subst same
      cases changed with
      | touched touched =>
          have same := touched.2
          simp only [content, Prod.mk.injEq] at same
          exact ⟨same.1, same.2.1⟩
      | patched patch asked => exact keeps.linked patch m present asked linked
      | reviewed approve reviewerId asked => exact ⟨rfl, rfl⟩
  | embedded run now error pending vector rest same storing own => exact ⟨rfl, rfl⟩

theorem JudgedAgainst.congr {s s' : State} {a b a' b' : Memory} (judgedBoth : JudgedAgainst s a b)
    (more : ∀ judged ∈ s.judged, judged ∈ s'.judged) (idA : a'.id = a.id) (idB : b'.id = b.id)
    (contentA : content a' = content a) (contentB : content b' = content b) :
    JudgedAgainst s' a' b' := by
  simp only [content, Prod.mk.injEq] at contentA contentB
  obtain ⟨judged, listed, first, c, shown, second⟩ := judgedBoth
  exact ⟨judged, more judged listed, first.congr idA contentA.1 contentA.2.1, c, shown,
    second.congr idB contentB.1 contentB.2.1⟩

theorem Verdict.congr {judged : Judgement} {link : MemoryLink} {a b a' b' : Memory}
    (own : Verdict judged link a b) (idA : a'.id = a.id) (idB : b'.id = b.id)
    (textsA : a'.title = a.title ∧ a'.body = a.body) (textsB : b'.title = b.title ∧ b'.body = b.body) :
    Verdict judged link a' b' := by
  obtain ⟨c, shown, second⟩ := own.existing
  exact ⟨own.incoming.congr idA textsA.1 textsA.2, ⟨c, shown, second.congr idB textsB.1 textsB.2⟩,
    own.verdict⟩

theorem checked_worker (s : State) (e : EmbeddingTask.Event)
    (checked : Checked env engine complement s)
    (keeps : KeepsChecked env s (.worker e)) :
    Checked env engine complement
      (step env engine complement s (.worker e)) := by
  have evolves := evolves_worker env s.worker e
  constructor
  · intro id marked
    obtain ⟨m, present, same⟩ := checked.known id marked
    obtain ⟨m', inside, sameId, _⟩ := evolves.stays m present
    exact ⟨m', inside, sameId.trans same⟩
  · exact anchored_step env engine complement s (.worker e) checked.anchored
  · intro a' insideA b' insideB markA markB pair
    obtain ⟨a, first, idA, changeA⟩ := origin_of_known evolves a' insideA (checked.known _ markA)
    obtain ⟨b, second, idB, changeB⟩ := origin_of_known evolves b' insideB (checked.known _ markB)
    have markedA : Marked s a := by rwa [Marked, ← idA]
    have markedB : Marked s b := by rwa [Marked, ← idB]
    have contentA := content_of_keeps s e keeps a a' first changeA markedA pair.approved.1
    have contentB := content_of_keeps s e keeps b b' second changeB markedB pair.approved.2
    have before := pair.of_content idA idB (changeA.sameOrigin) (changeB.sameOrigin) contentA contentB
    rcases checked.pairs a first b second markedA markedB before with forth | back
    · exact Or.inl (forth.congr (fun _ listed => listed) idA idB contentA contentB)
    · exact Or.inr (back.congr (fun _ listed => listed) idB idA contentB contentA)
  · intro judged listed link own a' insideA b' insideB liveA' liveB' source target
    have written : link ∈ s.written := List.mem_flatMap.mpr ⟨judged, listed, own⟩
    obtain ⟨⟨a0, presentA, sameA⟩, b0, presentB, sameB⟩ := checked.anchored link written
    obtain ⟨a, first, idA, changeA⟩ := origin_of_known evolves a' insideA
      ⟨a0, presentA, sameA.trans source.symm⟩
    obtain ⟨b, second, idB, changeB⟩ := origin_of_known evolves b' insideB
      ⟨b0, presentB, sameB.trans target.symm⟩
    have liveA := changeA.sameOrigin.live liveA'
    have liveB := changeB.sameOrigin.live liveB'
    have leaves := idA.symm.trans source
    have arrives := idB.symm.trans target
    have before := checked.links judged listed link own a first b second liveA liveB leaves arrives
    exact before.congr idA idB
      (texts_of_keeps s e keeps a a' first changeA
        ⟨link, written, b, second, liveB, Or.inl ⟨leaves, arrives⟩⟩)
      (texts_of_keeps s e keeps b b' second changeB
        ⟨link, written, a, first, liveA, Or.inr ⟨leaves, arrives⟩⟩)

/-- A memory that is checked has been judged against each comparable one. -/
theorem judgement_of_checks (cosine : CosineDistance engine complement) (d : Detection) (s : State)
    (uncrowded : Uncrowded env engine complement s (.detect d)) (a b : Memory)
    (checks : a ∈ checks env d s) (present : b ∈ s.db.memories.rows)
    (pair : Comparable env engine complement a b) :
    ∃ judged ∈ judges env engine complement d s, Shows judged.incoming a ∧
      ∃ c ∈ judged.existing, Shows c b := by
  have pending := (List.mem_filter.mp checks).1
  have near := mem_neighbours_of_comparable cosine s.db a b present pair (uncrowded a pending)
  have shown : asCandidate b ∈ (neighbours env engine complement s.db a).map asCandidate :=
    List.mem_map_of_mem near
  have some : (neighbours env engine complement s.db a).map asCandidate ≠ [] :=
    List.ne_nil_of_mem shown
  refine ⟨_, List.mem_filterMap.mpr ⟨a, checks, if_neg some⟩, ⟨rfl, rfl, rfl⟩, asCandidate b, shown,
    rfl, rfl, rfl⟩

/-- The links of a batch come from verdicts on the texts that the memories have then. -/
theorem verdict_of_judges (judge : ConflictJudge) (d : Detection) (same : d.judge = judge.judge)
    (s : State) (judged : Judgement) (listed : judged ∈ judges env engine complement d s)
    (link : MemoryLink) (own : link ∈ judged.links) (a b : Memory) (first : a ∈ s.db.memories.rows)
    (second : b ∈ s.db.memories.rows) (source : a.id = link.fromMemoryId)
    (target : b.id = link.toMemoryId) : Verdict judged link a b := by
  obtain ⟨m, checked, judges⟩ := List.mem_filterMap.mp listed
  have pending := mem_listPending env s m (List.mem_filter.mp checked).1
  simp only [judgementOf] at judges
  split at judges
  · exact absurd judges (by simp)
  · obtain rfl := Option.some.inj judges
    obtain ⟨verdict, given, asked⟩ := List.mem_filterMap.mp own
    obtain ⟨linkType, kind, rfl⟩ := Option.map_eq_some_iff.mp asked
    obtain rfl := memory_eq_of_id s.db a m first pending.1 source
    have named := given
    rw [same] at named
    obtain ⟨c, shown, sameId⟩ := judge.named _ _ verdict named
    obtain ⟨n, near, rfl⟩ := List.mem_map.mp shown
    obtain rfl := memory_eq_of_id s.db b n second (mem_neighbours_rows s.db a n near)
      (target.trans sameId.symm)
    exact ⟨⟨rfl, rfl, rfl⟩, ⟨_, shown, rfl, rfl, rfl⟩, verdict, given, rfl, kind⟩

theorem marked_detected (d : Detection) (s : State) (id : Nat)
    (marked : (detected env engine complement d s).checkedAt id ≠ none) :
    s.checkedAt id ≠ none ∨ ∃ m ∈ checks env d s, m.id = id := by
  have mark : (detected env engine complement d s).checkedAt id =
      if ((checks env d s).map Memory.id).contains id then some d.now else s.checkedAt id := rfl
  rw [mark] at marked
  split at marked
  · rename_i listed
    exact Or.inr (List.mem_map.mp (List.contains_iff_mem.mp listed))
  · exact Or.inl marked

theorem checked_detected (cosine : CosineDistance engine complement) (judge : ConflictJudge)
    (d : Detection) (same : d.judge = judge.judge) (s : State)
    (checked : Checked env engine complement s)
    (uncrowded : Uncrowded env engine complement s (.detect d))
    (through : GoesThrough env engine complement d s) :
    Checked env engine complement (detected env engine complement d s) := by
  have evolves := evolves_detected env engine complement d s
  have more (judged : Judgement) (listed : judged ∈ s.judged) :
      judged ∈ (detected env engine complement d s).judged := List.mem_append_left _ listed
  have known (id : Nat) (marked : (detected env engine complement d s).checkedAt id ≠ none) :
      ∃ m ∈ s.db.memories.rows, m.id = id := by
    rcases marked_detected d s id marked with old | ⟨m, listed, rfl⟩
    · exact checked.known id old
    · exact ⟨m, (mem_listPending env s m (List.mem_filter.mp listed).1).1, rfl⟩
  -- a memory that was not marked before is one that the batch checks
  have fresh (a : Memory) (present : a ∈ s.db.memories.rows)
      (marked : (detected env engine complement d s).checkedAt a.id ≠ none) :
      Marked s a ∨ a ∈ checks env d s := by
    rcases marked_detected d s a.id marked with old | ⟨m, listed, sameId⟩
    · exact Or.inl old
    · have row := (mem_listPending env s m (List.mem_filter.mp listed).1).1
      exact Or.inr (memory_eq_of_id s.db m a row present sameId ▸ listed)
  have judgedNow (a b : Memory) (listed : a ∈ checks env d s) (present : b ∈ s.db.memories.rows)
      (pair : Comparable env engine complement a b) :
      JudgedAgainst (detected env engine complement d s) a b := by
    obtain ⟨judged, inside, shown⟩ := judgement_of_checks cosine d s uncrowded a b listed present pair
    exact ⟨judged, List.mem_append_right _ inside, shown⟩
  constructor
  · intro id marked
    obtain ⟨m, present, sameId⟩ := known id marked
    obtain ⟨m', inside, sameId', _⟩ := evolves.stays m present
    exact ⟨m', inside, sameId'.trans sameId⟩
  · exact anchored_evolves { s with judged := s.judged ++ judges env engine complement d s } _
      (evolves.mono fun _ _ touched => touched.1) rfl
      (anchored_detected env engine complement d s checked.anchored through)
  · intro a' insideA b' insideB markA markB pair
    obtain ⟨a, first, idA, touchedA⟩ := origin_of_known evolves a' insideA (known _ markA)
    obtain ⟨b, second, idB, touchedB⟩ := origin_of_known evolves b' insideB (known _ markB)
    have before := pair.of_content idA idB touchedA.1 touchedB.1 touchedA.2 touchedB.2
    have forth (judgedBoth : JudgedAgainst (detected env engine complement d s) a b) :=
      JudgedAgainst.congr judgedBoth (fun _ listed => listed) idA idB touchedA.2 touchedB.2
    have back (judgedBoth : JudgedAgainst (detected env engine complement d s) b a) :=
      JudgedAgainst.congr judgedBoth (fun _ listed => listed) idB idA touchedB.2 touchedA.2
    rcases fresh a first (idA ▸ markA) with markedA | listedA
    · rcases fresh b second (idB ▸ markB) with markedB | listedB
      · rcases checked.pairs a first b second markedA markedB before with old | old
        · exact Or.inl (old.congr more idA idB touchedA.2 touchedB.2)
        · exact Or.inr (old.congr more idB idA touchedB.2 touchedA.2)
      · exact Or.inr (back (judgedNow b a listedB first (before.symm cosine)))
    · exact Or.inl (forth (judgedNow a b listedA second before))
  · intro judged listed link own a' insideA b' insideB liveA liveB source target
    have anchored := anchored_detected env engine complement d s checked.anchored through link
      (List.mem_flatMap.mpr ⟨judged, listed, own⟩)
    obtain ⟨⟨a0, presentA, sameA⟩, b0, presentB, sameB⟩ := anchored
    obtain ⟨a, first, idA, touchedA⟩ := origin_of_known evolves a' insideA
      ⟨a0, presentA, sameA.trans source.symm⟩
    obtain ⟨b, second, idB, touchedB⟩ := origin_of_known evolves b' insideB
      ⟨b0, presentB, sameB.trans target.symm⟩
    have textsA := touchedA.2
    have textsB := touchedB.2
    simp only [content, Prod.mk.injEq] at textsA textsB
    have before : Verdict judged link a b := by
      rcases List.mem_append.mp listed with old | new
      · exact checked.links judged old link own a first b second (touchedA.1.live liveA)
          (touchedB.1.live liveB) (idA.symm.trans source) (idB.symm.trans target)
      · exact verdict_of_judges judge d same s judged new link own a b first second
          (idA.symm.trans source) (idB.symm.trans target)
    exact before.congr idA idB ⟨textsA.1, textsA.2.1⟩ ⟨textsB.1, textsB.2.1⟩

/-- A batch of the run asks the judge. -/
def AsksJudge (judge : ConflictJudge) : Event → Prop
  | .worker _ => True
  | .detect d => d.judge = judge.judge

theorem checked_step (cosine : CosineDistance engine complement) (judge : ConflictJudge) (s : State)
    (e : Event) (asks : AsksJudge judge e) (checked : Checked env engine complement s)
    (uncrowded : Uncrowded env engine complement s e) (keeps : KeepsChecked env s e) :
    Checked env engine complement (step env engine complement s e) := by
  cases e with
  | worker e => exact checked_worker s e checked keeps
  | detect d =>
      rcases detectBatch_cases env engine complement d s with ⟨_, same⟩ | ⟨through, same⟩
      · rw [step, same]
        exact checked
      · rw [step, same]
        exact checked_detected cosine judge d asks s checked uncrowded through

theorem checked_start (worker : EmbeddingTask.Worker) :
    Checked env engine complement (.start worker fun _ => none) where
  known _ marked := absurd rfl marked
  anchored _ inside := absurd inside List.not_mem_nil
  pairs _ _ _ _ marked := absurd rfl marked
  links _ inside := absurd inside List.not_mem_nil

/-- In a run that changes nothing a conflict check has read, all comparable memories were judged on
their current texts whenever no memory waits for its check. -/
theorem currentlyJudged_run (cosine : CosineDistance engine complement) (judge : ConflictJudge)
    (worker : EmbeddingTask.Worker) (events : List Event) (asks : ∀ e ∈ events, AsksJudge judge e)
    (each : Run.Each (step env engine complement)
      (fun s e => Uncrowded env engine complement s e ∧ KeepsChecked env s e)
      (.start worker fun _ => none) events) :
    Run.Always (step env engine complement)
      (fun s => NoneAwaits s → CurrentlyJudged env engine complement s)
      (.start worker fun _ => none) events := by
  have always := Run.always_of_each (fun s e checked given =>
    checked_step cosine judge s e given.1 checked given.2.1 given.2.2) (checked_start worker)
      (each.and_forall asks)
  exact always.imp fun s checked none => currentlyJudged_of_checked s checked none

/-- This judge takes every candidate for outdated. -/
def supersedingJudge : ConflictJudge where
  judge _ existing := existing.map fun candidate => ⟨candidate.memoryId, .supersedes, onePointZero⟩
  named _ existing verdict inside := by
    obtain ⟨candidate, shown, rfl⟩ := List.mem_map.mp inside
    exact ⟨candidate, shown, rfl⟩

theorem sampleCosine : CosineDistance AgentLoop.sampleEngine fun _ => onePointZero where
  symmetric _ _ := rfl
  falls _ _ _ _ close := close

def sampleTask : Environment := .ascii fun s => s

theorem uncrowded_twoUnjudged : Uncrowded sampleTask AgentLoop.sampleEngine (fun _ => onePointZero)
    (.start twoUnjudged fun _ => none) (.detect (alwaysSupersedes 3)) := by
  intro m _ vector _
  calc _ ≤ (twoUnjudged.session.db.memories.rows.filter (MemoryRepo.isConflictCandidate m)).length :=
        List.length_filter_le _ _
    _ ≤ twoUnjudged.session.db.memories.rows.length := List.length_filter_le _ _
    _ < 5 := by decide

theorem currentlyJudged_of_twoUnjudged :
    Run.Always (step sampleTask AgentLoop.sampleEngine fun _ => onePointZero)
      (fun s => NoneAwaits s →
        CurrentlyJudged sampleTask AgentLoop.sampleEngine (fun _ => onePointZero) s)
      (.start twoUnjudged fun _ => none) [.detect (alwaysSupersedes 3)] := by
  apply currentlyJudged_run sampleCosine supersedingJudge
  · intro e inside
    rw [List.mem_singleton.mp inside]
    rfl
  · exact ⟨⟨uncrowded_twoUnjudged, trivial⟩, trivial⟩

/-- A title is corrected after the check of its memory. -/
def retitled : List Event :=
  [.detect (alwaysSupersedes 3), .worker (.turn
    { principal := MemoryService.sampleOwner
      context := { now := 4, newPublicId := 9 }
      newService := true
      action := .call (.update (BitVec.ofNat 128 1) { title := some "corrected" }) })]

def retitledState : State :=
  Run.final (step sampleTask AgentLoop.sampleEngine fun _ => onePointZero)
    (.start twoUnjudged fun _ => none) retitled

theorem retitled_rows : retitledState.db.memories.rows.map
    (fun m => (m.id, m.title, m.live, (retitledState.checkedAt m.id).isSome)) =
      [(1, "corrected".toList, true, true), (2, [], true, true)] := by decide +kernel

theorem retitled_judged : retitledState.judged.map (fun judged => (judged.incoming.title,
    judged.links.map fun link => (link.fromMemoryId, link.toMemoryId))) =
      [([], [(2, 1)]), ([], [(1, 2)])] := by decide +kernel

/-- A link stays after the text of its memory was corrected, and no one judges the memory again. -/
theorem corrected_memory_keeps_link : ¬ ∀ (env : Environment) (engine : SearchEngine)
    (complement : PyFloat → PyFloat) (judge : ConflictJudge) (worker : EmbeddingTask.Worker)
    (events : List Event), CosineDistance engine complement → (∀ e ∈ events, AsksJudge judge e) →
      Run.Each (step env engine complement) (Uncrowded env engine complement)
          (.start worker fun _ => none) events →
        NoneAwaits (Run.final (step env engine complement) (.start worker fun _ => none) events) →
          CurrentlyJudged env engine complement
            (Run.final (step env engine complement) (.start worker fun _ => none) events) := by
  intro claim
  have asks (e : Event) (inside : e ∈ retitled) : AsksJudge supersedingJudge e := by
    rcases List.mem_cons.mp inside with rfl | last
    · rfl
    · rw [List.mem_singleton.mp last]
      trivial
  have noneAwaits : NoneAwaits retitledState := by
    intro m present
    have row := List.mem_map_of_mem (f := fun m => (m.id, m.title, m.live,
      (retitledState.checkedAt m.id).isSome)) present
    rw [retitled_rows] at row
    have marked : (retitledState.checkedAt m.id).isSome = true := by simp at row; tauto
    simp [awaitsCheck, Option.isSome_iff_ne_none.mp marked]
  have current := claim sampleTask AgentLoop.sampleEngine (fun _ => onePointZero) supersedingJudge
    twoUnjudged retitled sampleCosine asks ⟨uncrowded_twoUnjudged, trivial, trivial⟩ noneAwaits
  obtain ⟨a, first, rowA⟩ := List.mem_map.mp (retitled_rows ▸ List.mem_cons_self)
  obtain ⟨b, second, rowB⟩ := List.mem_map.mp
    (retitled_rows ▸ List.mem_cons_of_mem _ (List.mem_singleton_self _))
  obtain ⟨judged, listed, texts⟩ := List.mem_map.mp
    (retitled_judged ▸ List.mem_cons_of_mem _ (List.mem_singleton_self _))
  simp only [Prod.mk.injEq] at rowA rowB texts
  obtain ⟨link, own, ends⟩ := List.mem_map.mp (texts.2 ▸ List.mem_singleton_self _)
  obtain ⟨source, target⟩ := Prod.mk.inj ends
  have verdict := current.links judged listed link own a first b second rowA.2.2.1 rowB.2.2.1
    (rowA.1.trans source.symm) (rowB.1.trans target.symm)
  have title := verdict.incoming.2.1
  rw [texts.1, rowA.2.1] at title
  exact absurd title (by decide)

end ConflictTask
end Kortex
