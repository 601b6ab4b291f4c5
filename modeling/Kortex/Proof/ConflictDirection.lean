import Kortex.Library.Closure
import Kortex.Library.Run
import Kortex.Proof.AgentLoop
import Kortex.Proof.ConflictTask
import Kortex.Proof.Consolidation

/-
This file proves when the supersedes links of the conflict task lead from newer to older memories.
-/

namespace Kortex

namespace Conflicts

variable (isoformat : Instant → Str) (p : Principal) (db : Database)

theorem superseded_of_mem_anchorsOf (link : MemoryLink) (entry : Anchored) :
    (entry ∈ anchorsOf link ∧ entry.relation = "superseded_by".toList) ↔
      link.linkType = .supersedes ∧
        entry = ⟨link.toMemoryId, link.fromMemoryId, "superseded_by".toList⟩ := by
  have distinct : "supersedes".toList ≠ "superseded_by".toList := by decide
  have contradicting : "contradicts".toList ≠ "superseded_by".toList := by decide
  simp only [anchorsOf, List.mem_cons, List.not_mem_nil, or_false, beq_iff_eq]
  constructor
  · rintro ⟨rfl | rfl, relation⟩
    · split at relation
      · exact absurd relation distinct
      · exact absurd relation contradicting
    · split at relation
      · rename_i supersedes
        exact ⟨supersedes, by rw [if_pos supersedes]⟩
      · exact absurd relation contradicting
  · rintro ⟨supersedes, rfl⟩
    exact ⟨Or.inr (by rw [if_pos supersedes]), rfl⟩

/-- The entries with a note are those of a hit, whose other end is among the rows. -/
theorem exists_note_iff (rows : List Memory) (present : List Nat) (links : List MemoryLink)
    (entry : Anchored) : (∃ note, (entry, note) ∈ notesOf isoformat rows present links) ↔
      (∃ link ∈ links, entry ∈ anchorsOf link) ∧ entry.anchor ∈ present ∧
        ∃ m ∈ rows, m.id = entry.other := by
  have described (relation : Str) (other : Nat) :
      (∃ note, describe isoformat rows relation other = some note) ↔ ∃ m ∈ rows, m.id = other := by
    rw [← Option.isSome_iff_exists, describe, Option.isSome_map, List.find?_isSome]
    simp only [beq_iff_eq]
  rw [← described entry.relation entry.other]
  constructor
  · rintro ⟨note, inside⟩
    obtain ⟨found, listed, noted⟩ := List.mem_filterMap.mp inside
    split at noted
    · rename_i present
      obtain ⟨_, looked, same⟩ := Option.map_eq_some_iff.mp noted
      obtain ⟨rfl, rfl⟩ := Prod.mk.inj same
      exact ⟨List.mem_flatMap.mp listed, List.contains_iff_mem.mp present, _, looked⟩
    · exact absurd noted (by simp)
  · rintro ⟨listed, present, note, looked⟩
    refine ⟨note, List.mem_filterMap.mpr ⟨entry, List.mem_flatMap.mpr listed, ?_⟩⟩
    rw [if_pos (List.contains_iff_mem.mpr present), looked]
    rfl

/-- A hit sorts last exactly when a supersedes link leads to it from a visible memory of the page. -/
theorem mem_demoted_iff (hits : List HybridSearchHit) (id : Nat) :
    id ∈ (annotateConflicts isoformat p db hits).2 ↔ id ∈ hits.map HybridSearchHit.memoryId ∧
      ∃ link ∈ db.links, link.linkType = .supersedes ∧ link.toMemoryId = id ∧
        link.fromMemoryId ∈ hits.map HybridSearchHit.memoryId ∧
          ∃ m ∈ tenantQuery Memory.orgId p db.memories.rows, m.id = link.fromMemoryId := by
  have selected (link : MemoryLink) : link ∈ MemoryLinkRepo.conflictLinks db
      (hits.map HybridSearchHit.memoryId) ↔ link ∈ db.links ∧
        (link.linkType = .supersedes ∨ link.linkType = .contradicts) ∧
          (link.fromMemoryId ∈ hits.map HybridSearchHit.memoryId ∨
            link.toMemoryId ∈ hits.map HybridSearchHit.memoryId) := by
    simp only [MemoryLinkRepo.conflictLinks, List.mem_filter, Bool.and_eq_true, Bool.or_eq_true,
      beq_iff_eq, List.contains_iff_mem]
  rw [annotateConflicts]
  split
  · rename_i none
    refine iff_of_false List.not_mem_nil ?_
    rintro ⟨_, link, stored, supersedes, _, source, _⟩
    have inside := (selected link).mpr ⟨stored, Or.inl supersedes, Or.inl source⟩
    rw [none] at inside
    exact List.not_mem_nil inside
  · simp only [notesOf_listByIds]
    simp only [withNotes, List.mem_map (f := fun entry : Anchored × ConflictNote => entry.1.anchor),
      List.mem_filter, Bool.and_eq_true, beq_iff_eq, List.contains_iff_mem]
    constructor
    · rintro ⟨⟨entry, note⟩, ⟨noted, relation, source⟩, rfl⟩
      obtain ⟨⟨link, listed, anchored⟩, present, visible⟩ :=
        (exists_note_iff isoformat _ _ _ entry).mp ⟨note, noted⟩
      obtain ⟨supersedes, rfl⟩ := (superseded_of_mem_anchorsOf link entry).mp ⟨anchored, relation⟩
      exact ⟨present, link, ((selected link).mp listed).1, supersedes, rfl, source, visible⟩
    · rintro ⟨present, link, stored, supersedes, rfl, source, visible⟩
      have anchored := (superseded_of_mem_anchorsOf link _).mpr ⟨supersedes, rfl⟩
      obtain ⟨note, noted⟩ := (exists_note_iff isoformat _ _ _ _).mpr
        ⟨⟨link, (selected link).mpr ⟨stored, Or.inl supersedes, Or.inl source⟩, anchored.1⟩, present,
          visible⟩
      exact ⟨_, ⟨noted, rfl, source⟩, rfl⟩

theorem annotateConflicts_memoryIds (hits : List HybridSearchHit) :
    (annotateConflicts isoformat p db hits).1.map HybridSearchHit.memoryId =
      hits.map HybridSearchHit.memoryId := by
  have attached (notes : Nat → List ConflictNote) (hits : List HybridSearchHit) :
      (attach notes hits).map HybridSearchHit.memoryId = hits.map HybridSearchHit.memoryId := by
    induction hits with
    | nil => rfl
    | cons hit rest ih =>
        rw [attach, List.map_cons, List.map_cons, ih]
        split <;> rfl
  rw [annotateConflicts]
  split
  · rfl
  · exact attached _ hits

/-- The annotated page starts with a hit that does not sort last. -/
def LeadsCurrent (hits : List HybridSearchHit) : Prop :=
  let (annotated, demoted) := annotateConflicts isoformat p db hits
  ∃ lead, (demoteSuperseded annotated demoted HybridSearchHit.memoryId).head? = some lead ∧
    lead.memoryId ∉ demoted

theorem leadsCurrent_iff (hits : List HybridSearchHit) : LeadsCurrent isoformat p db hits ↔
    ∃ hit ∈ hits, hit.memoryId ∉ (annotateConflicts isoformat p db hits).2 := by
  have ids := annotateConflicts_memoryIds isoformat p db hits
  rw [LeadsCurrent]
  generalize annotateConflicts isoformat p db hits = page at ids
  obtain ⟨annotated, demoted⟩ := page
  have byIds (items : List HybridSearchHit) : (∃ hit ∈ items, hit.memoryId ∉ demoted) ↔
      ∃ id ∈ items.map HybridSearchHit.memoryId, id ∉ demoted := by simp
  rw [byIds hits, ← ids, ← byIds annotated]
  simp only [demoteSuperseded]
  constructor
  · rintro ⟨lead, first, current⟩
    have inside := List.mem_of_head? first
    rw [List.mem_append, List.mem_filter, List.mem_filter] at inside
    rcases inside with ⟨listed, _⟩ | ⟨listed, _⟩
    · exact ⟨lead, listed, current⟩
    · exact ⟨lead, listed, current⟩
  · rintro ⟨hit, listed, current⟩
    have inside : hit ∈ annotated.filter fun hit => !demoted.contains hit.memoryId := by
      simpa using ⟨listed, current⟩
    cases split : annotated.filter fun hit => !demoted.contains hit.memoryId with
    | nil =>
        rw [split] at inside
        exact absurd inside List.not_mem_nil
    | cons lead rest =>
        have own : lead ∈ annotated.filter fun hit => !demoted.contains hit.memoryId := by
          rw [split]
          exact List.mem_cons_self
        exact ⟨lead, rfl, by simpa using (List.mem_filter.mp own).2⟩

end Conflicts

namespace ConflictTask

open Conflicts

/-- A supersedes link leads from the first memory to the second. -/
def Supersedes (db : Database) (links : List MemoryLink) (a b : Memory) : Prop :=
  a ∈ db.memories.rows ∧ b ∈ db.memories.rows ∧ ∃ link ∈ links, link.linkType = .supersedes ∧
    link.fromMemoryId = a.id ∧ link.toMemoryId = b.id

/-- The supersedes links of the task lead from newer to older memories. Between memories of different
ages they form no cycle, and a page where no one else has written such links starts with a hit that is
not superseded in it. -/
structure NewerToOlder (s : State) : Prop where
  falls : ∀ a b, Supersedes s.db s.written a b → b.createdAt ≤ a.createdAt
  acyclic : Acyclic fun a b => Supersedes s.db s.written a b ∧ a.createdAt ≠ b.createdAt
  leads : ∀ isoformat p hits links, hits ≠ [] →
    (∀ link ∈ links, link.linkType = .supersedes → link ∈ s.written) →
      LeadsCurrent isoformat p { s.db with links := links } hits

/-- The ends of the links of the task are memories. -/
def Anchored (s : State) : Prop :=
  ∀ link ∈ s.written, (∃ a ∈ s.db.memories.rows, a.id = link.fromMemoryId) ∧
    ∃ b ∈ s.db.memories.rows, b.id = link.toMemoryId

/-- A page leads with a current hit when the supersedes links on it form no cycle. -/
theorem leadsCurrent_of_acyclic (s : State) (anchored : Anchored s)
    (acyclic : Acyclic (Supersedes s.db s.written)) (isoformat : Instant → Str) (p : Principal)
    (hits : List HybridSearchHit) (links : List MemoryLink) (some : hits ≠ [])
    (own : ∀ link ∈ links, link.linkType = .supersedes → link ∈ s.written) :
    LeadsCurrent isoformat p { s.db with links := links } hits := by
  rw [leadsCurrent_iff]
  by_contra all
  simp only [not_exists, not_and, not_not] at all
  have ends (hit : HybridSearchHit) (inside : hit ∈ hits) : ∃ link ∈ s.written,
      link.linkType = .supersedes ∧ link.toMemoryId = hit.memoryId ∧
        link.fromMemoryId ∈ hits.map HybridSearchHit.memoryId := by
    obtain ⟨_, link, stored, supersedes, target, source, _⟩ :=
      (mem_demoted_iff isoformat p _ hits hit.memoryId).mp (all hit inside)
    exact ⟨link, own link stored supersedes, supersedes, target, source⟩
  have page (m : Memory) : m ∈ s.db.memories.rows.filter (fun m =>
      (hits.map HybridSearchHit.memoryId).contains m.id) ↔
        m ∈ s.db.memories.rows ∧ m.id ∈ hits.map HybridSearchHit.memoryId := by
    rw [List.mem_filter, List.contains_iff_mem]
  obtain ⟨hit, inside⟩ := List.exists_mem_of_ne_nil hits some
  obtain ⟨link, written, _, target, _⟩ := ends hit inside
  obtain ⟨b, present, same⟩ := (anchored link written).2
  have start := (page b).mpr ⟨present, by rw [same, target]; exact List.mem_map_of_mem inside⟩
  obtain ⟨source, listed, minimal⟩ := acyclic.exists_source _ b start
  obtain ⟨present', shown⟩ := (page source).mp listed
  obtain ⟨hit', inside', same'⟩ := List.mem_map.mp shown
  obtain ⟨link', written', supersedes', target', source'⟩ := ends hit' inside'
  obtain ⟨a, present'', same''⟩ := (anchored link' written').1
  exact minimal a ((page a).mpr ⟨present'', same'' ▸ source'⟩)
    ⟨present'', present', link', written', supersedes', same''.symm, target'.trans same'⟩

def superuser : Principal where
  actorId := 0
  actorKind := .system
  orgId := 0
  isSuperuser := true

/-- A cycle of supersedes links is a page on which every hit sorts last. -/
theorem acyclic_of_leadsCurrent (s : State)
    (leads : ∀ hits, hits ≠ [] →
      LeadsCurrent (fun _ => []) superuser { s.db with links := s.written } hits) :
    Acyclic (Supersedes s.db s.written) := by
  intro m cycle
  obtain ⟨nodes, inside, led⟩ := exists_nodes_of_cycle m cycle
  have page (a : Memory) (listed : a ∈ nodes) : a.id ∈
      (nodes.map fun a => hitOf a onePointZero).map HybridSearchHit.memoryId := by
    rw [List.map_map]
    exact List.mem_map.mpr ⟨a, listed, rfl⟩
  have nonempty : nodes.map (fun a => hitOf a onePointZero) ≠ [] := by
    intro none
    rw [List.map_eq_nil_iff] at none
    exact List.not_mem_nil (none ▸ inside)
  obtain ⟨hit, listed, current⟩ := (leadsCurrent_iff _ _ _ _).mp (leads _ nonempty)
  obtain ⟨b, node, rfl⟩ := List.mem_map.mp listed
  obtain ⟨a, before, present, _, link, written, supersedes, source, target⟩ := led b node
  refine current ((mem_demoted_iff _ _ _ _ _).mpr ⟨page b node, link, written, supersedes, target,
    source ▸ page a before, a, ?_, source.symm⟩)
  exact (mem_tenantQuery superuser Memory.orgId _ a).mpr ⟨present, Or.inl rfl⟩

/-- What holds of the links is that they lead to no newer memory and form no cycle among memories of
one age. -/
theorem newerToOlder_iff (s : State) (anchored : Anchored s) : NewerToOlder s ↔
    (∀ a b, Supersedes s.db s.written a b → b.createdAt ≤ a.createdAt) ∧
      Acyclic fun a b => Supersedes s.db s.written a b ∧ a.createdAt = b.createdAt := by
  constructor
  · intro holds
    have acyclic := acyclic_of_leadsCurrent s fun hits some =>
      holds.leads (fun _ => []) superuser hits s.written some fun _ written _ => written
    exact ⟨holds.falls, (acyclic_iff_ties Memory.createdAt holds.falls).mp acyclic⟩
  · rintro ⟨falls, ties⟩
    have acyclic := (acyclic_iff_ties Memory.createdAt falls).mpr ties
    exact ⟨falls, acyclic_distinct Memory.createdAt falls, leadsCurrent_of_acyclic s anchored acyclic⟩

/-- Every memory that a link touches has its like in the other store. -/
def Carried (db db' : Database) (links : List MemoryLink) : Prop :=
  ∀ m ∈ db.memories.rows, (∃ link ∈ links, link.fromMemoryId = m.id ∨ link.toMemoryId = m.id) →
    ∃ m' ∈ db'.memories.rows, m'.id = m.id ∧ m'.createdAt = m.createdAt

/-- The links keep what holds of them in a store with the same memories. -/
theorem falls_and_ties_of_carried (db db' : Database) (links : List MemoryLink)
    (carried : Carried db db' links)
    (falls : ∀ a b, Supersedes db' links a b → b.createdAt ≤ a.createdAt)
    (ties : Acyclic fun a b => Supersedes db' links a b ∧ a.createdAt = b.createdAt) :
    (∀ a b, Supersedes db links a b → b.createdAt ≤ a.createdAt) ∧
      Acyclic fun a b => Supersedes db links a b ∧ a.createdAt = b.createdAt := by
  let like (m : Memory) : Memory := (db'.memories.rows.find? fun x => x.id == m.id).getD m
  have like_spec (m : Memory) (present : m ∈ db.memories.rows)
      (touched : ∃ link ∈ links, link.fromMemoryId = m.id ∨ link.toMemoryId = m.id) :
      like m ∈ db'.memories.rows ∧ (like m).id = m.id ∧ (like m).createdAt = m.createdAt := by
    obtain ⟨m', inside, same, age⟩ := carried m present touched
    have found := (List.find?_isSome (p := fun x : Memory => x.id == m.id)).mpr
      ⟨m', inside, beq_iff_eq.mpr same⟩
    obtain ⟨x, looked⟩ := Option.isSome_iff_exists.mp found
    have own : x = m' := memory_eq_of_id db' x m' (List.mem_of_find?_eq_some looked) inside
      ((beq_iff_eq.mp (List.find?_some (p := fun x : Memory => x.id == m.id) looked)).trans same.symm)
    have image : like m = m' := by
      change (db'.memories.rows.find? fun x => x.id == m.id).getD m = m'
      rw [looked, Option.getD_some, own]
    rw [image]
    exact ⟨inside, same, age⟩
  have mapped (a b : Memory) (supersedes : Supersedes db links a b) :
      Supersedes db' links (like a) (like b) ∧ (like a).createdAt = a.createdAt ∧
        (like b).createdAt = b.createdAt := by
    obtain ⟨first, second, link, written, kind, source, target⟩ := supersedes
    have likeA := like_spec a first ⟨link, written, Or.inl source⟩
    have likeB := like_spec b second ⟨link, written, Or.inr target⟩
    exact ⟨⟨likeA.1, likeB.1, link, written, kind, source.trans likeA.2.1.symm,
      target.trans likeB.2.1.symm⟩, likeA.2.2, likeB.2.2⟩
  constructor
  · intro a b supersedes
    obtain ⟨image, ageA, ageB⟩ := mapped a b supersedes
    rw [← ageA, ← ageB]
    exact falls _ _ image
  · refine Acyclic.of_map like (fun a b both => ?_) ties
    obtain ⟨image, ageA, ageB⟩ := mapped a b both.1
    exact ⟨image, by rw [ageA, ageB, both.2]⟩

theorem anchored_evolves (s s' : State) (evolves : Evolves SameOrigin s.db s'.db)
    (same : s'.written = s.written) (anchored : Anchored s) : Anchored s' := by
  intro link inside
  obtain ⟨⟨a, first, source⟩, b, second, target⟩ := anchored link (same ▸ inside)
  obtain ⟨a', first', sameA, _⟩ := evolves.stays a first
  obtain ⟨b', second', sameB, _⟩ := evolves.stays b second
  exact ⟨⟨a', first', sameA.trans source⟩, b', second', sameB.trans target⟩

/-- The direction of the links does not depend on what happens to the rows later. -/
theorem newerToOlder_evolves (s s' : State) (evolves : Evolves SameOrigin s.db s'.db)
    (same : s'.written = s.written) (anchored : Anchored s) : NewerToOlder s' ↔ NewerToOlder s := by
  have forth : Carried s.db s'.db s.written := by
    intro m present _
    obtain ⟨m', inside, sameId, origin⟩ := evolves.stays m present
    exact ⟨m', inside, sameId, origin.createdAt⟩
  have back : Carried s'.db s.db s.written := by
    rintro m' inside ⟨link, written, touched⟩
    rcases evolves.origin m' inside with ⟨m, present, sameId, origin⟩ | new
    · exact ⟨m, present, sameId.symm, origin.createdAt.symm⟩
    · obtain ⟨⟨a, first, source⟩, b, second, target⟩ := anchored link written
      have older := new a first
      have older' := new b second
      omega
  rw [newerToOlder_iff s anchored, newerToOlder_iff s' (anchored_evolves s s' evolves same anchored),
    same]
  constructor
  · rintro ⟨falls, ties⟩
    exact falls_and_ties_of_carried s.db s'.db s.written forth falls ties
  · rintro ⟨falls, ties⟩
    exact falls_and_ties_of_carried s'.db s.db s.written back falls ties

variable (env : Environment) (engine : SearchEngine) (complement : PyFloat → PyFloat)

/-- The supersedes verdicts of a batch name no newer memory, and between memories of one age they close
no cycle with those before. -/
structure PointsBack (s : State) (d : Detection) : Prop where
  falls : ∀ a b, Supersedes s.db (asks env engine complement d s) a b → b.createdAt ≤ a.createdAt
  ties : Acyclic fun a b => Supersedes s.db (s.written ++ asks env engine complement d s) a b ∧
    a.createdAt = b.createdAt

/-- The step brings no link that leads to a newer memory or closes a cycle. -/
def Directed (s : State) : Event → Prop
  | .worker _ => True
  | .detect d => GoesThrough env engine complement d s → PointsBack env engine complement s d

theorem mem_asks (d : Detection) (s : State) (link : MemoryLink)
    (inside : link ∈ asks env engine complement d s) :
    ∃ m ∈ checks env d s, ∃ verdict, linkOf d.now m.id verdict = some link := by
  obtain ⟨judged, listed, own⟩ := List.mem_flatMap.mp inside
  obtain ⟨m, checked, judges⟩ := List.mem_filterMap.mp listed
  simp only [judgementOf] at judges
  split at judges
  · exact absurd judges (by simp)
  · rw [← Option.some.inj judges] at own
    obtain ⟨verdict, _, asked⟩ := List.mem_filterMap.mp own
    exact ⟨m, checked, verdict, asked⟩

theorem mem_listPending (s : State) (m : Memory) (inside : m ∈ listPendingConflictCheck env s) :
    m ∈ s.db.memories.rows ∧ awaitsCheck s.checkedAt m = true := by
  have sorted := List.mem_of_mem_take inside
  rwa [List.mem_insertionSort, List.mem_filter] at sorted

/-- A batch that goes through adds links between memories. -/
theorem anchored_detected (d : Detection) (s : State) (anchored : Anchored s)
    (through : GoesThrough env engine complement d s) :
    Anchored { s with judged := s.judged ++ judges env engine complement d s } := by
  intro link inside
  rw [State.written, List.flatMap_append, List.mem_append] at inside
  rcases inside with old | new
  · exact anchored link old
  · obtain ⟨m, checked, verdict, asked⟩ := mem_asks env engine complement d s link new
    obtain ⟨linkType, _, rfl⟩ := Option.map_eq_some_iff.mp asked
    have pending := mem_listPending env s m (List.mem_filter.mp checked).1
    exact ⟨⟨m, pending.1, rfl⟩, through.2.target _ new⟩

theorem anchored_step (s : State) (e : Event) (anchored : Anchored s) :
    Anchored (step env engine complement s e) := by
  cases e with
  | worker e =>
      exact anchored_evolves s _ (evolves_worker_origin env s.worker e) rfl anchored
  | detect d =>
      rcases detectBatch_cases env engine complement d s with ⟨_, same⟩ | ⟨through, same⟩
      · rw [step, same]
        exact anchored
      · rw [step, same]
        exact anchored_evolves { s with judged := s.judged ++ judges env engine complement d s } _
          ((evolves_detected env engine complement d s).mono fun _ _ touched => touched.1) rfl
          (anchored_detected env engine complement d s anchored through)

/-- A step keeps the direction of the links exactly when it is directed. -/
theorem newerToOlder_step (s : State) (e : Event) (anchored : Anchored s) (holds : NewerToOlder s) :
    NewerToOlder (step env engine complement s e) ↔ Directed env engine complement s e := by
  cases e with
  | worker e =>
      have same := newerToOlder_evolves s (step env engine complement s (.worker e))
        (evolves_worker_origin env s.worker e) rfl anchored
      exact iff_of_true (same.mpr holds) trivial
  | detect d =>
      rcases detectBatch_cases env engine complement d s with ⟨stuck, same⟩ | ⟨through, same⟩
      · rw [step, same]
        exact iff_of_true holds fun through => absurd through stuck
      · have linked := anchored_detected env engine complement d s anchored through
        rw [step, same, newerToOlder_evolves
          { s with judged := s.judged ++ judges env engine complement d s } _
          ((evolves_detected env engine complement d s).mono fun _ _ touched => touched.1) rfl linked,
          newerToOlder_iff _ linked]
        have written : State.written { s with judged := s.judged ++ judges env engine complement d s } =
            s.written ++ asks env engine complement d s := List.flatMap_append
        rw [written]
        have either (a b : Memory) :
            Supersedes s.db (s.written ++ asks env engine complement d s) a b ↔
              Supersedes s.db s.written a b ∨ Supersedes s.db (asks env engine complement d s) a b := by
          simp only [Supersedes, List.mem_append, or_and_right, exists_or, and_or_left]
        constructor
        · rintro ⟨falls, ties⟩ _
          exact ⟨fun a b asked => falls a b ((either a b).mpr (Or.inr asked)), ties⟩
        · intro back
          refine ⟨fun a b linked => ?_, (back through).ties⟩
          rcases (either a b).mp linked with old | new
          · exact holds.falls a b old
          · exact (back through).falls a b new

/-- Along a run of the service, the embedder and the conflict task, the supersedes links of the task
lead from newer to older memories exactly when every step is directed. -/
theorem newerToOlder_run_iff (worker : EmbeddingTask.Worker) (checkedAt : Nat → Option Instant)
    (events : List Event) :
    Run.Always (step env engine complement) NewerToOlder (.start worker checkedAt) events ↔
      Run.Each (step env engine complement) (Directed env engine complement)
        (.start worker checkedAt) events := by
  have anchored : Anchored (.start worker checkedAt) := fun _ inside => absurd inside List.not_mem_nil
  have none (a b : Memory) :
      ¬ Supersedes (State.start worker checkedAt).db (State.start worker checkedAt).written a b := by
    rintro ⟨_, _, link, inside, _⟩
    exact List.not_mem_nil inside
  have start : NewerToOlder (.start worker checkedAt) := by
    rw [newerToOlder_iff _ anchored]
    refine ⟨fun a b linked => absurd linked (none a b), fun a cycle => ?_⟩
    obtain ⟨b, first, _⟩ := Relation.TransGen.head'_iff.mp cycle
    exact none a b first.1
  exact Run.always_iff_each_of_strong (S := fun s => NewerToOlder s ∧ Anchored s) events
    (fun _ strong => strong.1)
    (fun s e _ strong => (newerToOlder_step env engine complement s e strong.2 strong.1).mp)
    (fun s e _ strong directed => ⟨(newerToOlder_step env engine complement s e strong.2 strong.1).mpr
      directed, anchored_step env engine complement s e strong.2⟩) ⟨start, anchored⟩

/-- Two memories of one workspace have vectors, and neither was judged. -/
def twoUnjudged : EmbeddingTask.Worker where
  session := ⟨ConsolidationTask.twoMemories 1 .approved, {}⟩
  retry _ := {}
  phase _ := .idle

/-- The judge takes the memory that it is asked about for the newer one. -/
def alwaysSupersedes (now : Instant) : Detection where
  now := now
  withinQuota _ := true
  judge _ existing := existing.map fun candidate => ⟨candidate.memoryId, .supersedes, onePointZero⟩

def sampleRun (events : List Event) : State :=
  Run.final (step (.ascii fun s => s) AgentLoop.sampleEngine fun _ => onePointZero)
    (.start twoUnjudged fun _ => none) events

theorem sampleRun_supersedes : (sampleRun [.detect (alwaysSupersedes 3)]).written.map
    (fun link => (link.fromMemoryId, link.toMemoryId, link.linkType)) =
      [(2, 1, .supersedes), (1, 2, .supersedes)] := by decide +kernel

theorem sampleRun_rows : (sampleRun [.detect (alwaysSupersedes 3)]).db.memories.rows.map
    (fun m => (m.id, m.createdAt)) = [(1, 1), (2, 2)] := by decide +kernel

/-- The older memory of a batch is judged after the newer one, and then supersedes it. -/
theorem older_memory_supersedes : ¬ ∀ (env : Environment) (engine : SearchEngine)
    (complement : PyFloat → PyFloat) (worker : EmbeddingTask.Worker)
    (checkedAt : Nat → Option Instant) (events : List Event),
      Run.Always (step env engine complement) NewerToOlder (.start worker checkedAt) events := by
  intro claim
  have final := (claim (.ascii fun s => s) AgentLoop.sampleEngine (fun _ => onePointZero) twoUnjudged
    (fun _ => none) [.detect (alwaysSupersedes 3)]).final
  obtain ⟨a, first, rowA⟩ := List.mem_map.mp (sampleRun_rows ▸ List.mem_cons_self)
  obtain ⟨b, second, rowB⟩ := List.mem_map.mp
    (sampleRun_rows ▸ List.mem_cons_of_mem _ (List.mem_singleton_self _))
  obtain ⟨link, written, ends⟩ := List.mem_map.mp
    (sampleRun_supersedes ▸ List.mem_cons_of_mem _ (List.mem_singleton_self _))
  simp only [Prod.mk.injEq] at rowA rowB ends
  have falls := final.falls a b ⟨first, second, link, written, ends.2.2, ends.1.trans rowA.1.symm,
    ends.2.1.trans rowB.1.symm⟩
  rw [rowA.2, rowB.2] at falls
  exact absurd falls (by decide)

end ConflictTask
end Kortex
