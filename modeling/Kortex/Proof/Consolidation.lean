import Kortex.Model.Consolidation
import Kortex.Proof.MemoryRepo

/-
This file proves which summaries are as restricted as the memories they are made of.
-/

namespace Kortex

/-- A level of trust admits a memory to more readers the higher it is. -/
def Trust.rank : Trust → Nat
  | .low => 0
  | .medium => 1
  | .high => 2

namespace ConsolidationTask

variable (tools : Tools) (orgId : Nat)

/-- These columns decide who may read a memory. -/
def labels (m : Memory) : ScopeType × Nat × Sensitivity × Trust × ReviewStatus :=
  (m.scopeType, m.scopeId, m.sensitivity, m.trust, m.reviewStatus)

/-- The summary is read by no one who may not read the memory. -/
structure NoMoreVisible (summary m : Memory) : Prop where
  scopeType : summary.scopeType = m.scopeType
  scopeId : summary.scopeId = m.scopeId
  sensitivity : m.sensitivity.rank ≤ summary.sensitivity.rank
  trust : summary.trust.rank ≤ m.trust.rank
  review : summary.reviewStatus = .approved → m.reviewStatus = .approved

/-- The stored summary is no more visible than any member of its cluster. -/
def CarriesDown (db : Database) (w : Written) : Prop :=
  ∃ summary ∈ db.memories.rows, summary.id = w.summaryId ∧ ∀ m ∈ w.members, NoMoreVisible summary m

/-- The memory has the scope of the anchor and at most its sensitivity, and it is approved and not of
low trust. -/
def CoveredBy (anchor m : Memory) : Prop :=
  m.scopeType = anchor.scopeType ∧ m.scopeId = anchor.scopeId ∧
    m.sensitivity.rank ≤ anchor.sensitivity.rank ∧ m.trust ≠ .low ∧ m.reviewStatus = .approved

/-- The first member of the cluster covers all of them. -/
def Uniform (members : List Memory) : Prop :=
  ∀ anchor ∈ members.head?, ∀ m ∈ members, CoveredBy anchor m

/-- Only the decay of a row has changed. -/
def OnlyDecays (m m' : Memory) : Prop :=
  m' = { m with decayScore := m'.decayScore, updatedAt := m'.updatedAt }

theorem OnlyDecays.trans {m m' m'' : Memory} (first : OnlyDecays m m') (second : OnlyDecays m' m'') :
    OnlyDecays m m'' := by
  rw [OnlyDecays, second, first]

theorem OnlyDecays.labels {m m' : Memory} (same : OnlyDecays m m') : labels m' = labels m := by
  rw [same]
  rfl

/-- The run changes nothing but the decay of the old rows, and its new rows are of the long tier. -/
def Grows (db db' : Database) : Prop :=
  ∃ (change : Memory → Memory) (summaries : List Memory),
    db'.memories.rows = db.memories.rows.map change ++ summaries ∧
      (∀ m, OnlyDecays m (change m)) ∧ ∀ s ∈ summaries, s.tier = .long

variable {tools orgId} {db db' db'' : Database}

theorem Grows.of_memories (same : db'.memories = db.memories) : Grows db db' :=
  ⟨id, [], by rw [same, List.map_id, List.append_nil], fun _ => rfl, by simp⟩

theorem Grows.trans (first : Grows db db') (second : Grows db' db'') : Grows db db'' := by
  obtain ⟨change, summaries, rows, only, long⟩ := first
  obtain ⟨change', summaries', rows', only', long'⟩ := second
  refine ⟨change' ∘ change, summaries.map change' ++ summaries', ?_, fun m => (only m).trans (only' _),
    fun s present => ?_⟩
  · rw [rows', rows, List.map_append, List.map_map, List.append_assoc]
  · rcases List.mem_append.mp present with old | new
    · obtain ⟨s, inside, rfl⟩ := List.mem_map.mp old
      rw [only' s]
      exact long s inside
    · exact long' s new

/-- Every row stays in the table. -/
theorem Grows.image (grows : Grows db db') (row : Memory) (present : row ∈ db.memories.rows) :
    ∃ row' ∈ db'.memories.rows, OnlyDecays row row' := by
  obtain ⟨change, summaries, rows, only, _⟩ := grows
  exact ⟨change row, by rw [rows]; exact List.mem_append_left _ (List.mem_map_of_mem present), only row⟩

theorem grows_applyDecay (now : Instant) (db : Database) (memoryId : Nat) (decayScore : PyFloat) :
    Grows db (MemoryRepo.applyDecay now db memoryId decayScore none) := by
  refine ⟨Table.changeRow (fun m => m.id == memoryId) (Memory.decayed now decayScore none), [],
    (List.append_nil _).symm, fun m => ?_, by simp⟩
  rw [Table.changeRow]
  split <;> rfl

theorem publicIds_applyDecay (now : Instant) (db : Database) (memoryId : Nat) (decayScore : PyFloat)
    (newTier : Option MemoryTier) :
    (MemoryRepo.applyDecay now db memoryId decayScore newTier).memories.rows.map Memory.publicId =
      db.memories.rows.map Memory.publicId := by
  change (List.map (Table.changeRow _ _) _).map _ = _
  rw [List.map_map]
  apply List.map_congr_left
  intro m _
  rw [Function.comp_apply, Table.changeRow]
  split <;> rfl

theorem link_done (now : Instant) (db db' : Database) (a b : Nat) (linkType : MemoryLinkType)
    (weight : PyFloat) (row : MemoryLink)
    (done : MemoryLinkRepo.link now db a b linkType weight = some (row, db')) :
    db'.memories = db.memories ∧ db'.links = db.links ++ [⟨a, b, linkType, weight, now⟩] ∧
      db.links.any (MemoryLinkRepo.hasKey a b linkType) = false := by
  simp only [MemoryLinkRepo.link] at done
  split at done
  · exact absurd done (by simp)
  · rename_i free
    rw [← (Prod.mk.inj (Option.some.inj done)).2]
    exact ⟨rfl, rfl, by simpa using free⟩

/-- The loop links the new memory to its sources, and changes only their decay. -/
theorem linkMembers_spec (now : Instant) (candidates : List Memory) (summaryId : Nat) (ids : List Nat)
    (db db' : Database) (done : linkMembers tools now candidates summaryId db ids = some db') :
    Grows db db' ∧ db'.memories.rows.map Memory.publicId = db.memories.rows.map Memory.publicId ∧
      ∀ link ∈ db'.links, link ∈ db.links ∨ link.fromMemoryId = summaryId := by
  induction ids generalizing db with
  | nil =>
      rw [← Option.some.inj done]
      exact ⟨Grows.of_memories rfl, rfl, fun _ present => Or.inl present⟩
  | cons mid rest ih =>
      simp only [linkMembers, bind, Option.bind_eq_some_iff] at done
      obtain ⟨⟨link, linked⟩, one, source, _, others⟩ := done
      obtain ⟨same, appended, _⟩ := link_done now db linked summaryId mid _ _ link one
      obtain ⟨grows, publicIds, links⟩ := ih _ others
      refine ⟨((Grows.of_memories same).trans (grows_applyDecay now linked source.id _)).trans grows,
        ?_, fun other present => ?_⟩
      · rw [publicIds, publicIds_applyDecay, same]
      · rcases links other present with old | new
        · change other ∈ linked.links at old
          rw [appended] at old
          rcases List.mem_append.mp old with older | own
          · exact Or.inl older
          · rw [List.mem_singleton.mp own]
            exact Or.inr rfl
        · exact Or.inr new

/-- The decay of a new row touches no other row. -/
theorem rows_applyDecay_insert (now : Instant) (m created : Memory) (gap : Nat) (inserted : Database)
    (one : db.insertMemory m gap = some (created, inserted)) (decayScore : PyFloat)
    (newTier : Option MemoryTier) :
    (MemoryRepo.applyDecay now inserted created.id decayScore newTier).memories.rows =
      db.memories.rows ++ [created.decayed now decayScore newTier] := by
  obtain ⟨rfl, _, _, rows, _⟩ := insertMemory_done db m gap created inserted one
  change inserted.memories.rows.map (Table.changeRow _ _) = _
  rw [rows, List.map_append, List.map_singleton]
  congr 1
  · conv_rhs => rw [← List.map_id db.memories.rows]
    apply List.map_congr_left
    intro other present
    have bound := id_le_lastMemoryId db other present
    have different : other.id ≠ lastMemoryId db + 1 + gap := by omega
    rw [Table.changeRow, if_neg (by simpa using different), id_eq]
  · rw [Table.changeRow, if_pos (by simp)]

/-- A new summary stands in its table with the labels of its row. -/
theorem writeSummary_spec (ctx : CallContext) (candidates : List Memory) (anchor summary : Memory)
    (result : ConsolidationResult)
    (done : writeSummary tools orgId ctx candidates db anchor result = some (summary, db')) :
    Grows db db' ∧
      db'.memories.rows.map Memory.publicId =
        db.memories.rows.map Memory.publicId ++ [ctx.newPublicId] ∧
      (∃ row ∈ db'.memories.rows, row.id = summary.id ∧
        labels row = labels (summaryRow orgId ctx anchor result)) ∧
      ∀ link ∈ db'.links, link ∈ db.links ∨ link.fromMemoryId = summary.id := by
  simp only [writeSummary, bind, Option.bind_eq_some_iff] at done
  obtain ⟨⟨created, inserted⟩, one, final, linked, same⟩ := done
  obtain ⟨rfl, rfl⟩ := Prod.mk.inj (Option.some.inj same)
  have rows := rows_applyDecay_insert ctx.now _ created ctx.idGap inserted one onePointZero (some .long)
  have sameLinks := insertMemory_links db inserted _ created ctx.idGap one
  obtain ⟨shape, _⟩ := insertMemory_cases db _ _ created inserted one
  obtain ⟨grows, publicIds, links⟩ := linkMembers_spec ctx.now candidates created.id _ _ final linked
  have long : Grows db (MemoryRepo.applyDecay ctx.now inserted created.id onePointZero (some .long)) :=
    ⟨id, _, by rw [rows, List.map_id], fun _ => rfl, by simp [Memory.decayed]⟩
  refine ⟨long.trans grows, ?_, ?_, fun link present => ?_⟩
  · rw [publicIds, rows, List.map_append, shape]
    rfl
  · obtain ⟨row, present, only⟩ := grows.image (created.decayed ctx.now onePointZero (some .long))
      (by rw [rows]; simp)
    refine ⟨row, present, by rw [only]; rfl, ?_⟩
    rw [only.labels, shape]
    rfl
  · rcases links link present with old | new
    · exact Or.inl (sameLinks ▸ old)
    · exact Or.inr new

/-- These groups get a summary. -/
def summarised (tools : Tools) (groups : List (Int × List Memory)) : List (List Memory) :=
  (groups.map Prod.snd).filter fun members =>
    (tools.consolidate (members.map clusterMember)).isSome && !members.isEmpty

/-- A group is skipped, or its summary is written before the other groups are. -/
theorem consolidateGroups_cons (ctx : Nat → CallContext) (candidates : List Memory) (i : Nat)
    (label : Int) (members : List Memory) (rest : List (Int × List Memory)) (written : List Written)
    (db db' : Database) (done : consolidateGroups tools orgId ctx candidates i ((label, members) :: rest)
      db = some (written, db')) :
    ((tools.consolidate (members.map clusterMember) = none ∨ members = []) ∧
        consolidateGroups tools orgId ctx candidates (i + 1) rest db = some (written, db')) ∨
      ∃ result anchor others summary middle written',
        tools.consolidate (members.map clusterMember) = some result ∧ members = anchor :: others ∧
        written = ⟨summary.id, members⟩ :: written' ∧
        writeSummary tools orgId (ctx i) candidates db anchor result = some (summary, middle) ∧
        consolidateGroups tools orgId ctx candidates (i + 1) rest middle = some (written', db') := by
  cases found : tools.consolidate (members.map clusterMember) with
  | none =>
      simp only [consolidateGroups, found] at done
      exact Or.inl ⟨Or.inl rfl, done⟩
  | some result =>
      cases members with
      | nil =>
          simp only [consolidateGroups, found] at done
          exact Or.inl ⟨Or.inr rfl, done⟩
      | cons anchor others =>
          simp only [consolidateGroups, found, bind, Option.bind_eq_some_iff] at done
          obtain ⟨⟨summary, middle⟩, one, ⟨written', final⟩, later, same⟩ := done
          obtain ⟨rfl, rfl⟩ := Prod.mk.inj (Option.some.inj same)
          exact Or.inr ⟨result, anchor, others, summary, middle, written', rfl, rfl, rfl, one, later⟩

/-- The run writes one summary for each group with a result, with the labels of its first member. -/
theorem consolidateGroups_spec (ctx : Nat → CallContext) (candidates : List Memory) (i : Nat)
    (groups : List (Int × List Memory)) (written : List Written) (db db' : Database)
    (done : consolidateGroups tools orgId ctx candidates i groups db = some (written, db')) :
    Grows db db' ∧ written.map Written.members = summarised tools groups ∧
      ∀ w ∈ written, ∃ anchor ∈ w.members.head?, ∃ row ∈ db'.memories.rows, row.id = w.summaryId ∧
        labels row = (anchor.scopeType, anchor.scopeId, anchor.sensitivity, .medium, .approved) := by
  induction groups generalizing i db written with
  | nil =>
      obtain ⟨rfl, rfl⟩ := Prod.mk.inj (Option.some.inj done)
      exact ⟨Grows.of_memories rfl, rfl, by simp⟩
  | cons group rest ih =>
      obtain ⟨label, members⟩ := group
      rcases consolidateGroups_cons ctx candidates i label members rest written db db' done with
        ⟨skipped, later⟩ | ⟨result, anchor, others, summary, middle, written', found, rfl, rfl, one, later⟩
      · obtain ⟨grows, groupsOfWritten, labelled⟩ := ih (i + 1) written db later
        refine ⟨grows, ?_, labelled⟩
        rw [groupsOfWritten, summarised, summarised, List.map_cons, List.filter_cons_of_neg]
        rcases skipped with none | empty
        · simp [none]
        · simp [empty]
      · obtain ⟨grows, _, ⟨row, present, id, labelled⟩, _⟩ := writeSummary_spec (ctx i) candidates
          anchor summary result one
        obtain ⟨growsLater, groupsOfWritten, labelledLater⟩ := ih (i + 1) written' middle later
        refine ⟨grows.trans growsLater, ?_, fun w inside => ?_⟩
        · rw [summarised, List.map_cons, List.map_cons, List.filter_cons_of_pos]
          · rw [groupsOfWritten, summarised]
          · rw [found]
            rfl
        · rcases List.mem_cons.mp inside with rfl | inside
          · obtain ⟨row', present', only⟩ := growsLater.image row present
            exact ⟨anchor, rfl, row', present', by rw [only]; exact id, only.labels.trans labelled⟩
          · exact labelledLater w inside

theorem noMoreVisible_iff (summary anchor m : Memory) (labelled : labels summary =
    (anchor.scopeType, anchor.scopeId, anchor.sensitivity, .medium, .approved)) :
    NoMoreVisible summary m ↔ CoveredBy anchor m := by
  simp only [labels, Prod.mk.injEq] at labelled
  obtain ⟨scopeType, scopeId, sensitivity, trust, review⟩ := labelled
  have notLow : Trust.rank .medium ≤ m.trust.rank ↔ m.trust ≠ .low := by
    cases m.trust <;> decide
  constructor
  · intro below
    refine ⟨?_, ?_, sensitivity ▸ below.sensitivity, notLow.mp (trust ▸ below.trust),
      below.review review⟩
    · rw [← scopeType, below.scopeType]
    · rw [← scopeId, below.scopeId]
  · rintro ⟨sameType, sameId, atMost, trusted, approved⟩
    refine ⟨?_, ?_, sensitivity ▸ atMost, trust ▸ notLow.mpr trusted, fun _ => approved⟩
    · rw [scopeType, sameType]
    · rw [scopeId, sameId]

/-- A summary of a run is no more visible than its cluster exactly when the first member covers it. -/
theorem carriesDown_iff_uniform (ctx : Nat → CallContext) (written : List Written)
    (done : consolidateOrg tools orgId ctx db = some (written, db')) (w : Written)
    (inside : w ∈ written) : CarriesDown db' w ↔ Uniform w.members := by
  obtain ⟨_, _, labelled⟩ := consolidateGroups_spec ctx _ 0 _ written db db' done
  obtain ⟨anchor, first, row, present, id, same⟩ := labelled w inside
  constructor
  · rintro ⟨summary, stored, equal, below⟩ anchor' first' m member
    obtain rfl := memory_eq_of_id db' summary row stored present (equal.trans id.symm)
    rw [Option.mem_def.mp first] at first'
    rw [← Option.some.inj first']
    exact (noMoreVisible_iff summary anchor m same).mp (below m member)
  · intro uniform
    exact ⟨row, present, id, fun m member =>
      (noMoreVisible_iff row anchor m same).mpr (uniform anchor first m member)⟩

/-- The summaries of a run are no more visible than what they are made of exactly when the first member
of each cluster with a summary covers the others. -/
theorem carriesDown_iff (ctx : Nat → CallContext) (written : List Written)
    (done : consolidateOrg tools orgId ctx db = some (written, db')) :
    (∀ w ∈ written, CarriesDown db' w) ↔
      ∀ group ∈ groupsOf tools (MemoryRepo.listForConsolidation db orgId),
        tools.consolidate (group.2.map clusterMember) ≠ none → Uniform group.2 := by
  have exactly := carriesDown_iff_uniform ctx written done
  obtain ⟨_, ofGroups, _⟩ := consolidateGroups_spec ctx _ 0 _ written db db' done
  constructor
  · intro down group inside result
    cases empty : group.2 with
    | nil => simp [Uniform]
    | cons anchor others =>
        have summary : group.2 ∈ written.map Written.members := by
          rw [ofGroups, summarised, List.mem_filter]
          refine ⟨List.mem_map_of_mem inside, ?_⟩
          rw [Option.isSome_iff_ne_none.mpr result, empty]
          rfl
        obtain ⟨w, wrote, same⟩ := List.mem_map.mp summary
        rw [← empty, ← same]
        exact (exactly w wrote).mp (down w wrote)
  · intro uniform w wrote
    have inside : w.members ∈ summarised tools _ := ofGroups ▸ List.mem_map_of_mem wrote
    rw [summarised, List.mem_filter, Bool.and_eq_true] at inside
    obtain ⟨group, grouped, same⟩ := List.mem_map.mp inside.1
    rw [exactly w wrote, ← same]
    apply uniform group grouped
    rw [same]
    exact Option.isSome_iff_ne_none.mp inside.2.1

/-- One cluster holds all candidates. -/
def oneCluster : Tools where
  cluster vectors := vectors.map fun _ => 0
  length_cluster vectors := by simp
  consolidate members := some ⟨"both", "x and y", members.map ClusterMember.memoryId⟩
  half x := x

/-- The organisation of the samples has the id 1. -/
def sampleWorker : Principal where
  actorId := 0
  actorKind := .system
  orgId := 1
  isSuperuser := true

/-- A mid-tier memory of a workspace has an embedding. -/
def midMemory (id scopeId : Nat) (review : ReviewStatus) : Memory :=
  { MemoryService.newRow (.ascii fun s => s) sampleWorker
      { now := id, newPublicId := BitVec.ofNat 128 id } { scope := ⟨.workspace, scopeId⟩, body := "x" }
      { title := [], body := "x", sensitivity := .internal } ⟨review, []⟩ "english"
      (some [onePointZero]) with
    id := id, tier := .mid }

/-- Two memories of the given scopes stand in the mid tier. -/
def twoMemories (scopeId : Nat) (review : ReviewStatus) : Database where
  memories := (Table.empty.insert (midMemory 1 1 .approved) (Table.fresh_empty _)).insert
    (midMemory 2 scopeId review) (by
      intro other present
      rw [List.mem_singleton.mp present]
      refine ⟨Nat.one_lt_two, ?_⟩
      change BitVec.ofNat 128 1 ≠ BitVec.ofNat 128 2
      decide)

def sampleContext (i : Nat) : CallContext where
  now := 5
  newPublicId := BitVec.ofNat 128 (i + 7)

theorem consolidates (scopeId : Nat) (review : ReviewStatus) :
    ∃ written db', consolidateOrg oneCluster 1 sampleContext (twoMemories scopeId review) =
      some (written, db') := ⟨_, _, rfl⟩

theorem carriesDown_iff_of_twoMemories : ∃ (written : List Written) (db' : Database),
    consolidateOrg oneCluster 1 sampleContext (twoMemories 1 .approved) = some (written, db') ∧
      ((∀ w ∈ written, CarriesDown db' w) ↔
        ∀ group ∈ groupsOf oneCluster (MemoryRepo.listForConsolidation (twoMemories 1 .approved) 1),
          oneCluster.consolidate (group.2.map clusterMember) ≠ none → Uniform group.2) := by
  obtain ⟨written, db', done⟩ := consolidates 1 .approved
  exact ⟨written, db', done, carriesDown_iff sampleContext written done⟩

/-- A memory of another workspace that waits for its review is summarised into an approved memory. -/
theorem pending_memory_leaks :
    ¬ ∀ (tools : Tools) (orgId : Nat) (ctx : Nat → CallContext) (db db' : Database)
      (written : List Written), consolidateOrg tools orgId ctx db = some (written, db') →
        ∀ w ∈ written, CarriesDown db' w := by
  intro down
  obtain ⟨written, db', done⟩ := consolidates 2 .pending
  obtain ⟨_, ofGroups, _⟩ := consolidateGroups_spec sampleContext _ 0 _ written _ db' done
  have one : written.map Written.members = [[midMemory 1 1 .approved, midMemory 2 2 .pending]] := by
    rw [ofGroups]
    rfl
  obtain ⟨w, wrote, members⟩ : ∃ w ∈ written, w.members =
      [midMemory 1 1 .approved, midMemory 2 2 .pending] :=
    List.mem_map.mp (one ▸ List.mem_singleton_self _)
  have uniform := (carriesDown_iff_uniform sampleContext written done w wrote).mp
    (down oneCluster 1 sampleContext _ db' written done w wrote)
  rw [members] at uniform
  have covered := uniform _ rfl (midMemory 2 2 .pending) (by simp)
  exact absurd covered.2.1 (by decide)

end ConsolidationTask
end Kortex
