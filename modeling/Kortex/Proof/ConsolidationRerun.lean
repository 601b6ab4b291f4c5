import Kortex.Proof.Consolidation

/-
This file proves when a second consolidation run has nothing left to do.
-/

namespace Kortex

namespace ConsolidationTask

variable {tools : Tools} {orgId : Nat} {db db' : Database}

/-- The groups of changed candidates are the changed groups, when no embedding is changed. -/
theorem groupsOf_map (change : Memory → Memory) (same : ∀ m, (change m).embedding = m.embedding)
    (candidates : List Memory) :
    groupsOf tools (candidates.map change) =
      (groupsOf tools candidates).map fun group => (group.1, group.2.map change) := by
  have vectors : (candidates.map change).filterMap Memory.embedding =
      candidates.filterMap Memory.embedding := by
    rw [List.filterMap_map]
    exact congrArg (fun f => candidates.filterMap f) (funext same)
  have general : ∀ (pairs : List (Memory × Int)) (groups : Dict Int (List Memory)),
      (pairs.map fun p => (change p.1, p.2)).foldl addToGroup
          (groups.map fun group => (group.1, group.2.map change)) =
        (pairs.foldl addToGroup groups).map fun group => (group.1, group.2.map change) := by
    intro pairs
    induction pairs with
    | nil => exact fun _ => rfl
    | cons pair rest ih =>
        intro groups
        rw [List.map_cons, List.foldl_cons, List.foldl_cons, ← ih]
        congr 1
        simp only [addToGroup]
        split
        · rfl
        · rw [Dict.get?_map, ← Dict.set_map]
          congr 1
          cases Dict.get? groups pair.2 <;> simp
  rw [groupsOf, groupsOf, vectors, List.zip_map_left]
  exact general _ []

/-- A group has a member. -/
theorem members_ne_nil (candidates : List Memory) (group : Int × List Memory)
    (grouped : group ∈ groupsOf tools candidates) : group.2 ≠ [] := by
  have general : ∀ (pairs : List (Memory × Int)) (groups : Dict Int (List Memory)),
      (∀ group ∈ groups, group.2 ≠ []) → ∀ group ∈ pairs.foldl addToGroup groups, group.2 ≠ [] := by
    intro pairs
    induction pairs with
    | nil => exact fun groups all => all
    | cons pair rest ih =>
        intro groups all
        rw [List.foldl_cons]
        apply ih
        intro group inside
        rw [addToGroup] at inside
        split at inside
        · exact all group inside
        · rcases Dict.mem_set _ _ _ _ inside with rfl | old
          · simp
          · exact all group old
  exact general _ [] (by simp) group grouped

/-- After a run the same rows are candidates, with other decays. -/
theorem candidates_after (change : Memory → Memory) (summaries : List Memory)
    (rows : db'.memories.rows = db.memories.rows.map change ++ summaries)
    (only : ∀ m, OnlyDecays m (change m)) (long : ∀ s ∈ summaries, s.tier = .long) :
    MemoryRepo.listForConsolidation db' orgId =
      (MemoryRepo.listForConsolidation db orgId).map change := by
  have none : summaries.filter (MemoryRepo.isCandidate orgId) = [] := by
    rw [List.filter_eq_nil_iff]
    intro s present
    simp [MemoryRepo.isCandidate, long s present]
  have same : MemoryRepo.isCandidate orgId ∘ change = MemoryRepo.isCandidate orgId := by
    funext m
    rw [Function.comp_apply, only m]
    rfl
  rw [MemoryRepo.listForConsolidation, rows, List.filter_append, none, List.append_nil,
    List.filter_map, same, ← List.map_take, MemoryRepo.listForConsolidation]

/-- The columns accept the texts of the result, and its ids are distinct ids of candidates. -/
structure Accepted (candidates : List Memory) (result : ConsolidationResult) : Prop where
  title : Audit.acceptsColumn 500 (some result.title) = true
  body : PyValue.accepts result.body = true
  distinct : result.derivedFromIds.Nodup
  known : ∀ id ∈ result.derivedFromIds, ∃ c ∈ candidates, c.id = id

/-- The links refer to memories of the table. -/
def Linked (db : Database) : Prop :=
  ∀ link ∈ db.links, ∃ m ∈ db.memories.rows, m.id = link.fromMemoryId

variable (orgId) in
theorem storable_summaryRow (ctx : CallContext) (anchor : Memory) (result : ConsolidationResult)
    (id : Nat) : ({ summaryRow orgId ctx anchor result with id := id } : Memory).storable = true ↔
      Audit.acceptsColumn 500 (some result.title) = true ∧ PyValue.accepts result.body = true := by
  simp [Memory.storable, summaryRow, Json.storableMembers, Audit.acceptsColumn]

/-- The loop over the ids ends exactly when they are distinct ids of candidates without a link. -/
theorem linkMembers_isSome_iff (tools : Tools) (now : Instant) (candidates : List Memory) (summaryId : Nat)
    (ids : List Nat) (db : Database) :
    (linkMembers tools now candidates summaryId db ids).isSome = true ↔
      ids.Nodup ∧ (∀ id ∈ ids, ∃ c ∈ candidates, c.id = id) ∧
        ∀ id ∈ ids, db.links.any (MemoryLinkRepo.hasKey summaryId id .derivedFrom) = false := by
  induction ids generalizing db with
  | nil => simp [linkMembers]
  | cons mid rest ih =>
      rw [linkMembers, MemoryLinkRepo.link]
      by_cases taken : db.links.any (MemoryLinkRepo.hasKey summaryId mid .derivedFrom) = true
      · rw [if_pos taken]
        refine iff_of_false (by simp) fun both => ?_
        have free := both.2.2 mid (by simp)
        rw [taken] at free
        simp at free
      rw [if_neg taken]
      simp only [bind, Option.bind_some]
      cases found : candidates.find? fun c => c.id == mid with
      | none =>
          refine iff_of_false (by simp) fun both => ?_
          obtain ⟨c, present, same⟩ := both.2.1 mid (by simp)
          exact absurd (beq_iff_eq.mpr same) (by simpa using List.find?_eq_none.mp found c present)
      | some source =>
          have known : ∃ c ∈ candidates, c.id = mid :=
            ⟨source, List.mem_of_find?_eq_some found, by simpa using List.find?_some found⟩
          set link : MemoryLink := ⟨summaryId, mid, .derivedFrom, onePointZero, now⟩ with linkEq
          have keys (id : Nat) : (db.links ++ [link]).any
              (MemoryLinkRepo.hasKey summaryId id .derivedFrom) = false ↔
                db.links.any (MemoryLinkRepo.hasKey summaryId id .derivedFrom) = false ∧ mid ≠ id := by
            rw [List.any_append, Bool.or_eq_false_iff]
            simp [linkEq, MemoryLinkRepo.hasKey]
          rw [Option.bind_some, ih]
          simp only [MemoryRepo.applyDecay, Database.updateMemory, keys, List.nodup_cons,
            List.forall_mem_cons, known, true_and]
          rw [Bool.not_eq_true] at taken
          constructor
          · rintro ⟨distinct, others, free⟩
            exact ⟨⟨fun again => (free mid again).2 rfl, distinct⟩, others, taken,
              fun id inside => (free id inside).1⟩
          · rintro ⟨⟨absent, distinct⟩, others, _, free⟩
            exact ⟨distinct, others, fun id inside => ⟨free id inside, fun same =>
              absent (same ▸ inside)⟩⟩

variable (tools orgId) in
/-- A summary with a new public id is written exactly when its result is accepted. -/
theorem writeSummary_isSome_iff (ctx : CallContext) (candidates : List Memory) (anchor : Memory)
    (result : ConsolidationResult) (linked : Linked db)
    (fresh : ∀ m ∈ db.memories.rows, m.publicId ≠ ctx.newPublicId) :
    (writeSummary tools orgId ctx candidates db anchor result).isSome = true ↔
      Accepted candidates result := by
  have storable := storable_summaryRow orgId ctx anchor result
  by_cases texts : Audit.acceptsColumn 500 (some result.title) = true ∧
      PyValue.accepts result.body = true
  · obtain ⟨created, inserted, one⟩ := insertMemory_some db (summaryRow orgId ctx anchor result)
      ctx.idGap fresh ((storable 0).mpr texts)
    have links := insertMemory_links db inserted _ created ctx.idGap one
    obtain ⟨shape, _⟩ := insertMemory_done db _ _ created inserted one
    have next : created.id = lastMemoryId db + 1 + ctx.idGap := by rw [shape]
    have free : ∀ id ∈ result.derivedFromIds, inserted.links.any
        (MemoryLinkRepo.hasKey created.id id .derivedFrom) = false := by
      intro id _
      rw [links, List.any_eq_false]
      intro link present
      obtain ⟨m, stored, same⟩ := linked link present
      have bound := id_le_lastMemoryId db m stored
      have different : link.fromMemoryId ≠ created.id := by omega
      simp [MemoryLinkRepo.hasKey, different]
    have loop := linkMembers_isSome_iff tools ctx.now candidates created.id
      result.derivedFromIds
      (MemoryRepo.applyDecay ctx.now inserted created.id onePointZero (some .long))
    have whole : (writeSummary tools orgId ctx candidates db anchor result).isSome = true ↔
        (linkMembers tools ctx.now candidates created.id (MemoryRepo.applyDecay ctx.now inserted
          created.id onePointZero (some .long)) result.derivedFromIds).isSome = true := by
      simp only [writeSummary, one, bind, Option.bind_some]
      cases linkMembers tools ctx.now candidates created.id (MemoryRepo.applyDecay ctx.now inserted
        created.id onePointZero (some .long)) result.derivedFromIds <;> exact Iff.rfl
    rw [whole, loop]
    exact ⟨fun both => ⟨texts.1, texts.2, both.1, both.2.1⟩,
      fun accepted => ⟨accepted.distinct, accepted.known, free⟩⟩
  · have refused : db.insertMemory (summaryRow orgId ctx anchor result) ctx.idGap = none := by
      cases one : db.insertMemory (summaryRow orgId ctx anchor result) ctx.idGap with
      | none => rfl
      | some out =>
          obtain ⟨shape, accepted, _⟩ := insertMemory_done db _ _ out.1 out.2 one
          rw [shape] at accepted
          exact absurd ((storable _).mp accepted) texts
    refine iff_of_false ?_ fun accepted => texts ⟨accepted.title, accepted.body⟩
    simp [writeSummary, refused]

/-- The public ids of the next calls are new. -/
def FreshIds (ctx : Nat → CallContext) (first count : Nat) (db : Database) : Prop :=
  (db.memories.rows.map Memory.publicId ++
    (List.range' first count).map fun i => (ctx i).newPublicId).Nodup

theorem Grows.linked (grows : Grows db db') (summaryId : Nat)
    (present : ∃ m ∈ db'.memories.rows, m.id = summaryId)
    (links : ∀ link ∈ db'.links, link ∈ db.links ∨ link.fromMemoryId = summaryId)
    (linked : Linked db) : Linked db' := by
  intro link inside
  rcases links link inside with old | new
  · obtain ⟨m, stored, same⟩ := linked link old
    obtain ⟨m', stored', only⟩ := grows.image m stored
    exact ⟨m', stored', by rw [only]; exact same⟩
  · exact new ▸ present

/-- A run appends one row for each summary, under the public ids of its calls. -/
theorem consolidateGroups_tables (ctx : Nat → CallContext) (candidates : List Memory) (i : Nat)
    (groups : List (Int × List Memory)) (written : List Written) (db db' : Database)
    (done : consolidateGroups tools orgId ctx candidates i groups db = some (written, db')) :
    (Linked db → Linked db') ∧ ∃ ids, db'.memories.rows.map Memory.publicId =
        db.memories.rows.map Memory.publicId ++ ids ∧ ids.length = written.length ∧
      ids.Sublist ((List.range' i groups.length).map fun i => (ctx i).newPublicId) := by
  induction groups generalizing i db written with
  | nil =>
      obtain ⟨rfl, rfl⟩ := Prod.mk.inj (Option.some.inj done)
      exact ⟨id, [], by simp, rfl, List.nil_sublist _⟩
  | cons group rest ih =>
      obtain ⟨label, members⟩ := group
      rw [List.length_cons, List.range'_succ, List.map_cons]
      rcases consolidateGroups_cons ctx candidates i label members rest written db db' done with
        ⟨_, later⟩ | ⟨result, anchor, others, summary, middle, written', _, _, rfl, one, later⟩
      · obtain ⟨linked, ids, rows, length, sub⟩ := ih (i + 1) written db later
        exact ⟨linked, ids, rows, length, sub.cons _⟩
      · obtain ⟨grows, publicIds, ⟨row, present, id, _⟩, links⟩ := writeSummary_spec (ctx i) candidates
          anchor summary result one
        obtain ⟨linked, ids, rows, length, sub⟩ := ih (i + 1) written' middle later
        refine ⟨fun before => linked (grows.linked summary.id ⟨row, present, id⟩ links before),
          (ctx i).newPublicId :: ids, ?_, by rw [List.length_cons, length, List.length_cons],
          sub.cons_cons _⟩
        rw [rows, publicIds, List.append_assoc, List.singleton_append]

variable (tools orgId) in
/-- With new public ids the run commits exactly when every result is accepted. -/
theorem consolidateGroups_isSome_iff (ctx : Nat → CallContext) (candidates : List Memory) (i : Nat)
    (groups : List (Int × List Memory)) (nonempty : ∀ group ∈ groups, group.2 ≠ []) (db : Database)
    (linked : Linked db) (fresh : FreshIds ctx i groups.length db) :
    (consolidateGroups tools orgId ctx candidates i groups db).isSome = true ↔
      ∀ group ∈ groups, ∀ result, tools.consolidate (group.2.map clusterMember) = some result →
        Accepted candidates result := by
  induction groups generalizing i db with
  | nil => simp [consolidateGroups]
  | cons group rest ih =>
      obtain ⟨label, members⟩ := group
      rw [List.forall_mem_cons] at nonempty ⊢
      rw [FreshIds, List.length_cons, List.range'_succ, List.map_cons] at fresh
      cases found : tools.consolidate (members.map clusterMember) with
      | none =>
          have skip : consolidateGroups tools orgId ctx candidates i ((label, members) :: rest) db =
              consolidateGroups tools orgId ctx candidates (i + 1) rest db := by
            simp only [consolidateGroups, found]
          rw [skip, ih (i + 1) nonempty.2 db linked (fresh.sublist (by simp))]
          simp
      | some result =>
          cases members with
          | nil => exact absurd rfl nonempty.1
          | cons anchor others =>
              have fresh' : ∀ m ∈ db.memories.rows, m.publicId ≠ (ctx i).newPublicId := fun m stored =>
                (List.nodup_append.mp fresh).2.2 _ (List.mem_map_of_mem stored) _ (by simp)
              have one := writeSummary_isSome_iff tools orgId (ctx i) candidates
                anchor result linked fresh'
              simp only [consolidateGroups, found, Option.some.injEq, forall_eq', ← one]
              cases done : writeSummary tools orgId (ctx i) candidates db anchor result with
              | none => simp
              | some out =>
                  obtain ⟨summary, middle⟩ := out
                  obtain ⟨grows, publicIds, ⟨row, present, id, _⟩, links⟩ :=
                    writeSummary_spec (ctx i) candidates anchor summary result done
                  have linked' := grows.linked summary.id ⟨row, present, id⟩ links linked
                  have rest_fresh : FreshIds ctx (i + 1) rest.length middle := by
                    rw [FreshIds, publicIds, List.append_assoc]
                    exact fresh
                  rw [← ih (i + 1) nonempty.2 middle linked' rest_fresh]
                  simp only [bind, Option.bind_some, Option.isSome_some, true_and]
                  cases consolidateGroups tools orgId ctx candidates (i + 1) rest middle <;> exact Iff.rfl

/-- Without a result for any group the run writes nothing. -/
theorem consolidateGroups_nothing (ctx : Nat → CallContext) (candidates : List Memory) (i : Nat)
    (groups : List (Int × List Memory)) (db : Database)
    (nothing : ∀ group ∈ groups, tools.consolidate (group.2.map clusterMember) = none) :
    consolidateGroups tools orgId ctx candidates i groups db = some ([], db) := by
  induction groups generalizing i with
  | nil => rfl
  | cons group rest ih =>
      obtain ⟨label, members⟩ := group
      obtain ⟨own, others⟩ := List.forall_mem_cons.mp nothing
      simp only [consolidateGroups, own]
      exact ih (i + 1) others

/-- The second run wrote no summary and no link, and changed no decay. -/
structure Idle (first second : Database) : Prop where
  rows : second.memories.rows.map (fun m => (m.id, m.decayScore)) =
    first.memories.rows.map fun m => (m.id, m.decayScore)
  links : second.links = first.links

/-- The public ids of two runs are new. -/
def FreshTwice (ctx ctx' : Nat → CallContext) (count : Nat) (db : Database) : Prop :=
  (db.memories.rows.map Memory.publicId ++ ((List.range' 0 count).map fun i => (ctx i).newPublicId) ++
    (List.range' 0 count).map fun i => (ctx' i).newPublicId).Nodup

theorem acceptedFor_map (change : Memory → Memory) (only : ∀ m, OnlyDecays m (change m))
    (candidates : List Memory) (result : ConsolidationResult) (accepted : Accepted candidates result) :
    Accepted (candidates.map change) result := by
  refine ⟨accepted.title, accepted.body, accepted.distinct, fun id listed => ?_⟩
  obtain ⟨c, present, same⟩ := accepted.known id listed
  exact ⟨change c, List.mem_map_of_mem present, by rw [only c]; exact same⟩

theorem clusterMember_change (change : Memory → Memory) (only : ∀ m, OnlyDecays m (change m))
    (members : List Memory) : (members.map change).map clusterMember = members.map clusterMember := by
  rw [List.map_map]
  apply List.map_congr_left
  intro m _
  rw [Function.comp_apply, only m]
  rfl

theorem summarised_map (change : Memory → Memory) (only : ∀ m, OnlyDecays m (change m))
    (groups : List (Int × List Memory)) :
    summarised tools (groups.map fun group => (group.1, group.2.map change)) =
      (summarised tools groups).map (List.map change) := by
  have seconds : (groups.map fun group => (group.1, group.2.map change)).map Prod.snd =
      (groups.map Prod.snd).map (List.map change) := by
    rw [List.map_map, List.map_map]
    rfl
  rw [summarised, seconds, List.filter_map, summarised]
  congr 2
  funext members
  simp only [Function.comp_apply, clusterMember_change change only, List.isEmpty_map]

/-- A run that wrote a summary is followed by one that writes another summary of each cluster. -/
theorem repeats (ctx ctx' : Nat → CallContext) (written : List Written) (db first : Database)
    (linked : Linked db)
    (fresh : FreshTwice ctx ctx' (groupsOf tools (MemoryRepo.listForConsolidation db orgId)).length db)
    (done : consolidateOrg tools orgId ctx db = some (written, first))
    (accepted : ∀ group ∈ groupsOf tools (MemoryRepo.listForConsolidation db orgId), ∀ result,
      tools.consolidate (group.2.map clusterMember) = some result →
        Accepted (MemoryRepo.listForConsolidation db orgId) result) :
    ∃ again second, consolidateOrg tools orgId ctx' first = some (again, second) ∧
      again.length = written.length := by
  set candidates := MemoryRepo.listForConsolidation db orgId with candidatesEq
  set groups := groupsOf tools candidates with groupsEq
  obtain ⟨⟨change, summaries, rows, only, long⟩, members, _⟩ :=
    consolidateGroups_spec ctx candidates 0 groups written db first done
  obtain ⟨keepsLinked, ids, publicIds, _, sub⟩ :=
    consolidateGroups_tables ctx candidates 0 groups written db first done
  have candidates' : MemoryRepo.listForConsolidation first orgId = candidates.map change :=
    candidates_after change summaries rows only long
  have groups' : groupsOf tools (candidates.map change) =
      groups.map fun group => (group.1, group.2.map change) :=
    groupsOf_map change (fun m => by rw [only m]) candidates
  have fresh' : FreshIds ctx' 0 groups.length first := by
    rw [FreshIds, publicIds]
    exact fresh.sublist ((sub.append_left _).append_right _)
  have commits := (consolidateGroups_isSome_iff tools orgId ctx'
    (candidates.map change) 0 (groups.map fun group => (group.1, group.2.map change))
    (by
      intro group grouped
      rw [← groups'] at grouped
      exact members_ne_nil _ group grouped)
    first (keepsLinked linked) (by rw [List.length_map]; exact fresh')).mpr (by
      intro group grouped result found
      obtain ⟨before, inside, rfl⟩ := List.mem_map.mp grouped
      rw [clusterMember_change change only] at found
      exact acceptedFor_map change only candidates result (accepted before inside result found))
  obtain ⟨⟨again, second⟩, rerun⟩ := Option.isSome_iff_exists.mp commits
  refine ⟨again, second, ?_, ?_⟩
  · rw [consolidateOrg, candidates', groups']
    exact rerun
  · obtain ⟨_, members', _⟩ := consolidateGroups_spec ctx' _ 0 _ again first second rerun
    have same : (summarised tools (groups.map fun group => (group.1, group.2.map change))).length =
        (summarised tools groups).length := by
      rw [summarised_map change only, List.length_map]
    rw [← members', ← members, List.length_map, List.length_map] at same
    exact same

/-- A run without a result writes nothing. -/
theorem afterRun_nothing (ctx : Nat → CallContext) (nothing : ∀ group ∈ groupsOf tools
    (MemoryRepo.listForConsolidation db orgId),
      tools.consolidate (group.2.map clusterMember) = none) : afterRun tools orgId ctx db = db := by
  rw [afterRun, consolidateOrg, consolidateGroups_nothing ctx _ 0 _ db nothing]
  rfl

/-- A run with a refused result is rolled back. -/
theorem afterRun_refused (ctx : Nat → CallContext) (linked : Linked db)
    (fresh : FreshIds ctx 0 (groupsOf tools (MemoryRepo.listForConsolidation db orgId)).length db)
    (refused : ¬ ∀ group ∈ groupsOf tools (MemoryRepo.listForConsolidation db orgId), ∀ result,
      tools.consolidate (group.2.map clusterMember) = some result →
        Accepted (MemoryRepo.listForConsolidation db orgId) result) :
    afterRun tools orgId ctx db = db := by
  have none := mt (consolidateGroups_isSome_iff tools orgId ctx _ 0 _
    (members_ne_nil _) db linked fresh).mp refused
  rw [Bool.not_eq_true, Option.isSome_eq_false_iff, Option.isNone_iff_eq_none] at none
  rw [afterRun, consolidateOrg, none]
  rfl

/-- After a run with a summary the next one is not idle. -/
theorem not_idle (ctx ctx' : Nat → CallContext) (linked : Linked db)
    (fresh : FreshTwice ctx ctx' (groupsOf tools (MemoryRepo.listForConsolidation db orgId)).length db)
    (accepted : ∀ group ∈ groupsOf tools (MemoryRepo.listForConsolidation db orgId), ∀ result,
      tools.consolidate (group.2.map clusterMember) = some result →
        Accepted (MemoryRepo.listForConsolidation db orgId) result)
    (group : Int × List Memory)
    (grouped : group ∈ groupsOf tools (MemoryRepo.listForConsolidation db orgId))
    (found : tools.consolidate (group.2.map clusterMember) ≠ none) :
    ¬ Idle (afterRun tools orgId ctx db) (afterRun tools orgId ctx' (afterRun tools orgId ctx db)) := by
  obtain ⟨⟨written, first⟩, done⟩ := Option.isSome_iff_exists.mp
    ((consolidateGroups_isSome_iff tools orgId ctx _ 0 _ (members_ne_nil _) db
      linked (fresh.sublist (List.sublist_append_left _ _))).mpr accepted)
  obtain ⟨again, second, rerun, length⟩ := repeats ctx ctx' written db first linked fresh done accepted
  have firstEq : afterRun tools orgId ctx db = first := by
    rw [afterRun, consolidateOrg, done]
    rfl
  have secondEq : afterRun tools orgId ctx' first = second := by
    rw [afterRun, rerun]
    rfl
  rw [firstEq, secondEq]
  intro idle
  obtain ⟨_, ids, rows, count, _⟩ := consolidateGroups_tables ctx' _ 0 _ again first second rerun
  have equal := congrArg List.length idle.rows
  have longer := congrArg List.length rows
  simp only [List.length_map, List.length_append] at equal longer
  have none : written = [] := List.length_eq_zero_iff.mp (by omega)
  obtain ⟨_, members, _⟩ := consolidateGroups_spec ctx _ 0 _ written db first done
  have inside : group.2 ∈ summarised tools
      (groupsOf tools (MemoryRepo.listForConsolidation db orgId)) := by
    rw [summarised, List.mem_filter, Bool.and_eq_true]
    refine ⟨List.mem_map_of_mem grouped, Option.isSome_iff_ne_none.mpr found, ?_⟩
    simpa using members_ne_nil _ group grouped
  rw [← members, none] at inside
  exact absurd inside List.not_mem_nil

/-- A second run of the task is idle exactly when no cluster has a result, or the database refuses one
of the results. -/
theorem second_run_idle_iff (ctx ctx' : Nat → CallContext) (db : Database) (linked : Linked db)
    (fresh : FreshTwice ctx ctx' (groupsOf tools (MemoryRepo.listForConsolidation db orgId)).length db) :
    let first := afterRun tools orgId ctx db
    let candidates := MemoryRepo.listForConsolidation db orgId
    Idle first (afterRun tools orgId ctx' first) ↔
      (∀ group ∈ groupsOf tools candidates, tools.consolidate (group.2.map clusterMember) = none) ∨
        ∃ group ∈ groupsOf tools candidates, ∃ result,
          tools.consolidate (group.2.map clusterMember) = some result ∧ ¬ Accepted candidates result := by
  intro first candidates
  have unchanged : afterRun tools orgId ctx db = db → afterRun tools orgId ctx' db = db →
      Idle first (afterRun tools orgId ctx' first) := by
    intro once twice
    change Idle (afterRun tools orgId ctx db) (afterRun tools orgId ctx' (afterRun tools orgId ctx db))
    rw [once, twice]
    exact ⟨rfl, rfl⟩
  by_cases nothing : ∀ group ∈ groupsOf tools candidates,
      tools.consolidate (group.2.map clusterMember) = none
  · exact iff_of_true (unchanged (afterRun_nothing ctx nothing) (afterRun_nothing ctx' nothing))
      (Or.inl nothing)
  by_cases accepted : ∀ group ∈ groupsOf tools candidates, ∀ result,
      tools.consolidate (group.2.map clusterMember) = some result → Accepted candidates result
  · refine iff_of_false ?_ ?_
    · simp only [not_forall, exists_prop] at nothing
      obtain ⟨group, grouped, found⟩ := nothing
      exact not_idle ctx ctx' linked fresh accepted group grouped found
    · rintro (none | ⟨group, grouped, result, found, refused⟩)
      · exact nothing none
      · exact refused (accepted group grouped result found)
  · have new : FreshIds ctx 0 (groupsOf tools candidates).length db :=
      fresh.sublist (List.sublist_append_left _ _)
    have new' : FreshIds ctx' 0 (groupsOf tools candidates).length db :=
      fresh.sublist ((List.sublist_append_left _ _).append_right _)
    refine iff_of_true (unchanged (afterRun_refused ctx linked new accepted)
      (afterRun_refused ctx' linked new' accepted)) (Or.inr ?_)
    simp only [not_forall, exists_prop] at accepted
    exact accepted

/-- These are the calls of the night after. -/
def nextContext (i : Nat) : CallContext where
  now := 6
  newPublicId := BitVec.ofNat 128 (i + 70)

theorem linked_twoMemories (scopeId : Nat) (review : ReviewStatus) :
    Linked (twoMemories scopeId review) := fun _ present => absurd present List.not_mem_nil

theorem freshTwice_twoMemories : FreshTwice sampleContext nextContext
    (groupsOf oneCluster (MemoryRepo.listForConsolidation (twoMemories 1 .approved) 1)).length
      (twoMemories 1 .approved) := by
  change List.Nodup [BitVec.ofNat 128 1, BitVec.ofNat 128 2, BitVec.ofNat 128 7, BitVec.ofNat 128 70]
  decide

theorem second_run_idle_iff_of_twoMemories :
    let first := afterRun oneCluster 1 sampleContext (twoMemories 1 .approved)
    let candidates := MemoryRepo.listForConsolidation (twoMemories 1 .approved) 1
    Idle first (afterRun oneCluster 1 nextContext first) ↔
      (∀ group ∈ groupsOf oneCluster candidates,
        oneCluster.consolidate (group.2.map clusterMember) = none) ∨
          ∃ group ∈ groupsOf oneCluster candidates, ∃ result,
            oneCluster.consolidate (group.2.map clusterMember) = some result ∧
              ¬ Accepted candidates result :=
  second_run_idle_iff sampleContext nextContext _ (linked_twoMemories 1 .approved)
    freshTwice_twoMemories

/-- The night after, the same two memories get a second summary. -/
theorem second_summary_of_cluster :
    ¬ ∀ (tools : Tools) (orgId : Nat) (ctx ctx' : Nat → CallContext) (db : Database), Linked db →
      FreshTwice ctx ctx' (groupsOf tools (MemoryRepo.listForConsolidation db orgId)).length db →
        Idle (afterRun tools orgId ctx db)
          (afterRun tools orgId ctx' (afterRun tools orgId ctx db)) := by
  intro idle
  have rows := (idle oneCluster 1 sampleContext nextContext (twoMemories 1 .approved)
    (linked_twoMemories 1 .approved) freshTwice_twoMemories).rows
  have lengths := congrArg List.length rows
  rw [List.length_map, List.length_map] at lengths
  exact absurd lengths (by decide)

end ConsolidationTask
end Kortex
