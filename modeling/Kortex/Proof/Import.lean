import Kortex.Proof.ImportMemories

/-
This file proves when an export and an import preserve the memories and links of a scope.
-/

namespace Kortex.ExportService

open MemoryService

variable {env : Environment} {p : Principal} {target : ScopeFilter} {ctx : Nat → CallContext}
variable {db : Database} {round : FloatText → PyFloat}
variable {pairs : List (Memory × Memory)} {oldToNew oldToNew' : OldToNew} {s s' : Session}

/-- This is the primary key of a link. -/
def linkKey (link : MemoryLink) : Nat × Nat × MemoryLinkType :=
  (link.fromMemoryId, link.toMemoryId, link.linkType)

theorem hasKey_iff (fromId toId : Nat) (linkType : MemoryLinkType) (link : MemoryLink) :
    MemoryLinkRepo.hasKey fromId toId linkType link = true ↔ linkKey link = (fromId, toId, linkType) := by
  simp [MemoryLinkRepo.hasKey, linkKey, and_assoc]

/-- A link between two memories, each with its copy. -/
abbrev LinkEntry := MemoryLink × (Memory × Memory) × (Memory × Memory)

/-- The key of the link between the copies. -/
def newKey (entry : LinkEntry) : Nat × Nat × MemoryLinkType :=
  (entry.2.1.2.id, entry.2.2.2.id, entry.1.linkType)

def entryRow (entry : LinkEntry) : Json := .obj (linkMembers entry.1 entry.2.1.1 entry.2.2.1)

/-- The copies are visible under the ids of the map. -/
structure Mapped (p : Principal) (pairs : List (Memory × Memory)) (oldToNew : OldToNew) (db : Database) :
    Prop where
  visible : ∀ pair ∈ pairs, pair.2 ∈ MemoryRepo.liveRows p db
  mapped : ∀ pair ∈ pairs, Dict.get? oldToNew pair.1.publicId.str = some pair.2.publicId

/-- A link whose key is not taken is copied. -/
theorem importLink_copies (mapped : Mapped p pairs oldToNew s.db) (context : CallContext)
    (entry : LinkEntry) (source : entry.2.1 ∈ pairs) (target : entry.2.2 ∈ pairs)
    (free : newKey entry ∉ s.db.links.map linkKey) :
    ∃ link, importLink p context oldToNew s (entryRow entry) =
        .ok (1, { s with db := { s.db with links := s.db.links ++ [link] } }) ∧
      linkKey link = newKey entry ∧ link.weight = entry.1.weight := by
  obtain ⟨link, ⟨a, a'⟩, b, b'⟩ := entry
  have first := MemoryRepo.getByPublicId_of_mem p s.db a' (mapped.visible _ source)
  have second := MemoryRepo.getByPublicId_of_mem p s.db b' (mapped.visible _ target)
  have types : MemoryLinkType.ofValue? link.linkType.value = some link.linkType := by
    cases link.linkType <;> decide
  have unused : s.db.links.any (MemoryLinkRepo.hasKey a'.id b'.id link.linkType) = false := by
    rw [List.any_eq_false]
    intro other inside taken
    exact free (List.mem_map.mpr ⟨other, inside, (hasKey_iff _ _ _ _).mp taken⟩)
  refine ⟨⟨a'.id, b'.id, link.linkType, link.weight, context.now⟩, ?_, rfl, rfl⟩
  have fromId : Dict.get? (linkMembers link a b) "from_public_id" = some (.str a.publicId.str) := rfl
  have toId : Dict.get? (linkMembers link a b) "to_public_id" = some (.str b.publicId.str) := rfl
  have typeName : Dict.get? (linkMembers link a b) "link_type" = some (.str link.linkType.value) := rfl
  have weight : Dict.get? (linkMembers link a b) "weight" = some (.float link.weight) := rfl
  have one := mapped.mapped _ source
  have two := mapped.mapped _ target
  simp only at one two
  simp only [entryRow, importLink, fromId, toId, typeName, weight, one, two, Option.getD_some, types,
    MemoryService.link, first, second, MemoryLinkRepo.link, unused, Bool.false_eq_true, if_false, flush,
    bind, Except.bind]
  rfl

/-- Links whose keys are not taken are all copied, with their types and weights. -/
theorem importLinks_copies (entries : List LinkEntry) (i : Nat)
    (mapped : Mapped p pairs oldToNew s.db)
    (ends : ∀ entry ∈ entries, entry.2.1 ∈ pairs ∧ entry.2.2 ∈ pairs)
    (keys : (s.db.links.map linkKey ++ entries.map newKey).Nodup) :
    ∃ made s' links, importLinks p ctx oldToNew i (entries.map entryRow) s = .ok (made, s') ∧
      s'.db.memories = s.db.memories ∧ s'.db.links = s.db.links ++ links ∧
      (links.map fun link => (linkKey link, link.weight)) =
        entries.map fun entry => (newKey entry, entry.1.weight) := by
  induction entries generalizing i s with
  | nil => exact ⟨0, s, [], rfl, rfl, by simp, rfl⟩
  | cons entry rest ih =>
      rw [List.forall_mem_cons] at ends
      have free : newKey entry ∉ s.db.links.map linkKey := by
        intro taken
        exact (List.nodup_append.mp keys).2.2 _ taken _ List.mem_cons_self rfl
      obtain ⟨link, one, key, weight⟩ := importLink_copies mapped (ctx i) entry ends.1.1 ends.1.2 free
      let next : Session := { s with db := { s.db with links := s.db.links ++ [link] } }
      have nextKeys : (next.db.links.map linkKey ++ rest.map newKey).Nodup := by
        change ((s.db.links ++ [link]).map linkKey ++ _).Nodup
        rw [List.map_append, List.append_assoc, List.map_singleton, key]
        exact keys
      obtain ⟨made, s', links, later, memories, all, copied⟩ :=
        ih (i + 1) (s := next) ⟨mapped.visible, mapped.mapped⟩ ends.2 nextKeys
      refine ⟨1 + made, s', link :: links, ?_, memories, ?_, ?_⟩
      · simp only [List.map_cons, importLinks, one, later, bind, Except.bind, next]
        rfl
      · rw [all, List.append_assoc]
        rfl
      · rw [List.map_cons, List.map_cons, copied, key, weight]

/-- These are the approved live memories of a scope. -/
def scopeMemories (p : Principal) (db : Database) (scope : ScopeFilter) : List Memory :=
  (MemoryRepo.liveRows p db).filter fun m => m.reviewStatus == .approved && m.inScope scope

/-- An export reads all memories of a scope that has at most ten thousand. -/
theorem exportedMemories_perm (p : Principal) (db : Database) (scope : ScopeFilter)
    (few : (scopeMemories p db scope).length ≤ 10000) :
    (exportedMemories p db scope).Perm (scopeMemories p db scope) := by
  have same : (MemoryRepo.liveRows p db).filter (fun m => m.reviewStatus == .approved &&
      (some scope).all m.inScope && (none : Option MemoryTier).all (· == m.tier) &&
      (none : Option MemoryKind).all (· == m.kind) && (none : Option Sensitivity).all m.upTo) =
        scopeMemories p db scope := by
    simp only [Option.all_some, Option.all_none, Bool.and_true]
    rfl
  rw [exportedMemories, MemoryRepo.list_, same, List.drop_zero, List.take_of_length_le]
  · exact List.perm_insertionSort _ _
  · rwa [List.length_insertionSort]

theorem mem_scopeMemories (p : Principal) (db : Database) (scope : ScopeFilter) (m : Memory)
    (inside : m ∈ scopeMemories p db scope) : m ∈ db.memories.rows := by
  have member := (List.mem_filter.mp inside).1
  rw [MemoryRepo.mem_liveRows] at member
  exact member.1

/-- The ids and the public ids of the memories of a scope are distinct. -/
theorem distinct_scopeMemories (p : Principal) (db : Database) (scope : ScopeFilter) :
    ((scopeMemories p db scope).map Memory.id).Nodup ∧
      ((scopeMemories p db scope).map Memory.publicId).Nodup := by
  have parts : (scopeMemories p db scope).Sublist db.memories.rows :=
    List.filter_sublist.trans (List.filter_sublist.trans List.filter_sublist)
  have apart := db.memories.pairwise.sublist parts
  constructor
  · exact List.pairwise_map.mpr (apart.imp fun separate => Nat.ne_of_lt separate.1)
  · exact List.pairwise_map.mpr (apart.imp fun separate => separate.2)

/-- The tables hold what their columns and constraints let in, and the JSON columns hold JSON values. -/
structure Stored (round : FloatText → PyFloat) (db : Database) : Prop where
  storable : ∀ m ∈ db.memories.rows, m.storable = true
  metadata : ∀ m ∈ db.memories.rows, Json.Proper round (.obj m.metadata)
  importance : ∀ m ∈ db.memories.rows, Json.Proper round (.float m.importance)
  sourceRef : ∀ m ∈ db.memories.rows, ∀ ref, m.sourceRef = some ref → Json.Proper round (.obj ref)
  linkKeys : (db.links.map linkKey).Nodup
  linkEnds : ∀ link ∈ db.links, (∃ m ∈ db.memories.rows, m.id = link.fromMemoryId) ∧
    ∃ m ∈ db.memories.rows, m.id = link.toMemoryId
  weights : ∀ link ∈ db.links, Json.Proper round (.float link.weight)

/-- The memories are copied one to one into the scope, and each link between them onto exactly one
link between the copies, with its type and weight. -/
structure Preserved (target : ScopeFilter) (memories : List Memory) (links : List MemoryLink)
    (oldToNew : OldToNew) (after : Database) : Prop where
  copied : ∀ m ∈ memories, ∃ m' ∈ after.memories.rows,
    Dict.get? oldToNew m.publicId.str = some m'.publicId ∧ IsCopy target m m'
  oneToOne : Separates memories oldToNew
  linked : ∀ link ∈ links, ∀ a ∈ memories, ∀ b ∈ memories, a.id = link.fromMemoryId →
    b.id = link.toMemoryId → ∀ a' ∈ after.memories.rows, ∀ b' ∈ after.memories.rows,
      Dict.get? oldToNew a.publicId.str = some a'.publicId →
      Dict.get? oldToNew b.publicId.str = some b'.publicId →
        (after.links.filter (MemoryLinkRepo.hasKey a'.id b'.id link.linkType)).map MemoryLink.weight =
          [link.weight]

theorem Preserved.of_perm {memories memories' : List Memory} {links : List MemoryLink} {after : Database}
    (preserved : Preserved target memories links oldToNew after) (perm : memories.Perm memories') :
    Preserved target memories' links oldToNew after where
  copied m member := preserved.copied m (perm.mem_iff.mpr member)
  oneToOne m member m' member' :=
    preserved.oneToOne m (perm.mem_iff.mpr member) m' (perm.mem_iff.mpr member')
  linked link present a memberA b memberB :=
    preserved.linked link present a (perm.mem_iff.mpr memberA) b (perm.mem_iff.mpr memberB)

/-- No string of the archive has a raw break, no memory repeats another one where repeats are folded,
and the plan has room for all of them. -/
structure Importable (env : Environment) (p : Principal) (db : Database) (memories : List Memory)
    (attachments : List ExportedAttachment) : Prop where
  memoryRows : ∀ m ∈ memories, hasRawBreak (memoryRow m) = false
  attachmentRows : ∀ a ∈ attachments, hasRawBreak (attachmentRow a) = false
  apart : ∀ m ∈ memories, ∀ m' ∈ memories, m ≠ m' → ¬ Clash env m m'
  room : memories ≠ [] → (countOf p ⟨db, {}⟩ + memories.length : Int) ≤ capOf p ⟨db, {}⟩

/-- The ids and public ids of the copies are distinct, and no memory of the database had the ids. -/
theorem Progress.copyIds (progress : Progress env p target ctx db pairs oldToNew s) :
    (pairs.map fun pair => pair.2.id).Nodup ∧ (pairs.map fun pair => pair.2.publicId).Nodup ∧
      ∀ m ∈ db.memories.rows, ∀ pair ∈ pairs, m.id ≠ pair.2.id := by
  have apart := s.db.memories.pairwise
  rw [progress.rows, List.pairwise_append, List.pairwise_map] at apart
  obtain ⟨_, among, across⟩ := apart
  refine ⟨List.pairwise_map.mpr (among.imp fun separate => Nat.ne_of_lt separate.1),
    List.pairwise_map.mpr (among.imp fun separate => separate.2), ?_⟩
  intro m stored pair inside
  exact Nat.ne_of_lt (across m stored pair.2 (List.mem_map.mpr ⟨pair, inside, rfl⟩)).1

/-- These are the links between copied memories, with their ends. -/
def entriesOf (pairs : List (Memory × Memory)) (links : List MemoryLink) : List LinkEntry :=
  linksAmong Prod.fst pairs links

/-- The keys of the links between the copies are new and distinct. -/
theorem newKeys_nodup (progress : Progress env p target ctx db pairs oldToNew s) (stored : Stored round db)
    (distinct : (pairs.map fun pair => pair.1.id).Nodup) (links : List MemoryLink)
    (linkKeys : (links.map linkKey).Nodup) :
    (s.db.links.map linkKey ++ (entriesOf pairs links).map newKey).Nodup := by
  have sameLinks : s.db.links = db.links := by rw [progress.frame]
  obtain ⟨copyIds, _, newIds⟩ := progress.copyIds
  have member (entry : LinkEntry) (inside : entry ∈ entriesOf pairs links) :=
    (mem_linksAmong Prod.fst pairs links distinct entry.1 entry.2.1 entry.2.2).mp inside
  rw [sameLinks, List.nodup_append]
  refine ⟨stored.linkKeys, ?_, ?_⟩
  · have oldKeys : ((entriesOf pairs links).map fun entry => linkKey entry.1).Nodup := by
      have sub := (linksAmong_sublist Prod.fst pairs links).map linkKey
      rw [List.map_map] at sub
      exact linkKeys.sublist sub
    apply List.Nodup.map_on _ (List.Nodup.of_map _ oldKeys)
    intro entry inside entry' inside' same
    obtain ⟨_, ⟨source, sourceId⟩, targets, targetId⟩ := member entry inside
    obtain ⟨_, ⟨source', sourceId'⟩, targets', targetId'⟩ := member entry' inside'
    simp only [newKey, Prod.mk.injEq] at same
    obtain ⟨sameFrom, sameTo, sameType⟩ := same
    have first := List.inj_on_of_nodup_map copyIds source source' sameFrom
    have second := List.inj_on_of_nodup_map copyIds targets targets' sameTo
    apply List.inj_on_of_nodup_map oldKeys inside inside'
    rw [linkKey, linkKey, ← sourceId, ← targetId, ← sourceId', ← targetId', first, second, sameType]
  · intro key old key' new same
    obtain ⟨link, present, rfl⟩ := List.mem_map.mp old
    obtain ⟨entry, inside, rfl⟩ := List.mem_map.mp new
    obtain ⟨m, row, sameId⟩ := (stored.linkEnds link present).1
    apply newIds m row entry.2.1 (member entry inside).2.1.1
    rw [sameId]
    exact (Prod.mk.inj same).1

/-- The links of the copies preserve the links between the memories. -/
theorem preserved_of_copies (progress : Progress env p target ctx db pairs oldToNew s)
    (ids : (pairs.map fun pair => pair.1.id).Nodup)
    (publicIds : ((pairs.map Prod.fst).map Memory.publicId).Nodup) (links made : List MemoryLink)
    (memories : s'.db.memories = s.db.memories) (all : s'.db.links = s.db.links ++ made)
    (keys : (s.db.links.map linkKey ++ (entriesOf pairs links).map newKey).Nodup)
    (copied : (made.map fun link => (linkKey link, link.weight)) =
      (entriesOf pairs links).map fun entry => (newKey entry, entry.1.weight)) :
    Preserved target (pairs.map Prod.fst) links oldToNew s'.db := by
  have named (pair : Memory × Memory) (inside : pair ∈ pairs) :=
    Progress.get? progress publicIds pair inside
  have row (pair : Memory × Memory) (inside : pair ∈ pairs) : pair.2 ∈ s'.db.memories.rows := by
    rw [memories, progress.rows]
    exact List.mem_append_right _ (List.mem_map.mpr ⟨pair, inside, rfl⟩)
  have copyOf (pair : Memory × Memory) (inside : pair ∈ pairs) (m' : Memory)
      (stored : m' ∈ s'.db.memories.rows)
      (found : Dict.get? oldToNew pair.1.publicId.str = some m'.publicId) : pair.2 = m' := by
    rw [named pair inside] at found
    exact memory_eq_of_publicId s'.db _ _ (row pair inside) stored (Option.some.inj found)
  constructor
  · intro m inside
    obtain ⟨pair, member, rfl⟩ := List.mem_map.mp inside
    exact ⟨pair.2, row pair member, named pair member, (progress.copies pair member).toIsCopy⟩
  · intro m inside m' inside' same
    obtain ⟨pair, member, rfl⟩ := List.mem_map.mp inside
    obtain ⟨pair', member', rfl⟩ := List.mem_map.mp inside'
    rw [named pair member, named pair' member'] at same
    rw [List.inj_on_of_nodup_map progress.copyIds.2.1 member member' (Option.some.inj same)]
  · intro link stored a insideA b insideB fromId toId a' storedA b' storedB foundA foundB
    obtain ⟨source, memberA, rfl⟩ := List.mem_map.mp insideA
    obtain ⟨target, memberB, rfl⟩ := List.mem_map.mp insideB
    obtain rfl := copyOf source memberA a' storedA foundA
    obtain rfl := copyOf target memberB b' storedB foundB
    have entry : (link, source, target) ∈ entriesOf pairs links :=
      (mem_linksAmong Prod.fst pairs links ids link source target).mpr
        ⟨stored, ⟨memberA, fromId⟩, memberB, toId⟩
    have present : (newKey (link, source, target), link.weight) ∈
        made.map fun link => (linkKey link, link.weight) := by
      rw [copied]
      exact List.mem_map.mpr ⟨_, entry, rfl⟩
    obtain ⟨new, inside, same⟩ := List.mem_map.mp present
    obtain ⟨sameKey, sameWeight⟩ := Prod.mk.inj same
    have madeKeys : made.map linkKey = (entriesOf pairs links).map newKey := by
      have firsts := congrArg (List.map Prod.fst) copied
      rwa [List.map_map, List.map_map] at firsts
    have distinct : (s'.db.links.map linkKey).Nodup := by
      rwa [all, List.map_append, madeKeys]
    have filtered := filter_key linkKey s'.db.links distinct new
      (by rw [all]; exact List.mem_append_right _ inside)
    have asked : s'.db.links.filter (MemoryLinkRepo.hasKey source.2.id target.2.id link.linkType) =
        s'.db.links.filter fun other => decide (linkKey other = linkKey new) := by
      apply List.filter_congr
      intro other _
      rw [Bool.eq_iff_iff, hasKey_iff, decide_eq_true_eq, sameKey]
      rfl
    rw [asked, filtered, List.map_singleton, sameWeight]

/-- The memories of a scope, at most ten thousand, and the links between them are exported, and the
archive is imported into a scope that is empty. The import mints new public ids. -/
structure Transfer (env : Environment) (round : FloatText → PyFloat) (exporter : Principal)
    (source : Database) (scope : ScopeFilter) (attachments : List ExportedAttachment) (p : Principal)
    (db : Database) (target : ScopeFilter) (ctx : Nat → CallContext) : Prop where
  sourceStored : Stored round source
  attachmentJson : ∀ a ∈ attachments, Json.Proper round (.obj a.metadata)
  few : (scopeMemories exporter source scope).length ≤ 10000
  stored : Stored round db
  admitted : Admitted env p target db
  empty : EmptyScope target db
  mints : Mints ctx (scopeMemories exporter source scope).length db

namespace Transfer

variable {exporter : Principal} {source : Database} {scope : ScopeFilter}
variable {attachments : List ExportedAttachment}
variable (transfer : Transfer env round exporter source scope attachments p db target ctx)

include transfer

theorem perm : (exportedMemories exporter source scope).Perm (scopeMemories exporter source scope) :=
  exportedMemories_perm exporter source scope transfer.few

theorem mem_rows (m : Memory) (exported : m ∈ exportedMemories exporter source scope) :
    m ∈ source.memories.rows :=
  mem_scopeMemories exporter source scope m (transfer.perm.mem_iff.mp exported)

theorem ids : ((exportedMemories exporter source scope).map Memory.id).Nodup :=
  (transfer.perm.map Memory.id).nodup_iff.mpr (distinct_scopeMemories exporter source scope).1

theorem loop : Loop env ctx db [] (exportedMemories exporter source scope) := by
  refine ⟨fun m exported => transfer.sourceStored.storable m (transfer.mem_rows m exported), ?_, ?_⟩
  · exact (transfer.perm.map Memory.publicId).nodup_iff.mpr
      (distinct_scopeMemories exporter source scope).2
  · change Mints ctx (exportedMemories exporter source scope).length db
    rw [transfer.perm.length_eq]
    exact transfer.mints

theorem room_iff : (exportedMemories exporter source scope ≠ [] →
      (countOf p ⟨db, {}⟩ + (Originals [] (exportedMemories exporter source scope)).length : Int) ≤
        capOf p ⟨db, {}⟩) ↔
    (scopeMemories exporter source scope ≠ [] →
      (countOf p ⟨db, {}⟩ + (scopeMemories exporter source scope).length : Int) ≤ capOf p ⟨db, {}⟩) := by
  change (_ → (_ + ((exportedMemories exporter source scope).length : Int)) ≤ _) ↔ _
  rw [← List.length_pos_iff, ← List.length_pos_iff, transfer.perm.length_eq]

theorem links_json : ∀ row ∈ linkRows (exportInput exporter source scope attachments),
    Json.Proper round (.obj row) ∧ hasRawBreak row = false := by
  intro row present
  rw [linkRows_eq id _ source (exportedMemories exporter source scope) (List.map_id _).symm transfer.ids
    rfl] at present
  obtain ⟨entry, member, rfl⟩ := List.mem_map.mp present
  have link := ((mem_linksAmong id _ _ transfer.ids entry.1 entry.2.1 entry.2.2).mp member).1
  exact ⟨proper_linkMembers _ _ _ (transfer.sourceStored.weights entry.1 link),
    hasRawBreak_linkMembers _ _ _⟩

theorem memories_json (m : Memory) (exported : m ∈ exportedMemories exporter source scope) :
    Json.Proper round (.obj (memoryRow m)) :=
  proper_memoryRow m (transfer.sourceStored.metadata m (transfer.mem_rows m exported))
    (transfer.sourceStored.importance m (transfer.mem_rows m exported))
    (transfer.sourceStored.sourceRef m (transfer.mem_rows m exported))

/-- An import that copies the memories one to one has read an importable archive. -/
theorem importable_of_separates (imported : Imported) (s' : Session)
    (done : importFromTar env p target ctx round db
      (streamExport (exportInput exporter source scope attachments)) = .ok (imported, s'))
    (separates : Separates (scopeMemories exporter source scope) imported.oldToNew) :
    Importable env p db (scopeMemories exporter source scope) attachments := by
  have perm := transfer.perm
  obtain ⟨unbroken, oldToNew, s, made, after, copied, _, same⟩ := (importFromTar_streamExport _
    transfer.memories_json transfer.attachmentJson transfer.links_json _).mp done
  obtain ⟨rfl, rfl⟩ := Prod.mk.inj same
  obtain ⟨apart, room⟩ := apart_of_separates transfer.admitted transfer.empty _
    (progress_start transfer.admitted) transfer.loop List.Pairwise.nil copied
    (fun m exported m' exported' => separates m (perm.mem_iff.mp exported) m' (perm.mem_iff.mp exported'))
  refine ⟨fun m member => unbroken.1 m (perm.mem_iff.mpr member), unbroken.2, ?_, transfer.room_iff.mp room⟩
  intro m member m' member' different
  have symmetric : Std.Symm fun m m' => ¬ Clash env m m' :=
    ⟨fun _ _ apart clash => apart ⟨clash.1, clash.2.symm⟩⟩
  exact apart.forall (perm.mem_iff.mpr member) (perm.mem_iff.mpr member') different

/-- An importable archive preserves the memories and links. -/
theorem preserved_of_importable
    (importable : Importable env p db (scopeMemories exporter source scope) attachments) :
    ∃ imported s', importFromTar env p target ctx round db
        (streamExport (exportInput exporter source scope attachments)) = .ok (imported, s') ∧
      Preserved target (scopeMemories exporter source scope) source.links imported.oldToNew s'.db := by
  have perm := transfer.perm
  have apart : (exportedMemories exporter source scope).Pairwise fun m m' => ¬ Clash env m m' := by
    apply List.Nodup.pairwise_of_forall_ne (List.Nodup.of_map _ transfer.ids)
    intro m member m' member' different
    exact importable.apart m (perm.mem_iff.mp member) m' (perm.mem_iff.mp member') different
  obtain ⟨pairs, oldToNew, s, copied, firsts, progress⟩ := importMemories_copies transfer.admitted
    transfer.empty _ (progress_start transfer.admitted) transfer.loop apart
    (transfer.room_iff.mpr importable.room)
  replace firsts : pairs.map Prod.fst = exportedMemories exporter source scope := firsts
  have pairIds : (pairs.map fun pair => pair.1.id).Nodup := by
    have renamed := transfer.ids
    rw [← firsts, List.map_map] at renamed
    exact renamed
  have publicIds : ((pairs.map Prod.fst).map Memory.publicId).Nodup := by
    rw [firsts]
    exact transfer.loop.distinct
  have rows : (linkRows (exportInput exporter source scope attachments)).map Value.obj =
      (entriesOf pairs source.links).map entryRow := by
    rw [linkRows_eq Prod.fst _ source pairs firsts.symm pairIds rfl, List.map_map]
    rfl
  have mapped : Mapped p pairs oldToNew s.db := by
    refine ⟨fun pair member => ?_, fun pair member => progress.get? publicIds pair member⟩
    exact ((mem_scope_iff transfer.empty progress pair.2).mpr ⟨pair, member, rfl⟩).1
  have ends : ∀ entry ∈ entriesOf pairs source.links, entry.2.1 ∈ pairs ∧ entry.2.2 ∈ pairs := by
    intro entry member
    have found := (mem_linksAmong Prod.fst pairs source.links pairIds entry.1 entry.2.1 entry.2.2).mp member
    exact ⟨found.2.1.1, found.2.2.1⟩
  have keys := newKeys_nodup progress transfer.stored pairIds source.links transfer.sourceStored.linkKeys
  obtain ⟨made, s', links, linked, memories, all, weights⟩ := importLinks_copies
    (entriesOf pairs source.links) (exportedMemories exporter source scope).length mapped ends keys
  have preserved := preserved_of_copies progress pairIds publicIds source.links links memories all keys
    weights
  rw [firsts] at preserved
  refine ⟨_, s', (importFromTar_streamExport _ transfer.memories_json transfer.attachmentJson
    transfer.links_json _).mpr ⟨?_, oldToNew, s, made, s', copied, ?_, rfl⟩, ?_⟩
  · exact ⟨fun m exported => importable.memoryRows m (perm.mem_iff.mp exported),
      importable.attachmentRows⟩
  · rw [rows]
    exact linked
  · exact preserved.of_perm perm

end Transfer

/-- An export and an import preserve the memories and links of a scope exactly when the archive is
importable. -/
theorem preserved_iff (env : Environment) (round : FloatText → PyFloat) (exporter : Principal)
    (source : Database) (scope : ScopeFilter) (attachments : List ExportedAttachment) (p : Principal)
    (db : Database) (target : ScopeFilter) (ctx : Nat → CallContext)
    (transfer : Transfer env round exporter source scope attachments p db target ctx) :
    (∃ imported s', importFromTar env p target ctx round db
        (streamExport (exportInput exporter source scope attachments)) = .ok (imported, s') ∧
      Preserved target (scopeMemories exporter source scope) source.links imported.oldToNew s'.db) ↔
    Importable env p db (scopeMemories exporter source scope) attachments := by
  constructor
  · rintro ⟨imported, s', done, preserved⟩
    exact transfer.importable_of_separates imported s' done preserved.oneToOne
  · exact transfer.preserved_of_importable

/-- A note of the sample has no title. -/
def sampleNote (id : Nat) (body : Str) : Memory :=
  { newRow sampleEnvironment sampleOwner { now := id, newPublicId := BitVec.ofNat 128 id }
      { scope := sampleScope, body := body } { title := [], body := body, sensitivity := .internal }
      { status := .approved } "english" none with
    id := id }

/-- The second note was written with force, and supersedes the first one. -/
def twoNotes (body : Str) : Database where
  memories := (Table.empty.insert (sampleNote 1 "x") (Table.fresh_empty _)).insert (sampleNote 2 body) (by
    intro other present
    rw [List.mem_singleton.mp present]
    refine ⟨Nat.one_lt_two, ?_⟩
    change BitVec.ofNat 128 1 ≠ BitVec.ofNat 128 2
    decide)
  links := [⟨2, 1, .supersedes, onePointZero, 2⟩]

def importContext (i : Nat) : CallContext where
  now := 9
  newPublicId := BitVec.ofNat 128 (i + 7)

theorem stored_twoNotes (body : Str) (accepted : PyValue.accepts body = true) :
    Stored .finite (twoNotes body) := by
  have either (m : Memory) (present : m ∈ (twoNotes body).memories.rows) :
      m = sampleNote 1 "x" ∨ m = sampleNote 2 body := by
    simpa [twoNotes, Table.insert, Table.empty] using present
  constructor
  · intro m present
    rcases either m present with rfl | rfl
    · decide
    · change (_ && PyValue.accepts body && _ && _ && _ && _) = true
      rw [accepted]
      rfl
  · intro m present
    rcases either m present with rfl | rfl <;> exact ⟨List.nodup_nil, trivial⟩
  · intro m present
    rcases either m present with rfl | rfl <;> rfl
  · intro m present ref held
    rcases either m present with rfl | rfl <;> exact absurd held (by simp [sampleNote, newRow])
  · exact List.nodup_singleton _
  · intro link present
    rw [List.mem_singleton.mp present]
    exact ⟨⟨sampleNote 2 body, List.mem_cons_of_mem _ List.mem_cons_self, rfl⟩,
      sampleNote 1 "x", List.mem_cons_self, rfl⟩
  · intro link present
    rw [List.mem_singleton.mp present]
    rfl

theorem stored_empty : Stored .finite {} := by
  constructor
  · exact fun m present => absurd present List.not_mem_nil
  · exact fun m present => absurd present List.not_mem_nil
  · exact fun m present => absurd present List.not_mem_nil
  · exact fun m present => absurd present List.not_mem_nil
  · exact List.nodup_nil
  · exact fun link present => absurd present List.not_mem_nil
  · exact fun link present => absurd present List.not_mem_nil

/-- The notes are imported into another database. -/
theorem transfer_twoNotes (body : Str) (accepted : PyValue.accepts body = true) :
    Transfer sampleEnvironment .finite sampleOwner (twoNotes body) sampleScope [] sampleOwner {} sampleScope
      importContext where
  sourceStored := stored_twoNotes body accepted
  attachmentJson a present := absurd present List.not_mem_nil
  few := by
    change 2 ≤ 10000
    omega
  stored := stored_empty
  admitted := ⟨rfl, rfl, fun _ => rfl, rfl⟩
  empty m present := absurd present List.not_mem_nil
  mints := by
    refine ⟨fun i below row present => absurd present List.not_mem_nil, ?_⟩
    change ∀ i < 2, ∀ j < 2, i ≠ j → BitVec.ofNat 128 (i + 7) ≠ BitVec.ofNat 128 (j + 7)
    decide

theorem scopeMemories_twoNotes (body : Str) :
    scopeMemories sampleOwner (twoNotes body) sampleScope = [sampleNote 1 "x", sampleNote 2 body] := rfl

theorem preserved_iff_of_twoNotes : ∃ imported s', importFromTar sampleEnvironment sampleOwner sampleScope
      importContext .finite {} (streamExport (exportInput sampleOwner (twoNotes "y") sampleScope [])) =
        .ok (imported, s') ∧
    Preserved sampleScope (scopeMemories sampleOwner (twoNotes "y") sampleScope) (twoNotes "y").links
      imported.oldToNew s'.db := by
  apply (preserved_iff sampleEnvironment .finite sampleOwner (twoNotes "y") sampleScope [] sampleOwner {}
    sampleScope importContext (transfer_twoNotes "y" (by decide))).mpr
  rw [scopeMemories_twoNotes]
  refine ⟨by decide +kernel, fun a present => absurd present List.not_mem_nil, ?_, by decide +kernel⟩
  intro m inside m' inside' different clash
  have hashes : contentHash sampleEnvironment (sampleNote 1 "x").title (sampleNote 1 "x").body ≠
      contentHash sampleEnvironment (sampleNote 2 "y").title (sampleNote 2 "y").body := by
    decide +kernel
  simp only [List.mem_cons, List.not_mem_nil, or_false] at inside inside'
  rcases inside with rfl | rfl <;> rcases inside' with rfl | rfl
  · exact different rfl
  · exact hashes clash.2
  · exact hashes clash.2.symm
  · exact different rfl

/-- A note that was stored twice comes back once, and the link between the two leads from the copy to
itself. -/
theorem repeat_is_folded : ¬ ∀ (env : Environment) (round : FloatText → PyFloat) (exporter : Principal)
    (source : Database) (scope : ScopeFilter) (attachments : List ExportedAttachment) (p : Principal)
    (db : Database) (target : ScopeFilter) (ctx : Nat → CallContext),
      Transfer env round exporter source scope attachments p db target ctx →
        ∃ imported s', importFromTar env p target ctx round db
            (streamExport (exportInput exporter source scope attachments)) = .ok (imported, s') ∧
          Preserved target (scopeMemories exporter source scope) source.links imported.oldToNew
            s'.db := by
  intro claim
  have transfer := transfer_twoNotes "x" (by decide)
  obtain ⟨imported, s', done, preserved⟩ := claim _ _ _ _ _ _ _ _ _ _ transfer
  have importable := transfer.importable_of_separates imported s' done preserved.oneToOne
  rw [scopeMemories_twoNotes] at importable
  apply importable.apart (sampleNote 1 "x") List.mem_cons_self (sampleNote 2 "x")
    (List.mem_cons_of_mem _ List.mem_cons_self)
  · exact fun same => absurd (congrArg Memory.id same) (by decide)
  · exact ⟨rfl, rfl⟩

end Kortex.ExportService
