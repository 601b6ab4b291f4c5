import Kortex.Library.Run
import Kortex.Model.AuditStorage
import Kortex.Proof.Audit

/-
This file proves which entries keep their digest when the columns store them.
-/

namespace Kortex

namespace PyValue

mutual
/-- A value is stable when each float is respelled to itself and the keys of each dictionary
compare in memory as their texts compare. -/
def Stable : PyValue → Prop
  | .float (.finite x) => respell x = .float (.finite x)
  | .arr items => StableItems items
  | .obj members => ((PyKey.sortItems members).map fun m => m.1.text).Pairwise
      (fun a b => Str.le a b = true) ∧ StableMembers members
  | _ => True

def StableItems : List PyValue → Prop
  | [] => True
  | item :: rest => Stable item ∧ StableItems rest

def StableMembers : List (PyKey × PyValue) → Prop
  | [] => True
  | (_, value) :: rest => Stable value ∧ StableMembers rest
end

theorem sortedMembers_eq (members : List (PyKey × PyValue)) :
    sortedMembers members = members.map fun m => (m.1, sorted m.2) := by
  induction members with
  | nil => rfl
  | cons member rest ih =>
      obtain ⟨key, value⟩ := member
      rw [sortedMembers, ih, List.map_cons]

theorem jsonbMembers_eq (members : List (PyKey × PyValue)) :
    jsonbMembers members = members.map fun m => (m.1.text, jsonb m.2) := by
  induction members with
  | nil => rfl
  | cons member rest ih =>
      obtain ⟨key, value⟩ := member
      rw [jsonbMembers, ih, List.map_cons]

theorem sortItems_map {V W : Type} (f : V → W) (members : List (PyKey × V)) :
    PyKey.sortItems (members.map fun m => (m.1, f m.2)) =
      (PyKey.sortItems members).map fun m => (m.1, f m.2) :=
  (List.map_insertionSort _ _ (fun m : PyKey × V => (m.1, f m.2)) members
    fun _ _ _ _ => Iff.rfl).symm

theorem perm_sortItems {V : Type} (members : List (PyKey × V)) :
    (PyKey.sortItems members).Perm members := List.perm_insertionSort _ members

/-- The two orders write the same object exactly when the keys keep their order and the values
are written the same. -/
theorem sortItems_eq_iff (members : List (PyKey × PyValue)) (f g : PyValue → Json)
    (distinct : (members.map fun m => m.1.text).Nodup) :
    (PyKey.sortItems (members.map fun m => (m.1, f m.2))).map (fun m => (m.1.text, m.2)) =
        Json.sortByKey (members.map fun m => (m.1.text, g m.2)) ↔
      ((PyKey.sortItems members).map fun m => m.1.text).Pairwise (fun a b => Str.le a b = true) ∧
        ∀ m ∈ members, f m.2 = g m.2 := by
  have perm := perm_sortItems members
  rw [sortItems_map, List.map_map]
  have keys : (members.map fun m => (m.1.text, g m.2)).map Prod.fst =
      members.map fun m => m.1.text := by rw [List.map_map]; rfl
  constructor
  · intro same
    constructor
    · have order := pairwise_of_sortByKey members g
      rw [← same, List.pairwise_map] at order
      rw [List.pairwise_map]
      exact order
    · intro m present
      have written : (m.1.text, f m.2) ∈ (PyKey.sortItems members).map
          ((fun m => (m.1.text, m.2)) ∘ fun m => (m.1, f m.2)) :=
        List.mem_map.mpr ⟨m, perm.mem_iff.mpr present, rfl⟩
      rw [same, (Json.perm_sortByKey _).mem_iff] at written
      have read : (m.1.text, g m.2) ∈ members.map fun m => (m.1.text, g m.2) :=
        List.mem_map.mpr ⟨m, present, rfl⟩
      have equal := Json.eq_of_mem_of_key (keys ▸ distinct) written read rfl
      exact congrArg Prod.snd equal
  · rintro ⟨order, values⟩
    have rewrite : (PyKey.sortItems members).map
        ((fun m => (m.1.text, m.2)) ∘ fun m => (m.1, f m.2)) =
          (PyKey.sortItems members).map fun m => (m.1.text, g m.2) :=
      List.map_congr_left fun m present => by
        simp [values m (perm.mem_iff.mp present)]
    rw [rewrite]
    refine Json.eq_of_perm_of_sorted ?_ ((perm.map _).trans (Json.perm_sortByKey _).symm) ?_
      (Json.pairwise_sortByKey _)
    · rw [List.map_map]
      exact (perm.map fun m => m.1.text).nodup_iff.mpr distinct
    · rw [List.pairwise_map] at order ⊢
      exact order
where
  pairwise_of_sortByKey (members : List (PyKey × PyValue)) (g : PyValue → Json) :
      (Json.sortByKey (members.map fun m => (m.1.text, g m.2))).Pairwise
        fun a b => Str.le a.1 b.1 = true := Json.pairwise_sortByKey _

mutual
/-- The digest of the stored metadata sees the value that was hashed exactly when it is stable. -/
theorem sorted_eq_iff : (value : PyValue) → DistinctKeys value →
    (sorted value = Json.sortKeys (jsonb value) ↔ Stable value)
  | .null, _ | .bool _, _ | .int _, _ | .str _, _ | .float .nan, _ | .float (.inf _), _ => by
      simp [sorted, jsonb, Json.sortKeys, Stable]
  | .float (.finite x), _ => by
      have scalar : Json.sortKeys (respell x) = respell x := by
        unfold respell
        split
        · rfl
        · split <;> rfl
      simp only [sorted, jsonb, scalar, Stable]
      exact eq_comm
  | .arr items, distinct => by
      have each := sortedItems_eq_iff items distinct
      simp only [sorted, jsonb, Json.sortKeys, Stable, Value.arr.injEq]
      exact each
  | .obj members, distinct => by
      obtain ⟨keys, values⟩ := distinct
      have each := sortedMembers_eq_iff members values
      simp only [sorted, jsonb, Json.sortKeys, Stable, Value.obj.injEq]
      rw [sortedMembers_eq, jsonbMembers_eq, Json.sortKeysMembers_eq, List.map_map]
      rw [← each]
      exact sortItems_eq_iff members sorted (fun value => Json.sortKeys (jsonb value)) keys

theorem sortedItems_eq_iff : (items : List PyValue) → DistinctItems items →
    (sortedItems items = Json.sortKeysItems (jsonbItems items) ↔ StableItems items)
  | [], _ => by simp [sortedItems, jsonbItems, Json.sortKeysItems, StableItems]
  | item :: rest, distinct => by
      simp only [sortedItems, jsonbItems, Json.sortKeysItems, StableItems, List.cons.injEq,
        sorted_eq_iff item distinct.1, sortedItems_eq_iff rest distinct.2]

theorem sortedMembers_eq_iff : (members : List (PyKey × PyValue)) → DistinctMembers members →
    ((∀ m ∈ members, sorted m.2 = Json.sortKeys (jsonb m.2)) ↔ StableMembers members)
  | [], _ => by simp [StableMembers]
  | (key, value) :: rest, distinct => by
      simp only [StableMembers, List.mem_cons, forall_eq_or_imp, sorted_eq_iff value distinct.1,
        sortedMembers_eq_iff rest distinct.2]
end

mutual
theorem proper_sorted : (value : PyValue) → DistinctKeys value →
    Json.Proper PyFloat.finite (sorted value)
  | .null, _ | .bool _, _ | .int _, _ | .str _, _ | .float .nan, _ | .float (.inf _), _ => by
      simp [sorted, Json.Proper]
  | .float (.finite x), _ => by simp [sorted, Json.Proper]
  | .arr items, distinct => by
      rw [sorted, Json.Proper]
      exact proper_sortedItems items distinct
  | .obj members, distinct => by
      obtain ⟨keys, values⟩ := distinct
      have each := proper_sortedMembers members values
      rw [sorted, Json.Proper, Json.properMembers_iff, sortedMembers_eq, sortItems_map, List.map_map,
        List.map_map]
      have perm := perm_sortItems members
      refine ⟨(perm.map fun m => m.1.text).nodup_iff.mpr keys, fun m present => ?_⟩
      obtain ⟨sortedMember, present', rfl⟩ := List.mem_map.mp present
      obtain ⟨member, inside, rfl⟩ := List.mem_map.mp present'
      exact each member (perm.mem_iff.mp inside)

theorem proper_sortedItems : (items : List PyValue) → DistinctItems items →
    Json.ProperItems PyFloat.finite (sortedItems items)
  | [], _ => by simp [sortedItems, Json.ProperItems]
  | item :: rest, distinct => by
      rw [sortedItems, Json.ProperItems]
      exact ⟨proper_sorted item distinct.1, proper_sortedItems rest distinct.2⟩

theorem proper_sortedMembers : (members : List (PyKey × PyValue)) → DistinctMembers members →
    ∀ m ∈ members, Json.Proper PyFloat.finite (sorted m.2)
  | [], _ => by simp
  | (key, value) :: rest, distinct => by
      rintro m present
      rcases List.mem_cons.mp present with rfl | inside
      · exact proper_sorted value distinct.1
      · exact proper_sortedMembers rest distinct.2 m inside
end

mutual
theorem proper_jsonb : (value : PyValue) → DistinctKeys value →
    Json.Proper PyFloat.finite (Json.sortKeys (jsonb value))
  | .null, _ | .bool _, _ | .int _, _ | .str _, _ | .float .nan, _ | .float (.inf _), _ => by
      simp [jsonb, Json.sortKeys, Json.Proper]
  | .float (.finite x), _ => by
      simp only [jsonb, respell]
      split
      · simp [Json.sortKeys, Json.Proper]
      · split <;> simp [Json.sortKeys, Json.Proper]
  | .arr items, distinct => by
      rw [jsonb, Json.sortKeys, Json.Proper]
      exact proper_jsonbItems items distinct
  | .obj members, distinct => by
      obtain ⟨keys, values⟩ := distinct
      have each := proper_jsonbMembers members values
      rw [jsonb, Json.sortKeys]
      apply Json.proper_of_sortByKey
      rw [Json.Proper, Json.properMembers_iff, jsonbMembers_eq, Json.sortKeysMembers_eq, List.map_map,
        List.map_map]
      refine ⟨keys, fun m present => ?_⟩
      obtain ⟨storedMember, present', rfl⟩ := List.mem_map.mp present
      obtain ⟨member, inside, rfl⟩ := List.mem_map.mp present'
      exact each member inside

theorem proper_jsonbItems : (items : List PyValue) → DistinctItems items →
    Json.ProperItems PyFloat.finite (Json.sortKeysItems (jsonbItems items))
  | [], _ => by simp [jsonbItems, Json.sortKeysItems, Json.ProperItems]
  | item :: rest, distinct => by
      rw [jsonbItems, Json.sortKeysItems, Json.ProperItems]
      exact ⟨proper_jsonb item distinct.1, proper_jsonbItems rest distinct.2⟩

theorem proper_jsonbMembers : (members : List (PyKey × PyValue)) → DistinctMembers members →
    ∀ m ∈ members, Json.Proper PyFloat.finite (Json.sortKeys (jsonb m.2))
  | [], _ => by simp
  | (key, value) :: rest, distinct => by
      rintro m present
      rcases List.mem_cons.mp present with rfl | inside
      · exact proper_jsonb value distinct.1
      · exact proper_jsonbMembers rest distinct.2 m inside
end

end PyValue

namespace Audit

variable {M S : Type}

/-- The digest writes the members of an entry in this order. -/
theorem payload_eq (render : M → Json) (entry : AuditFields M) (prevHash : Str) :
    payload render entry prevHash = .obj [("action", .str entry.action),
      ("actor_id", entry.actorId.elim .null fun i => .int i),
      ("actor_kind", .str entry.actorKind.value), ("created_at", .str entry.createdAt.isoformat),
      ("ip", (orElse entry.ip none).elim .null .str), ("metadata", render entry.metadata),
      ("org_id", .int entry.orgId), ("prev_hash", .str prevHash),
      ("target_id", entry.targetId.elim .null fun i => .int i),
      ("target_type", entry.targetType.elim .null .str),
      ("user_agent", entry.userAgent.elim .null .str)] := rfl

theorem proper_payload (render : M → Json) (entry : AuditFields M) (prevHash : Str)
    (metadata : Json.Proper PyFloat.finite (render entry.metadata)) :
    Json.Proper PyFloat.finite (payload render entry prevHash) := by
  have scalar : ∀ s : Option Str, Json.Proper PyFloat.finite (s.elim .null .str) := by
    intro s
    cases s <;> simp [Json.Proper]
  have number : ∀ n : Option Nat, Json.Proper PyFloat.finite (n.elim .null fun i => .int i) := by
    intro n
    cases n <;> simp [Json.Proper]
  rw [payload_eq, Json.Proper]
  refine ⟨by simp only [List.map_cons, List.map_nil]; decide, ?_⟩
  simp only [Json.ProperMembers, scalar, number, metadata, and_true, true_and]
  simp [Json.Proper]

/-- Two digests agree exactly when they are taken over the same payload. -/
theorem digest_eq_iff (sha256 : Str → Str) (injective : Function.Injective sha256)
    (render : M → Json) (render' : S → Json) (entry : AuditFields M) (entry' : AuditFields S)
    (prevHash : Str) (metadata : Json.Proper PyFloat.finite (render entry.metadata))
    (metadata' : Json.Proper PyFloat.finite (render' entry'.metadata)) :
    digest sha256 render entry prevHash = digest sha256 render' entry' prevHash ↔
      payload render entry prevHash = payload render' entry' prevHash := by
  constructor
  · intro same
    exact Json.dumps_injective _ _ _ (proper_payload render entry prevHash metadata)
      (proper_payload render' entry' prevHash metadata') (injective same)
  · intro same
    rw [digest, digest, same]

/-- An entry keeps its digest when its address has the canonical spelling and its metadata is
stable. -/
def KeepsDigest (inet : Str → Option Str) (fields : AuditFields PyMetadata) : Prop :=
  (∀ ip, fields.ip = some ip → inet ip = some ip) ∧
    PyValue.Stable (.obj fields.metadata.members)

/-- An address that reaches an entry is not empty. -/
def NonemptyIp (fields : AuditFields PyMetadata) : Prop := fields.ip ≠ some []

theorem storedColumns_cases (inet : Str → Option Str) (fields : AuditFields PyMetadata)
    (columns : AuditFields JsonDict) (stored : storedColumns inet fields = some columns) :
    ∃ ip, columns = { fields with metadata := PyValue.jsonbMembers fields.metadata.members, ip := ip }
      ∧ ((fields.ip = none ∧ ip = none) ∨
        ∃ raw canonical, fields.ip = some raw ∧ inet raw = some canonical ∧ ip = some canonical) := by
  unfold storedColumns at stored
  split at stored
  · split at stored
    · rename_i absent
      exact ⟨none, (Option.some.inj stored).symm, Or.inl ⟨absent, rfl⟩⟩
    · rename_i raw given
      obtain ⟨canonical, accepted, same⟩ := Option.map_eq_some_iff.mp stored
      exact ⟨some canonical, same.symm, Or.inr ⟨raw, canonical, given, accepted, rfl⟩⟩
  · simp at stored

/-- The stored columns of an entry have its digest exactly when the entry keeps it. -/
theorem digestStored_eq_iff (sha256 : Str → Str) (injective : Function.Injective sha256)
    (inet : Str → Option Str) (fields : AuditFields PyMetadata) (columns : AuditFields JsonDict)
    (nonempty : NonemptyIp fields) (stored : storedColumns inet fields = some columns)
    (prevHash : Str) :
    digestStored sha256 columns prevHash = digestMemory sha256 fields prevHash ↔
      KeepsDigest inet fields := by
  obtain ⟨ip, rfl, address⟩ := storedColumns_cases inet fields columns stored
  have distinct := fields.metadata.distinct
  have proper := PyValue.proper_sorted (.obj fields.metadata.members) distinct
  have proper' := PyValue.proper_jsonb (.obj fields.metadata.members) distinct
  rw [PyValue.jsonb] at proper'
  rw [eq_comm, digestMemory, digestStored, digest_eq_iff sha256 injective _ _ _ _ _ proper proper',
    payload_eq, payload_eq]
  have metadata := PyValue.sorted_eq_iff (.obj fields.metadata.members) distinct
  rw [PyValue.jsonb] at metadata
  have spelling : (orElse fields.ip none).elim Value.null Value.str =
      (orElse ip none).elim (Value.null : Json) Value.str ↔
        ∀ raw, fields.ip = some raw → inet raw = some raw := by
    rcases address with ⟨absent, rfl⟩ | ⟨raw, canonical, given, accepted, rfl⟩
    · simp [absent]
    · rw [NonemptyIp, given] at nonempty
      rw [given]
      cases raw with
      | nil => exact absurd rfl nonempty
      | cons c raw =>
          cases canonical with
          | nil => simp [orElse, accepted]
          | cons d canonical => simp [orElse, accepted, eq_comm]
  simp only [Value.obj.injEq, List.cons.injEq, Prod.mk.injEq, true_and, and_true, spelling, metadata]
  exact Iff.rfl

theorem nonemptyIp_entryFields (input : AppendInput PyMetadata) (org : Nat) :
    NonemptyIp (entryFields input org) := by
  simp only [NonemptyIp, entryFields, setOrigin]
  have some_ne : ∀ value other : Option Str, other ≠ some [] → orElse value other ≠ some [] := by
    intro value other notEmpty
    unfold orElse
    split
    · simp
    · exact notEmpty
  exact some_ne _ _ (some_ne _ _ (by simp))

variable {sha256 : Str → Str} {inet : Str → Option Str}

/-- The step of `append` with the storage of Postgres. -/
def storedStep (sha256 : Str → Str) (inet : Str → Option Str) :
    AuditTable JsonDict → AppendInput PyMetadata → AuditTable JsonDict :=
  appendStep (digestMemory sha256) (storedColumns inet)

/-- An appended entry that the columns accept keeps its digest. -/
def AppendsStable (inet : Str → Option Str) (input : AppendInput PyMetadata) : Prop :=
  ∀ org columns, effectiveOrg input = .ok org →
    storedColumns inet (entryFields input org) = some columns →
      KeepsDigest inet (entryFields input org)

theorem whole_storedStep (nonempty : ∀ s, sha256 s ≠ []) (table : AuditTable JsonDict)
    (input : AppendInput PyMetadata) (whole : ∀ row ∈ table.rows, Whole row) :
    ∀ row ∈ (storedStep sha256 inet table input).rows, Whole row := by
  unfold storedStep appendStep append
  split
  · exact whole
  · rename_i org _
    dsimp only
    split
    · exact whole
    · exact whole_sealRow table _ _ _ org (fun _ _ => nonempty _) whole

/-- One append keeps the chains exactly when its entry keeps its digest. -/
theorem chained_storedStep (injective : Function.Injective sha256) (table : AuditTable JsonDict)
    (input : AppendInput PyMetadata) (whole : ∀ row ∈ table.rows, Whole row) :
    (∀ org, (chain (digestStored sha256)).Chained (ofOrg (storedStep sha256 inet table input) org)) ↔
      (∀ org, (chain (digestStored sha256)).Chained (ofOrg table org)) ∧ AppendsStable inet input := by
  unfold storedStep appendStep append
  split
  · rename_i e refused
    refine ⟨fun chained => ⟨chained, fun org columns accepted => ?_⟩, fun both => both.1⟩
    rw [refused] at accepted
    simp at accepted
  · rename_i org accepted
    dsimp only
    split
    · rename_i refused
      refine ⟨fun chained => ⟨chained, fun org' columns accepted' stored => ?_⟩, fun both => both.1⟩
      rw [accepted, Except.ok.injEq] at accepted'
      rw [← accepted', refused] at stored
      simp at stored
    · rename_i columns stored
      have own : columns.orgId = org := by
        obtain ⟨ip, rfl, _⟩ := storedColumns_cases inet _ columns stored
        rfl
      have digests := digestStored_eq_iff sha256 injective inet _ columns
        (nonemptyIp_entryFields input org) stored (head table org)
      have step := fun other => @chained_sealRow PyMetadata JsonDict (digestStored sha256)
        (digestMemory sha256) table (entryFields input org) columns input.idGap other whole
      rw [own] at step
      have stable : AppendsStable inet input ↔ KeepsDigest inet (entryFields input org) := by
        refine ⟨fun stable => stable org columns accepted stored, fun keeps org' _ accepted' _ => ?_⟩
        rw [accepted, Except.ok.injEq] at accepted'
        exact accepted' ▸ keeps
      rw [stable, ← digests]
      exact ⟨fun chained => ⟨fun other => ((step other).mp (chained other)).1,
          ((step org).mp (chained org)).2 rfl⟩,
        fun both other => (step other).mpr ⟨both.1 other, fun _ => both.2⟩⟩

/-- A run of appends keeps the chains exactly when every entry keeps its digest. -/
theorem chained_storedRun (injective : Function.Injective sha256) (nonempty : ∀ s, sha256 s ≠ [])
    (inputs : List (AppendInput PyMetadata)) (table : AuditTable JsonDict)
    (whole : ∀ row ∈ table.rows, Whole row) :
    (∀ org, (chain (digestStored sha256)).Chained
        (ofOrg (Run.final (storedStep sha256 inet) table inputs) org)) ↔
      (∀ org, (chain (digestStored sha256)).Chained (ofOrg table org)) ∧
        ∀ input ∈ inputs, AppendsStable inet input := by
  induction inputs generalizing table with
  | nil => simp
  | cons input rest ih =>
      rw [Run.final_cons, ih _ (whole_storedStep nonempty table input whole),
        chained_storedStep injective table input whole]
      simp only [List.mem_cons, forall_eq_or_imp, and_assoc]

theorem whole_storedRun (nonempty : ∀ s, sha256 s ≠ []) (inputs : List (AppendInput PyMetadata)) :
    ∀ row ∈ (Run.final (storedStep sha256 inet) empty inputs).rows, Whole row :=
  (Run.always_of_step (whole_storedStep nonempty) inputs (by simp [empty])).final

/-- The verifier reports a stored log as intact exactly when its rows are chained. -/
theorem intact_storedRun_iff (nonempty : ∀ s, sha256 s ≠ []) (inputs : List (AppendInput PyMetadata))
    (pageSize : Nat) (positive : 0 < pageSize) (org : Nat) :
    let table := Run.final (storedStep sha256 inet) empty inputs
    (∃ status, verify (digestStored sha256) pageSize table org = some status ∧
      status.intact = true) ↔ (chain (digestStored sha256)).Chained (ofOrg table org) := by
  intro table
  have whole : ∀ row ∈ ofOrg table org, Whole row := fun row present =>
    whole_storedRun nonempty inputs row (List.mem_of_mem_filter present)
  obtain ⟨status, verified, exactly, _⟩ := @verify_spec JsonDict _ pageSize positive table org
    fun row present => (whole row present).1
  rw [links_of_whole _ whole] at exactly
  rw [← exactly, verified]
  simp

/-- Every entry reads back with the digest it was stored with, and `verify` reports every log as
intact, exactly when each appended entry has a canonical address and stable metadata. -/
theorem storage_keeps_digests_iff (injective : Function.Injective sha256)
    (nonempty : ∀ s, sha256 s ≠ []) (inputs : List (AppendInput PyMetadata)) (pageSize : Nat)
    (positive : 0 < pageSize) :
    let table := Run.final (storedStep sha256 inet) empty inputs
    ((∀ row ∈ table.rows, row.entryHash =
          some (digestStored sha256 row.toAuditFields (orDefault row.prevHash genesis))) ∧
        ∀ org, ∃ status, verify (digestStored sha256) pageSize table org = some status ∧
          status.intact = true) ↔
      ∀ input ∈ inputs, AppendsStable inet input := by
  intro table
  have run := @chained_storedRun _ inet injective nonempty inputs empty (by simp [empty])
  have fresh : ∀ org, (chain (digestStored sha256)).Chained (ofOrg empty org) := fun _ => trivial
  have intact := @intact_storedRun_iff _ inet nonempty inputs pageSize positive
  simp only at intact
  simp only [table, intact]
  constructor
  · rintro ⟨_, chained⟩
    exact (run.mp chained).2
  · intro stable
    have chained := run.mpr ⟨fresh, stable⟩
    refine ⟨fun row present => ?_, chained⟩
    have isSealed : digestStored sha256 row.toAuditFields (orDefault row.prevHash genesis) =
        row.entryHash.getD [] :=
      (chained row.orgId).sealed row (List.mem_filter.mpr ⟨present, by simp⟩)
    obtain ⟨_, h, hash, _⟩ := whole_storedRun nonempty inputs row present
    rw [isSealed, hash]
    rfl

/-- A hash function without collisions. -/
def markedText (s : Str) : Str := 'h' :: s

theorem markedText_injective : Function.Injective markedText := fun _ _ same =>
  (List.cons.inj same).2

/-- The INET column folds the hexadecimal digits of an address to lower case. -/
def lowerCaseInet (address : Str) : Option Str := some (address.map Str.asciiLower)

def loginFrom (ip : Str) : AppendInput PyMetadata where
  actorKind := .user
  actorId := some 1
  action := "auth.login"
  orgId := some 1
  originIp := some ip
  now := 0

theorem storage_keeps_digests_of_lower_case :
    let table := Run.final (storedStep markedText lowerCaseInet) empty [loginFrom "2001:db8::1"]
    ((∀ row ∈ table.rows, row.entryHash =
          some (digestStored markedText row.toAuditFields (orDefault row.prevHash genesis))) ∧
        ∀ org, ∃ status, verify (digestStored markedText) verifyPage table org = some status ∧
          status.intact = true) ↔
      ∀ input ∈ [loginFrom "2001:db8::1"], AppendsStable lowerCaseInet input :=
  storage_keeps_digests_iff markedText_injective (by simp [markedText]) _ verifyPage (by decide)

/-- One login from an address in upper case makes the log of its org read as tampered. -/
theorem upper_case_address_breaks_chain :
    ¬ ∀ (sha256 : Str → Str) (inet : Str → Option Str), Function.Injective sha256 →
      (∀ s, sha256 s ≠ []) → ∀ (inputs : List (AppendInput PyMetadata)) (org : Nat),
        ∃ status, verify (digestStored sha256) verifyPage
            (Run.final (storedStep sha256 inet) empty inputs) org = some status ∧
          status.intact = true := by
  intro intact
  have nonempty : ∀ s, markedText s ≠ [] := by simp [markedText]
  have chained := fun org => (intact_storedRun_iff nonempty [loginFrom "2001:DB8::1"] verifyPage
    (by decide) org).mp (intact markedText lowerCaseInet markedText_injective nonempty _ org)
  have stable := ((chained_storedRun markedText_injective nonempty _ empty (by simp [empty])).mp
    chained).2 (loginFrom "2001:DB8::1") (by simp)
  obtain ⟨columns, stored⟩ : ∃ columns,
      storedColumns lowerCaseInet (entryFields (loginFrom "2001:DB8::1") 1) = some columns :=
    ⟨_, rfl⟩
  have spelling := (stable 1 columns rfl stored).1 "2001:DB8::1" rfl
  revert spelling
  decide

end Audit
end Kortex
