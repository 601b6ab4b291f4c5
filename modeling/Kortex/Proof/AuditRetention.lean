import Kortex.Model.AuditStorage
import Kortex.Proof.AuditStorage

/-
This file proves what the retention task leaves of the audit log of an org.
-/

namespace Kortex.Audit

open HashChain

variable {sha256 : Str → Str} {inet : Str → Option Str}

/-- This is the chain of the rows over the entries as they were in memory. -/
def memoryChain (sha256 : Str → Str) (memory : Nat → AuditFields PyMetadata) :
    HashChain (AuditLog JsonDict) (AuditFields PyMetadata) Str where
  digest := digestMemory sha256
  entry row := memory row.id
  prev row := orDefault row.prevHash genesis
  hash row := row.entryHash.getD []

/-- In a table that `append` built the rows are chained over the entries that were in memory. -/
structure Appended (sha256 : Str → Str) (table : AuditTable JsonDict) : Prop where
  whole : ∀ row ∈ table.rows, Whole row
  rooted : Rooted table
  owned : ∀ row ∈ table.rows, row.orgId ≠ 0
  chained : ∃ memory, ∀ org, (memoryChain sha256 memory).Chained (ofOrg table org)

theorem effectiveOrg_ne_zero {M : Type} (input : AppendInput M) (org : Nat)
    (accepted : effectiveOrg input = .ok org) : org ≠ 0 := by
  unfold effectiveOrg at accepted
  split at accepted
  · rw [← Except.ok.inj accepted]
    omega
  · simp at accepted

/-- A new row continues the chain over the entries in memory. -/
theorem chained_remember (table : AuditTable JsonDict) (fields : AuditFields PyMetadata)
    (columns : AuditFields JsonDict) (gap : Nat) (whole : ∀ row ∈ table.rows, Whole row)
    (memory : Nat → AuditFields PyMetadata)
    (chained : ∀ org, (memoryChain sha256 memory).Chained (ofOrg table org)) (org : Nat) :
    (memoryChain sha256 (Function.update memory (lastId table + 1 + gap) fields)).Chained
      (ofOrg (insert table
        (sealRow (digestMemory sha256) fields columns (head table columns.orgId)) gap) org) := by
  set memory' := Function.update memory (lastId table + 1 + gap) fields with memoryEq
  have before : (memoryChain sha256 memory').Chained (ofOrg table org) := by
    refine (chained org).reseal (c := memoryChain sha256 memory') rfl rfl fun row present => ?_
    have bound := id_le_lastId table row (List.mem_of_mem_filter present)
    have old : row.id ≠ lastId table + 1 + gap := by omega
    have isSealed := (chained org).sealed row present
    change digestMemory sha256 (memory' row.id) _ = _
    rw [memoryEq, Function.update_of_ne old]
    exact isSealed
  rw [ofOrg_insert]
  set row := sealRow (digestMemory sha256) fields columns (head table columns.orgId)
  by_cases same : columns.orgId = org
  · rw [if_pos (show row.orgId = org from same), chained_append_iff]
    have prev : (memoryChain sha256 memory').prev { row with id := lastId table + 1 + gap } =
        head table columns.orgId := orDefault_of_ne _ _ (head_ne_nil table columns.orgId)
    refine ⟨before, ?_, fun last final => ?_⟩
    · rw [Sealed, prev]
      change digestMemory sha256 (memory' (lastId table + 1 + gap)) _ = _
      rw [memoryEq, Function.update_self]
      rfl
    · rw [prev, same]
      have present := List.mem_of_mem_filter (List.mem_of_getLast? final)
      change _ = (chain (digestStored sha256)).hash last
      exact head_of_getLast table org last final (whole last present)
  · rw [if_neg (show ¬ row.orgId = org from same)]
    exact before

theorem storedColumns_orgId (fields : AuditFields PyMetadata) (columns : AuditFields JsonDict)
    (stored : storedColumns inet fields = some columns) : columns.orgId = fields.orgId := by
  obtain ⟨ip, rfl, _⟩ := storedColumns_cases inet fields columns stored
  rfl

theorem appended_storedStep (nonempty : ∀ s, sha256 s ≠ []) (table : AuditTable JsonDict)
    (input : AppendInput PyMetadata) (before : Appended sha256 table) :
    Appended sha256 (storedStep sha256 inet table input) := by
  have whole : ∀ row ∈ (storedStep sha256 inet table input).rows, Whole row :=
    whole_storedStep nonempty table input before.whole
  revert whole
  unfold storedStep appendStep append
  split
  · exact fun _ => before
  · rename_i org accepted
    dsimp only
    split
    · exact fun _ => before
    · rename_i columns stored
      intro whole
      have own : columns.orgId = org := storedColumns_orgId _ columns stored
      obtain ⟨memory, chained⟩ := before.chained
      have rooted : Rooted (insert table (sealRow (digestMemory sha256) (entryFields input org) columns
          (head table columns.orgId)) input.idGap) :=
        rooted_sealRow table (entryFields input org) columns input.idGap before.rooted
      have remembered := chained_remember table (entryFields input org) columns input.idGap
        before.whole memory chained
      rw [own] at rooted remembered
      refine ⟨whole, rooted, fun row present => ?_, _, remembered⟩
      rcases List.mem_append.mp present with old | new
      · exact before.owned row old
      · rw [List.mem_singleton.mp new]
        change columns.orgId ≠ 0
        rw [own]
        exact effectiveOrg_ne_zero input org accepted

/-- Every table that `append` builds is chained over the entries in memory. -/
theorem appended_run (nonempty : ∀ s, sha256 s ≠ []) (inputs : List (AppendInput PyMetadata)) :
    Appended sha256 (Run.final (storedStep sha256 inet) empty inputs) := by
  refine (Run.always_of_step (appended_storedStep nonempty) inputs ?_).final
  exact ⟨by simp [empty], fun org row first => by simp [ofOrg, empty] at first, by simp [empty],
    fun _ => entryFields (purgeRecord 0 0 0 0 0) 0, fun _ => trivial⟩

/-- A payload contains the hash that it was taken over. -/
theorem prev_eq_of_payload_eq {M : Type} (render : M → Json) (e e' : AuditFields M) (p p' : Str)
    (same : payload render e p = payload render e' p') : p = p' := by
  rw [payload_eq, payload_eq] at same
  simp only [Value.obj.injEq, List.cons.injEq, Prod.mk.injEq, Value.str.injEq] at same
  exact same.2.2.2.2.2.2.2.1.2

theorem pointing_digestMemory (injective : Function.Injective sha256)
    (fresh : ∀ s, sha256 s ≠ genesis) : Pointing (digestMemory sha256) genesis where
  prev_eq := by
    intro e p e' p' same
    have proper := fun (e : AuditFields PyMetadata) (p : Str) =>
      proper_payload (fun m : PyMetadata => PyValue.sorted (.obj m.members)) e p
        (PyValue.proper_sorted (.obj e.metadata.members) e.metadata.distinct)
    exact prev_eq_of_payload_eq _ e e' p p'
      (Json.dumps_injective _ _ _ (proper e p) (proper e' p') (injective same))
  fresh := fun e p => fresh _

theorem digitChar_ne_zero (n : Nat) : (Nat.digitChar n).toNat ≠ 0 := by
  rcases lt_or_ge n 16 with digit | beyond
  · have all : ∀ d, d < 16 → (Nat.digitChar d).toNat ≠ 0 := by decide
    exact all n digit
  · rw [Nat.digitChar_eq_star.mpr beyond]
    decide

theorem accepts_append (s t : Str) :
    PyValue.accepts (s ++ t) = (PyValue.accepts s && PyValue.accepts t) := List.all_append

theorem accepts_ofNat (n : Nat) : PyValue.accepts (Str.ofNat n) = true := by
  unfold Str.ofNat
  split
  · decide
  · simp [PyValue.accepts, digitChar_ne_zero]

theorem accepts_ofInt (i : Int) : PyValue.accepts (Str.ofInt i) = true := by
  cases i with
  | ofNat n => exact accepts_ofNat n
  | negSucc n =>
      change PyValue.accepts (['-'] ++ Str.ofNat (n + 1)) = true
      rw [accepts_append, accepts_ofNat]
      decide

theorem accepts_padZero (width : Nat) (n : Int) : PyValue.accepts (Instant.padZero width n) = true := by
  rw [Instant.padZero, accepts_append, accepts_ofInt, Bool.and_true, PyValue.accepts,
    List.all_replicate]
  split <;> decide

/-- A text column accepts every formatted time. -/
theorem accepts_isoformat (t : Instant) : PyValue.accepts t.isoformat = true := by
  unfold Instant.isoformat
  have fraction : ∀ micros : Int, PyValue.accepts
      (if micros % 1000000 = 0 then [] else '.' :: Instant.padZero 6 (micros % 1000000)) = true := by
    intro micros
    split
    · rfl
    · change PyValue.accepts (['.'] ++ Instant.padZero 6 (micros % 1000000)) = true
      rw [accepts_append, accepts_padZero]
      decide
  simp only [accepts_append, accepts_padZero, fraction, Bool.true_and, Bool.and_true]
  decide

/-- The columns accept the record of a purge. -/
theorem stored_purgeRecord (org removed : Nat) (cutoff now : Instant) (gap : Nat) :
    ∃ columns, storedColumns inet (entryFields (purgeRecord org removed cutoff now gap) org) =
      some columns := by
  have accepted : PyValue.storable (.obj (purgeMetadata removed cutoff).members) = true := by
    simp only [purgeMetadata, PyValue.storable, PyValue.storableMembers, accepts_isoformat]
    decide
  have address : (entryFields (purgeRecord org removed cutoff now gap) org).ip = none := rfl
  have metadata : (entryFields (purgeRecord org removed cutoff now gap) org).metadata =
      purgeMetadata removed cutoff := rfl
  unfold storedColumns
  rw [metadata, accepted, address]
  exact ⟨_, rfl⟩

/-- The record of a purge keeps its digest. -/
theorem keepsDigest_purgeRecord (org removed : Nat) (cutoff now : Instant) (gap : Nat) :
    KeepsDigest inet (entryFields (purgeRecord org removed cutoff now gap) org) := by
  refine ⟨fun ip given => ?_, ?_⟩
  · simp [entryFields, purgeRecord, orElse, setOrigin] at given
  · simp only [entryFields, purgeRecord, purgeMetadata, Option.getD_some, PyValue.Stable,
      PyValue.StableMembers]
    have order : (PyKey.sortItems [(PyKey.str "removed", (Value.int removed : PyValue)),
        (PyKey.str "cutoff", Value.str cutoff.isoformat)]) =
          [(PyKey.str "cutoff", Value.str cutoff.isoformat), (PyKey.str "removed", Value.int removed)] :=
      rfl
    rw [order]
    refine ⟨?_, trivial, trivial, trivial⟩
    simp only [List.map_cons, List.map_nil]
    decide

/-- These rows of an org survive a purge. -/
def kept {S : Type} (table : AuditTable S) (org : Nat) (cutoff : Instant) : List (AuditLog S) :=
  (ofOrg table org).filter fun row => decide (cutoff ≤ row.createdAt)

theorem kept_sublist {S : Type} (table : AuditTable S) (org : Nat) (cutoff : Instant) :
    (kept table org cutoff).Sublist (ofOrg table org) := List.filter_sublist

theorem ofOrg_purgeBefore {S : Type} (table : AuditTable S) (org : Nat) (cutoff : Instant) :
    ofOrg (purgeBefore table org cutoff) org = kept table org cutoff := by
  rw [kept, ofOrg, ofOrg, purgeBefore, List.filter_filter, List.filter_filter]
  apply List.filter_congr
  intro row _
  have flip : decide (row.createdAt < cutoff) = !decide (cutoff ≤ row.createdAt) := by
    rw [← decide_not, decide_eq_decide, not_le]
  by_cases own : row.orgId = org <;> simp [own, flip]

theorem removedBefore_eq_zero_iff {S : Type} (table : AuditTable S) (org : Nat) (cutoff : Instant) :
    removedBefore table org cutoff = 0 ↔ ∀ row ∈ ofOrg table org, cutoff ≤ row.createdAt := by
  simp [removedBefore, List.countP_eq_zero]

/-- A purge that deletes rows appends its record to the rest. -/
theorem purgeOrg_removed (injective : Function.Injective sha256) (nonempty : ∀ s, sha256 s ≠ [])
    (table : AuditTable JsonDict) (org : Nat) (positive : org ≠ 0) (cutoff now : Instant) (gap : Nat)
    (some_removed : removedBefore table org cutoff ≠ 0) :
    ∃ after record, purgeOrg sha256 inet table org cutoff now gap =
        .ok (removedBefore table org cutoff, after) ∧
      ofOrg after org = kept table org cutoff ++ [record] ∧ Whole record ∧
      record.prevHash = some (head (purgeBefore table org cutoff) org) ∧
      (chain (digestStored sha256)).Sealed record := by
  set purged := purgeBefore table org cutoff with purgedEq
  set input := purgeRecord org (removedBefore table org cutoff) cutoff now gap with inputEq
  obtain ⟨columns, stored⟩ : ∃ columns, storedColumns inet (entryFields input org) = some columns :=
    stored_purgeRecord org _ cutoff now gap
  have own : columns.orgId = org := storedColumns_orgId _ columns stored
  have accepted : effectiveOrg input = .ok org := by
    obtain ⟨n, rfl⟩ := Nat.exists_eq_succ_of_ne_zero positive
    rfl
  set record := sealRow (digestMemory sha256) (entryFields input org) columns (head purged org)
    with recordEq
  have appended : append (digestMemory sha256) (storedColumns inet) purged input =
      .ok (insert purged record gap) := by
    rw [append, accepted]
    simp only [stored]
    rfl
  have prev : (chain (digestStored sha256)).prev { record with id := lastId purged + 1 + gap } =
      head purged org := orDefault_of_ne _ _ (head_ne_nil purged org)
  refine ⟨insert purged record gap, { record with id := lastId purged + 1 + gap }, ?_, ?_, ?_, rfl, ?_⟩
  · rw [purgeOrg, if_neg some_removed, appended]
    rfl
  · rw [ofOrg_insert, if_pos (show record.orgId = org from own), ofOrg_purgeBefore]
  · exact ⟨⟨_, rfl, head_ne_nil purged org⟩, _, rfl, nonempty _⟩
  · rw [Sealed, prev]
    exact (digestStored_eq_iff sha256 injective inet (entryFields input org) columns
      (nonemptyIp_entryFields input org) stored (head purged org)).mpr
        (keepsDigest_purgeRecord org _ cutoff now gap)

/-- Once the walk expects a hash, it does not move its anchor. -/
theorem verifyEntry_anchor {S : Type} {digest : AuditFields S → Str → Str} (org : Nat)
    (walk walk' : ChainWalk) (row : AuditLog S) (e : Str) (expects : walk.expected = some e)
    (ok : verifyEntry digest org walk row = .ok walk') :
    walk'.anchor = walk.anchor ∧ ∃ e', walk'.expected = some e' := by
  unfold verifyEntry at ok
  split at ok
  · rw [← Except.ok.inj ok]
    exact ⟨rfl, e, expects⟩
  · rename_i hash _
    simp only [expects, Option.getD_some, Option.isNone_some, Bool.false_eq_true, if_false] at ok
    split at ok
    · simp at ok
    · split at ok
      · simp at ok
      · rw [← Except.ok.inj ok]
        exact ⟨rfl, hash, rfl⟩

theorem foldlM_anchor {S : Type} {digest : AuditFields S → Str → Str} (org : Nat)
    (rows : List (AuditLog S)) (walk walk' : ChainWalk) (e : Str) (expects : walk.expected = some e)
    (ok : rows.foldlM (verifyEntry digest org) walk = .ok walk') : walk'.anchor = walk.anchor := by
  induction rows generalizing walk e with
  | nil => rw [← Except.ok.inj ok]
  | cons row rest ih =>
      rw [List.foldlM_cons] at ok
      cases entry : verifyEntry digest org walk row with
      | error status =>
          rw [entry] at ok
          simp [bind, Except.bind] at ok
      | ok next =>
          rw [entry] at ok
          obtain ⟨same, e', expects'⟩ := verifyEntry_anchor org walk next row e expects entry
          rw [ih next e' expects' ok, same]

/-- The walk anchors at what the first row points at. -/
theorem anchor_of_ok {S : Type} {digest : AuditFields S → Str → Str} (org : Nat) (row : AuditLog S)
    (rest : List (AuditLog S)) (whole : Whole row) (walk : ChainWalk)
    (ok : (row :: rest).foldlM (verifyEntry digest org) {} = .ok walk) :
    row.prevHash = some walk.anchor := by
  obtain ⟨⟨p, prev, nonempty⟩, h, hash, _⟩ := whole
  rw [List.foldlM_cons] at ok
  have prevEq : orDefault row.prevHash genesis = p := by rw [prev, orDefault_of_ne p _ nonempty]
  have entry : verifyEntry digest org {} row = if digest row.toAuditFields p ≠ h then
      .error (ChainWalk.broken { anchor := p, entries := 1 } org row.id contentDetail)
      else .ok { expected := some h, anchor := p, entries := 1 } := by
    simp [verifyEntry, hash, prev, orDefault_of_ne p _ nonempty]
  rw [entry] at ok
  split at ok
  · simp [bind, Except.bind] at ok
  · have same := foldlM_anchor org rest { expected := some h, anchor := p, entries := 1 } walk h rfl ok
    rw [same, prev]

/-- `verify` returns, it finds the rows intact exactly when they are chained, and then it reports
what the first row points at as its anchor. -/
theorem verify_whole {S : Type} {digest : AuditFields S → Str → Str} (pageSize : Nat)
    (positive : 0 < pageSize) (table : AuditTable S) (org : Nat)
    (whole : ∀ row ∈ ofOrg table org, Whole row) :
    ∃ status, verify digest pageSize table org = some status ∧
      (status.intact = true ↔ (chain digest).Chained (ofOrg table org)) ∧
      (status.intact = true → ∀ first ∈ (ofOrg table org).head?,
        first.prevHash = some status.anchorPrev) := by
  obtain ⟨status, verified, exactly, _⟩ := verify_spec pageSize positive table org
    fun row present => (whole row present).1
  rw [links_of_whole _ whole] at exactly
  refine ⟨status, verified, exactly, fun intact first isFirst => ?_⟩
  obtain ⟨rest, log⟩ := List.head?_eq_some_iff.mp isFirst
  rw [verify_eq pageSize positive, log, Option.some.injEq] at verified
  rcases foldlM_verifyEntry org (first :: rest) {} (fun row present =>
      (whole row (log ▸ present)).1) with ⟨_, _, walk, ok, _⟩ | ⟨_, early, error, broken⟩
  · rw [ok] at verified
    rw [← verified]
    exact anchor_of_ok org first rest (whole first (log ▸ List.mem_cons_self)) walk ok
  · rw [error] at verified
    rw [← verified, finished, broken] at intact
    simp at intact

/-- The task keeps what retention promises: an intact log with every entry that is not too old, and
an anchor that shows the truncation. -/
structure Retained (before after : AuditTable JsonDict) (org : Nat) (cutoff : Instant) (removed : Nat)
    (status : ChainStatus) : Prop where
  intact : status.intact = true
  present : ∀ row ∈ ofOrg before org, cutoff ≤ row.createdAt → row ∈ ofOrg after org
  truncated : removed ≠ 0 → status.anchorPrev ≠ genesis

/-- The entry reads back with the digest that it was stored with. -/
def ReadsBack (sha256 : Str → Str) (row : AuditLog JsonDict) : Prop :=
  row.entryHash = some (digestStored sha256 row.toAuditFields (orDefault row.prevHash genesis))

/-- The cutoff removes nothing, or the oldest entries of the log but not all of it. -/
def Trims (table : AuditTable JsonDict) (org : Nat) (cutoff : Instant) : Prop :=
  (∀ row ∈ ofOrg table org, cutoff ≤ row.createdAt) ∨
    ((∃ first ∈ (ofOrg table org).head?, first.createdAt < cutoff) ∧
      (∃ row ∈ ofOrg table org, cutoff ≤ row.createdAt) ∧ kept table org cutoff <:+: ofOrg table org)

variable {table : AuditTable JsonDict}

theorem readsBack_iff (row : AuditLog JsonDict) (whole : Whole row) :
    ReadsBack sha256 row ↔ (chain (digestStored sha256)).Sealed row := by
  obtain ⟨_, h, hash, _⟩ := whole
  rw [ReadsBack, Sealed, hash, Option.some.injEq]
  change _ ↔ digestStored sha256 row.toAuditFields (orDefault row.prevHash genesis) =
    row.entryHash.getD []
  rw [hash, Option.getD_some, eq_comm]

variable (sha256) in
theorem startsAt_genesis (memory : Nat → AuditFields PyMetadata) (rooted : Rooted table) (org : Nat) :
    (memoryChain sha256 memory).StartsAt genesis 0 (ofOrg table org) := by
  intro row first
  have atGenesis : (memoryChain sha256 memory).prev row = genesis := by
    simp [memoryChain, rooted org row first, orDefault_of_ne genesis _ (by decide)]
  rw [atGenesis]
  exact .genesis

/-- Only the first row of an org points at the genesis mark. -/
theorem head_of_genesis (pointing : Pointing (digestMemory sha256) genesis)
    (appended : Appended sha256 table) (org : Nat) (row : AuditLog JsonDict)
    (present : row ∈ ofOrg table org) (prev : row.prevHash = some genesis) :
    (ofOrg table org).head? = some row := by
  obtain ⟨memory, chained⟩ := appended.chained
  have start := startsAt_genesis sha256 memory appended.rooted org
  have own := chained org
  cases log : ofOrg table org with
  | nil => simp [log] at present
  | cons first rest =>
      rw [log] at present own start
      rcases List.mem_cons.mp present with rfl | later
      · rfl
      · refine absurd ?_ (prev_ne_genesis pointing own start row later)
        simp [memoryChain, prev, orDefault_of_ne genesis _ (by decide)]

/-- The rows that a purge keeps are chained exactly when they read back and are consecutive. -/
theorem chained_kept_iff (pointing : Pointing (digestMemory sha256) genesis)
    (appended : Appended sha256 table) (org : Nat) (cutoff : Instant) :
    (chain (digestStored sha256)).Chained (kept table org cutoff) ↔
      (∀ row ∈ kept table org cutoff, ReadsBack sha256 row) ∧
        kept table org cutoff <:+: ofOrg table org := by
  obtain ⟨memory, chained⟩ := appended.chained
  have start := startsAt_genesis sha256 memory appended.rooted org
  rw [chained_survivors_iff (c := memoryChain sha256 memory) pointing (chained org) start
    (kept_sublist table org cutoff) (chain (digestStored sha256)) rfl rfl]
  refine and_congr_left fun _ => forall₂_congr fun row present => ?_
  have inside := List.mem_of_mem_filter (List.mem_of_mem_filter present)
  exact (readsBack_iff row (appended.whole row inside)).symm

/-- The record of the purge continues the chain of the rows that are left. -/
theorem chained_record_iff (appended : Appended sha256 table) (org : Nat) (cutoff : Instant)
    (record : AuditLog JsonDict)
    (prev : record.prevHash = some (head (purgeBefore table org cutoff) org))
    (isSealed : (chain (digestStored sha256)).Sealed record) :
    (chain (digestStored sha256)).Chained (kept table org cutoff ++ [record]) ↔
      (chain (digestStored sha256)).Chained (kept table org cutoff) := by
  rw [chained_append_iff]
  refine ⟨fun both => both.1, fun chained => ⟨chained, isSealed, fun last final => ?_⟩⟩
  have present := List.mem_of_mem_filter (List.mem_of_mem_filter (List.mem_of_getLast? final))
  rw [← ofOrg_purgeBefore] at final
  rw [← head_of_getLast _ org last final (appended.whole last present)]
  change orDefault record.prevHash genesis = _
  rw [prev, orDefault_of_ne _ _ (head_ne_nil _ org)]

/-- After a deletion the first row left points past the genesis mark exactly when the oldest row was
deleted and another row was not. -/
theorem truncated_iff (pointing : Pointing (digestMemory sha256) genesis)
    (appended : Appended sha256 table) (org : Nat) (cutoff : Instant) (record first : AuditLog JsonDict)
    (prev : record.prevHash = some (head (purgeBefore table org cutoff) org))
    (isFirst : (kept table org cutoff ++ [record]).head? = some first) :
    first.prevHash ≠ some genesis ↔ (∃ row ∈ (ofOrg table org).head?, row.createdAt < cutoff) ∧
      ∃ row ∈ ofOrg table org, cutoff ≤ row.createdAt := by
  cases rest : kept table org cutoff with
  | nil =>
      rw [rest, List.nil_append, List.head?_cons, Option.some.injEq] at isFirst
      have atGenesis : head (purgeBefore table org cutoff) org = genesis := by
        rw [head, ofOrg_purgeBefore, rest]
        rfl
      rw [← isFirst, prev, atGenesis]
      rw [kept, List.filter_eq_nil_iff] at rest
      simp only [ne_eq, not_true_eq_false, false_iff, not_and, not_exists]
      intro _ row present recent
      exact rest row present (decide_eq_true recent)
  | cons oldest others =>
      rw [rest, List.cons_append, List.head?_cons, Option.some.injEq] at isFirst
      subst isFirst
      have inside : oldest ∈ kept table org cutoff := by simp [rest]
      obtain ⟨present, recent⟩ := List.mem_filter.mp inside
      have recent : cutoff ≤ oldest.createdAt := of_decide_eq_true recent
      constructor
      · intro past
        refine ⟨?_, oldest, present, recent⟩
        cases log : ofOrg table org with
        | nil => simp [log] at present
        | cons row later =>
            refine ⟨row, rfl, ?_⟩
            by_contra notOlder
            rw [kept, log, List.filter_cons, if_pos (decide_eq_true (not_lt.mp notOlder)),
              List.cons.injEq] at rest
            exact past (appended.rooted org oldest (by rw [log, rest.1]; rfl))
      · rintro ⟨⟨row, isHead, older⟩, _⟩ atGenesis
        rw [head_of_genesis pointing appended org oldest present atGenesis, Option.mem_def,
          Option.some.injEq] at isHead
        subst isHead
        exact absurd recent (not_le.mpr older)

/-- The rows that a purge keeps are intact on their own when nothing is too old. -/
theorem purgeOrg_none_iff (pointing : Pointing (digestMemory sha256) genesis)
    (appended : Appended sha256 table) (org : Nat) (cutoff now : Instant) (gap pageSize : Nat)
    (positive : 0 < pageSize) (none : removedBefore table org cutoff = 0) :
    ∃ removed after status, purgeOrg sha256 inet table org cutoff now gap = .ok (removed, after) ∧
      verify (digestStored sha256) pageSize after org = some status ∧
      (Retained table after org cutoff removed status ↔
        (∀ row ∈ kept table org cutoff, ReadsBack sha256 row) ∧ Trims table org cutoff) := by
  have recent := (removedBefore_eq_zero_iff table org cutoff).mp none
  have all : kept table org cutoff = ofOrg table org := by
    rw [kept, List.filter_eq_self]
    exact fun row present => decide_eq_true (recent row present)
  have log : ofOrg (purgeBefore table org cutoff) org = ofOrg table org := by
    rw [ofOrg_purgeBefore, all]
  have whole : ∀ row ∈ ofOrg (purgeBefore table org cutoff) org, Whole row := by
    rw [log]
    exact fun row present => appended.whole row (List.mem_of_mem_filter present)
  obtain ⟨status, verified, exactly, _⟩ := verify_whole pageSize
    positive (purgeBefore table org cutoff) org whole
  refine ⟨0, purgeBefore table org cutoff, status, by rw [purgeOrg, if_pos none], verified, ?_⟩
  rw [log, ← all, chained_kept_iff pointing appended org cutoff] at exactly
  constructor
  · intro retained
    exact ⟨(exactly.mp retained.intact).1, Or.inl recent⟩
  · rintro ⟨reads, _⟩
    refine ⟨exactly.mpr ⟨reads, all ▸ List.infix_rfl⟩, fun row present _ => log ▸ present, ?_⟩
    exact fun removed => absurd rfl removed

theorem owned_of_removed (appended : Appended sha256 table) (org : Nat) (cutoff : Instant)
    (someOlder : removedBefore table org cutoff ≠ 0) : org ≠ 0 := by
  rintro rfl
  apply someOlder
  rw [removedBefore_eq_zero_iff]
  intro row present
  exact absurd (ofOrg_eq table 0 row present) (appended.owned row (List.mem_of_mem_filter present))

/-- After a deletion the log is intact and shows it exactly when the oldest rows are gone and not all. -/
theorem purgeOrg_some_iff (injective : Function.Injective sha256) (nonempty : ∀ s, sha256 s ≠ [])
    (pointing : Pointing (digestMemory sha256) genesis) (appended : Appended sha256 table) (org : Nat)
    (cutoff now : Instant) (gap pageSize : Nat) (positive : 0 < pageSize)
    (someOlder : removedBefore table org cutoff ≠ 0) :
    ∃ removed after status, purgeOrg sha256 inet table org cutoff now gap = .ok (removed, after) ∧
      verify (digestStored sha256) pageSize after org = some status ∧
      (Retained table after org cutoff removed status ↔
        (∀ row ∈ kept table org cutoff, ReadsBack sha256 row) ∧ Trims table org cutoff) := by
  obtain ⟨after, record, purged, log, whole, prev, isSealed⟩ := purgeOrg_removed
    injective nonempty table org (owned_of_removed appended org cutoff someOlder) cutoff now gap someOlder
  have wholeAfter : ∀ row ∈ ofOrg after org, Whole row := by
    rw [log]
    intro row present
    rcases List.mem_append.mp present with old | new
    · exact appended.whole row (List.mem_of_mem_filter ((kept_sublist table org cutoff).subset old))
    · rw [List.mem_singleton.mp new]
      exact whole
  obtain ⟨status, verified, exactly, anchored⟩ := verify_whole
    pageSize positive after org wholeAfter
  rw [log] at exactly anchored
  rw [chained_record_iff appended org cutoff record prev isSealed,
    chained_kept_iff pointing appended org cutoff] at exactly
  obtain ⟨first, isFirst⟩ : ∃ first, (kept table org cutoff ++ [record]).head? = some first := by
    cases kept table org cutoff <;> exact ⟨_, rfl⟩
  have shown := truncated_iff pointing appended org cutoff record first prev isFirst
  refine ⟨_, after, status, purged, verified, ?_⟩
  constructor
  · intro retained
    obtain ⟨reads, run⟩ := exactly.mp retained.intact
    have past : first.prevHash ≠ some genesis := by
      rw [anchored retained.intact first isFirst, ne_eq, Option.some.injEq]
      exact retained.truncated someOlder
    exact ⟨reads, Or.inr ⟨(shown.mp past).1, (shown.mp past).2, run⟩⟩
  · rintro ⟨reads, recent | ⟨older, someRecent, run⟩⟩
    · exact absurd ((removedBefore_eq_zero_iff table org cutoff).mpr recent) someOlder
    · have intact := exactly.mpr ⟨reads, run⟩
      refine ⟨intact, fun row present recent => ?_, fun _ atGenesis => ?_⟩
      · rw [log]
        exact List.mem_append_left _ (List.mem_filter.mpr ⟨present, decide_eq_true recent⟩)
      · have anchor := anchored intact first isFirst
        rw [atGenesis] at anchor
        exact shown.mpr ⟨older, someRecent⟩ anchor

theorem purgeOrg_iff (injective : Function.Injective sha256) (nonempty : ∀ s, sha256 s ≠ [])
    (fresh : ∀ s, sha256 s ≠ genesis) (appended : Appended sha256 table) (org : Nat)
    (cutoff now : Instant) (gap pageSize : Nat) (positive : 0 < pageSize) :
    ∃ removed after status, purgeOrg sha256 inet table org cutoff now gap = .ok (removed, after) ∧
      verify (digestStored sha256) pageSize after org = some status ∧
      (Retained table after org cutoff removed status ↔
        (∀ row ∈ kept table org cutoff, ReadsBack sha256 row) ∧ Trims table org cutoff) := by
  have pointing := pointing_digestMemory injective fresh
  by_cases none : removedBefore table org cutoff = 0
  · exact purgeOrg_none_iff pointing appended org cutoff now gap pageSize positive none
  · exact purgeOrg_some_iff injective nonempty pointing appended org cutoff now gap pageSize positive
      none

/-- Retention leaves an intact log that shows its truncation exactly when the kept entries read back
and the cutoff removes nothing or the oldest entries but not all. -/
theorem retained_iff_trims (injective : Function.Injective sha256) (nonempty : ∀ s, sha256 s ≠ [])
    (fresh : ∀ s, sha256 s ≠ genesis) (inputs : List (AppendInput PyMetadata)) (org : Nat)
    (cutoff now : Instant) (gap pageSize : Nat) (positive : 0 < pageSize) :
    let before := Run.final (storedStep sha256 inet) empty inputs
    ∃ removed after status, purgeOrg sha256 inet before org cutoff now gap = .ok (removed, after) ∧
      verify (digestStored sha256) pageSize after org = some status ∧
      (Retained before after org cutoff removed status ↔
        (∀ row ∈ kept before org cutoff, ReadsBack sha256 row) ∧ Trims before org cutoff) :=
  purgeOrg_iff injective nonempty fresh (appended_run nonempty inputs) org cutoff now gap pageSize
    positive

def loginAt (now : Instant) : AppendInput PyMetadata where
  actorKind := .user
  actorId := some 1
  action := "auth.login"
  orgId := some 1
  now := now

theorem markedText_ne_genesis (s : Str) : markedText s ≠ genesis := by
  simp [markedText, genesis, List.replicate_succ]

theorem retained_iff_trims_of_logins :
    let before := Run.final (storedStep markedText lowerCaseInet) empty [loginAt 1, loginAt 2]
    ∃ removed after status, purgeOrg markedText lowerCaseInet before 1 2 5 0 = .ok (removed, after) ∧
      verify (digestStored markedText) verifyPage after 1 = some status ∧
      (Retained before after 1 2 removed status ↔
        (∀ row ∈ kept before 1 2, ReadsBack markedText row) ∧ Trims before 1 2) :=
  retained_iff_trims markedText_injective (by simp [markedText]) markedText_ne_genesis
    [loginAt 1, loginAt 2] 1 2 5 0 verifyPage (by decide)

/-- Two entries took the lock in the other order than they were stamped, and the purge of the older
one makes the log read as tampered. -/
theorem overtaken_stamp_breaks_retention :
    ¬ ∀ (sha256 : Str → Str) (inet : Str → Option Str), Function.Injective sha256 →
      (∀ s, sha256 s ≠ []) → (∀ s, sha256 s ≠ genesis) →
      ∀ (inputs : List (AppendInput PyMetadata)) (org : Nat) (cutoff now : Instant) (gap removed : Nat)
        (after : AuditTable JsonDict) (status : ChainStatus),
        purgeOrg sha256 inet (Run.final (storedStep sha256 inet) empty inputs) org cutoff now gap =
          .ok (removed, after) →
        verify (digestStored sha256) verifyPage after org = some status →
        Retained (Run.final (storedStep sha256 inet) empty inputs) after org cutoff removed status := by
  intro retains
  have nonempty : ∀ s, markedText s ≠ [] := by simp [markedText]
  set inputs := [loginAt 2, loginAt 1, loginAt 3] with inputsEq
  obtain ⟨removed, after, status, purged, verified, exactly⟩ := purgeOrg_iff
    markedText_injective nonempty markedText_ne_genesis (appended_run nonempty inputs) 1 2 5 0
    verifyPage (by decide)
  obtain ⟨_, recent | ⟨⟨row, isFirst, older⟩, _⟩⟩ := exactly.mp (retains _ _ markedText_injective
    nonempty markedText_ne_genesis inputs 1 2 5 0 removed after status purged verified)
  · have stamps : (ofOrg (Run.final (storedStep markedText lowerCaseInet) empty inputs) 1).map
        (fun row => row.createdAt) = [2, 1, 3] := rfl
    obtain ⟨row, present, stamp⟩ := List.mem_map.mp (stamps ▸ (by simp : (1 : Int) ∈ [2, 1, 3]))
    have late := recent row present
    rw [stamp] at late
    exact absurd late (by decide)
  · have stamp : ((ofOrg (Run.final (storedStep markedText lowerCaseInet) empty inputs) 1).head?.map
        fun row => row.createdAt) = some 2 := rfl
    rw [Option.mem_def] at isFirst
    rw [isFirst, Option.map_some, Option.some.injEq] at stamp
    rw [stamp] at older
    exact absurd older (by decide)

end Kortex.Audit
