import Kortex.Library.HashChain
import Kortex.Model.Audit

/-
This file proves what `AuditRepository.verify` reports of a table of entries.
-/

namespace Kortex.Audit

open HashChain

variable {M S : Type} {digest : AuditFields S → Str → Str}

theorem ofOrg_eq (table : AuditTable S) (org : Nat) (row : AuditLog S)
    (present : row ∈ ofOrg table org) : row.orgId = org :=
  of_decide_eq_true (List.mem_filter.mp present).2

/-- The rows of an org that a page after the given id can still read. -/
def rowsAfter (table : AuditTable S) (org afterId : Nat) : List (AuditLog S) :=
  (ofOrg table org).filter fun row => decide (afterId < row.id)

theorem read_eq (table : AuditTable S) (org afterId limit : Nat) :
    read table org none none afterId limit = (rowsAfter table org afterId).take limit := by
  simp [read, rowsAfter]

theorem rowsAfter_zero (table : AuditTable S) (org : Nat) :
    rowsAfter table org 0 = ofOrg table org := by
  rw [rowsAfter, List.filter_eq_self]
  intro row present
  simpa using table.positive row (List.mem_of_mem_filter present)

theorem sorted_rowsAfter (table : AuditTable S) (org afterId : Nat) :
    (rowsAfter table org afterId).Pairwise fun a b => a.id < b.id :=
  (table.sorted.filter _).filter _

/-- The next page starts where the page ended. -/
theorem rowsAfter_last (table : AuditTable S) (org afterId limit : Nat) (last : AuditLog S)
    (final : ((rowsAfter table org afterId).take limit).getLast? = some last) :
    rowsAfter table org last.id = (rowsAfter table org afterId).drop limit := by
  set rest := rowsAfter table org afterId with restEq
  obtain ⟨front, split⟩ := List.getLast?_eq_some_iff.mp final
  have sorted := sorted_rowsAfter table org afterId
  rw [← restEq, ← List.take_append_drop limit rest, split, List.pairwise_append] at sorted
  obtain ⟨inside, _, across⟩ := sorted
  have reached : afterId < last.id := by
    have present : last ∈ rest := List.mem_of_mem_take (by rw [split]; simp)
    simpa using (List.mem_filter.mp present).2
  have same : rowsAfter table org last.id = rest.filter fun row => decide (last.id < row.id) := by
    rw [restEq, rowsAfter, rowsAfter, List.filter_filter]
    apply List.filter_congr
    intro row _
    rw [← Bool.decide_and, decide_eq_decide]
    omega
  rw [same]
  conv_lhs => rw [← List.take_append_drop limit rest, split]
  rw [List.filter_append, List.filter_eq_nil_iff.mpr, List.filter_eq_self.mpr, List.nil_append]
  · intro row present
    simpa using across last (by simp) row present
  · intro row present
    rw [List.pairwise_append] at inside
    rcases List.mem_append.mp present with before | itself
    · have less := inside.2.2 row before last (by simp)
      simp only [decide_eq_true_eq]
      omega
    · simp [List.mem_singleton.mp itself]

/-- The status is the early return of the loop or the report at its end. -/
def finished (org : Nat) : Except ChainStatus ChainWalk → ChainStatus
  | .error status => status
  | .ok walk => walk.finish org

/-- The pages of any positive size visit every row once and in order. -/
theorem verifyPages_eq (pageSize : Nat) (positive : 0 < pageSize) (table : AuditTable S) (org : Nat)
    (fuel : Nat) (walk : ChainWalk) (afterId : Nat)
    (enough : (rowsAfter table org afterId).length < fuel) :
    verifyPages digest pageSize table org fuel walk afterId =
      some (finished org ((rowsAfter table org afterId).foldlM (verifyEntry digest org) walk)) := by
  induction fuel generalizing walk afterId with
  | zero => omega
  | succ fuel ih =>
      rw [verifyPages, read_eq]
      set rest := rowsAfter table org afterId with restEq
      split
      · rename_i none
        rw [List.getLast?_eq_none_iff, List.take_eq_nil_iff] at none
        rw [none.resolve_left (by omega)]
        rfl
      · rename_i last final
        have next := rowsAfter_last table org afterId pageSize last final
        have whole : rest.foldlM (verifyEntry digest org) walk =
            ((rest.take pageSize).foldlM (verifyEntry digest org) walk).bind fun walk =>
              (rest.drop pageSize).foldlM (verifyEntry digest org) walk := by
          conv_lhs => rw [← List.take_append_drop pageSize rest]
          exact List.foldlM_append
        have nonempty : rest ≠ [] := by
          rintro none
          simp [none] at final
        have shorter : (rest.drop pageSize).length < fuel := by
          have := List.length_pos_of_ne_nil nonempty
          rw [List.length_drop]
          omega
        rw [whole]
        split
        · rename_i status early
          rw [early]
          rfl
        · rename_i walk' ok
          rw [ok, ih walk' last.id (by rw [next]; exact shorter), next]
          rfl

/-- `verify` returns for every table, and its result does not depend on the size of the pages. -/
theorem verify_eq (pageSize : Nat) (positive : 0 < pageSize) (table : AuditTable S) (org : Nat) :
    verify digest pageSize table org =
      some (finished org ((ofOrg table org).foldlM (verifyEntry digest org) {})) := by
  rw [verify, verifyPages_eq pageSize positive, rowsAfter_zero]
  rw [rowsAfter_zero]
  have := List.length_filter_le (fun row : AuditLog S => decide (row.orgId = org)) table.rows
  exact Nat.lt_succ_of_le this

/-- The rows of the table form a hash chain over the digest. -/
def chain (digest : AuditFields S → Str → Str) : HashChain (AuditLog S) (AuditFields S) Str where
  digest := digest
  entry := AuditLog.toAuditFields
  prev row := orDefault row.prevHash genesis
  hash row := row.entryHash.getD []

/-- The links of the chain are the rows with a hash. -/
def links (rows : List (AuditLog S)) : List (AuditLog S) := rows.filter fun row => row.entryHash.isSome

theorem orDefault_of_ne (p default : Str) (nonempty : p ≠ []) : orDefault (some p) default = p := by
  cases p with
  | nil => exact absurd rfl nonempty
  | cons c p => rfl

/-- A row points at a predecessor when its `prev_hash` is a nonempty string. -/
def Pointed (row : AuditLog S) : Prop := ∃ p, row.prevHash = some p ∧ p ≠ []

/-- The loop accepts a row with a hash exactly when it continues the chain and is sealed. -/
theorem verifyEntry_hash (org : Nat) (walk : ChainWalk) (row : AuditLog S) (h p : Str)
    (hash : row.entryHash = some h) (prev : row.prevHash = some p) (nonempty : p ≠ []) :
    (walk.expected.getD p = p ∧ digest row.toAuditFields p = h ∧
      ∃ walk', verifyEntry digest org walk row = .ok walk' ∧ walk'.entries = walk.entries + 1 ∧
        walk'.expected = some h) ∨
    (¬ (walk.expected.getD p = p ∧ digest row.toAuditFields p = h) ∧
      ∃ status, verifyEntry digest org walk row = .error status ∧ status.intact = false) := by
  have prevEq : orDefault row.prevHash genesis = p := by rw [prev, orDefault_of_ne p _ nonempty]
  unfold verifyEntry
  simp only [hash, prevEq]
  split
  · rename_i mismatch
    rw [prev, ne_eq, Option.some.injEq] at mismatch
    exact Or.inr ⟨fun both => mismatch both.1.symm, _, rfl, rfl⟩
  · rename_i joined
    rw [prev, ne_eq, Option.some.injEq, not_not] at joined
    split
    · rename_i unsealed
      exact Or.inr ⟨fun both => unsealed both.2, _, rfl, rfl⟩
    · rename_i sealed
      rw [ne_eq, not_not] at sealed
      refine Or.inl ⟨joined.symm, sealed, _, rfl, ?_, rfl⟩
      simp only
      split <;> rfl

/-- The loop accepts the chained rows that continue what it has seen, and refuses all others. -/
theorem foldlM_verifyEntry (org : Nat) (rows : List (AuditLog S)) (walk : ChainWalk)
    (pointed : ∀ row ∈ rows, Pointed row) :
    ((chain digest).Chained (links rows) ∧
        (∀ e ∈ walk.expected, ∀ l ∈ (links rows).head?, (chain digest).prev l = e) ∧
        ∃ walk', rows.foldlM (verifyEntry digest org) walk = .ok walk' ∧
          walk'.entries = walk.entries + rows.length) ∨
      (¬ ((chain digest).Chained (links rows) ∧
          ∀ e ∈ walk.expected, ∀ l ∈ (links rows).head?, (chain digest).prev l = e) ∧
        ∃ status, rows.foldlM (verifyEntry digest org) walk = .error status ∧
          status.intact = false) := by
  induction rows generalizing walk with
  | nil => exact Or.inl ⟨trivial, by simp [links], walk, rfl, rfl⟩
  | cons row rest ih =>
      have pointedRest := fun r present => pointed r (List.mem_cons_of_mem row present)
      obtain ⟨p, prev, nonempty⟩ := pointed row (by simp)
      have prevEq : orDefault row.prevHash genesis = p := by rw [prev, orDefault_of_ne p _ nonempty]
      rw [List.foldlM_cons]
      cases hash : row.entryHash with
      | none =>
          -- a row without a hash is counted and skipped
          have skipped : links (row :: rest) = links rest := by simp [links, hash]
          have entry : verifyEntry digest org walk row = .ok { walk with
              entries := walk.entries + 1, unchained := walk.unchained + 1 } := by
            simp [verifyEntry, hash]
          rw [skipped, entry]
          rcases ih { walk with entries := walk.entries + 1, unchained := walk.unchained + 1 }
              pointedRest with ⟨chained, starts, walk', ok, count⟩ | broken
          · refine Or.inl ⟨chained, starts, walk', ok, ?_⟩
            rw [count, List.length_cons]
            change walk.entries + 1 + rest.length = _
            omega
          · exact Or.inr broken
      | some h =>
          have kept : links (row :: rest) = row :: links rest := by simp [links, hash]
          have head : (links (row :: rest)).head? = some row := by rw [kept]; rfl
          have own : (chain digest).prev row = p := prevEq
          have ownHash : (chain digest).hash row = h := by simp [chain, hash]
          have agree : walk.expected.getD p = p ↔ ∀ e ∈ walk.expected, p = e := by
            cases walk.expected <;> simp [eq_comm]
          rcases @verifyEntry_hash _ digest org walk row h p hash prev nonempty with
            ⟨joined, sealed, walk', entry, count, next⟩ | ⟨broken, status, error, notIntact⟩
          · rw [entry]
            rcases ih walk' pointedRest with ⟨chained, starts, final, ok, total⟩ | ⟨broken, status⟩
            · rw [next] at starts
              refine Or.inl ⟨?_, ?_, final, ok, by rw [total, count, List.length_cons]; omega⟩
              · rw [kept]
                refine ⟨?_, fun l first => ?_, chained⟩
                · rw [Sealed, own, ownHash]
                  exact sealed
                · rw [ownHash]
                  exact starts h rfl l first
              · intro e seen l first
                rw [head, Option.mem_def, Option.some.injEq] at first
                rw [← first, own]
                exact agree.mp joined e seen
            · refine Or.inr ⟨fun whole => broken ?_, status⟩
              rw [kept] at whole
              refine ⟨whole.1.2.2, ?_⟩
              rw [next]
              rintro e seen l first
              rw [Option.mem_def, Option.some.injEq] at seen
              rw [← seen, ← ownHash]
              exact whole.1.2.1 l first
          · rw [error]
            refine Or.inr ⟨fun whole => broken ⟨agree.mpr fun e seen => ?_, ?_⟩, status, rfl, notIntact⟩
            · rw [← own]
              exact whole.2 e seen row head
            · rw [kept] at whole
              have isSealed := whole.1.1
              rwa [Sealed, own, ownHash] at isSealed

/-- `verify` reports an intact chain exactly when the rows with a hash are chained. -/
theorem verify_spec (pageSize : Nat) (positive : 0 < pageSize) (table : AuditTable S) (org : Nat)
    (pointed : ∀ row ∈ ofOrg table org, Pointed row) :
    ∃ status, verify digest pageSize table org = some status ∧
      (status.intact = true ↔ (chain digest).Chained (links (ofOrg table org))) ∧
      (status.intact = true → status.entries = (ofOrg table org).length) := by
  rw [verify_eq pageSize positive]
  refine ⟨_, rfl, ?_⟩
  rcases foldlM_verifyEntry org (ofOrg table org) {} pointed with
    ⟨chained, _, walk, ok, count⟩ | ⟨broken, status, error, notIntact⟩
  · rw [ok]
    refine ⟨⟨fun _ => chained, fun _ => rfl⟩, fun _ => ?_⟩
    change walk.entries = _
    rw [count]
    exact Nat.zero_add _
  · rw [error]
    simp only [finished, notIntact, Bool.false_eq_true, false_iff, false_implies, and_true]
    exact fun chained => broken ⟨chained, by simp⟩

/-- A row that `append` wrote has both of its hashes. -/
def Whole (row : AuditLog S) : Prop :=
  Pointed row ∧ ∃ h, row.entryHash = some h ∧ h ≠ []

theorem links_of_whole (rows : List (AuditLog S)) (whole : ∀ row ∈ rows, Whole row) :
    links rows = rows := by
  rw [links, List.filter_eq_self]
  intro row present
  obtain ⟨_, h, hash, _⟩ := whole row present
  rw [hash]
  rfl

theorem ofOrg_insert (table : AuditTable S) (row : AuditLog S) (gap org : Nat) :
    ofOrg (insert table row gap) org = if row.orgId = org then
      ofOrg table org ++ [{ row with id := lastId table + 1 + gap }] else ofOrg table org := by
  by_cases same : row.orgId = org <;> simp [ofOrg, insert, List.filter_append, same]

theorem head_of_getLast (table : AuditTable S) (org : Nat) (last : AuditLog S)
    (final : (ofOrg table org).getLast? = some last) (whole : Whole last) :
    head table org = (chain digest).hash last := by
  obtain ⟨_, h, hash, nonempty⟩ := whole
  simp [head, rowHead, final, hash, chain, orDefault_of_ne h _ nonempty]

theorem head_ne_nil (table : AuditTable S) (org : Nat) : head table org ≠ [] := by
  unfold head rowHead orDefault
  split
  · simp
  · decide

/-- An append succeeds when it has an org and the columns accept its entry. -/
theorem append_eq_ok_iff [EmptyCollection M] (digest : AuditFields M → Str → Str)
    (stored : AuditFields M → Option (AuditFields S)) (table : AuditTable S) (input : AppendInput M) :
    (∃ table', append digest stored table input = .ok table') ↔
      ∃ org, effectiveOrg input = .ok org ∧ stored (entryFields input org) ≠ none := by
  unfold append
  cases effectiveOrg input with
  | error e => simp
  | ok org => cases entry : stored (entryFields input org) <;> simp [entry]

variable {digestEntry : AuditFields M → Str → Str}

theorem whole_sealRow (table : AuditTable S) (fields : AuditFields M) (columns : AuditFields S)
    (gap org : Nat) (nonempty : ∀ e p, digestEntry e p ≠ [])
    (whole : ∀ row ∈ table.rows, Whole row) :
    ∀ row ∈ (insert table (sealRow digestEntry fields columns (head table org)) gap).rows,
      Whole row := by
  intro row present
  rcases List.mem_append.mp present with old | new
  · exact whole row old
  · rw [List.mem_singleton.mp new]
    exact ⟨⟨_, rfl, head_ne_nil table org⟩, _, rfl, nonempty fields _⟩

/-- A new row keeps the chain of its org exactly when its stored columns have its digest. -/
theorem chained_sealRow (table : AuditTable S) (fields : AuditFields M) (columns : AuditFields S)
    (gap org : Nat) (whole : ∀ row ∈ table.rows, Whole row) :
    (chain digest).Chained (ofOrg (insert table
        (sealRow digestEntry fields columns (head table columns.orgId)) gap) org) ↔
      (chain digest).Chained (ofOrg table org) ∧ (columns.orgId = org →
        digest columns (head table columns.orgId) = digestEntry fields (head table columns.orgId)) := by
  set row := sealRow digestEntry fields columns (head table columns.orgId) with rowEq
  rw [ofOrg_insert]
  have own : row.orgId = columns.orgId := rfl
  rw [own]
  by_cases same : columns.orgId = org
  · rw [if_pos same, chained_append_iff]
    have prev : (chain digest).prev { row with id := lastId table + 1 + gap } =
        head table columns.orgId := orDefault_of_ne _ _ (head_ne_nil table columns.orgId)
    have joined : ∀ last ∈ (ofOrg table org).getLast?,
        (chain digest).prev { row with id := lastId table + 1 + gap } = (chain digest).hash last := by
      intro last final
      rw [prev, same]
      have present := List.mem_of_mem_filter (List.mem_of_getLast? final)
      exact head_of_getLast table org last final (whole last present)
    have isSealed : (chain digest).Sealed { row with id := lastId table + 1 + gap } ↔
        digest columns (head table columns.orgId) =
          digestEntry fields (head table columns.orgId) := by
      rw [Sealed, prev]
      exact Iff.rfl
    rw [isSealed]
    exact ⟨fun both => ⟨both.1, fun _ => both.2.1⟩, fun both => ⟨both.1, both.2 same, joined⟩⟩
  · rw [if_neg same]
    exact ⟨fun chained => ⟨chained, fun equal => absurd equal same⟩, fun both => both.1⟩

/-- The first row of each org points at the genesis mark. -/
def Rooted (table : AuditTable S) : Prop :=
  ∀ org, ∀ row ∈ (ofOrg table org).head?, row.prevHash = some genesis

theorem rooted_sealRow (table : AuditTable S) (fields : AuditFields M) (columns : AuditFields S)
    (gap : Nat) (rooted : Rooted table) :
    Rooted (insert table (sealRow digestEntry fields columns (head table columns.orgId)) gap) := by
  intro org row first
  rw [ofOrg_insert] at first
  split at first
  · rename_i same
    cases log : ofOrg table org with
    | nil =>
        rw [log, List.nil_append, List.head?_cons, Option.mem_def, Option.some.injEq] at first
        have same : columns.orgId = org := same
        have atGenesis : head table columns.orgId = genesis := by
          rw [same, head, log]
          rfl
        rw [← first, ← atGenesis]
        rfl
    | cons old rest =>
        rw [log] at first
        exact rooted org row (by rw [log]; exact first)
  · exact rooted org row first

end Kortex.Audit
