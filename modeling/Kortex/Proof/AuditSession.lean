import Kortex.Model.AuditSession
import Kortex.Proof.AuditTamper

/-
This file proves which interleavings of `append` leave an intact chain.
-/

namespace Kortex.Audit

open HashChain

variable {M : Type} {digest : AuditFields M → Str → Str} {org : Nat}

namespace Phase

/-- The entry of a transaction points at this hash once its statement has picked a row. -/
def promise : Phase M → Option Str
  | idle => none
  | waiting picked _ => some (rowHead (some picked))
  | granted prevHash _ => some prevHash
  | inserted row _ => row.prevHash
  | committed row => row.prevHash

def row? : Phase M → Option (AuditLog M)
  | inserted row _ => some row
  | committed row => some row
  | _ => none

def fields? : Phase M → Option (AuditFields M)
  | waiting _ fields => some fields
  | granted _ fields => some fields
  | _ => none

/-- A transaction is in flight from its statement to its commit. -/
def InFlight : Phase M → Prop
  | idle => False
  | committed _ => False
  | _ => True

end Phase

namespace Sessions

/-- These are the things that a step can do. -/
inductive Outcome (digest : AuditFields M → Str → Str) (org : Nat) (s : Sessions M)
    (e : SessionEvent M) (s' : Sessions M) : Prop where
  | same (unchanged : s' = s) (idle : ∀ tx fields, e = .select tx fields → s.phase tx ≠ .idle)
  | selected (tx : Nat) (fields : AuditFields M) (phase : Phase M) (event : e = .select tx fields)
      (idle : s.phase tx = .idle) (flight : phase.InFlight) (noRow : phase.row? = none)
      (own : ∀ f, phase.fields? = some f → f.orgId = org)
      (promise : phase.promise = some (head s.table org)) (table : s'.table = s.table)
      (lastId : s'.lastId = s.lastId) (phases : s'.phase = Function.update s.phase tx phase)
  | resumed (tx : Nat) (picked : AuditLog M) (fields : AuditFields M) (event : e = .resume tx)
      (waiting : s.phase tx = .waiting picked fields) (table : s'.table = s.table)
      (lastId : s'.lastId = s.lastId)
      (phases : s'.phase = Function.update s.phase tx (.granted (rowHead (some picked)) fields))
  | inserted (tx gap : Nat) (prevHash : Str) (fields : AuditFields M) (row : AuditLog M)
      (positive : 0 < row.id) (event : e = .insert tx gap)
      (granted : s.phase tx = .granted prevHash fields)
      (rowEq : row = { sealRow digest fields fields prevHash with id := s.lastId + 1 + gap })
      (table : s'.table = s.table) (lastId : s'.lastId = row.id)
      (phases : s'.phase = Function.update s.phase tx (.inserted row positive))
  | committed (tx : Nat) (row : AuditLog M) (positive : 0 < row.id) (event : e = .commit tx)
      (inserted : s.phase tx = .inserted row positive) (table : s'.table = addRow s.table row positive)
      (lastId : s'.lastId = s.lastId)
      (phases : s'.phase = Function.update s.phase tx (.committed row))

theorem step_outcome (s : Sessions M) (e : SessionEvent M) :
    Outcome digest org s e (step digest org s e) := by
  cases e with
  | select tx fields =>
      simp only [step]
      split
      · rename_i idle
        split
        · rename_i none
          refine .selected tx fields (.granted genesis { fields with orgId := org }) rfl idle trivial
            rfl ?_ ?_ rfl rfl rfl
          · rintro f same
            rw [← Option.some.inj same]
          · simp only [Phase.promise, head, none]
            rfl
        · rename_i row newest
          have promise : rowHead (some row) = head s.table org := by rw [head, newest]
          split
          · refine .selected tx fields (.granted (rowHead (some row)) { fields with orgId := org }) rfl
              idle trivial rfl ?_ (congrArg some promise) rfl rfl rfl
            rintro f same
            rw [← Option.some.inj same]
          · refine .selected tx fields (.waiting row { fields with orgId := org }) rfl idle trivial rfl
              ?_ (congrArg some promise) rfl rfl rfl
            rintro f same
            rw [← Option.some.inj same]
      · rename_i busy
        exact .same rfl fun tx' fields' same => by cases same; exact busy
  | resume tx =>
      simp only [step]
      split
      · rename_i picked fields waiting
        split
        · exact .resumed tx picked fields rfl waiting rfl rfl rfl
        · exact .same rfl fun _ _ same => by cases same
      · exact .same rfl fun _ _ same => by cases same
  | insert tx gap =>
      simp only [step]
      split
      · rename_i prevHash fields granted
        exact .inserted tx gap prevHash fields _ _ rfl granted rfl rfl rfl rfl
      · exact .same rfl fun _ _ same => by cases same
  | commit tx =>
      simp only [step]
      split
      · rename_i row positive inserted
        exact .committed tx row positive rfl inserted rfl rfl rfl
      · exact .same rfl fun _ _ same => by cases same

/-- A row of the org is sealed and its predecessor has a depth. -/
structure Good (digest : AuditFields M → Str → Str) (org : Nat) (row : AuditLog M) : Prop where
  own : row.orgId = org
  whole : Whole row
  isSealed : (chain digest).Sealed row
  depth : ∃ n, Depth digest genesis ((chain digest).prev row) n

theorem Good.hash_depth {row : AuditLog M} (good : Good digest org row) :
    (chain digest).hash row ≠ [] ∧ ∃ n, Depth digest genesis ((chain digest).hash row) n := by
  obtain ⟨n, depth⟩ := good.depth
  obtain ⟨_, h, hash, nonempty⟩ := good.whole
  refine ⟨?_, n + 1, good.isSealed.depth depth⟩
  simpa [chain, hash] using nonempty

/-- These facts hold in every interleaving. -/
structure Sound (digest : AuditFields M → Str → Str) (org : Nat) (s : Sessions M) : Prop where
  whole : ∀ row ∈ s.table.rows, Whole row
  good : ∀ row ∈ ofOrg s.table org, Good digest org row
  within : ∀ row ∈ s.table.rows, row.id ≤ s.lastId
  own : ∀ t row, (s.phase t).row? = some row → Good digest org row ∧ row.id ≤ s.lastId
  distinct : ∀ t t' row row', t ≠ t' → (s.phase t).row? = some row →
    (s.phase t').row? = some row' → row.id ≠ row'.id
  fresh : ∀ t row positive, s.phase t = .inserted row positive → ∀ r ∈ s.table.rows, r.id ≠ row.id
  stored : ∀ t row, s.phase t = .committed row → row ∈ s.table.rows
  fields : ∀ t f, (s.phase t).fields? = some f → f.orgId = org
  promise : ∀ t p, (s.phase t).promise = some p → p ≠ [] ∧ ∃ n, Depth digest genesis p n

theorem head_depth (s : Sessions M) (good : ∀ row ∈ ofOrg s.table org, Good digest org row) :
    head s.table org ≠ [] ∧ ∃ n, Depth digest genesis (head s.table org) n := by
  cases newest : (ofOrg s.table org).getLast? with
  | none =>
      have atGenesis : head s.table org = genesis := by rw [head, newest]; rfl
      rw [atGenesis]
      exact ⟨by decide, 0, .genesis⟩
  | some row =>
      have last := good row (List.mem_of_getLast? newest)
      rw [@head_of_getLast _ digest s.table org row newest last.whole]
      exact last.hash_depth

/-- A step of a transaction changes its own phase only. -/
theorem phase_updated {s s' : Sessions M} {tx : Nat} {phase : Phase M}
    (phases : s'.phase = Function.update s.phase tx phase) (t : Nat) :
    t = tx ∧ s'.phase t = phase ∨ t ≠ tx ∧ s'.phase t = s.phase t := by
  rw [phases]
  by_cases self : t = tx
  · left
    exact ⟨self, by rw [self, Function.update_self]⟩
  · right
    exact ⟨self, Function.update_of_ne self _ _⟩

/-- A transaction that keeps its promise and its row keeps what holds in every interleaving. -/
theorem sound_update (s s' : Sessions M) (sound : Sound digest org s) (tx : Nat) (phase : Phase M)
    (table : s'.table = s.table) (lastId : s'.lastId = s.lastId)
    (phases : s'.phase = Function.update s.phase tx phase) (noRow : phase.row? = none)
    (own : ∀ f, phase.fields? = some f → f.orgId = org)
    (promise : ∀ p, phase.promise = some p → p ≠ [] ∧ ∃ n, Depth digest genesis p n) :
    Sound digest org s' := by
  have rows (t : Nat) (row : AuditLog M) (present : (s'.phase t).row? = some row) :
      s'.phase t = s.phase t := by
    rcases phase_updated phases t with ⟨_, now⟩ | ⟨_, same⟩
    · rw [now, noRow] at present
      exact absurd present (Option.some_ne_none row).symm
    · exact same
  exact
    { whole := by
        rw [table]
        exact sound.whole
      good := by
        rw [table]
        exact sound.good
      within := by
        rw [table, lastId]
        exact sound.within
      own := by
        intro t row present
        rw [lastId]
        exact sound.own t row (rows t row present ▸ present)
      distinct := by
        intro t t' row row' different first second
        exact sound.distinct t t' row row' different (rows t row first ▸ first)
          (rows t' row' second ▸ second)
      fresh := by
        intro t row positive inserted
        rw [table]
        have same := rows t row (by rw [inserted]; rfl)
        exact sound.fresh t row positive (same ▸ inserted)
      stored := by
        intro t row committed
        rw [table]
        have same := rows t row (by rw [committed]; rfl)
        exact sound.stored t row (same ▸ committed)
      fields := by
        intro t f present
        rcases phase_updated phases t with ⟨_, now⟩ | ⟨_, same⟩
        · exact own f (now ▸ present)
        · exact sound.fields t f (same ▸ present)
      promise := by
        intro t p present
        rcases phase_updated phases t with ⟨_, now⟩ | ⟨_, same⟩
        · exact promise p (now ▸ present)
        · exact sound.promise t p (same ▸ present) }

theorem mem_addRow (table : AuditTable M) (row r : AuditLog M) (positive : 0 < row.id)
    (fresh : ∀ r ∈ table.rows, r.id ≠ row.id) :
    r ∈ (addRow table row positive).rows ↔ r = row ∨ r ∈ table.rows := by
  simp only [addRow, List.mem_append, List.mem_filter, List.mem_cons, decide_eq_true_eq]
  constructor
  · rintro (⟨present, _⟩ | rfl | ⟨present, _⟩)
    · exact Or.inr present
    · exact Or.inl rfl
    · exact Or.inr present
  · rintro (rfl | present)
    · exact Or.inr (Or.inl rfl)
    · rcases Nat.lt_or_gt_of_ne (fresh r present) with less | greater
      · exact Or.inl ⟨present, less⟩
      · exact Or.inr (Or.inr ⟨present, greater⟩)

/-- The entry that a transaction inserts is sealed over the hash it was granted. -/
theorem good_sealRow (ideal : IdealDigest digest) (fields : AuditFields M) (prevHash : Str)
    (id : Nat) (own : fields.orgId = org) (nonempty : prevHash ≠ [])
    (depth : ∃ n, Depth digest genesis prevHash n) :
    Good digest org { sealRow digest fields fields prevHash with id := id } where
  own := own
  whole := ⟨⟨prevHash, rfl, nonempty⟩, _, rfl, ideal.nonempty fields prevHash⟩
  isSealed := by
    have prev : orDefault (some prevHash) genesis = prevHash := orDefault_of_ne _ _ nonempty
    change digest fields (orDefault (some prevHash) genesis) = digest fields prevHash
    rw [prev]
  depth := by
    change ∃ n, Depth digest genesis (orDefault (some prevHash) genesis) n
    rw [orDefault_of_ne _ _ nonempty]
    exact depth

/-- The row of an insert is fresh, and its transaction points at the hash it was granted. -/
theorem sound_insert (s s' : Sessions M) (sound : Sound digest org s) (tx : Nat) (prevHash : Str)
    (row : AuditLog M) (positive : 0 < row.id) (good : Good digest org row)
    (granted : (s.phase tx).promise = some prevHash) (points : row.prevHash = some prevHash)
    (next : s.lastId < row.id) (table : s'.table = s.table) (lastId : s'.lastId = row.id)
    (phases : s'.phase = Function.update s.phase tx (.inserted row positive)) : Sound digest org s' := by
  have rows (t : Nat) (r : AuditLog M) (present : (s'.phase t).row? = some r) :
      (t = tx ∧ r = row) ∨ (t ≠ tx ∧ (s.phase t).row? = some r) := by
    rcases phase_updated phases t with ⟨self, now⟩ | ⟨other, same⟩
    · rw [now] at present
      exact Or.inl ⟨self, (Option.some.inj present).symm⟩
    · exact Or.inr ⟨other, same ▸ present⟩
  exact
    { whole := by
        rw [table]
        exact sound.whole
      good := by
        rw [table]
        exact sound.good
      within := by
        rw [table, lastId]
        intro r present
        have bound := sound.within r present
        omega
      own := by
        intro t r present
        rw [lastId]
        rcases rows t r present with ⟨_, rfl⟩ | ⟨_, old⟩
        · exact ⟨good, le_rfl⟩
        · obtain ⟨goodOld, bound⟩ := sound.own t r old
          exact ⟨goodOld, by omega⟩
      distinct := by
        intro t t' r r' different first second
        rcases rows t r first with ⟨rfl, rfl⟩ | ⟨_, old⟩
        · rcases rows t' r' second with ⟨rfl, _⟩ | ⟨_, old'⟩
          · exact absurd rfl different
          · have bound := (sound.own t' r' old').2
            omega
        · rcases rows t' r' second with ⟨rfl, rfl⟩ | ⟨_, old'⟩
          · have bound := (sound.own t r old).2
            omega
          · exact sound.distinct t t' r r' different old old'
      fresh := by
        intro t r pos inserted
        rw [table]
        rcases phase_updated phases t with ⟨_, now⟩ | ⟨_, same⟩
        · rw [now, Phase.inserted.injEq] at inserted
          intro x present
          have bound := sound.within x present
          rw [← inserted]
          omega
        · exact sound.fresh t r pos (same ▸ inserted)
      stored := by
        intro t r committed
        rw [table]
        rcases phase_updated phases t with ⟨_, now⟩ | ⟨_, same⟩
        · exact absurd (now.symm.trans committed) (by simp)
        · exact sound.stored t r (same ▸ committed)
      fields := by
        intro t f present
        rcases phase_updated phases t with ⟨_, now⟩ | ⟨_, same⟩
        · rw [now] at present
          exact absurd present (Option.some_ne_none f).symm
        · exact sound.fields t f (same ▸ present)
      promise := by
        intro t p present
        rcases phase_updated phases t with ⟨_, now⟩ | ⟨_, same⟩
        · rw [now] at present
          exact sound.promise tx p (granted.trans (points.symm.trans present))
        · exact sound.promise t p (same ▸ present) }

/-- A commit stores the row that its transaction has inserted. -/
theorem sound_commit (s s' : Sessions M) (sound : Sound digest org s) (tx : Nat) (row : AuditLog M)
    (positive : 0 < row.id) (inserted : s.phase tx = .inserted row positive)
    (table : s'.table = addRow s.table row positive) (lastId : s'.lastId = s.lastId)
    (phases : s'.phase = Function.update s.phase tx (.committed row)) : Sound digest org s' := by
  obtain ⟨good, bound⟩ := sound.own tx row (by rw [inserted]; rfl)
  have members (r : AuditLog M) := mem_addRow s.table row r positive (sound.fresh tx row positive inserted)
  have rows (t : Nat) : (s'.phase t).row? = (s.phase t).row? := by
    rcases phase_updated phases t with ⟨rfl, now⟩ | ⟨_, same⟩
    · rw [now, inserted]
      rfl
    · rw [same]
  have promises (t : Nat) : (s'.phase t).promise = (s.phase t).promise := by
    rcases phase_updated phases t with ⟨rfl, now⟩ | ⟨_, same⟩
    · rw [now, inserted]
      rfl
    · rw [same]
  exact
    { whole := by
        intro r present
        rw [table, members] at present
        rcases present with rfl | old
        · exact good.whole
        · exact sound.whole r old
      good := by
        intro r present
        rw [table, ofOrg, List.mem_filter, members] at present
        rcases present with ⟨rfl | old, own⟩
        · exact good
        · exact sound.good r (List.mem_filter.mpr ⟨old, own⟩)
      within := by
        intro r present
        rw [lastId]
        rw [table, members] at present
        rcases present with rfl | old
        · exact bound
        · exact sound.within r old
      own := by
        intro t r present
        rw [lastId]
        exact sound.own t r (rows t ▸ present)
      distinct := by
        intro t t' r r' different first second
        exact sound.distinct t t' r r' different (rows t ▸ first) (rows t' ▸ second)
      fresh := by
        intro t r pos flying x present
        rcases phase_updated phases t with ⟨_, now⟩ | ⟨other, same⟩
        · exact absurd (now.symm.trans flying) (by simp)
        · rw [table, members] at present
          rcases present with rfl | old
          · exact sound.distinct tx t x r (Ne.symm other) (by rw [inserted]; rfl)
              (by rw [← same, flying]; rfl)
          · exact sound.fresh t r pos (same ▸ flying) x old
      stored := by
        intro t r committed
        rw [table, members]
        rcases phase_updated phases t with ⟨_, now⟩ | ⟨_, same⟩
        · rw [now, Phase.committed.injEq] at committed
          exact Or.inl committed.symm
        · exact Or.inr (sound.stored t r (same ▸ committed))
      fields := by
        intro t f present
        rcases phase_updated phases t with ⟨_, now⟩ | ⟨_, same⟩
        · rw [now] at present
          exact absurd present (Option.some_ne_none f).symm
        · exact sound.fields t f (same ▸ present)
      promise := by
        intro t p present
        exact sound.promise t p (promises t ▸ present) }

theorem sound_step (ideal : IdealDigest digest) (s : Sessions M) (e : SessionEvent M)
    (sound : Sound digest org s) : Sound digest org (step digest org s e) := by
  generalize step digest org s e = s', (step_outcome s e : Outcome digest org s e _) = outcome
  cases outcome with
  | same unchanged => exact unchanged ▸ sound
  | selected tx fields phase event idle flight noRow own promise table lastId phases =>
      apply sound_update s s' sound tx phase table lastId phases noRow own
      intro p present
      rw [promise, Option.some.injEq] at present
      exact present ▸ head_depth s sound.good
  | resumed tx picked fields event waiting table lastId phases =>
      apply sound_update s s' sound tx _ table lastId phases rfl
      · intro f same
        exact sound.fields tx f (by rw [waiting]; exact same)
      · intro p same
        exact sound.promise tx p (by rw [waiting]; exact same)
  | inserted tx gap prevHash fields row positive event granted rowEq table lastId phases =>
      have own : fields.orgId = org := sound.fields tx fields (by rw [granted]; rfl)
      obtain ⟨nonempty, depth⟩ := sound.promise tx prevHash (by rw [granted]; rfl)
      have good : Good digest org row := by
        rw [rowEq]
        exact good_sealRow ideal fields prevHash _ own nonempty depth
      have id : row.id = s.lastId + 1 + gap := by rw [rowEq]
      have points : row.prevHash = some prevHash := by
        rw [rowEq]
        rfl
      exact sound_insert s s' sound tx prevHash row positive good (by rw [granted]; rfl) points (by omega)
        table lastId phases
  | committed tx row positive event inserted table lastId phases =>
      exact sound_commit s s' sound tx row positive inserted table lastId phases

end Sessions
end Kortex.Audit
