import Kortex.Library.Run
import Kortex.Proof.Audit
import Mathlib.Logic.Encodable.Basic
import Mathlib.Logic.Equiv.List

/-
This file proves which changes to a log `AuditRepository.verify` detects.
-/

namespace Kortex.Audit

open HashChain

variable {M : Type} {digest : AuditFields M → Str → Str}

/-- An ideal digest is injective in the entry and the previous hash. -/
structure IdealDigest (digest : AuditFields M → Str → Str) : Prop where
  ideal : Ideal digest genesis
  nonempty : ∀ e p, digest e p ≠ []

/-- A table that `append` built is a chain from the genesis mark for each org. -/
structure WellChained (digest : AuditFields M → Str → Str) (table : AuditTable M) : Prop where
  whole : ∀ row ∈ table.rows, Whole row
  chained : ∀ org, (chain digest).Chained (ofOrg table org)
  rooted : Rooted table

theorem wellChained_empty : WellChained digest empty :=
  ⟨by simp [empty], fun _ => trivial, fun org row first => by simp [ofOrg, empty] at first⟩

theorem wellChained_appendStep [EmptyCollection M] (nonempty : ∀ e p, digest e p ≠ [])
    (table : AuditTable M) (input : AppendInput M) (before : WellChained digest table) :
    WellChained digest (appendStep digest some table input) := by
  unfold appendStep append
  split
  · exact before
  · rename_i org _
    refine ⟨whole_sealRow table _ _ _ org nonempty before.whole, fun other => ?_,
      rooted_sealRow table _ (entryFields input org) _ before.rooted⟩
    exact (chained_sealRow table (entryFields input org) (entryFields input org) _ other
      before.whole).mpr ⟨before.chained other, fun _ => rfl⟩

/-- Every table that `append` builds is well chained. -/
theorem wellChained_run [EmptyCollection M] (nonempty : ∀ e p, digest e p ≠ [])
    (inputs : List (AppendInput M)) :
    WellChained digest (Run.final (appendStep digest some) empty inputs) :=
  (Run.always_of_step (wellChained_appendStep nonempty) inputs wellChained_empty).final

/-- The rows of an org are changed behind the back of `append`. -/
inductive Tampering (M : Type) where
  | edit (change : AuditLog M → AuditFields M)
  | clear (picked : AuditLog M → Bool)
  | delete (picked : AuditLog M → Bool)

/-- The row keeps its hashes and takes other columns. -/
def rewritten (row : AuditLog M) (fields : AuditFields M) : AuditLog M :=
  { row with toAuditFields := fields }

namespace Tampering

/-- An edit leaves both hashes, a cleared row loses its `entry_hash`, a deleted row is gone. -/
def apply : Tampering M → AuditLog M → Option (AuditLog M)
  | edit change, row => some (rewritten row (change row))
  | clear picked, row => some (if picked row then { row with entryHash := none } else row)
  | delete picked, row => if picked row then none else some row

theorem id_apply (t : Tampering M) (row row' : AuditLog M) (applied : t.apply row = some row') :
    row'.id = row.id := by
  cases t with
  | edit change =>
      rw [← Option.some.inj applied]
      rfl
  | clear picked =>
      rw [← Option.some.inj applied]
      split <;> rfl
  | delete picked =>
      simp only [apply] at applied
      split at applied
      · simp at applied
      · rw [Option.some.inj applied]

/-- The change is one that the verifier is meant to report. -/
def Tampers : Tampering M → List (AuditLog M) → Prop
  | edit change, log => ∃ row ∈ log, change row ≠ row.toAuditFields
  | clear picked, log => ∃ row ∈ log, picked row = true
  | delete picked, log => ¬ log.filter (fun row => !picked row) <:+ log

/-- The verifier still checks the row against its digest. -/
def checked (org : Nat) : Tampering M → AuditLog M → Bool
  | edit change, row => (change row).orgId = org
  | clear picked, row => !picked row
  | delete picked, row => !picked row

def survivors (org : Nat) (t : Tampering M) (log : List (AuditLog M)) : List (AuditLog M) :=
  log.filter (t.checked org)

/-- An edit gives a row other content, and no other change does. -/
def content : Tampering M → AuditLog M → AuditFields M
  | edit change, row => change row
  | _, row => row.toAuditFields

/-- A row that the verifier still checks has other content than its digest covers. -/
def Altered (org : Nat) (t : Tampering M) (log : List (AuditLog M)) : Prop :=
  ∃ row ∈ t.survivors org log, t.content row ≠ row.toAuditFields

/-- The change leaves a trace: an altered row, or a gap between the rows that are still checked. -/
def Visible (t : Tampering M) (org : Nat) (log : List (AuditLog M)) : Prop :=
  t.Altered org log ∨ ¬ t.survivors org log <:+: log

/-- The change applies to the rows of one org. -/
def tamper (t : Tampering M) (table : AuditTable M) (org : Nat) : AuditTable M where
  rows := table.rows.filterMap fun row => if row.orgId = org then t.apply row else some row
  sorted := by
    have same : ∀ row row', (if row.orgId = org then t.apply row else some row) = some row' →
        row'.id = row.id := by
      intro row row' applied
      split at applied
      · exact t.id_apply row row' applied
      · rw [Option.some.inj applied]
    refine List.Pairwise.filterMap _ ?_ table.sorted
    intro a b less a' first b' second
    rw [same a a' first, same b b' second]
    exact less
  positive := by
    intro row' present
    obtain ⟨row, member, applied⟩ := List.mem_filterMap.mp present
    have same : row'.id = row.id := by
      split at applied
      · exact t.id_apply row row' applied
      · rw [Option.some.inj applied]
    exact same ▸ table.positive row member

end Tampering

open Tampering

theorem ofOrg_tamper (t : Tampering M) (table : AuditTable M) (org : Nat) :
    ofOrg (t.tamper table org) org =
      ((ofOrg table org).filterMap t.apply).filter fun row => row.orgId = org := by
  simp only [ofOrg, tamper]
  induction table.rows with
  | nil => rfl
  | cons row rest ih =>
      by_cases same : row.orgId = org
      · rw [List.filterMap_cons, if_pos same, List.filter_cons_of_pos (by simpa using same),
          List.filterMap_cons]
        cases t.apply row with
        | none => exact ih
        | some row' => simp only [List.filter_cons, ih]
      · rw [List.filterMap_cons, if_neg same, List.filter_cons_of_neg (by simpa using same)]
        simp only [List.filter_cons]
        rw [if_neg (by simpa using same)]
        exact ih

theorem links_tamper (t : Tampering M) (org : Nat) (log : List (AuditLog M))
    (own : ∀ row ∈ log, row.orgId = org) (hashed : ∀ row ∈ log, row.entryHash.isSome = true) :
    links ((log.filterMap t.apply).filter fun row => row.orgId = org) =
      (t.survivors org log).map fun row => rewritten row (t.content row) := by
  have single : ∀ row ∈ log, ((t.apply row).filter fun row => row.orgId = org).filter
      (fun row => row.entryHash.isSome) =
        (Option.guard (t.checked org) row).map fun row => rewritten row (t.content row) := by
    intro row present
    have first := own row present
    have hash := hashed row present
    cases t with
    | edit change =>
        by_cases moved : (change row).orgId = org <;>
          simp [apply, checked, content, rewritten, Option.guard, Option.filter, moved, hash]
    | clear picked =>
        cases chosen : picked row <;>
          simp [apply, checked, content, rewritten, Option.guard, Option.filter, chosen, first, hash]
    | delete picked =>
        cases chosen : picked row <;>
          simp [apply, checked, content, rewritten, Option.guard, Option.filter, chosen, first, hash]
  rw [links, List.filter_filterMap, List.filter_filterMap, survivors, ← List.filterMap_eq_filter,
    List.map_filterMap]
  exact List.filterMap_congr single

theorem survivors_sublist (t : Tampering M) (org : Nat) (log : List (AuditLog M)) :
    (t.survivors org log).Sublist log := by
  exact List.filter_sublist

/-- After a change the rows with a hash are chained exactly when the change left no trace. -/
theorem chained_tamper_iff (ideal : IdealDigest digest) (table : AuditTable M) (org : Nat)
    (well : WellChained digest table) (t : Tampering M) :
    (chain digest).Chained (links (ofOrg (t.tamper table org) org)) ↔
      ¬ t.Visible org (ofOrg table org) := by
  have whole : ∀ row ∈ ofOrg table org, Whole row := fun row present =>
    well.whole row (List.mem_of_mem_filter present)
  have start : (chain digest).StartsAt genesis 0 (ofOrg table org) := by
    intro row first
    have atGenesis : (chain digest).prev row = genesis := by
      simp [chain, well.rooted org row first, orDefault_of_ne genesis _ (by decide)]
    rw [atGenesis]
    exact .genesis
  have hashed : ∀ row ∈ ofOrg table org, row.entryHash.isSome = true := by
    intro row present
    obtain ⟨_, h, hash, _⟩ := whole row present
    rw [hash]
    rfl
  have own := ofOrg_eq table org
  rw [ofOrg_tamper, links_tamper t org _ own hashed, chained_map]
  change ({ chain digest with entry := t.content } : HashChain _ _ _).Chained _ ↔ _
  rw [chained_edited_iff ideal.ideal (well.chained org) start (survivors_sublist t org _) t.content]
  simp only [Visible, Altered, not_or, not_exists, not_and, not_not]
  exact Iff.rfl

theorem pointed_tamper (t : Tampering M) (table : AuditTable M) (org : Nat)
    (well : WellChained digest table) : ∀ row ∈ ofOrg (t.tamper table org) org, Pointed row := by
  rw [ofOrg_tamper]
  intro row' present
  obtain ⟨row, member, applied⟩ := List.mem_filterMap.mp (List.mem_of_mem_filter present)
  obtain ⟨pointed, _⟩ := well.whole row (List.mem_of_mem_filter member)
  cases t with
  | edit change => exact Option.some.inj applied ▸ pointed
  | clear picked =>
      rw [← Option.some.inj applied]
      split <;> exact pointed
  | delete picked =>
      simp only [apply] at applied
      split at applied
      · simp at applied
      · exact Option.some.inj applied ▸ pointed

/-- `verify` calls a changed log intact exactly when the change left no trace. -/
theorem verify_tamper (ideal : IdealDigest digest) (table : AuditTable M) (org : Nat)
    (well : WellChained digest table) (t : Tampering M) (pageSize : Nat) (positive : 0 < pageSize) :
    ∃ status, verify digest pageSize (t.tamper table org) org = some status ∧
      (status.intact = true ↔ ¬ t.Visible org (ofOrg table org)) ∧
      (status.intact = true → status.entries = (ofOrg (t.tamper table org) org).length) := by
  obtain ⟨status, verified, exactly, count⟩ :=
    @verify_spec _ digest pageSize positive (t.tamper table org) org
      (pointed_tamper t table org well)
  exact ⟨status, verified, exactly.trans (chained_tamper_iff ideal table org well t), count⟩

/-- A change that does not tamper leaves a suffix of the log as it was. -/
theorem not_visible_of_not_tampers (t : Tampering M) (table : AuditTable M) (org : Nat)
    (harmless : ¬ t.Tampers (ofOrg table org)) : ¬ t.Visible org (ofOrg table org) := by
  have own := ofOrg_eq table org
  cases t with
  | edit change =>
      simp only [Tampers, not_exists, not_and, not_not] at harmless
      have all : (edit change).survivors org (ofOrg table org) = ofOrg table org := by
        rw [survivors, List.filter_eq_self]
        intro row present
        simp [checked, harmless row present, own row present]
      simp only [Visible, Altered, all, not_or, not_exists, not_and, not_not]
      exact ⟨harmless, List.infix_rfl⟩
  | clear picked =>
      simp only [Tampers, not_exists, not_and, Bool.not_eq_true] at harmless
      have all : (clear picked).survivors org (ofOrg table org) = ofOrg table org := by
        rw [survivors, List.filter_eq_self]
        intro row present
        simp [checked, harmless row present]
      simp [Visible, Altered, all, content]
  | delete picked =>
      simp only [Tampers, not_not] at harmless
      have run : (delete picked).survivors org (ofOrg table org) <:+: ofOrg table org :=
        harmless.isInfix
      simp [Visible, Altered, content, run]

/-- The verifier reports a change exactly as its documentation says. -/
def Reported (t : Tampering M) (table : AuditTable M) (org : Nat) (status : ChainStatus) : Prop :=
  (t.Tampers (ofOrg table org) → status.intact = false) ∧
    (¬ t.Tampers (ofOrg table org) →
      status.intact = true ∧ status.entries = (ofOrg (t.tamper table org) org).length)

/-- The verifier reports a change as documented exactly when a tampering change leaves a trace. -/
theorem verify_reports_tampering [EmptyCollection M] (ideal : IdealDigest digest)
    (inputs : List (AppendInput M)) (org : Nat) (t : Tampering M) (pageSize : Nat)
    (positive : 0 < pageSize) :
    let table := Run.final (appendStep digest some) empty inputs
    ∃ status, verify digest pageSize (t.tamper table org) org = some status ∧
      (Reported t table org status ↔
        (t.Tampers (ofOrg table org) → t.Visible org (ofOrg table org))) := by
  intro table
  have well : WellChained digest table := wellChained_run ideal.nonempty inputs
  obtain ⟨status, verified, exactly, count⟩ := verify_tamper ideal table org well t pageSize positive
  refine ⟨status, verified, ?_⟩
  constructor
  · rintro ⟨reports, _⟩ tampers
    by_contra hidden
    rw [exactly.mpr hidden] at reports
    exact absurd (reports tampers) (by simp)
  · intro visible
    refine ⟨fun tampers => ?_, fun harmless => ?_⟩
    · rw [← Bool.not_eq_true, exactly, not_not]
      exact visible tampers
    · have intact := exactly.mpr (not_visible_of_not_tampers t table org harmless)
      exact ⟨intact, count intact⟩

instance emptyUnit : EmptyCollection Unit := ⟨()⟩

/-- The columns of an entry without metadata, as a value that can be numbered. -/
def columns (e : AuditFields Unit) : Nat × Nat × Option Nat × List Nat × Option (List Nat) ×
    Option Nat × Option (List Nat) × Option (List Nat) × Int :=
  (e.orgId, e.actorKind.value.length, e.actorId, e.action.map Char.toNat,
    e.targetType.map (List.map Char.toNat), e.targetId, e.ip.map (List.map Char.toNat),
    e.userAgent.map (List.map Char.toNat), e.createdAt)

/-- A digest without collisions: the number of the entry in unary. -/
def unaryDigest (e : AuditFields Unit) (prevHash : Str) : Str :=
  List.replicate (Encodable.encode (columns e, prevHash.map Char.toNat) + 1) '1'

theorem charToNat_injective : Function.Injective (List.map Char.toNat) :=
  List.map_injective_iff.mpr fun _ _ same => Char.ext (UInt32.toNat_inj.mp same)

theorem idealDigest_unaryDigest : IdealDigest unaryDigest where
  ideal :=
    { injective := by
        intro e p e' p' same
        have lengths := congrArg List.length same
        simp only [unaryDigest, List.length_replicate, Nat.add_right_cancel_iff] at lengths
        have codes := Encodable.encode_injective lengths
        obtain ⟨org, kind, actor, action, targetType, targetId, data, ip, agent, time⟩ := e
        obtain ⟨org', kind', actor', action', targetType', targetId', data', ip', agent', time'⟩ := e'
        simp only [columns, Prod.mk.injEq] at codes
        obtain ⟨⟨rfl, kinds, rfl, actions, types, rfl, ips, agents, rfl⟩, prevs⟩ := codes
        have sameKind : kind = kind' := by
          cases kind <;> cases kind' <;> first | rfl | (revert kinds; decide)
        rw [sameKind, charToNat_injective actions, Option.map_injective charToNat_injective types,
          Option.map_injective charToNat_injective ips,
          Option.map_injective charToNat_injective agents, charToNat_injective prevs]
        exact ⟨rfl, rfl⟩
      fresh := by
        intro e p same
        have head := congrArg List.head? same
        simp [unaryDigest, genesis, List.replicate_succ] at head }
  nonempty := by
    intro e p
    simp [unaryDigest, List.replicate_succ]

def signIn : AppendInput Unit where
  actorKind := .user
  actorId := some 1
  action := "auth.login"
  orgId := some 1
  now := 0

def newestDeleted : Tampering Unit := .delete fun row => row.id = 2

theorem verify_reports_tampering_unary :
    let table := Run.final (appendStep unaryDigest some) empty [signIn, signIn]
    ∃ status, verify unaryDigest 500 (newestDeleted.tamper table 1) 1 = some status ∧
      (Reported newestDeleted table 1 status ↔
        (newestDeleted.Tampers (ofOrg table 1) → newestDeleted.Visible 1 (ofOrg table 1))) :=
  verify_reports_tampering idealDigest_unaryDigest [signIn, signIn] 1 newestDeleted 500 (by decide)

/-- The deletion of the newest entry is not reported. -/
theorem verify_misses_deleted_tail :
    ¬ ∀ (digest : AuditFields Unit → Str → Str), IdealDigest digest →
      ∀ (inputs : List (AppendInput Unit)) (org : Nat) (t : Tampering Unit),
        ∃ status, verify digest 500
            (t.tamper (Run.final (appendStep digest some) empty inputs) org) org = some status ∧
          Reported t (Run.final (appendStep digest some) empty inputs) org status := by
  intro reported
  obtain ⟨status, verified, reports, _⟩ := reported unaryDigest idealDigest_unaryDigest
    [signIn, signIn] 1 newestDeleted
  set table := Run.final (appendStep unaryDigest some) empty [signIn, signIn] with tableEq
  obtain ⟨first, second, log, firstId, secondId⟩ : ∃ first second, ofOrg table 1 = [first, second] ∧
      first.id = 1 ∧ second.id = 2 := ⟨_, _, rfl, rfl, rfl⟩
  obtain ⟨status', verified', exactly, _⟩ := verify_tamper idealDigest_unaryDigest table 1
    (wellChained_run idealDigest_unaryDigest.nonempty [signIn, signIn]) newestDeleted 500 (by decide)
  rw [verified, Option.some.injEq] at verified'
  subst verified'
  have kept : newestDeleted.survivors 1 [first, second] = [first] := by
    simp [newestDeleted, survivors, checked, firstId, secondId]
  have run : [first] <:+: [first, second] := ⟨[], [second], rfl⟩
  have intact : status.intact = true := by
    rw [exactly, log, Visible, Altered, kept]
    simp [newestDeleted, content, run]
  have tampers : newestDeleted.Tampers (ofOrg table 1) := by
    rw [log]
    change ¬ newestDeleted.survivors 1 [first, second] <:+ [first, second]
    rw [kept]
    intro suffix
    have same := List.IsSuffix.getLast suffix (by simp)
    simp only [List.getLast_singleton, List.getLast_cons_cons] at same
    rw [← same, firstId] at secondId
    omega
  rw [intact] at reports
  exact absurd (reports tampers) (by simp)

end Kortex.Audit
