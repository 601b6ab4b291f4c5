import Kortex.Model.AuditSession
import Kortex.Proof.AuditInterleaving

/-
This file proves when an export has every entry up to the last one that it has sent.
-/

namespace Kortex.Audit

variable {M : Type} {digest : AuditFields M → Str → Str} {org : Nat}

/-- The export asks for the entries of this time. -/
def InWindow (since until' : Option Instant) (row : AuditLog M) : Prop :=
  (∀ t ∈ since, t ≤ row.createdAt) ∧ ∀ t ∈ until', row.createdAt < t

section

variable (table : AuditTable M) (org : Nat) (since until' : Option Instant) (afterId limit : Nat)

/-- The rows that a page and its successors read. -/
def unread : List (AuditLog M) :=
  (ofOrg table org).filter fun row => decide (afterId < row.id) &&
    since.all (fun t => decide (t ≤ row.createdAt)) &&
    until'.all (fun t => decide (row.createdAt < t))

theorem mem_unread (row : AuditLog M) : row ∈ unread table org since until' afterId ↔
    row ∈ ofOrg table org ∧ afterId < row.id ∧ InWindow since until' row := by
  simp only [unread, List.mem_filter, Bool.and_eq_true, decide_eq_true_eq, Option.all_eq_true, InWindow,
    and_assoc]
  rfl

theorem sorted_unread : (unread table org since until' afterId).Pairwise fun a b => a.id < b.id :=
  (table.sorted.filter _).filter _

theorem sorted_read :
    (read table org since until' afterId limit).Pairwise fun a b => a.id < b.id :=
  (sorted_unread table org since until' afterId).sublist (List.take_sublist limit _)

theorem mem_of_read (row : AuditLog M) (inside : row ∈ read table org since until' afterId limit) :
    row ∈ ofOrg table org ∧ afterId < row.id ∧ InWindow since until' row :=
  (mem_unread table org since until' afterId row).mp (List.mem_of_mem_take inside)

/-- A page has all rows up to its last. -/
theorem mem_read_of_le (last row : AuditLog M)
    (final : (read table org since until' afterId limit).getLast? = some last)
    (stored : row ∈ ofOrg table org) (beyond : afterId < row.id) (asked : InWindow since until' row)
    (upTo : row.id ≤ last.id) : row ∈ read table org since until' afterId limit := by
  have waiting := (mem_unread table org since until' afterId row).mpr ⟨stored, beyond, asked⟩
  have sorted := sorted_unread table org since until' afterId
  rw [← List.take_append_drop limit (unread table org since until' afterId)] at waiting sorted
  rcases List.mem_append.mp waiting with read | later
  · exact read
  · have above := (List.pairwise_append.mp sorted).2.2 last (List.mem_of_getLast? final) row later
    omega

theorem le_last_of_mem (rows : List (AuditLog M)) (sorted : rows.Pairwise fun a b => a.id < b.id)
    (last : AuditLog M) (final : rows.getLast? = some last) : ∀ row ∈ rows, row.id ≤ last.id := by
  obtain ⟨front, split⟩ := List.getLast?_eq_some_iff.mp final
  intro row inside
  rw [split] at inside sorted
  rcases List.mem_append.mp inside with before | same
  · exact ((List.pairwise_append.mp sorted).2.2 row before last (List.mem_singleton_self last)).le
  · rw [List.mem_singleton.mp same]

end

namespace Sessions

/-- These facts about the ids hold in every interleaving. -/
structure Numbered (org : Nat) (s : Sessions M) : Prop where
  within : ∀ row ∈ s.table.rows, row.id ≤ s.lastId
  inserted : ∀ t row positive, s.phase t = .inserted row positive → row.orgId = org ∧ row.id ≤ s.lastId
  fields : ∀ t f, (s.phase t).fields? = some f → f.orgId = org
  fresh : ∀ t row positive, s.phase t = .inserted row positive → ∀ r ∈ s.table.rows, r.id ≠ row.id
  distinct : ∀ t t' row row' positive positive', t ≠ t' → s.phase t = .inserted row positive →
    s.phase t' = .inserted row' positive' → row.id ≠ row'.id

theorem numbered_start (table : AuditTable M) : Numbered org (start table) where
  within := id_le_lastId table
  inserted := fun t row positive inserted => by simp [start] at inserted
  fields := fun t f present => by simp [start, Phase.fields?] at present
  fresh := fun t row positive inserted => by simp [start] at inserted
  distinct := fun t t' row row' positive positive' _ inserted => by simp [start] at inserted

/-- A step that inserts and stores nothing keeps the ids. -/
theorem numbered_update (s s' : Sessions M) (numbered : Numbered org s) (tx : Nat) (phase : Phase M)
    (table : s'.table = s.table) (lastId : s'.lastId = s.lastId)
    (phases : s'.phase = Function.update s.phase tx phase) (noRow : phase.row? = none)
    (own : ∀ f, phase.fields? = some f → f.orgId = org) : Numbered org s' := by
  have before (t : Nat) (row : AuditLog M) (positive : 0 < row.id)
      (inserted : s'.phase t = .inserted row positive) : s.phase t = .inserted row positive := by
    rcases phase_updated phases t with ⟨_, now⟩ | ⟨_, same⟩
    · rw [now] at inserted
      rw [inserted] at noRow
      cases noRow
    · rwa [same] at inserted
  constructor
  · rw [table, lastId]
    exact numbered.within
  · intro t row positive inserted
    rw [lastId]
    exact numbered.inserted t row positive (before t row positive inserted)
  · intro t f present
    rcases phase_updated phases t with ⟨_, now⟩ | ⟨_, same⟩
    · exact own f (now ▸ present)
    · exact numbered.fields t f (same ▸ present)
  · intro t row positive inserted
    rw [table]
    exact numbered.fresh t row positive (before t row positive inserted)
  · intro t t' row row' positive positive' different first second
    exact numbered.distinct t t' row row' positive positive' different (before t row positive first)
      (before t' row' positive' second)

/-- A row that is inserted has the next id. -/
theorem numbered_inserted (s s' : Sessions M) (numbered : Numbered org s) (tx : Nat) (row : AuditLog M)
    (positive : 0 < row.id) (own : row.orgId = org) (next : s.lastId < row.id) (table : s'.table = s.table)
    (lastId : s'.lastId = row.id) (phases : s'.phase = Function.update s.phase tx (.inserted row positive)) :
    Numbered org s' := by
  have either (t : Nat) (r : AuditLog M) (pos : 0 < r.id) (flying : s'.phase t = .inserted r pos) :
      (t = tx ∧ r = row) ∨ s.phase t = .inserted r pos := by
    rcases phase_updated phases t with ⟨self, now⟩ | ⟨_, same⟩
    · rw [now] at flying
      exact Or.inl ⟨self, (Phase.inserted.inj flying).symm⟩
    · exact Or.inr (same ▸ flying)
  constructor
  · rw [table, lastId]
    intro r stored
    exact (numbered.within r stored).trans next.le
  · intro t r pos flying
    rw [lastId]
    rcases either t r pos flying with ⟨_, rfl⟩ | old
    · exact ⟨own, le_rfl⟩
    · obtain ⟨own', bound⟩ := numbered.inserted t r pos old
      exact ⟨own', bound.trans next.le⟩
  · intro t f present
    rcases phase_updated phases t with ⟨_, now⟩ | ⟨_, same⟩
    · rw [now] at present
      cases present
    · exact numbered.fields t f (same ▸ present)
  · intro t r pos flying x stored
    rw [table] at stored
    rcases either t r pos flying with ⟨_, rfl⟩ | old
    · have bound := numbered.within x stored
      omega
    · exact numbered.fresh t r pos old x stored
  · intro t t' r r' pos pos' different first second
    rcases either t r pos first with ⟨self, rfl⟩ | old <;>
      rcases either t' r' pos' second with ⟨self', rfl⟩ | old'
    · exact absurd (self.trans self'.symm) different
    · have bound := (numbered.inserted t' r' pos' old').2
      omega
    · have bound := (numbered.inserted t r pos old).2
      omega
    · exact numbered.distinct t t' r r' pos pos' different old old'

/-- A row that is committed keeps its id. -/
theorem numbered_committed (s s' : Sessions M) (numbered : Numbered org s) (tx : Nat) (row : AuditLog M)
    (positive : 0 < row.id) (inserted : s.phase tx = .inserted row positive)
    (table : s'.table = addRow s.table row positive) (lastId : s'.lastId = s.lastId)
    (phases : s'.phase = Function.update s.phase tx (.committed row)) : Numbered org s' := by
  have members (r : AuditLog M) :=
    mem_addRow s.table row r positive (numbered.fresh tx row positive inserted)
  have before (t : Nat) (r : AuditLog M) (pos : 0 < r.id) (flying : s'.phase t = .inserted r pos) :
      t ≠ tx ∧ s.phase t = .inserted r pos := by
    rcases phase_updated phases t with ⟨_, now⟩ | ⟨other, same⟩
    · rw [now] at flying
      cases flying
    · exact ⟨other, same ▸ flying⟩
  constructor
  · intro r stored
    rw [lastId]
    rw [table, members] at stored
    rcases stored with rfl | old
    · exact (numbered.inserted tx r positive inserted).2
    · exact numbered.within r old
  · intro t r pos flying
    rw [lastId]
    exact numbered.inserted t r pos (before t r pos flying).2
  · intro t f present
    rcases phase_updated phases t with ⟨_, now⟩ | ⟨_, same⟩
    · rw [now] at present
      cases present
    · exact numbered.fields t f (same ▸ present)
  · intro t r pos flying x stored
    obtain ⟨other, old⟩ := before t r pos flying
    rw [table, members] at stored
    rcases stored with rfl | stored
    · exact numbered.distinct tx t x r positive pos other.symm inserted old
    · exact numbered.fresh t r pos old x stored
  · intro t t' r r' pos pos' different first second
    exact numbered.distinct t t' r r' pos pos' different (before t r pos first).2
      (before t' r' pos' second).2

theorem numbered_step (s : Sessions M) (e : SessionEvent M) (numbered : Numbered org s) :
    Numbered org (step digest org s e) := by
  generalize step digest org s e = s', (step_outcome s e : Outcome digest org s e _) = outcome
  cases outcome with
  | same unchanged => exact unchanged ▸ numbered
  | selected tx fields phase event idle flight noRow own promise table lastId phases =>
      exact numbered_update s s' numbered tx phase table lastId phases noRow own
  | resumed tx picked fields event waiting table lastId phases =>
      apply numbered_update s s' numbered tx _ table lastId phases rfl
      intro f same
      exact numbered.fields tx f (by rw [waiting]; exact same)
  | inserted tx gap prevHash fields row positive event granted rowEq table lastId phases =>
      apply numbered_inserted s s' numbered tx row positive ?_ ?_ table lastId phases
      · rw [rowEq]
        exact numbered.fields tx fields (by rw [granted]; rfl)
      · rw [rowEq]
        change s.lastId < s.lastId + 1 + gap
        omega
  | committed tx row positive event inserted table lastId phases =>
      exact numbered_committed s s' numbered tx row positive inserted table lastId phases

/-- This is what a step does to the rows and the ids. -/
structure Advances (s s' : Sessions M) : Prop where
  lastId : s.lastId ≤ s'.lastId
  stored : ∀ row ∈ s.table.rows, row ∈ s'.table.rows
  committed : ∀ row ∈ s'.table.rows, row ∈ s.table.rows ∨
    ∃ t positive, s.phase t = .inserted row positive
  inserted : ∀ t row positive, s'.phase t = .inserted row positive →
    s.phase t = .inserted row positive ∨ s.lastId < row.id
  stays : ∀ t row positive, s.phase t = .inserted row positive →
    s'.phase t = .inserted row positive ∨ row ∈ s'.table.rows

theorem advances_update (s s' : Sessions M) (tx : Nat) (phase : Phase M) (table : s'.table = s.table)
    (lastId : s'.lastId = s.lastId) (phases : s'.phase = Function.update s.phase tx phase)
    (noRow : phase.row? = none) (free : ∀ row positive, s.phase tx ≠ .inserted row positive) :
    Advances s s' where
  lastId := lastId.ge
  stored := by
    rw [table]
    exact fun row stored => stored
  committed := by
    rw [table]
    exact fun row stored => Or.inl stored
  inserted := by
    intro t row positive inserted
    rcases phase_updated phases t with ⟨_, now⟩ | ⟨_, same⟩
    · rw [now] at inserted
      rw [inserted] at noRow
      cases noRow
    · exact Or.inl (same ▸ inserted)
  stays := by
    intro t row positive inserted
    rcases phase_updated phases t with ⟨self, _⟩ | ⟨_, same⟩
    · exact absurd (self ▸ inserted) (free row positive)
    · exact Or.inl (same ▸ inserted)

theorem advances_step (digest : AuditFields M → Str → Str) (s : Sessions M) (e : SessionEvent M)
    (numbered : Numbered org s) : Advances s (step digest org s e) := by
  generalize step digest org s e = s', (step_outcome s e : Outcome digest org s e _) = outcome
  cases outcome with
  | same unchanged =>
      subst unchanged
      exact ⟨le_rfl, fun row stored => stored, fun row stored => Or.inl stored,
        fun t row positive inserted => Or.inl inserted, fun t row positive inserted => Or.inl inserted⟩
  | selected tx fields phase event idle flight noRow own promise table lastId phases =>
      exact advances_update s s' tx phase table lastId phases noRow fun row positive => by
        rw [idle]
        simp
  | resumed tx picked fields event waiting table lastId phases =>
      exact advances_update s s' tx _ table lastId phases rfl fun row positive => by
        rw [waiting]
        simp
  | inserted tx gap prevHash fields row positive event granted rowEq table lastId phases =>
      have next : s.lastId < row.id := by
        rw [rowEq]
        change s.lastId < s.lastId + 1 + gap
        omega
      refine ⟨lastId ▸ next.le, fun r stored => table ▸ stored, fun r stored => Or.inl (table ▸ stored),
        ?_, ?_⟩
      · intro t r pos inserted
        rcases phase_updated phases t with ⟨_, now⟩ | ⟨_, same⟩
        · rw [now] at inserted
          exact Or.inr (Phase.inserted.inj inserted ▸ next)
        · exact Or.inl (same ▸ inserted)
      · intro t r pos inserted
        rcases phase_updated phases t with ⟨self, _⟩ | ⟨_, same⟩
        · rw [self, granted] at inserted
          cases inserted
        · exact Or.inl (same ▸ inserted)
  | committed tx row positive event inserted table lastId phases =>
      have members (r : AuditLog M) :=
        mem_addRow s.table row r positive (numbered.fresh tx row positive inserted)
      refine ⟨lastId.ge, ?_, ?_, ?_, ?_⟩
      · intro r stored
        rw [table, members]
        exact Or.inr stored
      · intro r stored
        rw [table, members] at stored
        rcases stored with rfl | old
        · exact Or.inr ⟨tx, positive, inserted⟩
        · exact Or.inl old
      · intro t r pos flying
        rcases phase_updated phases t with ⟨_, now⟩ | ⟨_, same⟩
        · rw [now] at flying
          cases flying
        · exact Or.inl (same ▸ flying)
      · intro t r pos flying
        rcases phase_updated phases t with ⟨self, _⟩ | ⟨_, same⟩
        · rw [self, inserted] at flying
          rw [table, members]
          exact Or.inr (Or.inl (Phase.inserted.inj flying).symm)
        · exact Or.inl (same ▸ flying)

end Sessions

namespace Export

open Sessions

variable (org) (since until' : Option Instant) (pageSize : Nat)

/-- The entries are sent in the order of their ids, none twice. -/
def Increasing (s : Export M) : Prop := s.exported.Pairwise fun a b => a.id < b.id

/-- The export has sent the committed entries that it asks for, up to every entry that it has sent. -/
def Complete (s : Export M) : Prop :=
  ∀ row ∈ ofOrg s.sessions.table org, InWindow since until' row →
    ∀ sent ∈ s.exported, row.id ≤ sent.id → row ∈ s.exported

/-- When a page is read, each append in flight that the export asks for has an id above the page. -/
def ReadsClear (s : Export M) : ExportEvent M → Prop
  | .page => ∀ t row positive, s.sessions.phase t = .inserted row positive → InWindow since until' row →
      ∀ r ∈ s.nextPage org since until' pageSize, r.id < row.id
  | .append _ => True

/-- These facts hold in every interleaving. -/
structure Sound (s : Export M) : Prop where
  numbered : s.sessions.Numbered org
  reached : s.after ≤ s.sessions.lastId
  last : s.after = 0 ∨ ∃ sent ∈ s.exported, sent.id = s.after
  sent : ∀ row ∈ s.exported, row ∈ ofOrg s.sessions.table org ∧ row.id ≤ s.after
  increasing : s.Increasing

/-- Every row that the export asks for is sent, when its id is not beyond the last one read. -/
def Covered (s : Export M) : Prop :=
  ∀ row ∈ ofOrg s.sessions.table org, InWindow since until' row → row.id ≤ s.after → row ∈ s.exported

variable {org since until' pageSize} {s : Export M}

theorem Sound.complete_iff (sound : Sound org s) :
    Complete org since until' s ↔ Covered org since until' s := by
  constructor
  · intro complete row stored asked upTo
    rcases sound.last with none | ⟨sent, inside, same⟩
    · have positive := s.sessions.table.positive row (List.mem_of_mem_filter stored)
      omega
    · exact complete row stored asked sent inside (same ▸ upTo)
  · intro covered row stored asked sent inside upTo
    exact covered row stored asked (upTo.trans (sound.sent sent inside).2)

theorem mem_nextPage (row : AuditLog M) (inside : row ∈ s.nextPage org since until' pageSize) :
    row ∈ ofOrg s.sessions.table org ∧ s.after < row.id ∧ InWindow since until' row := by
  unfold nextPage at inside
  split at inside
  · exact absurd inside List.not_mem_nil
  · exact mem_of_read _ _ _ _ _ _ row inside

theorem sorted_nextPage :
    (s.nextPage org since until' pageSize).Pairwise fun a b => a.id < b.id := by
  unfold nextPage
  split
  · exact List.Pairwise.nil
  · exact sorted_read _ _ _ _ _ _

theorem mem_nextPage_of_le (last row : AuditLog M)
    (final : (s.nextPage org since until' pageSize).getLast? = some last)
    (stored : row ∈ ofOrg s.sessions.table org) (beyond : s.after < row.id)
    (asked : InWindow since until' row) (upTo : row.id ≤ last.id) :
    row ∈ s.nextPage org since until' pageSize := by
  unfold nextPage at final ⊢
  split at final
  · cases final
  · rename_i open'
    rw [if_neg open']
    exact mem_read_of_le _ _ _ _ _ _ last row final stored beyond asked upTo

/-- This is what a step does to the export. -/
inductive StepOf (digest : AuditFields M → Str → Str) (org : Nat) (since until' : Option Instant)
    (pageSize : Nat) (s : Export M) : ExportEvent M → Export M → Prop
  | append (e : SessionEvent M) :
      StepOf digest org since until' pageSize s (.append e)
        { s with sessions := s.sessions.step digest org e }
  | ends : StepOf digest org since until' pageSize s .page { s with finished := true }
  | page (last : AuditLog M) (final : (s.nextPage org since until' pageSize).getLast? = some last) :
      StepOf digest org since until' pageSize s .page
        { s with exported := s.exported ++ s.nextPage org since until' pageSize, after := last.id }

theorem step_cases (digest : AuditFields M → Str → Str) (org : Nat) (since until' : Option Instant)
    (pageSize : Nat) (s : Export M) (e : ExportEvent M) :
    StepOf digest org since until' pageSize s e (step digest org since until' pageSize s e) := by
  cases e with
  | append e => exact .append e
  | page =>
      simp only [step]
      split
      · exact .ends
      · rename_i last final
        exact .page last final

theorem sound_step (s : Export M) (e : ExportEvent M) (sound : Sound org s) :
    Sound org (step digest org since until' pageSize s e) := by
  have did := step_cases digest org since until' pageSize s e
  generalize step digest org since until' pageSize s e = s' at did ⊢
  cases did with
  | append e =>
      have advances := advances_step digest s.sessions e sound.numbered
      refine ⟨numbered_step s.sessions e sound.numbered, sound.reached.trans advances.lastId, sound.last,
        fun row inside => ?_, sound.increasing⟩
      obtain ⟨stored, upTo⟩ := sound.sent row inside
      obtain ⟨old, own⟩ := List.mem_filter.mp stored
      exact ⟨List.mem_filter.mpr ⟨advances.stored row old, own⟩, upTo⟩
  | ends => exact ⟨sound.numbered, sound.reached, sound.last, sound.sent, sound.increasing⟩
  | page last final =>
      have read := mem_nextPage last (List.mem_of_getLast? final)
      have upTo := le_last_of_mem _ sorted_nextPage last final
      refine ⟨sound.numbered, sound.numbered.within last (List.mem_of_mem_filter read.1),
        Or.inr ⟨last, List.mem_append_right _ (List.mem_of_getLast? final), rfl⟩, ?_, ?_⟩
      · intro row inside
        rcases List.mem_append.mp inside with old | new
        · obtain ⟨stored, bound⟩ := sound.sent row old
          exact ⟨stored, bound.trans read.2.1.le⟩
        · exact ⟨(mem_nextPage row new).1, upTo row new⟩
      · refine List.pairwise_append.mpr ⟨sound.increasing, sorted_nextPage, ?_⟩
        intro a old b new
        exact lt_of_le_of_lt (sound.sent a old).2 (mem_nextPage b new).2.1

/-- The appends in flight that the export asks for are going to be read. -/
def Ahead (since until' : Option Instant) (s : Export M) : Prop :=
  ∀ t row positive, s.sessions.phase t = .inserted row positive → InWindow since until' row →
    s.after < row.id

theorem covered_step (s : Export M) (e : ExportEvent M) (sound : Sound org s)
    (covered : Covered org since until' s) (ahead : Ahead since until' s)
    (clear : ReadsClear org since until' pageSize s e) :
    Covered org since until' (step digest org since until' pageSize s e) ∧
      Ahead since until' (step digest org since until' pageSize s e) := by
  have did := step_cases digest org since until' pageSize s e
  generalize step digest org since until' pageSize s e = s' at did ⊢
  cases did with
  | append e =>
      have advances := advances_step digest s.sessions e sound.numbered
      constructor
      · intro row stored asked upTo
        obtain ⟨present, own⟩ := List.mem_filter.mp stored
        rcases advances.committed row present with old | ⟨t, positive, flying⟩
        · exact covered row (List.mem_filter.mpr ⟨old, own⟩) asked upTo
        · exact absurd upTo (not_le.mpr (ahead t row positive flying asked))
      · intro t row positive flying asked
        rcases advances.inserted t row positive flying with old | new
        · exact ahead t row positive old asked
        · exact lt_of_le_of_lt sound.reached new
  | ends => exact ⟨covered, ahead⟩
  | page last final =>
      constructor
      · intro row stored asked upTo
        rcases Nat.lt_or_ge s.after row.id with beyond | before
        · exact List.mem_append_right _ (mem_nextPage_of_le last row final stored beyond asked upTo)
        · exact List.mem_append_left _ (covered row stored asked before)
      · intro t row positive flying asked
        exact clear t row positive flying asked last (List.mem_of_getLast? final)

/-- An entry that the export asks for has an id that the export has passed. -/
def Missed (org : Nat) (since until' : Option Instant) (s : Export M) : Prop :=
  ∃ row : AuditLog M, row.orgId = org ∧ InWindow since until' row ∧ row.id ≤ s.after ∧ row ∉ s.exported ∧
    (row ∈ s.sessions.table.rows ∨ ∃ t positive, s.sessions.phase t = .inserted row positive)

theorem missed_step (s : Export M) (e : ExportEvent M) (sound : Sound org s)
    (missed : Missed org since until' s) :
    Missed org since until' (step digest org since until' pageSize s e) := by
  have did := step_cases digest org since until' pageSize s e
  generalize step digest org since until' pageSize s e = s' at did ⊢
  obtain ⟨row, own, asked, passed, absent, exists'⟩ := missed
  cases did with
  | append e =>
      have advances := advances_step digest s.sessions e sound.numbered
      refine ⟨row, own, asked, passed, absent, ?_⟩
      rcases exists' with stored | ⟨t, positive, flying⟩
      · exact Or.inl (advances.stored row stored)
      · rcases advances.stays t row positive flying with still | stored
        · exact Or.inr ⟨t, positive, still⟩
        · exact Or.inl stored
  | ends => exact ⟨row, own, asked, passed, absent, exists'⟩
  | page last final =>
      have beyond := (mem_nextPage last (List.mem_of_getLast? final)).2.1
      refine ⟨row, own, asked, passed.trans beyond.le, fun inside => ?_, exists'⟩
      rcases List.mem_append.mp inside with old | new
      · exact absent old
      · exact absurd passed (not_le.mpr (mem_nextPage row new).2.1)

/-- A page that is read while an append with a lower id is in flight misses the entry. -/
theorem missed_of_not_clear (s : Export M) (e : ExportEvent M) (sound : Sound org s)
    (overtaken : ¬ ReadsClear org since until' pageSize s e) :
    Missed org since until' (step digest org since until' pageSize s e) := by
  cases e with
  | append e => exact absurd trivial overtaken
  | page =>
      simp only [ReadsClear, not_forall, not_lt] at overtaken
      obtain ⟨t, row, positive, flying, asked, r, inside, upTo⟩ := overtaken
      have own := (sound.numbered.inserted t row positive flying).1
      have apart := sound.numbered.fresh t row positive flying
      simp only [step]
      split
      · rename_i none
        rw [List.getLast?_eq_none_iff.mp none] at inside
        exact absurd inside List.not_mem_nil
      · rename_i last final
        have passed := upTo.trans (le_last_of_mem _ sorted_nextPage last final r inside)
        refine ⟨row, own, asked, passed, fun sent => ?_, Or.inr ⟨t, positive, flying⟩⟩
        rcases List.mem_append.mp sent with old | new
        · exact apart row (List.mem_of_mem_filter (sound.sent row old).1) rfl
        · exact apart row (List.mem_of_mem_filter (mem_nextPage row new).1) rfl

theorem not_complete_of_missed (sound : Sound org s) (quiet : s.sessions.Quiet)
    (missed : Missed org since until' s) : ¬ Complete org since until' s := by
  intro complete
  obtain ⟨row, own, asked, passed, absent, stored | ⟨t, positive, flying⟩⟩ := missed
  · exact absent (sound.complete_iff.mp complete row (List.mem_filter.mpr ⟨stored, by simp [own]⟩) asked
      passed)
  · exact quiet t (by rw [flying]; trivial)

theorem missed_run (s : Export M) (events : List (ExportEvent M)) (sound : Sound org s)
    (missed : Missed org since until' s) :
    Missed org since until' (Run.final (step digest org since until' pageSize) s events) :=
  (Run.always_of_step (P := fun s => Sound org s ∧ Missed org since until' s)
    (fun s e both => ⟨sound_step s e both.1, missed_step s e both.1 both.2⟩) events
    ⟨sound, missed⟩).final.2

/-- A run that has read a page too early ends with a missed entry. -/
theorem clear_of_not_missed (s : Export M) (events : List (ExportEvent M)) (sound : Sound org s)
    (found : ¬ Missed org since until' (Run.final (step digest org since until' pageSize) s events)) :
    Run.Each (step digest org since until' pageSize) (ReadsClear org since until' pageSize) s events := by
  induction events generalizing s with
  | nil => trivial
  | cons e rest ih =>
      have clear : ReadsClear org since until' pageSize s e := by
        by_contra overtaken
        exact found (missed_run _ rest (sound_step s e sound) (missed_of_not_clear s e sound overtaken))
      exact ⟨clear, ih _ (sound_step s e sound) found⟩

theorem sound_start (table : AuditTable M) : Sound org { sessions := Sessions.start table } where
  numbered := numbered_start table
  reached := Nat.zero_le _
  last := Or.inl rfl
  sent := fun _ inside => absurd inside List.not_mem_nil
  increasing := List.Pairwise.nil

/-- An export sends increasing ids. It misses no entry while each page is read when no append in flight
has an id at or below it; and once all appends have ended, it has missed no entry exactly in these runs. -/
theorem complete_iff_readsClear (digest : AuditFields M → Str → Str) (org : Nat)
    (since until' : Option Instant) (pageSize : Nat) (table : AuditTable M)
    (events : List (ExportEvent M)) :
    let s : Export M := { sessions := Sessions.start table }
    let run := step digest org since until' pageSize
    Run.Always run Increasing s events ∧
      (Run.Each run (ReadsClear org since until' pageSize) s events →
        Run.Always run (Complete org since until') s events) ∧
      ((Run.final run s events).sessions.Quiet → (Complete org since until' (Run.final run s events) ↔
        Run.Each run (ReadsClear org since until' pageSize) s events)) := by
  intro s run
  have sound : Sound org s := sound_start table
  have always : Run.Always run (Sound org) s events :=
    Run.always_of_step (fun s e holds => sound_step s e holds) events sound
  have forward : Run.Each run (ReadsClear org since until' pageSize) s events →
      Run.Always run (Complete org since until') s events := by
    intro each
    have covered : Run.Always run
        (fun s => Sound org s ∧ Covered org since until' s ∧ Ahead since until' s) s events := by
      refine Run.always_of_each (fun s e holds clear => ?_) ⟨sound, ?_, ?_⟩ each
      · exact ⟨sound_step s e holds.1, covered_step s e holds.1 holds.2.1 holds.2.2 clear⟩
      · intro row stored _ none
        have positive := table.positive row (List.mem_of_mem_filter stored)
        exact absurd none (not_le.mpr positive)
      · intro t row positive flying
        cases flying
    exact covered.imp fun s holds => holds.1.complete_iff.mpr holds.2.1
  refine ⟨always.imp fun s holds => holds.increasing, forward, fun quiet => ⟨fun complete => ?_,
    fun each => (forward each).final⟩⟩
  apply clear_of_not_missed s events sound
  intro missed
  exact not_complete_of_missed always.final quiet missed complete

def firstEntry : AuditLog Unit where
  toAuditFields := signInFields
  id := 1
  entryHash := some "1"
  prevHash := some genesis

def oneEntry : AuditTable Unit where
  rows := [firstEntry]
  sorted := List.pairwise_singleton _ _
  positive := by simp [firstEntry]

/-- The second append waits for the first one, and the third follows the first one. The export passes the
id of the second. -/
def overtakenEvents : List (ExportEvent Unit) :=
  [.append (.select 1 signInFields), .append (.select 2 signInFields), .append (.insert 1 0),
    .append (.commit 1), .append (.resume 2), .append (.insert 2 0), .append (.select 3 signInFields),
    .append (.insert 3 0), .append (.commit 3), .page, .append (.commit 2), .page]

/-- The head lock does not make the ids visible in their order. -/
theorem export_skips_an_entry :
    ¬ ∀ (digest : AuditFields Unit → Str → Str) (org : Nat) (table : AuditTable Unit)
        (events : List (ExportEvent Unit)),
      Complete org none none (Run.final (step digest org none none exportPage)
        { sessions := Sessions.start table } events) := by
  intro complete
  have ids : ((ofOrg (Run.final (step unaryDigest 1 none none exportPage)
      { sessions := Sessions.start oneEntry } overtakenEvents).sessions.table 1).map AuditLog.id,
      (Run.final (step unaryDigest 1 none none exportPage)
      { sessions := Sessions.start oneEntry } overtakenEvents).exported.map AuditLog.id) =
      ([1, 2, 3, 4], [1, 2, 4]) := by
    decide +kernel
  have found := complete unaryDigest 1 oneEntry overtakenEvents
  generalize Run.final (step unaryDigest 1 none none exportPage)
    { sessions := Sessions.start oneEntry } overtakenEvents = s at ids found
  obtain ⟨stored, sent⟩ := Prod.mk.inj ids
  obtain ⟨row, inside, third⟩ := List.mem_map.mp (stored ▸ (by decide) : 3 ∈ (ofOrg s.sessions.table 1).map
    AuditLog.id)
  obtain ⟨last, read, fourth⟩ := List.mem_map.mp (sent ▸ (by decide) : 4 ∈ s.exported.map AuditLog.id)
  have missing := found row inside ⟨by simp, by simp⟩ last read (by omega)
  have listed : row.id ∈ s.exported.map AuditLog.id := List.mem_map_of_mem missing
  rw [sent, third] at listed
  exact absurd listed (by decide)

end Export
end Kortex.Audit
