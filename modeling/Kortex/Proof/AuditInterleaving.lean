import Kortex.Proof.AuditSession

/-
This file proves that concurrent calls of `append` leave an intact chain exactly when they are
serial.
-/

namespace Kortex.Audit

open HashChain

namespace Sessions

variable {M : Type} {digest : AuditFields M → Str → Str} {org : Nat}

/-- No transaction is in flight. -/
def Quiet (s : Sessions M) : Prop := ∀ t, ¬ (s.phase t).InFlight

/-- A statement starts alone when no other transaction is in flight. -/
def StartsAlone (s : Sessions M) (e : SessionEvent M) : Prop :=
  ∀ tx fields, e = .select tx fields → s.phase tx = .idle → s.Quiet

/-- `verify` reports the committed log as intact. -/
def Intact (digest : AuditFields M → Str → Str) (org pageSize : Nat) (s : Sessions M) : Prop :=
  ∃ status, verify digest pageSize s.table org = some status ∧ status.intact = true

/-- While the transactions are serial, the one in flight is going to extend the newest row. -/
structure Calm (digest : AuditFields M → Str → Str) (org : Nat) (s : Sessions M) : Prop where
  chained : (chain digest).Chained (ofOrg s.table org)
  alone : ∀ t t', (s.phase t).InFlight → (s.phase t').InFlight → t = t'
  onHead : ∀ t, (s.phase t).InFlight → (s.phase t).promise = some (head s.table org)
  newest : ∀ t row positive, s.phase t = .inserted row positive → ∀ r ∈ s.table.rows, r.id < row.id

/-- Two transactions are forked when their entries point at the same hash. -/
def Forked (s : Sessions M) : Prop :=
  ∃ t t' p, t ≠ t' ∧ (s.phase t).promise = some p ∧ (s.phase t').promise = some p

theorem intact_iff (pageSize : Nat) (positive : 0 < pageSize) (s : Sessions M)
    (sound : Sound digest org s) :
    s.Intact digest org pageSize ↔ (chain digest).Chained (ofOrg s.table org) := by
  have whole : ∀ row ∈ ofOrg s.table org, Whole row := fun row present =>
    sound.whole row (List.mem_of_mem_filter present)
  obtain ⟨status, verified, exactly, _⟩ := @verify_spec M _ pageSize positive s.table org
    fun row present => (whole row present).1
  rw [links_of_whole _ whole] at exactly
  constructor
  · rintro ⟨status', verified', intact⟩
    rw [verified', Option.some.injEq] at verified
    exact exactly.mp (verified ▸ intact)
  · exact fun chained => ⟨status, verified, exactly.mpr chained⟩

theorem addRow_eq_insert (table : AuditTable M) (row : AuditLog M) (positive : 0 < row.id)
    (newest : ∀ r ∈ table.rows, r.id < row.id) :
    ofOrg (addRow table row positive) org =
      ofOrg (insert table row (row.id - Audit.lastId table - 1)) org := by
  have last : Audit.lastId table < row.id := by
    unfold Audit.lastId
    cases final : table.rows.getLast? with
    | none => exact positive
    | some r => exact newest r (List.mem_of_getLast? final)
  have before : table.rows.filter (fun r => r.id < row.id) = table.rows := by
    rw [List.filter_eq_self]
    exact fun r present => by simpa using newest r present
  have after : table.rows.filter (fun r => row.id < r.id) = [] := by
    rw [List.filter_eq_nil_iff]
    intro r present
    have := newest r present
    simp only [decide_eq_true_eq]
    omega
  have id : Audit.lastId table + 1 + (row.id - Audit.lastId table - 1) = row.id := by omega
  simp only [ofOrg, addRow, insert, before, after, id]

/-- The serial commit extends the chain of the org. -/
theorem chained_commit (s : Sessions M) (sound : Sound digest org s) (calm : Calm digest org s)
    (tx : Nat) (row : AuditLog M) (positive : 0 < row.id)
    (inserted : s.phase tx = .inserted row positive) :
    (chain digest).Chained (ofOrg (addRow s.table row positive) org) := by
  have good := (sound.own tx row (by rw [inserted]; rfl)).1
  have promise := calm.onHead tx (by rw [inserted]; trivial)
  rw [inserted] at promise
  have stored : row.prevHash = some (head s.table org) := promise
  have prev : (chain digest).prev row = head s.table org := by
    change orDefault row.prevHash genesis = _
    rw [stored, orDefault_of_ne _ _ (head_depth s sound.good).1]
  rw [addRow_eq_insert s.table row positive (calm.newest tx row positive inserted), ofOrg_insert,
    if_pos good.own, chained_append_iff]
  refine ⟨calm.chained, good.isSealed, fun last final => ?_⟩
  have whole := (sound.good last (List.mem_of_getLast? final)).whole
  exact prev.trans (head_of_getLast s.table org last final whole)

/-- Serial statements keep the transactions calm. -/
theorem calm_step (s : Sessions M) (e : SessionEvent M) (sound : Sound digest org s)
    (calm : Calm digest org s) (alone : s.StartsAlone e) : Calm digest org (step digest org s e) := by
  generalize step digest org s e = s', (step_outcome s e : Outcome digest org s e _) = outcome
  cases outcome with
  | same unchanged => exact unchanged ▸ calm
  | selected tx fields phase event idle flight noRow own promise table lastId phases =>
      have quiet := alone tx fields event idle
      have only : ∀ t, (s'.phase t).InFlight → t = tx := by
        intro t flying
        by_contra other
        rw [phases, Function.update_of_ne other] at flying
        exact quiet t flying
      refine ⟨by rw [table]; exact calm.chained, fun t t' first second =>
        (only t first).trans (only t' second).symm, fun t flying => ?_, fun t row positive inserted => ?_⟩
      · rw [only t flying, phases, Function.update_self, table]
        exact promise
      · have self := only t (by rw [inserted]; trivial)
        rw [self, phases, Function.update_self] at inserted
        simp [inserted, Phase.row?] at noRow
  | resumed tx picked fields event waiting table lastId phases =>
      have flying : (s.phase tx).InFlight := by rw [waiting]; trivial
      have same : ∀ t, (s'.phase t).InFlight → (s.phase t).InFlight := by
        intro t inFlight
        by_cases self : t = tx
        · exact self ▸ flying
        · rwa [phases, Function.update_of_ne self] at inFlight
      refine ⟨by rw [table]; exact calm.chained, fun t t' first second =>
        calm.alone t t' (same t first) (same t' second), fun t inFlight => ?_,
        fun t row positive inserted => ?_⟩
      · have promise := calm.onHead tx flying
        rw [calm.alone t tx (same t inFlight) flying, phases, Function.update_self, table, ← promise,
          waiting]
        rfl
      · have inFlight : (s'.phase t).InFlight := by rw [inserted]; trivial
        rw [calm.alone t tx (same t inFlight) flying, phases, Function.update_self] at inserted
        simp at inserted
  | inserted tx gap prevHash fields row positive event granted rowEq table lastId phases =>
      subst rowEq
      have flying : (s.phase tx).InFlight := by rw [granted]; trivial
      have same : ∀ t, (s'.phase t).InFlight → (s.phase t).InFlight := by
        intro t inFlight
        by_cases self : t = tx
        · exact self ▸ flying
        · rwa [phases, Function.update_of_ne self] at inFlight
      refine ⟨by rw [table]; exact calm.chained, fun t t' first second =>
        calm.alone t t' (same t first) (same t' second), fun t inFlight => ?_,
        fun t r pos inserted => ?_⟩
      · have promise := calm.onHead tx flying
        rw [calm.alone t tx (same t inFlight) flying, phases, Function.update_self, table, ← promise,
          granted]
        rfl
      · have inFlight : (s'.phase t).InFlight := by rw [inserted]; trivial
        rw [calm.alone t tx (same t inFlight) flying, phases, Function.update_self,
          Phase.inserted.injEq] at inserted
        rw [table, ← inserted]
        intro x present
        have := sound.within x present
        change x.id < s.lastId + 1 + gap
        omega
  | committed tx row positive event inserted table lastId phases =>
      have flying : (s.phase tx).InFlight := by rw [inserted]; trivial
      have quiet : ∀ t, ¬ (s'.phase t).InFlight := by
        intro t inFlight
        by_cases self : t = tx
        · rw [self, phases, Function.update_self] at inFlight
          exact inFlight
        · rw [phases, Function.update_of_ne self] at inFlight
          exact self (calm.alone t tx inFlight flying)
      refine ⟨by rw [table]; exact chained_commit s sound calm tx row positive inserted,
        fun t t' first => absurd first (quiet t), fun t first => absurd first (quiet t),
        fun t r pos inserted' => ?_⟩
      exact absurd (by rw [inserted']; trivial) (quiet t)

/-- A transaction never points at another hash than the one it first picked. -/
theorem promise_step (s : Sessions M) (e : SessionEvent M) (t : Nat) (p : Str)
    (promise : (s.phase t).promise = some p) :
    ((step digest org s e).phase t).promise = some p := by
  generalize step digest org s e = s', (step_outcome s e : Outcome digest org s e _) = outcome
  cases outcome with
  | same unchanged => exact unchanged ▸ promise
  | selected tx fields phase event idle flight noRow own promised table lastId phases =>
      have other : t ≠ tx := by
        rintro rfl
        simp [idle, Phase.promise] at promise
      rwa [phases, Function.update_of_ne other]
  | resumed tx picked fields event waiting table lastId phases =>
      by_cases self : t = tx
      · rw [self, waiting] at promise
        rw [self, phases, Function.update_self]
        exact promise
      · rwa [phases, Function.update_of_ne self]
  | inserted tx gap prevHash fields row positive event granted rowEq table lastId phases =>
      subst rowEq
      by_cases self : t = tx
      · rw [self, granted] at promise
        rw [self, phases, Function.update_self]
        exact promise
      · rwa [phases, Function.update_of_ne self]
  | committed tx row positive event inserted table lastId phases =>
      by_cases self : t = tx
      · rw [self, inserted] at promise
        rw [self, phases, Function.update_self]
        exact promise
      · rwa [phases, Function.update_of_ne self]

theorem forked_step (s : Sessions M) (e : SessionEvent M) (forked : Forked s) :
    Forked (step digest org s e) := by
  obtain ⟨t, t', p, different, first, second⟩ := forked
  exact ⟨t, t', p, different, promise_step s e t p first, promise_step s e t' p second⟩

/-- The first statement that does not start alone forks the chain. -/
theorem forked_of_not_alone (s : Sessions M) (e : SessionEvent M) (calm : Calm digest org s)
    (overlap : ¬ s.StartsAlone e) : Forked (step digest org s e) := by
  simp only [StartsAlone, Quiet, not_forall, not_not] at overlap
  obtain ⟨tx, fields, event, idle, t, flying⟩ := overlap
  have other : t ≠ tx := by
    rintro rfl
    rw [idle] at flying
    exact flying
  have promise := calm.onHead t flying
  generalize step digest org s e = s', (step_outcome s e : Outcome digest org s e _) = outcome
  cases outcome with
  | same unchanged busy => exact absurd idle (busy tx fields event)
  | selected tx' fields' phase event' idle' flight noRow own promise' table lastId phases =>
      rw [event, SessionEvent.select.injEq] at event'
      obtain ⟨rfl, -⟩ := event'
      refine ⟨t, tx, head s.table org, other, ?_, ?_⟩
      · rwa [phases, Function.update_of_ne other]
      · rwa [phases, Function.update_self]
  | resumed _ _ _ event' => rw [event] at event'; cases event'
  | inserted _ _ _ _ _ _ event' => rw [event] at event'; cases event'
  | committed _ _ _ event' => rw [event] at event'; cases event'

theorem not_chained_of_forked (ideal : IdealDigest digest) (s : Sessions M)
    (sound : Sound digest org s) (quiet : s.Quiet) (forked : Forked s) :
    ¬ (chain digest).Chained (ofOrg s.table org) := by
  intro chained
  obtain ⟨t, t', p, different, first, second⟩ := forked
  have row : ∀ t, (s.phase t).promise = some p → ∃ row, (s.phase t).row? = some row ∧
      row ∈ ofOrg s.table org ∧ (chain digest).prev row = p := by
    intro t promise
    have settled := quiet t
    cases phase : s.phase t with
    | idle => simp [phase, Phase.promise] at promise
    | waiting picked fields => exact absurd (by rw [phase]; trivial) settled
    | granted prevHash fields => exact absurd (by rw [phase]; trivial) settled
    | inserted row positive => exact absurd (by rw [phase]; trivial) settled
    | committed row =>
        have good := (sound.own t row (by rw [phase]; rfl)).1
        refine ⟨row, rfl, List.mem_filter.mpr ⟨sound.stored t row phase, by simp [good.own]⟩, ?_⟩
        have nonempty := (sound.promise t p promise).1
        rw [phase] at promise
        change orDefault row.prevHash genesis = p
        rw [show row.prevHash = some p from promise, orDefault_of_ne p _ nonempty]
  obtain ⟨r, own, present, prev⟩ := row t first
  obtain ⟨r', own', present', prev'⟩ := row t' second
  have apart := sound.distinct t t' r r' different own own'
  obtain ⟨n, start⟩ : ∃ n, (chain digest).StartsAt genesis n (ofOrg s.table org) := by
    cases log : ofOrg s.table org with
    | nil => exact ⟨0, by simp [StartsAt]⟩
    | cons head rest =>
        obtain ⟨n, depth⟩ := (sound.good head (by rw [log]; simp)).depth
        refine ⟨n, fun l same => ?_⟩
        rw [List.head?_cons, Option.mem_def, Option.some.injEq] at same
        exact same ▸ depth
  have unequal : r ≠ r' := fun same => apart (same ▸ rfl)
  have symmetric : Std.Symm fun a b : AuditLog M => (chain digest).prev a ≠ (chain digest).prev b :=
    ⟨fun _ _ => Ne.symm⟩
  exact (distinct_prev ideal.ideal.pointing chained start).forall present present' unequal
    (prev.trans prev'.symm)

theorem sound_start (table : AuditTable M) (well : WellChained digest table) :
    Sound digest org (start table) where
  whole := well.whole
  good := by
    intro row present
    have own : row.orgId = org := ofOrg_eq table org row present
    have root : (chain digest).StartsAt genesis 0 (ofOrg table org) := by
      intro first head
      have atGenesis : (chain digest).prev first = genesis := by
        simp [chain, well.rooted org first head, orDefault_of_ne genesis _ (by decide)]
      rw [atGenesis]
      exact .genesis
    obtain ⟨n, _, depth⟩ := depth_of_mem (well.chained org) root row present
    exact ⟨own, well.whole row (List.mem_of_mem_filter present),
      (well.chained org).sealed row present, n, depth⟩
  within := id_le_lastId table
  own := fun t row present => by simp [start, Phase.row?] at present
  distinct := fun t t' row row' _ present => by simp [start, Phase.row?] at present
  fresh := fun t row positive inserted => by simp [start] at inserted
  stored := fun t row committed => by simp [start] at committed
  fields := fun t f present => by simp [start, Phase.fields?] at present
  promise := fun t p present => by simp [start, Phase.promise] at present

theorem calm_start (table : AuditTable M) (well : WellChained digest table) :
    Calm digest org (start table) where
  chained := well.chained org
  alone := fun t t' flying => flying.elim
  onHead := fun t flying => flying.elim
  newest := fun t row positive inserted => by simp [start] at inserted

theorem sound_run (ideal : IdealDigest digest) (s : Sessions M) (events : List (SessionEvent M))
    (sound : Sound digest org s) : Sound digest org (Run.final (step digest org) s events) :=
  (Run.always_of_step (sound_step ideal) events sound).final

theorem forked_run (s : Sessions M) (events : List (SessionEvent M)) (forked : Forked s) :
    Forked (Run.final (step digest org) s events) :=
  (Run.always_of_step forked_step events forked).final

/-- A run whose statements all start alone stays calm. -/
theorem calm_run (ideal : IdealDigest digest) (s : Sessions M) (events : List (SessionEvent M))
    (sound : Sound digest org s) (calm : Calm digest org s)
    (serial : Run.Each (step digest org) StartsAlone s events) :
    Run.Always (step digest org) (fun s => Sound digest org s ∧ Calm digest org s) s events :=
  Run.always_of_each (fun s e both alone => ⟨sound_step ideal s e both.1,
    calm_step s e both.1 both.2 alone⟩) ⟨sound, calm⟩ serial

/-- A run with a statement that does not start alone ends forked. -/
theorem serial_of_not_forked (ideal : IdealDigest digest) (s : Sessions M)
    (events : List (SessionEvent M)) (sound : Sound digest org s) (calm : Calm digest org s)
    (notForked : ¬ Forked (Run.final (step digest org) s events)) :
    Run.Each (step digest org) StartsAlone s events := by
  induction events generalizing s with
  | nil => trivial
  | cons e rest ih =>
      have alone : s.StartsAlone e := by
        by_contra overlap
        exact notForked (forked_run _ rest (forked_of_not_alone s e calm overlap))
      exact ⟨alone, ih _ (sound_step ideal s e sound) (calm_step s e sound calm alone) notForked⟩

/-- A serial run keeps the log intact, and a run that ends with no transaction in flight leaves
it intact exactly when it was serial. -/
theorem intact_iff_serial [EmptyCollection M] (ideal : IdealDigest digest)
    (earlier : List (AppendInput M)) (events : List (SessionEvent M)) (pageSize : Nat)
    (positive : 0 < pageSize) :
    let s := start (Run.final (appendStep digest some) empty earlier)
    (Run.Each (step digest org) StartsAlone s events →
      Run.Always (step digest org) (Intact digest org pageSize) s events) ∧
    (Quiet (Run.final (step digest org) s events) →
      (Intact digest org pageSize (Run.final (step digest org) s events) ↔
        Run.Each (step digest org) StartsAlone s events)) := by
  intro s
  have well := @wellChained_run _ digest _ ideal.nonempty earlier
  have sound : Sound digest org s := sound_start _ well
  have calm : Calm digest org s := calm_start _ well
  have forward : Run.Each (step digest org) StartsAlone s events →
      Run.Always (step digest org) (Intact digest org pageSize) s events := fun serial =>
    (calm_run ideal s events sound calm serial).imp fun s both =>
      (intact_iff pageSize positive s both.1).mpr both.2.chained
  refine ⟨forward, fun quiet => ⟨fun intact => ?_, fun serial => (forward serial).final⟩⟩
  apply serial_of_not_forked ideal s events sound calm
  intro forked
  have soundEnd := sound_run ideal s events sound
  exact not_chained_of_forked ideal _ soundEnd quiet forked
    ((intact_iff pageSize positive _ soundEnd).mp intact)

/-- A run does not touch a transaction that has no event in it. -/
theorem phase_run (s : Sessions M) (events : List (SessionEvent M)) (t : Nat)
    (other : ∀ e ∈ events, e.tx ≠ t) :
    (Run.final (step digest org) s events).phase t = s.phase t := by
  induction events generalizing s with
  | nil => rfl
  | cons e rest ih =>
      rw [Run.final_cons, ih _ fun e present => other e (by simp [present])]
      have apart := other e (by simp)
      generalize step digest org s e = s', (step_outcome s e : Outcome digest org s e _) = outcome
      cases outcome with
      | same unchanged => rw [unchanged]
      | selected tx _ _ event _ _ _ _ _ _ _ phases =>
          subst event
          have different : t ≠ tx := fun same => apart same.symm
          rw [phases, Function.update_of_ne different]
      | resumed tx _ _ event _ _ _ phases =>
          subst event
          have different : t ≠ tx := fun same => apart same.symm
          rw [phases, Function.update_of_ne different]
      | inserted tx _ _ _ _ _ event _ _ _ _ phases =>
          subst event
          have different : t ≠ tx := fun same => apart same.symm
          rw [phases, Function.update_of_ne different]
      | committed tx _ _ event _ _ _ phases =>
          subst event
          have different : t ≠ tx := fun same => apart same.symm
          rw [phases, Function.update_of_ne different]

def signInFields : AuditFields Unit where
  orgId := 1
  actorKind := .user
  actorId := some 1
  action := "auth.login"
  targetType := none
  targetId := none
  metadata := ()
  ip := none
  userAgent := none
  createdAt := 0

/-- Two transactions run one after the other. -/
def serialEvents : List (SessionEvent Unit) :=
  [.select 1 signInFields, .insert 1 0, .commit 1, .select 2 signInFields, .insert 2 0, .commit 2]

/-- Two transactions start on the empty log. -/
def racingEvents : List (SessionEvent Unit) :=
  [.select 1 signInFields, .select 2 signInFields, .insert 1 0, .insert 2 0, .commit 1, .commit 2]

theorem intact_iff_serial_unary :
    let s := start (Run.final (appendStep unaryDigest some) empty [])
    (Run.Each (step unaryDigest 1) StartsAlone s serialEvents →
      Run.Always (step unaryDigest 1) (Intact unaryDigest 1 500) s serialEvents) ∧
    (Quiet (Run.final (step unaryDigest 1) s serialEvents) →
      (Intact unaryDigest 1 500 (Run.final (step unaryDigest 1) s serialEvents) ↔
        Run.Each (step unaryDigest 1) StartsAlone s serialEvents)) :=
  intact_iff_serial idealDigest_unaryDigest [] serialEvents 500 (by decide)

/-- The row lock does not help two writers that find the log empty. -/
theorem racing_appends_fork :
    ¬ ∀ (digest : AuditFields Unit → Str → Str), IdealDigest digest →
      ∀ (org : Nat) (events : List (SessionEvent Unit)),
        Quiet (Run.final (step digest org) (start empty) events) →
          Intact digest org verifyPage (Run.final (step digest org) (start empty) events) := by
  intro intact
  have quiet : Quiet (Run.final (step unaryDigest 1) (start empty) racingEvents) := by
    intro t flying
    by_cases first : t = 1
    · subst first; exact flying
    · by_cases second : t = 2
      · subst second; exact flying
      · rw [phase_run (start empty) racingEvents t] at flying
        · exact flying
        · intro e present
          simp only [racingEvents, List.mem_cons, List.not_mem_nil, or_false] at present
          rcases present with rfl | rfl | rfl | rfl | rfl | rfl <;>
            first | exact Ne.symm first | exact Ne.symm second
  have sound : Sound unaryDigest 1 (Run.final (step unaryDigest 1) (start empty) racingEvents) :=
    sound_run idealDigest_unaryDigest (start empty) racingEvents (sound_start empty wellChained_empty)
  have forked : Forked (Run.final (step unaryDigest 1) (start empty) racingEvents) :=
    ⟨1, 2, genesis, by decide, rfl, rfl⟩
  exact not_chained_of_forked idealDigest_unaryDigest _ sound quiet forked
    ((intact_iff verifyPage (by decide) _ sound).mp
      (intact unaryDigest idealDigest_unaryDigest 1 racingEvents quiet))

end Sessions
end Kortex.Audit
