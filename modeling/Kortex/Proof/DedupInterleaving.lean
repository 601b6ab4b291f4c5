import Kortex.Proof.WriteSessions

/-
This file proves when concurrent writes leave one live memory for each fingerprint.
-/

namespace Kortex

/-- A fingerprint counts within the scope of one org. -/
abbrev DedupKey := Nat × ScopeType × Nat × Str

def Memory.dedupKey (m : Memory) : Option DedupKey :=
  m.contentHash.map fun hash => (m.orgId, m.scopeType, m.scopeId, hash)

namespace WriteSessions

open MemoryService RowChange

/-- At most one live memory carries each fingerprint. -/
def Unique (rows : List Memory) : Prop :=
  ∀ m ∈ rows, ∀ m' ∈ rows, m.live = true → m'.live = true →
    ∀ key, m.dedupKey = some key → m'.dedupKey = some key → m.id = m'.id

variable (env : Environment)

/-- This is the fingerprint that the write of a principal stores. -/
def writeKey (p : Principal) (payload : CreateMemoryInput) : DedupKey :=
  (p.orgId, payload.scope.scopeType, payload.scope.scopeId,
    contentHash env (screen env payload).title (screen env payload).body)

/-- The instance has looked up the fingerprint in vain, and has not inserted its memory yet. -/
def Awaits (s : State) (id : Nat) (key : DedupKey) : Prop :=
  ∃ i w, s.instances id = some i ∧ i.phase.pending = some w ∧ writeKey env i.principal w.payload = key

/-- The instance has inserted a live memory with the fingerprint, and has not committed it yet. -/
def Holds (s : State) (id : Nat) (key : DedupKey) : Prop :=
  ∃ m ∈ s.versions.heap.rows, s.versions.owner (m.id, m.publicId) = some id ∧
    (applyAll (s.versions.changes id) m).live = true ∧ m.dedupKey = some key

/-- The instance is about to add a live memory with the fingerprint to the committed ones. -/
def InFlight (s : State) (id : Nat) (key : DedupKey) : Prop := Awaits env s id key ∨ Holds s id key

/-- A write misses its fingerprint while no other instance is about to add a memory with it. -/
def LooksUpAlone (s : State) : Event → Prop
  | .lookUp id _ payload _ force => ∀ i, s.instances id = some i → i.phase = .ready →
      duplicateOf env i.principal (s.seen id) payload.scope (screen env payload) force = none →
      ∀ other, other ≠ id → ¬ InFlight env s other (writeKey env i.principal payload)
  | _ => True

/-- The write does not force a second copy. -/
def Unforced : Event → Prop
  | .lookUp _ _ _ _ force => force = false
  | _ => True

/-- Every state that an instance sees has one memory for each fingerprint, and at most one instance is
about to add one with it. -/
structure Deduped (s : State) : Prop where
  plain : ∀ id, ∀ c ∈ s.versions.changes id, Plain c
  committed : Unique s.versions.committed.rows
  views : ∀ id, Unique (s.versions.view id).rows
  missed : ∀ id key, Awaits env s id key → ∀ m ∈ (s.versions.view id).rows, m.live = true →
    m.dedupKey ≠ some key
  alone : ∀ id id' key, InFlight env s id key → InFlight env s id' key → id = id'

theorem dedupKey_change (c : MemoryChange) (plain : Plain c) (m : Memory) :
    (c.change m).dedupKey = m.dedupKey := by
  simp only [Memory.dedupKey, plain.orgId, plain.scopeType, plain.scopeId, plain.contentHash]

theorem plain_applyAll (changes : List MemoryChange) (plain : ∀ c ∈ changes, Plain c) (m : Memory) :
    (applyAll changes m).dedupKey = m.dedupKey ∧ ((applyAll changes m).live = true → m.live = true) := by
  apply rel_applyAll (R := fun a b : Memory => b.dedupKey = a.dedupKey ∧ (b.live = true → a.live = true))
  · exact fun _ => ⟨rfl, fun live => live⟩
  · exact fun _ _ _ first second => ⟨second.1.trans first.1, fun live => first.2 (second.2 live)⟩
  · exact fun c inside m => ⟨dedupKey_change c (plain c inside) m, (plain c inside).live m⟩

theorem live_applyAll (changes : List MemoryChange) (plain : ∀ c ∈ changes, Plain c) (m m' : Memory)
    (same : (m.id, m.publicId) = (m'.id, m'.publicId)) (implied : m.live = true → m'.live = true)
    (live : (applyAll changes m).live = true) : (applyAll changes m').live = true :=
  applyAll_rel (R := fun a b : Memory => a.live = true → b.live = true) changes
    (fun c inside m m' implied => (plain c inside).mono m m' implied) m m' same implied live

theorem id_applyAll (changes : List MemoryChange) (m : Memory) : (applyAll changes m).id = m.id :=
  congrArg Prod.fst (ident_applyAll changes m)

/-- A live row of the list has the id and the fingerprint of the memory. -/
def Mirrors (rows : List Memory) (m : Memory) : Prop :=
  ∃ r ∈ rows, r.live = true ∧ r.dedupKey = m.dedupKey ∧ r.id = m.id

theorem id_eq_of_mirrors (rows : List Memory) (unique : Unique rows) (m m' : Memory)
    (first : Mirrors rows m) (second : Mirrors rows m') (key : DedupKey) (own : m.dedupKey = some key)
    (own' : m'.dedupKey = some key) : m.id = m'.id := by
  obtain ⟨r, stored, live, same, id⟩ := first
  obtain ⟨r', stored', live', same', id'⟩ := second
  rw [← id, ← id']
  exact unique r stored r' stored' live live' key (same.trans own) (same'.trans own')

theorem unique_of_mirrors (rows rows' : List Memory) (unique : Unique rows)
    (mirrors : ∀ m ∈ rows', m.live = true → Mirrors rows m) : Unique rows' := by
  intro m inside m' inside' live live' key own own'
  exact id_eq_of_mirrors rows unique m m' (mirrors m inside live) (mirrors m' inside' live') key own own'

variable {env}

theorem instances_setInstance (s : State) (id other : Nat) (i : Instance) :
    (s.setInstance id i).instances other = if other = id then some i else s.instances other :=
  Function.update_apply s.instances id (some i) other

theorem awaits_setInstance (s : State) (id other : Nat) (i : Instance) (key : DedupKey) :
    Awaits env (s.setInstance id i) other key ↔
      (other = id ∧ ∃ w, i.phase.pending = some w ∧ writeKey env i.principal w.payload = key) ∨
        (other ≠ id ∧ Awaits env s other key) := by
  unfold Awaits
  rw [instances_setInstance]
  by_cases same : other = id
  · simp [same]
  · simp [same]

/-- An instance may go on to insert a memory that it has not found, and that no other inserts. -/
theorem deduped_setInstance (s : State) (good : Deduped env s) (id : Nat) (i : Instance)
    (clear : ∀ w, i.phase.pending = some w →
      (∀ m ∈ (s.versions.view id).rows, m.live = true →
        m.dedupKey ≠ some (writeKey env i.principal w.payload)) ∧
      ∀ other, other ≠ id → ¬ InFlight env s other (writeKey env i.principal w.payload)) :
    Deduped env (s.setInstance id i) where
  plain := good.plain
  committed := good.committed
  views := good.views
  missed := by
    intro other key awaits
    rcases (awaits_setInstance s id other i key).mp awaits with ⟨rfl, w, pending, rfl⟩ | ⟨_, before⟩
    · exact (clear w pending).1
    · exact good.missed other key before
  alone := by
    have flight (other : Nat) (key : DedupKey) (after : InFlight env (s.setInstance id i) other key) :
        InFlight env s other key ∨ other = id ∧ ∀ other, other ≠ id → ¬ InFlight env s other key := by
      rcases after with awaits | holds
      · rcases (awaits_setInstance s id other i key).mp awaits with ⟨same, w, pending, rfl⟩ | ⟨_, before⟩
        · exact Or.inr ⟨same, (clear w pending).2⟩
        · exact Or.inl (Or.inl before)
      · exact Or.inl (Or.inr holds)
    intro first second key one two
    rcases flight first key one with before | ⟨rfl, nobody⟩
    · rcases flight second key two with before' | ⟨rfl, nobody⟩
      · exact good.alone first second key before before'
      · by_contra different
        exact nobody first different before
    · rcases flight second key two with before' | ⟨rfl, _⟩
      · by_contra different
        exact nobody second (Ne.symm different) before'
      · rfl

theorem deduped_change (s : State) (good : Deduped env s) (id : Nat) (c : MemoryChange)
    (plain : Plain c) : Deduped env { s with versions := s.versions.change id c } := by
  have kept (m : Memory) : (c.apply m).dedupKey = m.dedupKey ∧
      ((c.apply m).live = true → m.live = true) ∧ (c.apply m).id = m.id := by
    have ident := congrArg Prod.fst (ident_apply c m)
    unfold RowChange.apply at ident ⊢
    split
    · exact ⟨dedupKey_change c plain m, plain.live m, congrArg Prod.fst (c.keeps m)⟩
    · exact ⟨rfl, fun live => live, rfl⟩
  have origin (other : Nat) (m : Memory)
      (seen : m ∈ ((s.versions.change id c).view other).rows) (live : m.live = true) :
      Mirrors (s.versions.view other).rows m := by
    by_cases same : other = id
    · subst same
      obtain ⟨r, stored, rfl⟩ := (Versions.mem_view_change s.versions other c m).mp seen
      exact ⟨r, stored, (kept r).2.1 live, (kept r).1.symm, (kept r).2.2.symm⟩
    · rw [Versions.view_change_of_ne s.versions id other same] at seen
      exact ⟨m, seen, live, rfl, rfl⟩
  have flight (other : Nat) (key : DedupKey)
      (after : InFlight env { s with versions := s.versions.change id c } other key) :
      InFlight env s other key := by
    rcases after with awaits | ⟨m, stored, owner, live, own⟩
    · exact Or.inl awaits
    · refine Or.inr ⟨m, stored, owner, ?_, own⟩
      by_cases same : other = id
      · subst same
        have changes : (s.versions.change other c).changes other = s.versions.changes other ++ [c] :=
          Function.update_self _ _ _
        rw [changes, applyAll_concat] at live
        exact (kept _).2.1 live
      · have changes : (s.versions.change id c).changes other = s.versions.changes other :=
          Function.update_of_ne same _ _
        rwa [changes] at live
  exact
    { plain := by
        intro other c' inside
        change c' ∈ Function.update s.versions.changes id (s.versions.changes id ++ [c]) other at inside
        rw [Function.update_apply] at inside
        split at inside
        · rcases List.mem_append.mp inside with earlier | last
          · exact good.plain id c' earlier
          · rw [List.mem_singleton.mp last]
            exact plain
        · exact good.plain other c' inside
      committed := good.committed
      views := fun other => unique_of_mirrors _ _ (good.views other) (origin other)
      missed := by
        intro other key awaits m seen live own
        obtain ⟨r, stored, alive, same, _⟩ := origin other m seen live
        exact good.missed other key awaits r stored alive (same.trans own)
      alone := fun one two key first second => good.alone one two key (flight one key first)
        (flight two key second) }

theorem deduped_insert (s : State) (good : Deduped env s) (id : Nat) (heap : MemoryTable) (row : Memory)
    (grows : heap.rows = s.versions.heap.rows ++ [row])
    (fresh : ∀ other ∈ s.versions.heap.rows, (other.id, other.publicId) ≠ (row.id, row.publicId))
    (idle : ∀ key, ¬ Awaits env s id key)
    (absent : ∀ m ∈ (s.versions.view id).rows, m.live = true → ∀ key, row.dedupKey = some key →
      m.dedupKey ≠ some key)
    (nobody : ∀ key, row.dedupKey = some key → ∀ other, other ≠ id → ¬ InFlight env s other key) :
    Deduped env { s with versions := s.versions.insert id heap row } := by
  have kept := plain_applyAll (s.versions.changes id) (good.plain id) row
  have seen (other : Nat) (m : Memory) := Versions.mem_view_insert s.versions id other heap row grows fresh m
  have flight (other : Nat) (key : DedupKey)
      (after : InFlight env { s with versions := s.versions.insert id heap row } other key) :
      InFlight env s other key ∨ other = id ∧ row.dedupKey = some key := by
    rcases after with awaits | ⟨m, stored, owner, live, own⟩
    · exact Or.inl (Or.inl awaits)
    · have inside := (Versions.mem_heap_insert s.versions id heap row grows fresh m (some other)).mp
        ⟨stored, owner⟩
      rcases inside with ⟨old, before⟩ | ⟨rfl, same⟩
      · exact Or.inl (Or.inr ⟨m, old, before, live, own⟩)
      · exact Or.inr ⟨Option.some.inj same, own⟩
  exact
    { plain := good.plain
      committed := unique_of_mirrors _ _ good.committed fun m inside live =>
        ⟨m, (Versions.mem_committed_insert s.versions id heap row grows fresh m).mp inside, live, rfl, rfl⟩
      views := by
        intro other m inside m' inside' live live' key own own'
        rcases (seen other m).mp inside with old | ⟨same, rfl⟩
        · rcases (seen other m').mp inside' with old' | ⟨same', rfl⟩
          · exact good.views other m old m' old' live live' key own own'
          · exact absurd own (absent m (same' ▸ old) live key (kept.1 ▸ own'))
        · rcases (seen other m').mp inside' with old' | ⟨_, rfl⟩
          · exact absurd own' (absent m' (same ▸ old') live' key (kept.1 ▸ own))
          · rfl
      missed := by
        intro other key awaits m inside live
        rcases (seen other m).mp inside with old | ⟨same, rfl⟩
        · exact good.missed other key awaits m old live
        · exact absurd (same ▸ awaits) (idle key)
      alone := by
        intro one two key first second
        rcases flight one key first with before | ⟨rfl, own⟩
        · rcases flight two key second with before' | ⟨rfl, own⟩
          · exact good.alone one two key before before'
          · by_contra different
            exact nobody key own one different before
        · rcases flight two key second with before' | ⟨rfl, _⟩
          · by_contra different
            exact nobody key own two (Ne.symm different) before'
          · rfl }

/-- The end of a transaction leaves the session with the committed rows. -/
theorem mem_view_commit_self (s : State) (id : Nat) (m : Memory) :
    m ∈ ((s.versions.commit id).view id).rows ↔ m ∈ (s.versions.view id).rows := by
  rw [Versions.mem_view_of_released _ id (s.versions.release_ne id) (Function.update_self _ _ _),
    Versions.rows_committed_commit]

theorem mem_view_rollback_self (s : State) (id : Nat) (m : Memory) :
    m ∈ ((s.versions.rollback id).view id).rows ↔ m ∈ s.versions.committed.rows := by
  rw [Versions.mem_view_of_released _ id (s.versions.release_ne id) (Function.update_self _ _ _),
    Versions.mem_committed_rollback]

theorem plain_of_ended (s : State) (good : Deduped env s) (id other : Nat) :
    ∀ c ∈ Function.update s.versions.changes id [] other, Plain c := by
  intro c inside
  rw [Function.update_apply] at inside
  split at inside
  · exact absurd inside List.not_mem_nil
  · exact good.plain other c inside

/-- A memory that another instance has inserted is still held by it after a commit. -/
theorem holds_commit (s : State) (id other : Nat) (key : DedupKey)
    (after : Holds { s with versions := s.versions.commit id } other key) : other ≠ id ∧ Holds s other key := by
  obtain ⟨m, stored, owner, live, own⟩ := after
  have different : other ≠ id := by
    rintro rfl
    exact s.versions.release_ne other _ owner
  have changes : (s.versions.commit id).changes other = s.versions.changes other :=
    Function.update_of_ne different _ _
  obtain ⟨r, inside, rfl⟩ := List.mem_map.mp stored
  have same := Versions.ident_changeRow (s.versions.changes id) (s.versions.visible id) r
  rw [same] at owner
  change s.versions.release id (r.id, r.publicId) = some other at owner
  rw [Versions.release_eq_some _ _ _ different] at owner
  have hidden : ¬ s.versions.visible id r = true := by
    rw [Versions.visible_iff, owner]
    simpa using different
  rw [changes, Table.changeRow, if_neg hidden] at live
  rw [Table.changeRow, if_neg hidden] at own
  exact ⟨different, r, inside, owner, live, own⟩

/-- The instance that commits has nothing in flight any more, and the others have what they had. -/
theorem inFlight_commit (s : State) (id : Nat) (idle : ∀ key, ¬ Awaits env s id key) (other : Nat)
    (key : DedupKey) (after : InFlight env { s with versions := s.versions.commit id } other key) :
    other ≠ id ∧ InFlight env s other key := by
  rcases after with awaits | held
  · refine ⟨?_, Or.inl awaits⟩
    rintro rfl
    exact idle key awaits
  · exact ⟨(holds_commit s id other key held).1, Or.inr (holds_commit s id other key held).2⟩

/-- The other instance, or the one that commits, has seen each row that is visible after a commit, or both
have; a row that only one of them has seen is in flight there. -/
theorem origin_commit (s : State) (good : Deduped env s) (id other : Nat) (different : other ≠ id) (m : Memory)
    (seen : m ∈ ((s.versions.commit id).view other).rows) (live : m.live = true) :
    (Mirrors (s.versions.view other).rows m ∧ ∀ key, m.dedupKey = some key → InFlight env s other key) ∨
      (Mirrors (s.versions.view other).rows m ∧ Mirrors (s.versions.view id).rows m) ∨
      Mirrors (s.versions.view id).rows m ∧ ∀ key, m.dedupKey = some key → InFlight env s id key := by
  rcases Versions.mem_view_commit s.versions id other different m seen with
    ⟨r, stored, owner, rfl⟩ | ⟨r, stored, owner, rfl⟩
  · have kept := plain_applyAll (s.versions.changes other) (good.plain other) r
    left
    refine ⟨⟨_, (Versions.mem_view _ _ _).mpr ⟨r, stored, Or.inr owner, rfl⟩, live, rfl, rfl⟩, ?_⟩
    intro key own
    exact Or.inr ⟨r, stored, owner, live, kept.1 ▸ own⟩
  · have first := plain_applyAll (s.versions.changes id) (good.plain id) r
    have second := plain_applyAll (s.versions.changes other) (good.plain other)
      (applyAll (s.versions.changes id) r)
    have published : Mirrors (s.versions.view id).rows
        (applyAll (s.versions.changes other) (applyAll (s.versions.changes id) r)) :=
      ⟨_, (Versions.mem_view _ _ _).mpr ⟨r, stored, owner, rfl⟩, second.2 live, second.1.symm,
        (id_applyAll _ _).symm⟩
    right
    rcases owner with none | own
    · left
      have direct := plain_applyAll (s.versions.changes other) (good.plain other) r
      have same : ((applyAll (s.versions.changes id) r).id, (applyAll (s.versions.changes id) r).publicId) =
          (r.id, r.publicId) := ident_applyAll (s.versions.changes id) r
      refine ⟨⟨_, (Versions.mem_view _ _ _).mpr ⟨r, stored, Or.inl none, rfl⟩, ?_, ?_, ?_⟩, published⟩
      · exact live_applyAll _ (good.plain other) _ r same first.2 live
      · rw [second.1, first.1, direct.1]
      · rw [id_applyAll, id_applyAll, id_applyAll]
    · right
      refine ⟨published, fun key same => Or.inr ⟨r, stored, own, second.2 live, ?_⟩⟩
      rw [← same, second.1, first.1]

/-- No other instance sees two live memories with one fingerprint after a commit. -/
theorem unique_view_commit (s : State) (good : Deduped env s) (id other : Nat) (different : other ≠ id) :
    Unique ((s.versions.commit id).view other).rows := by
  intro m inside m' inside' live live' key own own'
  have apart (flies : InFlight env s other key) (flies' : InFlight env s id key) :
      m.id = m'.id := absurd (good.alone other id key flies flies') different
  have seen := id_eq_of_mirrors _ (good.views other) m m'
  have published := id_eq_of_mirrors _ (good.views id) m m'
  rcases origin_commit s good id other different m inside live with
    ⟨one, flies⟩ | ⟨one, two⟩ | ⟨two, flies⟩ <;>
  rcases origin_commit s good id other different m' inside' live' with
    ⟨one', flies'⟩ | ⟨one', two'⟩ | ⟨two', flies'⟩
  · exact seen one one' key own own'
  · exact seen one one' key own own'
  · exact apart (flies key own) (flies' key own')
  · exact seen one one' key own own'
  · exact seen one one' key own own'
  · exact published two two' key own own'
  · exact apart (flies' key own') (flies key own)
  · exact published two two' key own own'
  · exact published two two' key own own'

/-- What a commit publishes meets no memory of an instance that is about to add one. -/
theorem deduped_commit (s : State) (good : Deduped env s) (id : Nat)
    (idle : ∀ key, ¬ Awaits env s id key) :
    Deduped env { s with versions := s.versions.commit id } where
  plain := plain_of_ended s good id
  committed := by
    change Unique (s.versions.commit id).committed.rows
    rw [Versions.rows_committed_commit]
    exact good.views id
  views other := by
    by_cases same : other = id
    · subst same
      intro m inside m' inside' live live' key own own'
      exact good.views other m ((mem_view_commit_self s other m).mp inside) m'
        ((mem_view_commit_self s other m').mp inside') live live' key own own'
    · exact unique_view_commit s good id other same
  missed := by
    intro other key awaits m inside live own
    by_cases same : other = id
    · subst same
      exact idle key awaits
    · have unseen : ¬ Mirrors (s.versions.view other).rows m := by
        rintro ⟨r, stored, alive, equal, _⟩
        exact good.missed other key awaits r stored alive (equal.trans own)
      rcases origin_commit s good id other same m inside live with ⟨one, _⟩ | ⟨one, _⟩ | ⟨_, flies⟩
      · exact unseen one
      · exact unseen one
      · exact same (good.alone other id key (Or.inl awaits) (flies key own))
  alone one two key first second :=
    good.alone one two key (inFlight_commit s id idle one key first).2 (inFlight_commit s id idle two key second).2

/-- A rollback takes back what only its instance has seen. -/
theorem deduped_rollback (s : State) (good : Deduped env s) (id : Nat) :
    Deduped env (s.rollback id) := by
  have awaits (other : Nat) (key : DedupKey) (after : Awaits env (s.rollback id) other key) :
      other ≠ id ∧ Awaits env s other key := by
    obtain ⟨i, w, current, pending, own⟩ := after
    change Function.update s.instances id none other = some i at current
    rw [Function.update_apply] at current
    split at current
    · exact absurd current (Option.some_ne_none i).symm
    · rename_i different
      exact ⟨different, i, w, current, pending, own⟩
  have flight (other : Nat) (key : DedupKey) (after : InFlight env (s.rollback id) other key) :
      InFlight env s other key := by
    rcases after with waiting | ⟨m, stored, owner, live, own⟩
    · exact Or.inl (awaits other key waiting).2
    · have different : other ≠ id := by
        rintro rfl
        exact s.versions.release_ne other _ owner
      change s.versions.release id (m.id, m.publicId) = some other at owner
      rw [Versions.release_eq_some _ _ _ different] at owner
      have changes : (s.rollback id).versions.changes other = s.versions.changes other :=
        Function.update_of_ne different _ _
      rw [changes] at live
      exact Or.inr ⟨m, ((Versions.mem_heap_rollback s.versions id m).mp stored).1, owner, live, own⟩
  exact
    { plain := plain_of_ended s good id
      committed := unique_of_mirrors _ _ good.committed fun m inside live =>
        ⟨m, (Versions.mem_committed_rollback s.versions id m).mp inside, live, rfl, rfl⟩
      views := by
        intro other
        by_cases same : other = id
        · subst same
          exact unique_of_mirrors _ _ good.committed fun m inside live =>
            ⟨m, (mem_view_rollback_self s other m).mp inside, live, rfl, rfl⟩
        · exact unique_of_mirrors _ _ (good.views other) fun m inside live =>
            ⟨m, (Versions.mem_view_rollback s.versions id other same m).mp inside, live, rfl, rfl⟩
      missed := by
        intro other key waiting m inside
        obtain ⟨different, before⟩ := awaits other key waiting
        exact good.missed other key before m
          ((Versions.mem_view_rollback s.versions id other different m).mp inside)
      alone := fun one two key first second => good.alone one two key (flight one key first)
        (flight two key second) }

/-- An instance that is between two calls awaits no insert. -/
theorem not_awaits (s : State) (id : Nat) (i : Instance) (current : s.instances id = some i)
    (idle : i.phase.pending = none) (key : DedupKey) : ¬ Awaits env s id key := by
  rintro ⟨i', w, current', pending, _⟩
  rw [current, Option.some.injEq] at current'
  rw [← current', idle] at pending
  exact absurd pending (Option.some_ne_none w).symm

/-- A write that misses its fingerprint sees no live memory with it. -/
theorem absent_of_missing (dedup : env.settings.dedupOnWrite = true) (p : Principal) (db : Database)
    (payload : CreateMemoryInput)
    (missing : duplicateOf env p db payload.scope (screen env payload) false = none) (m : Memory)
    (inside : m ∈ db.memories.rows) (live : m.live = true) :
    m.dedupKey ≠ some (writeKey env p payload) := by
  intro own
  obtain ⟨hash, stored, same⟩ := Option.map_eq_some_iff.mp own
  simp only [writeKey, Prod.mk.injEq] at same
  obtain ⟨org, type, scope, rfl⟩ := same
  simp only [duplicateOf, fingerprint, dedup, Bool.false_eq_true, if_false, if_true,
    Option.bind_some] at missing
  have visible : m ∈ MemoryRepo.liveRows p db :=
    (MemoryRepo.mem_liveRows p db m).mpr ⟨inside, Or.inr org, live⟩
  exact findByContentHash_none p db _ _ missing m visible (by simp [Memory.inScope, type, scope]) stored

theorem deduped_step (dedup : env.settings.dedupOnWrite = true) (s : State) (e : Event)
    (good : Deduped env s) (unforced : Unforced e) (clear : LooksUpAlone env s e) :
    Deduped env (step env s e) := by
  have effect := effect_step env s e
  generalize step env s e = s' at effect
  cases effect with
  | stays => exact good
  | rolledBack _ id => exact deduped_rollback s good id
  | begun id principal closed =>
      apply deduped_setInstance s good id
      intro w pending
      exact absurd pending (Option.some_ne_none w).symm
  | passed _ id i i' current passes idle =>
      apply deduped_setInstance s good id
      intro w pending
      rw [idle] at pending
      exact absurd pending (Option.some_ne_none w).symm
  | missed id i i' context payload embed force w current ready passes phase own missing =>
      have forced : force = false := unforced
      subst forced own
      apply deduped_setInstance s good id
      intro w' pending
      rw [phase, Phase.pending, Option.some.injEq] at pending
      rw [← pending, passes.principal]
      exact ⟨absent_of_missing dedup i.principal (s.seen id) w.payload missing,
        clear i current ready missing⟩
  | counted id i i' w current phase next principal quota =>
      have awaits : Awaits env s id (writeKey env i.principal w.payload) :=
        ⟨i, w, current, by rw [phase]; rfl, rfl⟩
      apply deduped_setInstance s good id
      intro w' pending
      rw [next, Phase.pending, Option.some.injEq] at pending
      rw [← pending, principal]
      refine ⟨good.missed id _ awaits, fun other different flies => ?_⟩
      exact different (good.alone other id _ flies (Or.inl awaits))
  | changed _ id i c current idle plain =>
      apply deduped_setInstance _ (deduped_change s good id c plain) id
      intro w pending
      exact absurd pending (Option.some_ne_none w).symm
  | inserted id i w row heap current phase grows fresh orgId scopeType scopeId hash live =>
      have awaits : Awaits env s id (writeKey env i.principal w.payload) :=
        ⟨i, w, current, by rw [phase]; rfl, rfl⟩
      have own : row.dedupKey = some (writeKey env i.principal w.payload) := by
        simp only [Memory.dedupKey, hash, fingerprint, dedup, if_true, Option.map_some, orgId, scopeType,
          scopeId, writeKey]
      have ready := deduped_setInstance s good id { i with phase := .ready } (by
        intro w pending
        exact absurd pending (Option.some_ne_none w).symm)
      have flies (other : Nat) (key : DedupKey)
          (after : InFlight env (s.setInstance id { i with phase := .ready }) other key) :
          InFlight env s other key := by
        rcases after with waiting | holds
        · rcases (awaits_setInstance s id other _ key).mp waiting with ⟨_, w, pending, _⟩ | ⟨_, before⟩
          · exact absurd pending (Option.some_ne_none w).symm
          · exact Or.inl before
        · exact Or.inr holds
      apply deduped_insert (s.setInstance id { i with phase := .ready }) ready id heap row grows fresh
      · exact not_awaits _ id { i with phase := .ready } (by simp [State.setInstance]) rfl
      · intro m inside alive key same
        rw [own, Option.some.injEq] at same
        rw [← same]
        exact good.missed id _ awaits m inside alive
      · intro key same other different flying
        rw [own, Option.some.injEq] at same
        rw [← same] at flying
        exact different (good.alone other id _ (flies other _ flying) (Or.inl awaits))
  | committed id i current ready =>
      exact deduped_commit s good id (not_awaits s id i current (by rw [ready]; rfl))

theorem deduped_start (db : Database) (unique : Unique db.memories.rows) :
    Deduped env (start db) where
  plain _ _ inside := absurd inside List.not_mem_nil
  committed := unique_of_mirrors _ _ unique fun m inside live =>
    ⟨m, ((Versions.mem_committed _ m).mp inside).1, live, rfl, rfl⟩
  views id := unique_of_mirrors _ _ unique fun m inside live => by
    obtain ⟨r, stored, _, rfl⟩ := (Versions.mem_view _ _ m).mp inside
    exact ⟨r, stored, live, rfl, rfl⟩
  missed := by
    rintro id key ⟨i, w, current, _⟩
    exact absurd current (Option.some_ne_none i).symm
  alone := by
    intro one two key first
    rcases first with ⟨i, w, current, _⟩ | ⟨m, _, owner, _⟩
    · exact absurd current (Option.some_ne_none i).symm
    · exact absurd owner (Option.some_ne_none one).symm

/-- Unforced writes and deletes that run at the same time leave at most one live memory for each
fingerprint in every committed state, in every run where no write misses its fingerprint while
another instance is about to add a memory with it. -/
theorem unique_run (dedup : env.settings.dedupOnWrite = true) (db : Database)
    (unique : Unique db.memories.rows) (events : List Event) (unforced : ∀ e ∈ events, Unforced e)
    (clear : Run.Each (step env) (LooksUpAlone env) (start db) events) :
    Run.Always (step env) (fun s => Unique s.committed.memories.rows) (start db) events := by
  have always := Run.always_of_each (P := Deduped env)
    (fun s e good given => deduped_step dedup s e good given.1 given.2) (deduped_start db unique)
    (clear.and_forall unforced)
  exact always.imp fun _ good => good.committed

/-- A text is stored, and the write that repeats it folds. -/
def repeatedWrite : List Event :=
  [.begin 0 sampleOwner] ++ storingWrite 0 1 "x" ++ [.commit 0, .begin 1 sampleOwner,
    .lookUp 1 { now := 2, newPublicId := 2 } { scope := sampleScope, body := "x" } false false, .fold 1,
    .commit 1]

theorem unique_run_repeated : (∀ e ∈ repeatedWrite, Unforced e) ∧
    Run.Each (step sampleEnvironment) (LooksUpAlone sampleEnvironment) (start {}) repeatedWrite ∧
    Run.Always (step sampleEnvironment) (fun s => Unique s.committed.memories.rows) (start {})
      repeatedWrite := by
  have empty : Unique (Database.memories {}).rows := by
    intro m inside
    exact absurd inside List.not_mem_nil
  have unforced : ∀ e ∈ repeatedWrite, Unforced e := by
    simp [repeatedWrite, storingWrite, Unforced]
  have clear : Run.Each (step sampleEnvironment) (LooksUpAlone sampleEnvironment) (start {})
      repeatedWrite := by
    refine ⟨trivial, ?_, trivial, trivial, trivial, trivial, ?_, trivial, trivial, trivial⟩
    · intro i _ _ _ other different flies
      rcases flies with ⟨i', w, current, _⟩ | ⟨m, stored, _⟩
      · change Function.update (fun _ => none) 0 _ other = some i' at current
        rw [Function.update_of_ne different] at current
        exact absurd current (Option.some_ne_none i').symm
      · exact absurd stored List.not_mem_nil
    · intro i current _ missing
      cases Option.some.inj current
      exact absurd missing (by decide +kernel)
  exact ⟨unforced, clear, unique_run rfl {} empty repeatedWrite unforced clear⟩

/-- Two writes of one text look up its fingerprint before either inserts its memory. -/
def racingWrites : List Event :=
  [.begin 0 sampleOwner, .begin 1 sampleOwner] ++ (storingWrite 0 1 "x").take 1 ++
    storingWrite 1 2 "x" ++ (storingWrite 0 1 "x").drop 1 ++ [.commit 0, .commit 1]

/-- This is the fingerprint of both writes. -/
def racingKey : DedupKey := writeKey sampleEnvironment sampleOwner { scope := sampleScope, body := "x" }

theorem racingWrites_rows :
    (Run.final (step sampleEnvironment) (start {}) racingWrites).committed.memories.rows.map
      (fun m => (m.id, m.live)) = [(1, true), (2, true)] := by decide +kernel

theorem racingWrites_keys :
    (Run.final (step sampleEnvironment) (start {}) racingWrites).committed.memories.rows.map
      Memory.dedupKey = [some racingKey, some racingKey] := by decide +kernel

theorem racing_writes_duplicate :
    ¬ ∀ (env : Environment) (events : List Event), env.settings.dedupOnWrite = true →
      (∀ e ∈ events, Unforced e) →
        Run.Always (step env) (fun s => Unique s.committed.memories.rows) (start {}) events := by
  intro claim
  have unforced : ∀ e ∈ racingWrites, Unforced e := by
    simp [racingWrites, storingWrite, Unforced]
  have final := (claim sampleEnvironment racingWrites rfl unforced).final
  have one : (1, true) ∈ _ := racingWrites_rows ▸ List.mem_cons_self
  have two : (2, true) ∈ _ := racingWrites_rows ▸ List.mem_cons_of_mem _ (List.mem_singleton_self _)
  obtain ⟨m, inside, first⟩ := List.mem_map.mp one
  obtain ⟨m', inside', second⟩ := List.mem_map.mp two
  have key (m : Memory) (stored : m ∈ (Run.final (step sampleEnvironment) (start {})
      racingWrites).committed.memories.rows) : m.dedupKey = some racingKey := by
    have among := List.mem_map_of_mem (f := Memory.dedupKey) stored
    rw [racingWrites_keys] at among
    simpa using among
  have same := final m inside m' inside' (Prod.mk.inj first).2 (Prod.mk.inj second).2 racingKey
    (key m inside) (key m' inside')
  rw [(Prod.mk.inj first).1, (Prod.mk.inj second).1] at same
  exact absurd same (by decide)

end WriteSessions
end Kortex
