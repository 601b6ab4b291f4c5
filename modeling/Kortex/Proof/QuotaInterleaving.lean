import Kortex.Proof.WriteSessions

/-
This file proves when concurrent writes keep an org within the memories of its plan.
-/

namespace Kortex.WriteSessions

open MemoryService RowChange

variable (env : Environment) (org : Nat)

/-- The memory counts for the plan of the org. -/
def counts (m : Memory) : Bool := m.orgId == org && m.live

/-- These are the live memories of the org, committed or inserted by an open transaction. -/
def stored (s : State) : Nat := (s.versions.heap.rows.filter (counts org)).length

/-- This is the cap of the plan of the org. -/
def cap (base : Database) : Int := maxMemories (((base.orgs.find? fun o =>
  o.id == org && o.deletedAt.isNone).map Org.plan).getD "free")

/-- An instance that inserts a memory has a count, with this memory, that covers all memories of the
org; or there is room for the memory all the same. -/
def CountsAll (s : State) : Event → Prop
  | .insert id => ∀ i w, s.instances id = some i → i.phase = .counted w → i.principal.orgId = org →
      (∃ n, i.service.memCount = some n ∧ stored org s < n) ∨ (stored org s : Int) < cap org s.base
  | _ => True

/-- The memories of the org, committed or not, are within the cap, and so are the counts of the
instances. -/
structure Capped (s : State) : Prop where
  plain : ∀ id, ∀ c ∈ s.versions.changes id, Plain c
  within : (stored org s : Int) ≤ cap org s.base
  plans : ∀ id i, s.instances id = some i → i.principal.orgId = org →
    ∀ plan, i.service.orgPlan = some plan → maxMemories plan = cap org s.base
  counted : ∀ id i, s.instances id = some i → i.principal.orgId = org →
    ∀ n, i.service.memCount = some n → (n : Int) ≤ cap org s.base

theorem maxMemories_nonneg (plan : Str) : 0 ≤ maxMemories plan := by
  unfold maxMemories
  split
  · omega
  · split <;> omega

/-- The check reads the cap of the plan, and passes when the count is below it. -/
theorem enforceMemoryQuota_ok (p : Principal) (db : Database) (service service' : ServiceCache)
    (same : p.orgId = org) (plans : ∀ plan, service.orgPlan = some plan → maxMemories plan = cap org db)
    (done : enforceMemoryQuota p db service = .ok service') :
    (∀ plan, service'.orgPlan = some plan → maxMemories plan = cap org db) ∧
      service'.memCount = some (service.memCount.getD (MemoryRepo.countForOrg db org) + 1) ∧
      (service.memCount.getD (MemoryRepo.countForOrg db org) : Int) < cap org db := by
  have plan : maxMemories (orgPlan p db service) = cap org db := by
    unfold orgPlan
    cases cached : service.orgPlan with
    | none => rw [← same]; rfl
    | some plan => exact plans plan cached
  have positive := maxMemories_nonneg (orgPlan p db service)
  simp only [enforceMemoryQuota, same] at done
  rw [if_neg (by omega)] at done
  split at done
  · exact absurd done (by simp)
  · rename_i below
    cases done
    refine ⟨fun plan' cached => ?_, rfl, by omega⟩
    rw [← Option.some.inj cached]
    exact plan

variable {org}

theorem counts_applyAll (changes : List MemoryChange) (plain : ∀ c ∈ changes, Plain c) (m : Memory)
    (after : counts org (applyAll changes m) = true) : counts org m = true := by
  have kept := rel_applyAll (R := fun a b : Memory => b.orgId = a.orgId ∧ (b.live = true → a.live = true))
    changes (fun _ => ⟨rfl, fun live => live⟩)
    (fun _ _ _ first second => ⟨second.1.trans first.1, fun live => first.2 (second.2 live)⟩)
    (fun c inside m => ⟨(plain c inside).orgId m, (plain c inside).live m⟩) m
  simp only [counts, Bool.and_eq_true, beq_iff_eq] at after ⊢
  exact ⟨kept.1 ▸ after.1, kept.2 after.2⟩

variable (org) in
/-- A commit adds no memory to those that are stored. -/
theorem stored_commit (s : State) (id : Nat) (plain : ∀ c ∈ s.versions.changes id, Plain c) :
    stored org { s with versions := s.versions.commit id } ≤ stored org s := by
  have rows : (s.versions.commit id).heap.rows =
      s.versions.heap.rows.map (Table.changeRow (s.versions.visible id)
        (applyAll (s.versions.changes id))) := rfl
  unfold stored
  rw [rows, List.filter_map, List.length_map, ← List.countP_eq_length_filter,
    ← List.countP_eq_length_filter]
  apply List.countP_mono_left
  intro m _ after
  simp only [Function.comp_apply, Table.changeRow] at after
  split at after
  · exact counts_applyAll _ plain m after
  · exact after

variable (org) in
theorem stored_rollback (s : State) (id : Nat) : stored org (s.rollback id) ≤ stored org s := by
  unfold stored
  apply List.Sublist.length_le
  exact List.filter_sublist.filter _

theorem stored_insert (s : State) (id : Nat) (heap : MemoryTable) (row : Memory)
    (grows : heap.rows = s.versions.heap.rows ++ [row]) :
    stored org { s with versions := s.versions.insert id heap row } =
      stored org s + if counts org row = true then 1 else 0 := by
  change (heap.rows.filter (counts org)).length = _
  rw [grows, List.filter_append, List.length_append, List.filter_singleton]
  unfold stored
  cases counts org row <;> rfl

variable (org) in
/-- What is committed is stored. -/
theorem countForOrg_committed_le (s : State) :
    MemoryRepo.countForOrg s.committed org ≤ stored org s := by
  unfold stored
  apply List.Sublist.length_le
  exact List.filter_sublist.filter _

theorem capped_setInstance (s : State) (good : Capped org s) (id : Nat) (i : Instance)
    (plans : i.principal.orgId = org → ∀ plan, i.service.orgPlan = some plan →
      maxMemories plan = cap org s.base)
    (counted : i.principal.orgId = org → ∀ n, i.service.memCount = some n →
      (n : Int) ≤ cap org s.base) :
    Capped org (s.setInstance id i) := by
  have found (other : Nat) (i' : Instance) (current : (s.setInstance id i).instances other = some i') :
      i' = i ∨ s.instances other = some i' := by
    change Function.update s.instances id (some i) other = some i' at current
    rw [Function.update_apply] at current
    split at current
    · exact Or.inl (Option.some.inj current).symm
    · exact Or.inr current
  exact
    { good with
      plans := by
        intro other i' current same
        rcases found other i' current with rfl | before
        · exact plans same
        · exact good.plans other i' before same
      counted := by
        intro other i' current same
        rcases found other i' current with rfl | before
        · exact counted same
        · exact good.counted other i' before same }

theorem plain_of_update (s : State) (good : Capped org s) (id : Nat) (changes : List MemoryChange)
    (plain : ∀ c ∈ changes, Plain c) (other : Nat) :
    ∀ c ∈ Function.update s.versions.changes id changes other, Plain c := by
  rw [Function.update_apply]
  split
  · exact plain
  · exact good.plain other

theorem capped_rollback (s : State) (good : Capped org s) (id : Nat) : Capped org (s.rollback id) := by
  have before (other : Nat) (i : Instance) (current : (s.rollback id).instances other = some i) :
      s.instances other = some i := by
    change Function.update s.instances id none other = some i at current
    rw [Function.update_apply] at current
    split at current
    · exact absurd current (Option.some_ne_none i).symm
    · exact current
  have fewer := stored_rollback org s id
  exact
    { plain := plain_of_update s good id [] (fun c inside => absurd inside List.not_mem_nil)
      within := (Int.ofNat_le.mpr fewer).trans good.within
      plans := fun other i current => good.plans other i (before other i current)
      counted := fun other i current => good.counted other i (before other i current) }

theorem capped_step (s : State) (e : Event) (good : Capped org s) (clear : CountsAll org s e) :
    Capped org (step env s e) := by
  have effect := effect_step env s e
  generalize step env s e = s' at effect
  cases effect with
  | stays => exact good
  | rolledBack _ id => exact capped_rollback s good id
  | begun id principal closed =>
      apply capped_setInstance s good id
      · exact fun _ plan cached => absurd cached (Option.some_ne_none plan).symm
      · exact fun _ n cached => absurd cached (Option.some_ne_none n).symm
  | passed _ id i i' current passes idle =>
      apply capped_setInstance s good id
      · rw [passes.principal, passes.orgPlan]
        exact good.plans id i current
      · rw [passes.principal, passes.memCount]
        exact good.counted id i current
  | missed id i i' context payload embed force w current ready passes phase own missing =>
      apply capped_setInstance s good id
      · rw [passes.principal, passes.orgPlan]
        exact good.plans id i current
      · rw [passes.principal, passes.memCount]
        exact good.counted id i current
  | counted id i i' w current phase next principal quota =>
      have checked (same : i.principal.orgId = org) := enforceMemoryQuota_ok org i.principal (s.seen id)
        i.service i'.service same (good.plans id i current same) quota
      apply capped_setInstance s good id
      · rw [principal]
        exact fun same => (checked same).1
      · rw [principal]
        intro same n count
        obtain ⟨_, stored, below⟩ := checked same
        rw [stored, Option.some.injEq] at count
        change _ < cap org s.base at below
        omega
  | changed _ id i c current idle plain =>
      have changed : Capped org { s with versions := s.versions.change id c } :=
        { good with
          plain := plain_of_update s good id _ (by
            intro c' inside
            rcases List.mem_append.mp inside with earlier | last
            · exact good.plain id c' earlier
            · rw [List.mem_singleton.mp last]
              exact plain) }
      exact capped_setInstance _ changed id { i with phase := .ready } (good.plans id i current)
        (good.counted id i current)
  | inserted id i w row heap current phase grows fresh orgId scopeType scopeId hash live =>
      have room : (stored org { s with versions := s.versions.insert id heap row } : Int) ≤
          cap org s.base := by
        rw [stored_insert s id heap row grows]
        have within := good.within
        split
        · rename_i counted
          have same : i.principal.orgId = org := by
            simp only [counts, Bool.and_eq_true, beq_iff_eq] at counted
            rw [← orgId]
            exact counted.1
          rcases clear i w current phase same with ⟨n, count, covered⟩ | below
          · have bound := good.counted id i current same n count
            omega
          · omega
        · omega
      have inserted : Capped org { s with versions := s.versions.insert id heap row } :=
        { good with within := room }
      exact capped_setInstance _ inserted id { i with phase := .ready } (good.plans id i current)
        (good.counted id i current)
  | committed id i current ready =>
      have fewer := stored_commit org s id (good.plain id)
      exact
        { good with
          plain := plain_of_update s good id [] (fun c inside => absurd inside List.not_mem_nil)
          within := (Int.ofNat_le.mpr fewer).trans good.within }

theorem base_step (s : State) (e : Event) : (step env s e).base = s.base := by
  have effect := effect_step env s e
  generalize step env s e = s' at effect
  cases effect <;> rfl

variable (org)

theorem capped_start (db : Database) (room : (MemoryRepo.countForOrg db org : Int) ≤ cap org db) :
    Capped org (start db) where
  plain _ _ inside := absurd inside List.not_mem_nil
  within := room
  plans _ i current := absurd current (Option.some_ne_none i).symm
  counted _ i current := absurd current (Option.some_ne_none i).symm

def fillingRow (k : Nat) : Memory :=
  { newRow sampleEnvironment sampleOwner { now := 0, newPublicId := BitVec.ofNat 128 (k + 1) }
      { scope := sampleScope, body := Str.ofInt k }
      { title := [], body := Str.ofInt k, sensitivity := .internal } { status := .approved }
      defaultTsConfig none with
    id := k + 1 }

/-- One org has stored a number of memories. -/
def filling (n : Nat) (small : n < 2 ^ 128) : Database where
  memories := ⟨(List.range n).map fillingRow, by
    apply List.pairwise_map.mpr
    apply List.pairwise_lt_range.imp_of_mem
    intro k k' inside inside' less
    have bound := List.mem_range.mp inside'
    refine ⟨Nat.succ_lt_succ less, fun same => ?_⟩
    have equal := publicId_inj _ _ (by omega) (by omega) same
    omega⟩

theorem countForOrg_filling (n : Nat) (small : n < 2 ^ 128) :
    MemoryRepo.countForOrg (filling n small) 1 = n := by
  have all : ((List.range n).map fillingRow).filter (counts 1) = (List.range n).map fillingRow := by
    apply List.filter_eq_self.mpr
    intro m inside
    obtain ⟨k, _, rfl⟩ := List.mem_map.mp inside
    rfl
  change (((List.range n).map fillingRow).filter (counts 1)).length = n
  rw [all, List.length_map, List.length_range]

theorem publicId_filling (n : Nat) (small : n < 2 ^ 128) (m : Memory)
    (stored : m ∈ (filling n small).memories.rows) : ∃ k < n, m.publicId = BitVec.ofNat 128 (k + 1) := by
  obtain ⟨k, inside, rfl⟩ := List.mem_map.mp stored
  exact ⟨k, List.mem_range.mp inside, rfl⟩

/-- This is a forced write of one text. -/
def forcedWrite (id : Nat) : Event :=
  .lookUp id { now := 1, newPublicId := BitVec.ofNat 128 (25000 + id) }
    { scope := sampleScope, body := "x" } false true

/-- Two instances count the memories before either inserts its own. -/
def racingInserts : List Event :=
  [.begin 0 sampleOwner, .begin 1 sampleOwner, forcedWrite 0, forcedWrite 1, .enforceQuota 0,
    .enforceQuota 1, .insert 0, .insert 1, .commit 0, .commit 1]

/-- This is a forced write after its lookup. -/
def forcedPhase (id : Nat) : PendingWrite :=
  ⟨{ now := 1, newPublicId := BitVec.ofNat 128 (25000 + id) }, { scope := sampleScope, body := "x" }, false,
    (.off, defaultTsConfig)⟩

theorem countForOrg_view (s : State) (id org : Nat)
    (closed : s.versions = Versions.ofTable s.base.memories) :
    MemoryRepo.countForOrg (s.seen id) org = MemoryRepo.countForOrg s.base org := by
  have all : s.base.memories.rows.filter ((Versions.ofTable s.base.memories).visible id) =
      s.base.memories.rows := List.filter_eq_self.mpr fun _ _ => rfl
  have rows : (s.versions.view id).rows = s.base.memories.rows := by
    rw [Versions.rows_view, closed]
    change (s.base.memories.rows.filter ((Versions.ofTable s.base.memories).visible id)).map
      (fun m => m) = _
    rw [List.map_id', all]
  change ((s.versions.view id).rows.filter _).length = _
  rw [rows]
  rfl

theorem enforceMemoryQuota_free (db : Database) (free : db.orgs = [])
    (room : MemoryRepo.countForOrg db 1 = 24999) :
    enforceMemoryQuota sampleOwner db {} = .ok { orgPlan := some "free", memCount := some 25000 } := by
  have plan : orgPlan sampleOwner db {} = "free" := by
    unfold orgPlan
    rw [free]
    rfl
  have cap : maxMemories "free" = 25000 := by decide
  simp only [enforceMemoryQuota, plan, cap]
  rw [if_neg (by omega)]
  change (if (25000 : Int) ≤ (MemoryRepo.countForOrg db 1 : Nat) then _ else _) = _
  rw [room, if_neg (by omega)]
  change Except.ok (ServiceCache.mk _ (some (MemoryRepo.countForOrg db 1 + 1)) _) = _
  rw [room]

theorem storable_forced : ∀ id < 2, (newRow sampleEnvironment sampleOwner (forcedPhase id).context
    (forcedPhase id).payload (screen sampleEnvironment (forcedPhase id).payload)
    (reviewDecision sampleEnvironment (forcedPhase id).payload
      (screen sampleEnvironment (forcedPhase id).payload) .off) defaultTsConfig none).storable = true := by
  decide +kernel

/-- A transaction that has changed no row commits what is stored. -/
theorem stored_commit_of_unchanged (s : State) (id org : Nat) (unchanged : s.versions.changes id = []) :
    stored org { s with versions := s.versions.commit id } = stored org s := by
  have same (m : Memory) : Table.changeRow (s.versions.visible id) (applyAll (s.versions.changes id)) m =
      m := by
    rw [Table.changeRow, unchanged, applyAll_nil, ite_self]
  have rows : (s.versions.commit id).heap.rows = s.versions.heap.rows := by
    change s.versions.heap.rows.map (Table.changeRow _ _) = _
    rw [funext same, List.map_id']
  unfold stored
  rw [rows]

/-- Once every transaction has ended, what is stored is committed. -/
theorem countForOrg_committed (s : State) (org : Nat) (ended : ∀ i, s.versions.owner i = none) :
    MemoryRepo.countForOrg s.committed org = stored org s := by
  have rows : s.versions.committed.rows = s.versions.heap.rows := by
    apply List.filter_eq_self.mpr
    intro m _
    change (!(s.versions.owner (m.id, m.publicId)).isSome) = true
    rw [ended]
    rfl
  change (s.versions.committed.rows.filter _).length = _
  rw [rows]
  rfl

/-- An instance that has counted stores its memory. -/
theorem insert_forced (s : State) (id : Nat) (valid : id < 2) (service : ServiceCache)
    (current : s.instances id = some ⟨sampleOwner, service, .counted (forcedPhase id)⟩)
    (fresh : ∀ m ∈ s.versions.heap.rows, m.publicId ≠ (forcedPhase id).context.newPublicId) :
    ∃ heap row, heap.rows = s.versions.heap.rows ++ [row] ∧
      row.publicId = (forcedPhase id).context.newPublicId ∧
      step sampleEnvironment s (.insert id) =
        { s with versions := s.versions.insert id heap row }.setInstance id
          ⟨sampleOwner, service, .ready⟩ ∧
      stored 1 (step sampleEnvironment s (.insert id)) = stored 1 s + 1 := by
  obtain ⟨heap, row, grows, orgId, live, own, inserted⟩ := step_insert sampleEnvironment none current rfl
    rfl fresh (storable_forced id valid)
  refine ⟨heap, row, grows, own, inserted, ?_⟩
  rw [inserted]
  change stored 1 { s with versions := s.versions.insert id heap row } = _
  rw [stored_insert s id heap row grows, if_pos]
  rw [counts, orgId, live]
  rfl

/-- Once both instances have counted, both insert and commit. -/
theorem racing_finish (s : State) (closed : s.versions = Versions.ofTable s.base.memories)
    (fresh : ∀ m ∈ s.base.memories.rows, ∀ id < 2, m.publicId ≠ (forcedPhase id).context.newPublicId)
    (service : ServiceCache)
    (counted : ∀ id < 2, s.instances id = some ⟨sampleOwner, service, .counted (forcedPhase id)⟩) :
    MemoryRepo.countForOrg (Run.final (step sampleEnvironment) s
      [.insert 0, .insert 1, .commit 0, .commit 1]).committed 1 = stored 1 s + 2 := by
  have heap : s.versions.heap.rows = s.base.memories.rows := by
    rw [closed]
    rfl
  obtain ⟨heap₀, row₀, grows₀, own₀, insert₀, stored₀⟩ := insert_forced s 0 (by omega) service
    (counted 0 (by omega)) (fun m inside => fresh m (heap ▸ inside) 0 (by omega))
  simp only [Run.final_cons, Run.final_nil]
  rw [insert₀] at stored₀ ⊢
  obtain ⟨heap₁, row₁, grows₁, own₁, insert₁, stored₁⟩ := insert_forced _ 1 (by omega) service
    (show (State.setInstance { s with versions := s.versions.insert 0 heap₀ row₀ } 0
      ⟨sampleOwner, service, .ready⟩).instances 1 = _ from counted 1 (by omega)) (by
      change ∀ m ∈ heap₀.rows, _
      rw [grows₀, heap]
      intro m inside
      rcases List.mem_append.mp inside with old | new
      · exact fresh m old 1 (by omega)
      · rw [List.mem_singleton.mp new, own₀]
        decide)
  rw [insert₁] at stored₁ ⊢
  rw [step_commit sampleEnvironment (i := ⟨sampleOwner, service, .ready⟩) rfl rfl,
    step_commit sampleEnvironment (i := ⟨sampleOwner, service, .ready⟩) rfl rfl, countForOrg_committed]
  · rw [stored_commit_of_unchanged, stored_commit_of_unchanged, stored₁, stored₀]
    · change s.versions.changes 0 = []
      rw [closed]
      rfl
    · change Function.update s.versions.changes 0 [] 1 = []
      rw [closed]
      rfl
  · intro i
    have either (owner : Option Nat) (own : owner =
        ((s.versions.insert 0 heap₀ row₀).insert 1 heap₁ row₁).owner i) :
        owner = none ∨ owner = some 0 ∨ owner = some 1 := by
      rw [own]
      simp only [Versions.insert, closed, Versions.ofTable, Function.update_apply]
      split
      · exact Or.inr (Or.inr rfl)
      · split
        · exact Or.inr (Or.inl rfl)
        · exact Or.inl rfl
    change Versions.release (Versions.commit _ 0) 1 i = none
    rw [Versions.release_eq_none]
    change Versions.release _ 0 i = none ∨ Versions.release _ 0 i = some 1
    rw [Versions.release_eq_none, Versions.release_eq_some _ 0 1 (by omega)]
    exact or_assoc.mpr (either _ rfl)

theorem racing_count (db : Database) (free : db.orgs = []) (room : MemoryRepo.countForOrg db 1 = 24999)
    (fresh : ∀ m ∈ db.memories.rows, ∀ id < 2, m.publicId ≠ (forcedPhase id).context.newPublicId) :
    MemoryRepo.countForOrg (Run.final (step sampleEnvironment) (start db) racingInserts).committed 1 =
      25001 := by
  have quota (s : State) (id : Nat) (base : s.base = db)
      (closed : s.versions = Versions.ofTable s.base.memories) :
      enforceMemoryQuota sampleOwner (s.seen id) {} =
        .ok { orgPlan := some "free", memCount := some 25000 } := by
    apply enforceMemoryQuota_free
    · change s.base.orgs = []
      rw [base, free]
    · rw [countForOrg_view s id 1 closed, base, room]
  have split : racingInserts = racingInserts.take 4 ++ racingInserts.drop 4 := rfl
  rw [split, Run.final_append]
  change MemoryRepo.countForOrg (Run.final _ (step _ (step _ _ (.enforceQuota 0))
    (.enforceQuota 1)) _).committed 1 = _
  rw [step_enforceQuota sampleEnvironment (i := ⟨sampleOwner, {}, .missed (forcedPhase 0)⟩) _ rfl rfl
      (quota _ 0 rfl rfl),
    step_enforceQuota sampleEnvironment (i := ⟨sampleOwner, {}, .missed (forcedPhase 1)⟩) _ rfl rfl
      (quota _ 1 rfl rfl)]
  refine (racing_finish _ rfl fresh { orgPlan := some "free", memCount := some 25000 } ?_).trans ?_
  · intro id valid
    rcases (by omega : id = 0 ∨ id = 1) with rfl | rfl
    · rfl
    · rfl
  · change MemoryRepo.countForOrg db 1 + 2 = 25001
    rw [room]

end Kortex.WriteSessions
