import Kortex.Library.Machine
import Kortex.Model.Decay
import Kortex.Proof.MemoryService

/-
This file proves which memories a run of the decay task covers.
-/

namespace Kortex.DecayTask

/-- These are the columns of a memory that a tick reads and writes. -/
def decayRow (m : Memory) : Decay.Row PyFloat := ⟨m.decayInputs, m.decayScore, m.live⟩

variable (numbers : Decay.Numbers PyFloat) (settings : Decay.Settings PyFloat) (t : Tick)

/-- The later row has the score and the tier that the policy assigns to the earlier one, or it is
soft-deleted where the policy says so. -/
def Evaluated (now : Instant) (median : Nat) (m m' : Memory) : Prop :=
  let decision := Decay.evaluate numbers settings m.decayInputs now median
  if decision.shouldHardDelete then m'.live = false
  else
    m'.live = true ∧ m'.decayScore = decision.newDecayScore ∧
      m'.tier = (if decision.shouldArchive then some .long else decision.newTier).getD m.tier

/-- After the tick each live memory of the org that is not pinned has been evaluated. -/
def Covers (orgId : Nat) (db : Database) : Prop :=
  ∀ m ∈ db.memories.rows, MemoryRepo.fades orgId m = true →
    ∃ median ∈ t.medianAccessCount, ∃ m' ∈ (afterTick numbers settings t orgId db).memories.rows,
      m'.id = m.id ∧ Evaluated numbers settings t.now median m m'

theorem storedRow_updateMemory (db : Database) (memoryId : Nat) (change : Memory → Memory)
    (keeps : ∀ m, ((change m).id, (change m).publicId) = (m.id, m.publicId)) (id : Nat) :
    storedRow (db.updateMemory memoryId change keeps) id =
      if id = memoryId then (storedRow db id).map change else storedRow db id := by
  rw [storedRow_update db (fun m => m.id == memoryId) change keeps _ rfl]
  cases row : storedRow db id with
  | none => simp
  | some m =>
      have same := ((storedRow_eq_some db id m).mp row).2
      by_cases chosen : id = memoryId
      · simp [Table.changeRow, same, chosen]
      · simp [Table.changeRow, same, chosen]

/-- This is what a decision makes of a row. -/
def decided (writtenAt : Instant) (decision : Decay.Decision PyFloat) (m : Memory) : Memory :=
  if decision.shouldHardDelete then m.softDeleted writtenAt
  else m.decayed writtenAt decision.newDecayScore
    (if decision.shouldArchive then some .long else decision.newTier)

theorem decided_ident (writtenAt : Instant) (decision : Decay.Decision PyFloat) (m : Memory) :
    ((decided writtenAt decision m).id, (decided writtenAt decision m).publicId) =
      (m.id, m.publicId) := by
  rw [decided]
  split <;> rfl

theorem decayRow_decided (writtenAt : Instant) (decision : Decay.Decision PyFloat) (m : Memory) :
    decayRow (decided writtenAt decision m) = (decayRow m).decided decision := by
  rw [decided, Decay.Row.decided]
  split <;> rfl

/-- A round of the loop writes one row. -/
theorem tickRow_database (median : Nat) (state : Counts × Database) (m : Memory) :
    (tickRow numbers settings t median state m).2 = state.2.updateMemory m.id
      (decided (t.writtenAt m) (Decay.evaluate numbers settings m.decayInputs t.now median))
      (decided_ident _ _) := by
  generalize made : Decay.evaluate numbers settings m.decayInputs t.now median = decision
  obtain ⟨counts, db⟩ := state
  obtain ⟨score, newTier, shouldHardDelete, shouldArchive⟩ := decision
  simp only [tickRow, made]
  cases shouldHardDelete with
  | true => rfl
  | false =>
      cases shouldArchive with
      | true => rfl
      | false => rfl

/-- A round of the loop makes of the row with the id of its memory what the policy decides. -/
theorem cells_tickRow (median : Nat) : Cells (fun _ => True)
    (fun (state : Counts × Database) => storedRow state.2) (tickRow numbers settings t median) Memory.id
    fun m => Option.map
      (decided (t.writtenAt m) (Decay.evaluate numbers settings m.decayInputs t.now median)) := by
  constructor
  · exact fun _ _ _ => trivial
  · intro state m _
    rw [tickRow_database, storedRow_updateMemory, if_pos rfl]
  · intro state m id _ other
    rw [tickRow_database, storedRow_updateMemory, if_neg other]

variable {numbers settings t} {orgId median : Nat} {db : Database}

theorem afterTick_eq (orgId : Nat) (db : Database) (answered : t.medianAccessCount = some median) :
    afterTick numbers settings t orgId db = ((MemoryRepo.iterForDecay db orgId).foldl
      (tickRow numbers settings t median) ({}, db)).2 := by
  rw [afterTick, tickOneOrg, answered]
  rfl

theorem iterForDecay_sublist (db : Database) (orgId : Nat) :
    (MemoryRepo.iterForDecay db orgId).Sublist db.memories.rows :=
  (List.take_sublist _ _).trans List.filter_sublist

theorem fades_of_listed (m : Memory) (listed : m ∈ MemoryRepo.iterForDecay db orgId) :
    MemoryRepo.fades orgId m = true :=
  List.of_mem_filter (List.mem_of_mem_take listed)

variable (numbers settings) in
/-- A tick that goes through evaluates each row that it reads. -/
theorem row_of_listed (answered : t.medianAccessCount = some median) (m : Memory)
    (listed : m ∈ MemoryRepo.iterForDecay db orgId) :
    storedRow (afterTick numbers settings t orgId db) m.id = some (decided (t.writtenAt m)
      (Decay.evaluate numbers settings m.decayInputs t.now median) m) := by
  have cells := cells_tickRow numbers settings t median
  have sublist := iterForDecay_sublist db orgId
  have distinct := (sublist.map Memory.id).nodup (memoryIds_nodup db)
  rw [afterTick_eq orgId db answered, cells.foldl_own _ distinct ({}, db) trivial m listed,
    (storedRow_eq_some db m.id m).mpr ⟨sublist.subset listed, rfl⟩, Option.map_some]

variable (numbers settings) in
/-- A tick keeps each row that it does not read. -/
theorem row_of_unlisted (answered : t.medianAccessCount = some median) (m : Memory)
    (present : m ∈ db.memories.rows) (unlisted : m ∉ MemoryRepo.iterForDecay db orgId) :
    storedRow (afterTick numbers settings t orgId db) m.id = some m := by
  have cells := cells_tickRow numbers settings t median
  rw [afterTick_eq orgId db answered, cells.foldl_other _ ({}, db) trivial m.id]
  · exact (storedRow_eq_some db m.id m).mpr ⟨present, rfl⟩
  · intro other inside same
    have sublist := iterForDecay_sublist db orgId
    have equal := memory_eq_of_id db m other present (sublist.subset inside) same
    exact unlisted (equal ▸ inside)

/-- On the columns of the decay, a tick does what `tick` says. -/
theorem decayRow_ticked (writtenAt now : Instant) (median : Nat) (m : Memory)
    (fades : MemoryRepo.fades orgId m = true) :
    decayRow (decided writtenAt (Decay.evaluate numbers settings m.decayInputs now median) m) =
      (decayRow m).tick numbers settings now median := by
  simp only [MemoryRepo.fades, Bool.and_eq_true] at fades
  have reads : ((decayRow m).live && !(decayRow m).inputs.pinned) = true := by
    rw [Bool.and_eq_true]
    exact ⟨fades.1.2, fades.2⟩
  rw [decayRow_decided, Decay.Row.tick, if_pos reads]
  rfl

theorem evaluated_decided (writtenAt now : Instant) (median : Nat) (m : Memory)
    (fades : MemoryRepo.fades orgId m = true) : Evaluated numbers settings now median m
      (decided writtenAt (Decay.evaluate numbers settings m.decayInputs now median) m) := by
  have live : m.live = true := by
    simp only [MemoryRepo.fades, Bool.and_eq_true] at fades
    exact fades.1.2
  rw [Evaluated]
  generalize Decay.evaluate numbers settings m.decayInputs now median = decision
  rw [decided]
  by_cases deletes : decision.shouldHardDelete = true
  · rw [if_pos deletes, if_pos deletes]
    rfl
  · rw [if_neg deletes, if_neg deletes]
    exact ⟨live, rfl, rfl⟩

theorem fading_iff (m : Memory) : m ∈ db.memories.rows ∧ MemoryRepo.fades orgId m = true ↔
    m ∈ MemoryRepo.iterForDecay db orgId ∨
      m ∈ (db.memories.rows.filter (MemoryRepo.fades orgId)).drop 500 := by
  rw [← List.mem_filter, MemoryRepo.iterForDecay, ← List.mem_append, List.take_append_drop]

theorem unlisted_of_behind (m : Memory)
    (behind : m ∈ (db.memories.rows.filter (MemoryRepo.fades orgId)).drop 500) :
    m ∉ MemoryRepo.iterForDecay db orgId := by
  intro listed
  have distinct : (db.memories.rows.filter (MemoryRepo.fades orgId)).Nodup :=
    (List.Nodup.of_map Memory.id (memoryIds_nodup db)).filter _
  exact List.disjoint_take_drop distinct le_rfl listed behind

/-- A tick that covers an org leaves nothing to do for the memories behind the first 500. -/
theorem evaluated_of_covers (covers : Covers numbers settings t orgId db)
    (answered : t.medianAccessCount = some median) (m : Memory)
    (behind : m ∈ (db.memories.rows.filter (MemoryRepo.fades orgId)).drop 500) :
    Evaluated numbers settings t.now median m m := by
  have own := (fading_iff m).mpr (Or.inr behind)
  obtain ⟨median', answered', m', present', id, evaluated⟩ := covers m own.1 own.2
  obtain rfl : median = median' := Option.some.inj (answered.symm.trans answered')
  have found := (storedRow_eq_some _ m.id m').mpr ⟨present', id⟩
  rw [row_of_unlisted numbers settings answered m own.1 (unlisted_of_behind m behind)] at found
  obtain rfl : m' = m := (Option.some.inj found).symm
  exact evaluated

/-- A tick covers an org exactly when the query of the median is answered, and the memories behind the
first 500 already have what the policy assigns to them. -/
theorem covers_iff (numbers : Decay.Numbers PyFloat) (settings : Decay.Settings PyFloat) (t : Tick)
    (orgId : Nat) (db : Database) : Covers numbers settings t orgId db ↔
      ((∃ m ∈ db.memories.rows, MemoryRepo.fades orgId m = true) →
        ∃ median, t.medianAccessCount = some median ∧
          ∀ m ∈ (db.memories.rows.filter (MemoryRepo.fades orgId)).drop 500,
            Evaluated numbers settings t.now median m m) := by
  constructor
  · rintro covers ⟨m, present, fades⟩
    obtain ⟨median, answered, _⟩ := covers m present fades
    exact ⟨median, answered, evaluated_of_covers covers answered⟩
  · intro condition m present fades
    obtain ⟨median, answered, settled⟩ := condition ⟨m, present, fades⟩
    refine ⟨median, answered, ?_⟩
    by_cases listed : m ∈ MemoryRepo.iterForDecay db orgId
    · have found := row_of_listed numbers settings answered m listed
      obtain ⟨present', id⟩ := (storedRow_eq_some _ m.id _).mp found
      exact ⟨_, present', id, evaluated_decided (t.writtenAt m) t.now median m fades⟩
    · have behind := ((fading_iff m).mp ⟨present, fades⟩).resolve_left listed
      have found := row_of_unlisted numbers settings answered m present listed
      exact ⟨m, ((storedRow_eq_some _ m.id m).mp found).1, rfl, settled m behind⟩

/-! The samples have these floats. -/

def zeroFloat : PyFloat := .finite (floatText "0.0" zero_scanned zero_tail)

def sampleFloats : List PyFloat :=
  [zeroFloat, onePointZero, .finite (floatText "7.0" (by decide) (by decide)),
    .finite (floatText "8.0" (by decide) (by decide)),
    .finite (floatText "24.0" (by decide) (by decide)),
    .finite (floatText "192.0" (by decide) (by decide)),
    .finite (floatText "3600.0" (by decide) (by decide)),
    .finite (floatText "86400.0" (by decide) (by decide)),
    .finite (floatText "691200.0" (by decide) (by decide)),
    .finite (floatText "0.05" (by decide) (by decide)),
    .finite (floatText "0.3" (by decide) (by decide)),
    .finite (floatText "-0.3" (by decide) (by decide)),
    .finite (floatText "-2.4" (by decide) (by decide)),
    .finite (floatText "0.000000001" (by decide) (by decide))]

def valueOf (x : PyFloat) : ℚ := (x.rank.map Prod.snd).getD 0

def rounded (q : ℚ) : PyFloat := (sampleFloats.find? fun x => valueOf x == q).getD .nan

/-- These numbers are right for the floats of the samples. -/
def sampleNumbers : Decay.Numbers PyFloat where
  ofRat := rounded
  add x y := rounded (valueOf x + valueOf y)
  mul x y := rounded (valueOf x * valueOf y)
  div x y := rounded (valueOf x / valueOf y)
  neg x := rounded (-valueOf x)
  exp x := if valueOf x = 0 then onePointZero
    else .finite (floatText "0.09071795328941251" (by decide) (by decide))
  log1p x := if valueOf x = 0 then zeroFloat
    else .finite (floatText "0.6931471805599453" (by decide) (by decide))
  less := PyFloat.lt
  atMost x y := !(y.lt x)

def sampleSettings : Decay.Settings PyFloat := .default sampleNumbers

/-- A memory without importance was written at the epoch. -/
def sampleRow (id : Nat) (status : ReviewStatus) : Memory :=
  let payload : CreateMemoryInput :=
    { scope := MemoryService.sampleScope, body := "x", importance := zeroFloat }
  { MemoryService.newRow MemoryService.sampleEnvironment MemoryService.sampleOwner
      { now := 0, newPublicId := BitVec.ofNat 128 id } payload
      { title := [], body := "x", sensitivity := .internal } { status := status }
      MemoryService.defaultTsConfig none with
    id := id }

theorem crowd_apart (n : Nat) (small : n < 2 ^ 128) :
    ((List.range n).map fun k => sampleRow (k + 1) .approved).Pairwise fun a b =>
      a.id < b.id ∧ a.publicId ≠ b.publicId := by
  apply List.pairwise_map.mpr
  apply List.pairwise_lt_range.imp_of_mem
  intro k k' inside inside' less
  have bound := List.mem_range.mp inside'
  refine ⟨Nat.succ_lt_succ less, fun same => ?_⟩
  have equal := publicId_inj _ _ (by omega) (by omega) same
  omega

/-- An org has a number of these memories. -/
def crowd (n : Nat) (small : n < 2 ^ 128) : Database where
  memories := ⟨(List.range n).map fun k => sampleRow (k + 1) .approved, crowd_apart n small⟩

/-- A tick does not read the last memory of a large crowd. -/
theorem last_of_crowd (n : Nat) (small : n + 1 < 2 ^ 128) (many : 500 ≤ n) :
    sampleRow (n + 1) .approved ∈
      ((crowd (n + 1) small).memories.rows.filter (MemoryRepo.fades 1)).drop 500 := by
  have fading : (crowd (n + 1) small).memories.rows.filter (MemoryRepo.fades 1) =
      (List.range (n + 1)).map fun k => sampleRow (k + 1) .approved := by
    apply List.filter_eq_self.mpr
    intro m inside
    obtain ⟨k, _, rfl⟩ := List.mem_map.mp inside
    rfl
  rw [fading, List.range_succ, List.map_append, List.drop_append_of_le_length (by simpa using many)]
  exact List.mem_append_right _ (List.mem_singleton_self _)

/-- With more than 500 memories the last one keeps its score at the tick of the epoch. -/
theorem not_covers_crowd (n : Nat) (small : n + 1 < 2 ^ 128) (many : 500 ≤ n) :
    ¬ Covers sampleNumbers sampleSettings ⟨0, some 1, fun _ => 0⟩ 1 (crowd (n + 1) small) := by
  intro covers
  have evaluated := evaluated_of_covers covers rfl _ (last_of_crowd n small many)
  have columns : (sampleRow (n + 1) .approved).decayInputs = (sampleRow 1 .approved).decayInputs := rfl
  have scored : (sampleRow (n + 1) .approved).decayScore = onePointZero := rfl
  rw [Evaluated, columns, scored] at evaluated
  have kept : (Decay.evaluate sampleNumbers sampleSettings (sampleRow 1 .approved).decayInputs 0
      1).shouldHardDelete = false := by decide +kernel
  simp only [kept, Bool.false_eq_true, if_false] at evaluated
  exact absurd evaluated.2.1 (by decide +kernel)

theorem last_memory_left_out : ¬ ∀ (numbers : Decay.Numbers PyFloat) (settings : Decay.Settings PyFloat)
    (t : Tick) (orgId : Nat) (db : Database), t.medianAccessCount.isSome = true →
      Covers numbers settings t orgId db := by
  intro claim
  exact not_covers_crowd 500 (by decide) le_rfl (claim _ _ _ 1 _ rfl)

end Kortex.DecayTask
