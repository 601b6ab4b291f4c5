import Kortex.Model.Consolidation

/-
This file models `decay_policy.py` and the decay task of the worker: `_tick_one_org`.
-/

namespace Kortex

namespace Decay

/-- These are the numbers of the scores with the operations of the code. -/
structure Numbers (S : Type) where
  /-- This is the float that a literal, an integer or a quotient of integers stands for. -/
  ofRat : ℚ → S
  add : S → S → S
  mul : S → S → S
  div : S → S → S
  neg : S → S
  exp : S → S
  log1p : S → S
  less : S → S → Bool
  atMost : S → S → Bool

namespace Numbers

variable {S : Type} (numbers : Numbers S)

/-- This is `max(a, b)`. -/
def max (a b : S) : S := if numbers.less a b then b else a

/-- This is `min(a, b)`. -/
def min (a b : S) : S := if numbers.less b a then b else a

/-- This is `(later - earlier).total_seconds()`. -/
def totalSeconds (later earlier : Instant) : S := numbers.ofRat ((later - earlier : Int) / 1000000)

end Numbers

/-- These are the settings of the policy. -/
structure Settings (S : Type) where
  lambdaShort : S
  lambdaMid : S
  lambdaLong : S
  shortToMidAgeHours : Int := 24
  shortDeleteAgeDays : Int := 7
  shortDeleteThreshold : S
  midArchiveAgeDays : Int := 180
  midArchiveThreshold : S

/-- These are the settings with their defaults. -/
def Settings.default {S : Type} (numbers : Numbers S) : Settings S where
  lambdaShort := numbers.ofRat (30 / 100)
  lambdaMid := numbers.ofRat (5 / 100)
  lambdaLong := numbers.ofRat (5 / 1000)
  shortDeleteThreshold := numbers.ofRat (5 / 100)
  midArchiveThreshold := numbers.ofRat (10 / 100)

/-- This is `DecayInputs`. -/
structure Inputs (S : Type) where
  importance : S
  accessCount : Nat
  lastAccessedAt : Option Instant
  createdAt : Instant
  tier : MemoryTier
  pinned : Bool

/-- This is `DecayDecision`. -/
structure Decision (S : Type) where
  newDecayScore : S
  newTier : Option MemoryTier := none
  shouldHardDelete : Bool := false
  shouldArchive : Bool := false

variable {S : Type} (numbers : Numbers S) (s : Settings S)

/-- This is the table `lam`. -/
def Settings.lambda : MemoryTier → S
  | .short => s.lambdaShort
  | .mid => s.lambdaMid
  | .long => s.lambdaLong

def ageDays (now : Instant) (inputs : Inputs S) : S :=
  numbers.div (numbers.totalSeconds now inputs.createdAt) (numbers.ofRat 86400)

def elapsedDays (now : Instant) (inputs : Inputs S) : S :=
  numbers.max (numbers.ofRat 0) (numbers.div
    (numbers.totalSeconds now (inputs.lastAccessedAt.getD inputs.createdAt)) (numbers.ofRat 86400))

def recency (now : Instant) (inputs : Inputs S) : S :=
  numbers.exp (numbers.mul (numbers.neg (s.lambda inputs.tier)) (elapsedDays numbers now inputs))

def accessBias (medianAccessCount : Nat) (inputs : Inputs S) : S :=
  let accessNorm := numbers.log1p (numbers.ofRat (Nat.cast (max 1 medianAccessCount)))
  numbers.div (numbers.log1p (numbers.ofRat inputs.accessCount))
    (numbers.max accessNorm (numbers.ofRat (1 / 1000000000)))

/-- This is the score of a memory that is not pinned. -/
def score (now : Instant) (medianAccessCount : Nat) (inputs : Inputs S) : S :=
  let score := numbers.mul (numbers.mul inputs.importance (recency numbers s now inputs))
    (numbers.add (numbers.ofRat 1) (accessBias numbers medianAccessCount inputs))
  numbers.max (numbers.ofRat 0) (numbers.min (numbers.ofRat 1) score)

/-- This is the condition of the promotion from the short to the mid tier. -/
def promotes (now : Instant) (inputs : Inputs S) : Bool :=
  let ageHours := numbers.div (numbers.totalSeconds now inputs.createdAt) (numbers.ofRat 3600)
  inputs.tier == .short && numbers.atMost (numbers.ofRat s.shortToMidAgeHours) ageHours &&
    numbers.atMost (numbers.ofRat (4 / 10)) inputs.importance && decide (1 ≤ inputs.accessCount)

/-- This is `evaluate`. -/
def evaluate (inputs : Inputs S) (now : Instant) (medianAccessCount : Nat := 1) : Decision S :=
  if inputs.pinned then { newDecayScore := numbers.ofRat 1 }
  else
    let score := score numbers s now medianAccessCount inputs
    { newDecayScore := score
      newTier := if promotes numbers s now inputs then some .mid else none
      shouldHardDelete := inputs.tier == .short &&
        numbers.atMost (numbers.ofRat s.shortDeleteAgeDays) (ageDays numbers now inputs) &&
          numbers.less score s.shortDeleteThreshold
      shouldArchive := inputs.tier == .mid &&
        numbers.atMost (numbers.ofRat s.midArchiveAgeDays) (ageDays numbers now inputs) &&
          numbers.less score s.midArchiveThreshold }

/-- These are the columns that a tick reads and writes. -/
structure Row (S : Type) where
  inputs : Inputs S
  decayScore : S
  live : Bool

/-- This is what an evaluated row becomes. -/
def Row.decided (decision : Decision S) (row : Row S) : Row S :=
  if decision.shouldHardDelete then { row with live := false }
  else
    let newTier := if decision.shouldArchive then some .long else decision.newTier
    { row with
      inputs := { row.inputs with tier := newTier.getD row.inputs.tier }
      decayScore := decision.newDecayScore }

/-- This is what a tick that reads the row makes of it. -/
def Row.tick (now : Instant) (medianAccessCount : Nat) (row : Row S) : Row S :=
  if row.live && !row.inputs.pinned then
    row.decided (evaluate numbers s row.inputs now medianAccessCount)
  else row

end Decay

def Memory.decayInputs (m : Memory) : Decay.Inputs PyFloat where
  importance := m.importance
  accessCount := m.accessCount
  lastAccessedAt := m.lastAccessedAt
  createdAt := m.createdAt
  tier := m.tier
  pinned := m.pinned

namespace MemoryRepo

/-- The row is one that the decay task scores. -/
def fades (orgId : Nat) (m : Memory) : Bool := m.orgId == orgId && m.live && !m.pinned

/-- This is `iter_for_decay` for a superuser; the rows stand in the order of their ids. -/
def iterForDecay (db : Database) (orgId : Nat) (batchSize : Nat := 500) : List Memory :=
  (db.memories.rows.filter (fades orgId)).take batchSize

end MemoryRepo

namespace DecayTask

/-- A run of the task finds the clock, and what the database answers to the query of
`median_access_count`: there is no answer when the database refuses the query. -/
structure Tick where
  now : Instant
  medianAccessCount : Option Nat
  writtenAt : Memory → Instant

/-- These are the counts that the task returns. -/
structure Counts where
  scored : Nat := 0
  promoted : Nat := 0
  archived : Nat := 0
  deleted : Nat := 0

variable (numbers : Decay.Numbers PyFloat) (settings : Decay.Settings PyFloat) (t : Tick)

/-- This is one round of the loop over the rows. -/
def tickRow (median : Nat) (state : Counts × Database) (m : Memory) : Counts × Database :=
  let (counts, db) := state
  let decision := Decay.evaluate numbers settings m.decayInputs t.now median
  let counts := { counts with scored := counts.scored + 1 }
  if decision.shouldHardDelete then
    ({ counts with deleted := counts.deleted + 1 }, MemoryRepo.softDelete (t.writtenAt m) db m)
  else if decision.shouldArchive then
    ({ counts with archived := counts.archived + 1 },
      MemoryRepo.applyDecay (t.writtenAt m) db m.id decision.newDecayScore (some .long))
  else
    ({ counts with promoted := counts.promoted + if decision.newTier.isSome then 1 else 0 },
      MemoryRepo.applyDecay (t.writtenAt m) db m.id decision.newDecayScore decision.newTier)

/-- This is `_tick_one_org`, which raises when the query of the median does. -/
def tickOneOrg (orgId : Nat) (db : Database) : Option (Counts × Database) := do
  let median ← t.medianAccessCount
  return (MemoryRepo.iterForDecay db orgId).foldl (tickRow numbers settings t median) ({}, db)

/-- A run that raises leaves the database as it was. -/
def afterTick (orgId : Nat) (db : Database) : Database :=
  ((tickOneOrg numbers settings t orgId db).map Prod.snd).getD db

end DecayTask
end Kortex
