import Kortex.Library.Run
import Kortex.Model.Decay
import Mathlib.Analysis.SpecialFunctions.Log.Basic

/-
This file proves when the scores of a memory that no one accesses only fall, over the real numbers.
-/

namespace Kortex.Decay

noncomputable section

/-- These are the real numbers, where no operation rounds. -/
def reals : Numbers ℝ where
  ofRat q := q
  add := (· + ·)
  mul := (· * ·)
  div := (· / ·)
  neg := (- ·)
  exp := Real.exp
  log1p x := Real.log (1 + x)
  less x y := decide (x < y)
  atMost x y := decide (x ≤ y)

@[simp] theorem reals_max (a b : ℝ) : reals.max a b = max a b := by
  simp only [Numbers.max, reals, decide_eq_true_eq]
  split
  · rename_i less
    rw [max_eq_right less.le]
  · rename_i other
    rw [max_eq_left (not_lt.mp other)]

@[simp] theorem reals_min (a b : ℝ) : reals.min a b = min a b := by
  simp only [Numbers.min, reals, decide_eq_true_eq]
  split
  · rename_i less
    rw [min_eq_right less.le]
  · rename_i other
    rw [min_eq_left (not_lt.mp other)]

variable (s : Settings ℝ) (median : Nat)

/-- This is the exponent by which a score has fallen at a time. -/
def exponent (now : Instant) (inputs : Inputs ℝ) : ℝ :=
  s.lambda inputs.tier * elapsedDays reals now inputs

/-- This is the score before it is capped. -/
def uncapped (now : Instant) (inputs : Inputs ℝ) : ℝ :=
  inputs.importance * Real.exp (-exponent s now inputs) * (1 + accessBias reals median inputs)

/-- This is the score that a tick writes, unless it deletes the memory. -/
def Row.written (now : Instant) (row : Row ℝ) : Option ℝ :=
  let decision := evaluate reals s row.inputs now median
  if (row.live && !row.inputs.pinned) && !decision.shouldHardDelete then some decision.newDecayScore
  else none

/-- A run of ticks is at a row before its last tick, and at the time of that tick. -/
def next (last : Row ℝ × Instant) (now : Instant) : Row ℝ × Instant :=
  (last.1.tick reals s last.2 median, now)

/-- The next tick writes no higher score than the last one. -/
def Falls (last : Row ℝ × Instant) (now : Instant) : Prop :=
  ∀ before ∈ last.1.written s median last.2, ∀ after ∈ (next s median last now).1.written s median now,
    after ≤ before

/-- If the last tick moved the memory to another tier, the next one comes late enough. -/
def LateEnough (last : Row ℝ × Instant) (now : Instant) : Prop :=
  (next s median last now).1.inputs.tier ≠ last.1.inputs.tier →
    last.1.inputs.importance = 0 ∨ 1 ≤ uncapped s median last.2 last.1.inputs ∨
      exponent s last.2 last.1.inputs ≤ exponent s now (next s median last now).1.inputs

variable {s median}

variable (median) in
theorem accessBias_nonneg (inputs : Inputs ℝ) : 0 ≤ accessBias reals median inputs := by
  have grows (n : Nat) : 0 ≤ Real.log (1 + (n : ℝ)) :=
    Real.log_nonneg (le_add_of_nonneg_right (Nat.cast_nonneg n))
  have top := grows inputs.accessCount
  simp only [accessBias, reals_max]
  apply div_nonneg
  · simpa [reals] using top
  · exact le_max_of_le_right (by norm_num [reals])

theorem score_eq (now : Instant) (inputs : Inputs ℝ) (important : 0 ≤ inputs.importance) :
    score reals s now median inputs = min 1 (uncapped s median now inputs) := by
  have positive : 0 ≤ uncapped s median now inputs := by
    have bias := accessBias_nonneg median inputs
    exact mul_nonneg (mul_nonneg important (Real.exp_pos _).le) (add_nonneg zero_le_one bias)
  have same : score reals s now median inputs = max 0 (min 1 (uncapped s median now inputs)) := by
    simp only [score, reals_max, reals_min, recency]
    simp [reals, uncapped, exponent]
  rw [same, max_eq_right (le_min zero_le_one positive)]

theorem elapsedDays_mono (inputs : Inputs ℝ) (t t' : Instant) (later : t ≤ t') :
    elapsedDays reals t inputs ≤ elapsedDays reals t' inputs := by
  have cast : ((t - inputs.lastAccessedAt.getD inputs.createdAt : Int) : ℝ) ≤
      (t' - inputs.lastAccessedAt.getD inputs.createdAt : Int) := by
    exact_mod_cast Int.sub_le_sub_right later _
  simp only [elapsedDays, reals_max, Numbers.totalSeconds]
  apply max_le_max le_rfl
  simp only [reals, Rat.cast_div, Rat.cast_intCast, Rat.cast_ofNat]
  gcongr

variable (s median) in
/-- A tick changes no column of the inputs but the tier. -/
theorem tick_inputs (row : Row ℝ) (now : Instant) : (row.tick reals s now median).inputs =
    { row.inputs with tier := (row.tick reals s now median).inputs.tier } := by
  rw [Row.tick]
  split
  · rw [Row.decided]
    split <;> rfl
  · rfl

theorem accessBias_tier (inputs : Inputs ℝ) (tier : MemoryTier) :
    accessBias reals median { inputs with tier := tier } = accessBias reals median inputs := rfl

variable (s median) in
/-- A score in another tier at another time is no higher exactly when the memory has no importance, the
first score is capped, or the exponent has not fallen. -/
theorem score_le_score_iff (t t' : Instant) (inputs : Inputs ℝ) (tier : MemoryTier)
    (important : 0 ≤ inputs.importance) :
    score reals s t' median { inputs with tier := tier } ≤ score reals s t median inputs ↔
      inputs.importance = 0 ∨ 1 ≤ uncapped s median t inputs ∨
        exponent s t inputs ≤ exponent s t' { inputs with tier := tier } := by
  have bias := accessBias_nonneg median inputs
  rw [score_eq t inputs important, score_eq t' { inputs with tier := tier } important]
  have ordered : uncapped s median t' { inputs with tier := tier } ≤ uncapped s median t inputs ↔
      inputs.importance = 0 ∨ exponent s t inputs ≤ exponent s t' { inputs with tier := tier } := by
    rw [uncapped, uncapped, accessBias_tier, mul_le_mul_iff_left₀ (by linarith)]
    rcases important.eq_or_lt with none | some
    · simp [← none]
    · rw [mul_le_mul_iff_right₀ some, Real.exp_le_exp, neg_le_neg_iff]
      simp [some.ne']
  rw [or_left_comm, ← ordered]
  constructor
  · intro below
    by_cases capped : 1 ≤ uncapped s median t inputs
    · exact Or.inl capped
    · rw [not_le] at capped
      rw [min_eq_right capped.le] at below
      rcases min_le_iff.mp below with one | less
      · exact absurd one (not_le.mpr capped)
      · exact Or.inr less
  · rintro (capped | less)
    · rw [min_eq_left capped]
      exact min_le_left _ _
    · exact min_le_min le_rfl less

/-- A tick writes a score where it reads the row and does not delete it. -/
theorem written_eq_some (now : Instant) (row : Row ℝ) (unpinned : row.inputs.pinned = false) (a : ℝ) :
    row.written s median now = some a ↔ row.live = true ∧
      (evaluate reals s row.inputs now median).shouldHardDelete = false ∧
        score reals s now median row.inputs = a := by
  have scored : (evaluate reals s row.inputs now median).newDecayScore =
      score reals s now median row.inputs := by
    rw [evaluate, if_neg (by simp [unpinned])]
  rw [Row.written, scored, unpinned]
  simp [and_assoc]

variable (s median) in
/-- Only a memory of the short tier is deleted. -/
theorem kept_of_tier (now : Instant) (inputs : Inputs ℝ) (tier : inputs.tier ≠ .short) :
    (evaluate reals s inputs now median).shouldHardDelete = false := by
  rw [evaluate]
  split
  · rfl
  · simp [tier]

/-- A tick that moves a memory to another tier writes its score, and the memory is live in a longer
tier. -/
theorem moved (now : Instant) (row : Row ℝ)
    (other : (row.tick reals s now median).inputs.tier ≠ row.inputs.tier) :
    row.live = true ∧ (evaluate reals s row.inputs now median).shouldHardDelete = false ∧
      (row.tick reals s now median).live = true ∧
        (row.tick reals s now median).inputs.tier ≠ .short := by
  rw [Row.tick] at other ⊢
  by_cases reads : (row.live && !row.inputs.pinned) = true
  · rw [if_pos reads] at other ⊢
    rw [Bool.and_eq_true] at reads
    generalize made : evaluate reals s row.inputs now median = decision at other ⊢
    have promotes : decision.newTier = none ∨ decision.newTier = some .mid := by
      rw [← made, evaluate]
      split
      · exact Or.inl rfl
      · exact (ite_eq_or_eq _ _ _).symm
    rw [Row.decided] at other ⊢
    by_cases deletes : decision.shouldHardDelete = true
    · rw [if_pos deletes] at other
      exact absurd rfl other
    · rw [if_neg deletes] at other ⊢
      refine ⟨reads.1, by simpa using deletes, reads.1, ?_⟩
      by_cases archives : decision.shouldArchive = true
      · simp [archives]
      · rcases promotes with none | mid
        · exact absurd (by simp [archives, none]) other
        · simp [archives, mid]
  · rw [if_neg reads] at other
    exact absurd rfl other

/-- The next tick writes no higher score exactly when it comes late enough after a move. -/
theorem falls_iff (rates : ∀ tier, 0 ≤ s.lambda tier) (last : Row ℝ × Instant) (now : Instant)
    (later : last.2 ≤ now) (unpinned : last.1.inputs.pinned = false)
    (important : 0 ≤ last.1.inputs.importance) :
    Falls s median last now ↔ LateEnough s median last now := by
  obtain ⟨row, t⟩ := last
  have inputs := tick_inputs s median row t
  have ordered := score_le_score_iff s median t now row.inputs
    (row.tick reals s t median).inputs.tier important
  have unpinned' : (row.tick reals s t median).inputs.pinned = false := by
    rw [inputs]
    exact unpinned
  rw [← inputs] at ordered
  simp only [Falls, LateEnough, next, Option.mem_def, written_eq_some t row unpinned,
    written_eq_some now _ unpinned']
  by_cases same : (row.tick reals s t median).inputs.tier = row.inputs.tier
  · have slower : exponent s t row.inputs ≤ exponent s now (row.tick reals s t median).inputs := by
      rw [inputs, same]
      exact mul_le_mul_of_nonneg_left (elapsedDays_mono row.inputs t now later) (rates _)
    apply iff_of_true
    · rintro before ⟨_, _, rfl⟩ after ⟨_, _, rfl⟩
      exact ordered.mpr (Or.inr (Or.inr slower))
    · exact fun other => absurd same other
  · obtain ⟨live, kept, live', tier⟩ := moved t row same
    have kept' := kept_of_tier s median now _ tier
    rw [forall_prop_of_true same, ← ordered]
    constructor
    · intro falls
      exact falls _ ⟨live, kept, rfl⟩ _ ⟨live', kept', rfl⟩
    · rintro below before ⟨_, _, rfl⟩ after ⟨_, _, rfl⟩
      exact below

/-- Over a run of ticks at increasing times each score is at most the one before, exactly when each tick
that follows a move to another tier comes late enough. -/
theorem falling_run_iff (s : Settings ℝ) (rates : ∀ tier, 0 < s.lambda tier) (median : Nat)
    (row : Row ℝ) (unpinned : row.inputs.pinned = false)
    (important : 0 ≤ row.inputs.importance ∧ row.inputs.importance ≤ 1) (first : Instant)
    (ticks : List Instant) (increasing : (first :: ticks).Pairwise (· < ·)) :
    Run.Each (next s median) (Falls s median) (row, first) ticks ↔
      Run.Each (next s median) (LateEnough s median) (row, first) ticks := by
  induction ticks generalizing row first with
  | nil => exact Iff.rfl
  | cons now rest ih =>
      rw [List.pairwise_cons] at increasing
      have inputs := tick_inputs s median row first
      apply and_congr
      · exact falls_iff (fun tier => (rates tier).le) (row, first) now
          (increasing.1 now List.mem_cons_self).le unpinned important.1
      · apply ih (row.tick reals s first median) _ _ now increasing.2
        · rw [inputs]
          exact unpinned
        · rw [inputs]
          exact important

/-! A memory that has been accessed once moves to the mid tier on its third day. -/

def day (n : Nat) : Instant := n * 86400000000

def samplePromoted : Row ℝ where
  inputs := ⟨1 / 2, 1, none, 0, .short, false⟩
  decayScore := 1
  live := true

theorem exponent_sample (n : Nat) (tier : MemoryTier) :
    exponent (.default reals) (day n) { samplePromoted.inputs with tier := tier } =
      (Settings.default reals).lambda tier * n := by
  rw [exponent, elapsedDays, reals_max, Numbers.totalSeconds]
  congr 1
  simp only [samplePromoted, day, Option.getD_none, sub_zero, reals]
  push_cast
  rw [show (n : ℝ) * 86400000000 / 1000000 / 86400 = n by ring, max_eq_right (Nat.cast_nonneg n)]

theorem tick_sample : (samplePromoted.tick reals (.default reals) (day 3) 1).inputs =
    { samplePromoted.inputs with tier := .mid } := by
  have promotes : promotes reals (.default reals) (day 3) samplePromoted.inputs = true := by
    norm_num [promotes, samplePromoted, day, Numbers.totalSeconds, reals, Settings.default]
  have young : (evaluate reals (.default reals) samplePromoted.inputs (day 3) 1).shouldHardDelete =
      false := by
    norm_num [evaluate, ageDays, samplePromoted, day, Numbers.totalSeconds, reals, Settings.default]
  have reads : (samplePromoted.live && !samplePromoted.inputs.pinned) = true := rfl
  rw [Row.tick, if_pos reads, Row.decided, if_neg (by rw [young]; exact Bool.false_ne_true)]
  rw [evaluate, if_neg (by simp [samplePromoted]), promotes]
  rfl

theorem sample_rates (tier : MemoryTier) : 0 < (Settings.default reals).lambda tier := by
  cases tier <;> norm_num [Settings.lambda, Settings.default, reals]

theorem accessBias_sample : accessBias reals 1 samplePromoted.inputs = 1 := by
  have large : (1 / 1000000000 : ℝ) ≤ Real.log (1 + 1) := by
    have bound := Real.one_sub_inv_le_log_of_pos (show (0 : ℝ) < 1 + 1 by norm_num)
    norm_num at bound ⊢
    linarith
  simp only [accessBias, reals_max]
  simp only [samplePromoted, reals, max_self, Nat.cast_one, Rat.cast_one, Rat.cast_div,
    Rat.cast_ofNat]
  rw [max_eq_left large]
  exact div_self (lt_of_lt_of_le (by norm_num) large).ne'

theorem exponent_promoted : exponent (.default reals) (day 3) samplePromoted.inputs = 9 / 10 := by
  change exponent _ (day 3) { samplePromoted.inputs with tier := .short } = _
  rw [exponent_sample]
  norm_num [Settings.lambda, Settings.default, reals]

theorem uncapped_sample : uncapped (.default reals) 1 (day 3) samplePromoted.inputs < 1 := by
  have small : Real.exp (-(9 / 10)) < 1 := by
    rw [Real.exp_lt_one_iff]
    norm_num
  rw [uncapped, exponent_promoted, accessBias_sample]
  norm_num [samplePromoted]
  linarith

theorem lateEnough_sample_iff (n : Nat) :
    LateEnough (.default reals) 1 (samplePromoted, day 3) (day n) ↔ 18 ≤ n := by
  have moves : (next (.default reals) 1 (samplePromoted, day 3) (day n)).1.inputs.tier ≠
      samplePromoted.inputs.tier := by
    rw [next, tick_sample]
    exact fun same => nomatch same
  have important : samplePromoted.inputs.importance ≠ 0 := by norm_num [samplePromoted]
  have after : exponent (.default reals) (day n)
      (next (.default reals) 1 (samplePromoted, day 3) (day n)).1.inputs = n / 20 := by
    rw [next, tick_sample, exponent_sample]
    simp only [Settings.lambda, Settings.default, reals]
    push_cast
    ring
  rw [LateEnough, forall_prop_of_true moves, exponent_promoted, after]
  constructor
  · rintro (none | capped | late)
    · exact absurd none important
    · exact absurd capped (not_le.mpr uncapped_sample)
    · have bound : (18 : ℝ) ≤ n := by linarith
      exact_mod_cast bound
  · intro late
    have bound : (18 : ℝ) ≤ n := by exact_mod_cast late
    exact Or.inr (Or.inr (by linarith))

/-- The tick on the thirtieth day comes late enough. -/
theorem late_tick_falls :
    Run.Each (next (.default reals) 1) (Falls (.default reals) 1) (samplePromoted, day 3) [day 30] :=
  (falling_run_iff (.default reals) sample_rates 1 samplePromoted rfl
    ⟨by norm_num [samplePromoted], by norm_num [samplePromoted]⟩ (day 3) [day 30]
    (by decide)).mpr ⟨(lateEnough_sample_iff 30).mpr (by decide), trivial⟩

/-- The tick on the fourth day raises the score. -/
theorem promotion_raises_score : ¬ ∀ (s : Settings ℝ) (median : Nat) (row : Row ℝ) (first : Instant)
    (ticks : List Instant), s.lambdaMid ≤ s.lambdaShort → s.lambdaLong ≤ s.lambdaMid →
      0 < s.lambdaLong → row.inputs.pinned = false →
        0 ≤ row.inputs.importance ∧ row.inputs.importance ≤ 1 →
          (first :: ticks).Pairwise (· < ·) →
            Run.Each (next s median) (Falls s median) (row, first) ticks := by
  intro claim
  have important : 0 ≤ samplePromoted.inputs.importance ∧ samplePromoted.inputs.importance ≤ 1 := by
    norm_num [samplePromoted]
  have falls := claim (.default reals) 1 samplePromoted (day 3) [day 4]
    (by norm_num [Settings.default, reals]) (by norm_num [Settings.default, reals])
    (by norm_num [Settings.default, reals]) rfl important (by decide)
  have late := (falls_iff (fun tier => (sample_rates tier).le) (samplePromoted, day 3) (day 4)
    (by decide) rfl important.1).mp falls.1
  exact absurd ((lateEnough_sample_iff 4).mp late) (by decide)

end

end Kortex.Decay
