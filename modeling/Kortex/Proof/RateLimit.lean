import Kortex.Library.Machine
import Kortex.Library.Run
import Kortex.Model.RateLimit

/-
This file proves how much a token bucket admits under clocks that disagree, and that no decision depends
on the expiry of its key.
-/

namespace Kortex.RateLimit

variable (capacity refillPerSec : ℚ)

/-- This is what a check leaves of its key. -/
def next (key : Option Entry) (c : Check) : Option Entry := (execute capacity refillPerSec key c).2

/-- This is the cost that a check admits. -/
def admitted (key : Option Entry) (c : Check) : ℚ :=
  if (execute capacity refillPerSec key c).1.allowed then c.cost else 0

/-- These are the times of a check on the clocks of Redis and of the caller. -/
def Check.times (c : Check) : Int × Int := (c.redisTime, c.nowMs)

/-- This is what a bucket gets back between two checks: the refill of the time that has passed on the
clocks of the callers, or all of it where the key has expired. -/
def regained (a b : Int × Int) : ℚ :=
  if a.1 + expiry capacity refillPerSec ≤ b.1 then capacity
  else min capacity (max 0 ((b.2 - a.2 : Int) : ℚ) / 1000 * refillPerSec)

def regainedAlong : Int × Int → List (Int × Int) → ℚ
  | _, [] => 0
  | a, b :: rest => regained capacity refillPerSec a b + regainedAlong b rest

/-- This is the distance between the latest and the earliest time on the clocks of the callers. -/
def spread (first : Int × Int) (rest : List (Int × Int)) : Int :=
  (rest.map Prod.snd).foldl max first.2 - (rest.map Prod.snd).foldl min first.2

/-- Checks with positive costs at these times admit no more than a bucket and the refill of the whole
time. -/
def Bounded (first : Int × Int) (rest : List (Int × Int)) : Prop :=
  ∀ checks : List Check, checks.map Check.times = first :: rest → (∀ c ∈ checks, 0 < c.cost) →
    Run.total (next capacity refillPerSec) (admitted capacity refillPerSec) none checks ≤
      capacity + refillPerSec * (spread first rest : ℚ) / 1000

variable {capacity refillPerSec}

theorem execute_eq (key : Option Entry) (c : Check) : execute capacity refillPerSec key c =
    ((tokenBucket capacity refillPerSec (lookup c.redisTime key) c.nowMs c.cost).1,
      some ⟨(tokenBucket capacity refillPerSec (lookup c.redisTime key) c.nowMs c.cost).2,
        c.redisTime + expiry capacity refillPerSec⟩) := rfl

theorem admitted_eq (key : Option Entry) (c : Check) : admitted capacity refillPerSec key c =
    if c.cost ≤ available capacity refillPerSec (lookup c.redisTime key) c.nowMs then c.cost else 0 := by
  rw [admitted, execute_eq, tokenBucket]
  split <;> rfl

theorem next_eq (key : Option Entry) (c : Check) : next capacity refillPerSec key c =
    some ⟨⟨available capacity refillPerSec (lookup c.redisTime key) c.nowMs -
      admitted capacity refillPerSec key c, c.nowMs⟩, c.redisTime + expiry capacity refillPerSec⟩ := by
  rw [admitted_eq, next, execute_eq, tokenBucket]
  split
  · rfl
  · rw [sub_zero]

/-- This is the key after a check that leaves a number of tokens. -/
def left (capacity refillPerSec tokens : ℚ) (times : Int × Int) : Option Entry :=
  some ⟨⟨tokens, times.2⟩, times.1 + expiry capacity refillPerSec⟩

theorem available_none (nowMs : Int) : available capacity refillPerSec none nowMs = capacity := by
  simp [available]

theorem lookup_left (tokens : ℚ) (a : Int × Int) (redisTime : Int) :
    lookup redisTime (left capacity refillPerSec tokens a) =
      if a.1 + expiry capacity refillPerSec ≤ redisTime then none else some ⟨tokens, a.2⟩ := rfl

/-- A bucket holds at most its old tokens and what it has got back. -/
theorem available_left_le (tokens : ℚ) (nonneg : 0 ≤ tokens) (a b : Int × Int) :
    available capacity refillPerSec (lookup b.1 (left capacity refillPerSec tokens a)) b.2 ≤
      tokens + regained capacity refillPerSec a b := by
  rw [lookup_left, regained]
  split
  · rw [available_none]
    exact le_add_of_nonneg_left nonneg
  · simp only [available, Option.getD_some]
    rw [← min_add_add_left]
    exact min_le_min (le_add_of_nonneg_left nonneg) le_rfl

variable (capacity refillPerSec) in
/-- An empty bucket holds what it has got back. -/
theorem available_left_zero (a b : Int × Int) :
    available capacity refillPerSec (lookup b.1 (left capacity refillPerSec 0 a)) b.2 =
      regained capacity refillPerSec a b := by
  rw [lookup_left, regained]
  split
  · exact available_none b.2
  · simp only [available, Option.getD_some, zero_add]

theorem available_left_nonneg (full : 0 ≤ capacity) (positive : 0 ≤ refillPerSec) (tokens : ℚ)
    (nonneg : 0 ≤ tokens) (a b : Int × Int) :
    0 ≤ available capacity refillPerSec (lookup b.1 (left capacity refillPerSec tokens a)) b.2 := by
  rw [lookup_left]
  split
  · rw [available_none]
    exact full
  · exact le_min full (by positivity)

theorem next_eq_left (key : Option Entry) (c : Check) : next capacity refillPerSec key c =
    left capacity refillPerSec (available capacity refillPerSec (lookup c.redisTime key) c.nowMs -
      admitted capacity refillPerSec key c) c.times :=
  next_eq key c

/-- Whether the check is admitted or not, the bucket keeps no debt. -/
theorem admitted_le (key : Option Entry) (c : Check)
    (nonneg : 0 ≤ available capacity refillPerSec (lookup c.redisTime key) c.nowMs) :
    admitted capacity refillPerSec key c ≤
      available capacity refillPerSec (lookup c.redisTime key) c.nowMs := by
  rw [admitted_eq]
  split
  · assumption
  · exact nonneg

theorem regained_nonneg (full : 0 ≤ capacity) (positive : 0 ≤ refillPerSec) (a b : Int × Int) :
    0 ≤ regained capacity refillPerSec a b := by
  rw [regained]
  split
  · exact full
  · exact le_min full (by positivity)

/-- These are the keys that a check leaves, and the missing key. -/
def Reached (capacity refillPerSec : ℚ) (key : Option Entry) : Prop :=
  key = none ∨ ∃ tokens a, 0 ≤ tokens ∧ key = left capacity refillPerSec tokens a

theorem reached_available (full : 0 ≤ capacity) (positive : 0 ≤ refillPerSec) (key : Option Entry)
    (reached : Reached capacity refillPerSec key) (b : Int × Int) :
    0 ≤ available capacity refillPerSec (lookup b.1 key) b.2 := by
  rcases reached with rfl | ⟨tokens, a, nonneg, rfl⟩
  · exact (available_none b.2).symm ▸ full
  · exact available_left_nonneg full positive tokens nonneg a b

/-- These are the tokens that a key holds. -/
def held (key : Option Entry) : ℚ := key.elim 0 fun entry => entry.bucket.tokens

/-- This is what a key gets back until a check. -/
def income (capacity refillPerSec : ℚ) (key : Option Entry) (c : Check) : ℚ :=
  key.elim capacity fun entry =>
    regained capacity refillPerSec (entry.expiresAt - expiry capacity refillPerSec, entry.bucket.ts) c.times

theorem income_left (tokens : ℚ) (a : Int × Int) (c : Check) :
    income capacity refillPerSec (left capacity refillPerSec tokens a) c =
      regained capacity refillPerSec a c.times := by
  simp [income, left]

theorem total_income_left (tokens : ℚ) (a : Int × Int) (checks : List Check) :
    Run.total (next capacity refillPerSec) (income capacity refillPerSec)
      (left capacity refillPerSec tokens a) checks =
        regainedAlong capacity refillPerSec a (checks.map Check.times) := by
  induction checks generalizing tokens a with
  | nil => rfl
  | cons c rest ih =>
      rw [Run.total, income_left, next_eq_left, ih]
      rfl

/-- The checks admit no more than a bucket and what it gets back between them. -/
theorem total_admitted_le (full : 0 ≤ capacity) (positive : 0 ≤ refillPerSec) (c : Check)
    (checks : List Check) :
    Run.total (next capacity refillPerSec) (admitted capacity refillPerSec) none (c :: checks) ≤
      capacity + regainedAlong capacity refillPerSec c.times (checks.map Check.times) := by
  have bound := Run.total_le_of_potential (next capacity refillPerSec) (Reached capacity refillPerSec)
    (admitted capacity refillPerSec) (income capacity refillPerSec) held ?_ ?_ ?_ none (Or.inl rfl)
    (c :: checks)
  · have incomes : Run.total (next capacity refillPerSec) (income capacity refillPerSec) none
        (c :: checks) = capacity + regainedAlong capacity refillPerSec c.times (checks.map Check.times) := by
      rw [Run.total, next_eq_left, total_income_left]
      rfl
    rw [incomes] at bound
    simpa [held] using bound
  · intro key c reached
    have room := admitted_le key c (reached_available full positive key reached c.times)
    exact Or.inr ⟨_, c.times, sub_nonneg.mpr room, next_eq_left key c⟩
  · rintro key (rfl | ⟨tokens, a, nonneg, rfl⟩)
    · exact le_rfl
    · exact nonneg
  · rintro key c reached
    have holds : held (next capacity refillPerSec key c) =
        available capacity refillPerSec (lookup c.redisTime key) c.nowMs -
          admitted capacity refillPerSec key c := by
      rw [next_eq]
      rfl
    rw [holds, add_sub_cancel]
    rcases reached with rfl | ⟨tokens, a, nonneg, rfl⟩
    · exact ((available_none c.nowMs).trans (zero_add capacity).symm).le
    · rw [income_left]
      exact available_left_le tokens nonneg a c.times

/-! The checks that take all there is show that this is sharp. -/

/-- These checks empty the bucket each time. -/
def draining (capacity refillPerSec : ℚ) : Int × Int → List (Int × Int) → List Check
  | _, [] => []
  | a, b :: rest =>
      ⟨b.1, b.2, if 0 < regained capacity refillPerSec a b then regained capacity refillPerSec a b else 1⟩ ::
        draining capacity refillPerSec b rest

theorem draining_times (a : Int × Int) (rest : List (Int × Int)) :
    (draining capacity refillPerSec a rest).map Check.times = rest := by
  induction rest generalizing a with
  | nil => rfl
  | cons b rest ih => rw [draining, List.map_cons, ih]; rfl

theorem draining_positive (a : Int × Int) (rest : List (Int × Int)) :
    ∀ c ∈ draining capacity refillPerSec a rest, 0 < c.cost := by
  induction rest generalizing a with
  | nil => exact fun c inside => absurd inside List.not_mem_nil
  | cons b rest ih =>
      rw [draining, List.forall_mem_cons]
      refine ⟨?_, ih b⟩
      split
      · assumption
      · exact one_pos

theorem total_draining (full : 0 ≤ capacity) (positive : 0 ≤ refillPerSec) (a : Int × Int)
    (rest : List (Int × Int)) :
    Run.total (next capacity refillPerSec) (admitted capacity refillPerSec)
      (left capacity refillPerSec 0 a) (draining capacity refillPerSec a rest) =
        regainedAlong capacity refillPerSec a rest := by
  induction rest generalizing a with
  | nil => rfl
  | cons b rest ih =>
      have holds := available_left_zero capacity refillPerSec a b
      have nonneg := regained_nonneg full positive a b
      have takes : admitted capacity refillPerSec (left capacity refillPerSec 0 a) ⟨b.1, b.2,
          if 0 < regained capacity refillPerSec a b then regained capacity refillPerSec a b else 1⟩ =
            regained capacity refillPerSec a b := by
        rw [admitted_eq, holds]
        by_cases some : 0 < regained capacity refillPerSec a b
        · rw [if_pos some, if_pos le_rfl]
        · have none : regained capacity refillPerSec a b = 0 := le_antisymm (not_lt.mp some) nonneg
          rw [if_neg some, none, if_neg (by norm_num)]
      rw [draining, Run.total, regainedAlong, takes, next_eq_left, takes, holds, sub_self]
      exact congrArg _ (ih b)

theorem bounded_of_regained (full : 0 ≤ capacity) (positive : 0 ≤ refillPerSec) (first : Int × Int)
    (rest : List (Int × Int)) (enough : regainedAlong capacity refillPerSec first rest ≤
      refillPerSec * (spread first rest : ℚ) / 1000) : Bounded capacity refillPerSec first rest := by
  intro checks times _
  cases checks with
  | nil => exact absurd times (by simp)
  | cons c checks =>
      obtain ⟨rfl, rfl⟩ := List.cons.inj times
      exact (total_admitted_le full positive c checks).trans (by gcongr)

/-- Checks at these times admit no more than a bucket and the refill of the whole time, whatever they
cost, exactly when the bucket gets back no more than that between them. -/
theorem bounded_iff (capacity refillPerSec : ℚ) (full : 0 < capacity) (positive : 0 < refillPerSec)
    (first : Int × Int) (rest : List (Int × Int)) :
    Bounded capacity refillPerSec first rest ↔
      regainedAlong capacity refillPerSec first rest ≤ refillPerSec * (spread first rest : ℚ) / 1000 := by
  constructor
  · intro bounded
    have takes : admitted capacity refillPerSec none ⟨first.1, first.2, capacity⟩ = capacity := by
      rw [admitted_eq, lookup, Option.bind_none, available_none, if_pos le_rfl]
    have drains : Run.total (next capacity refillPerSec) (admitted capacity refillPerSec) none
        (⟨first.1, first.2, capacity⟩ :: draining capacity refillPerSec first rest) =
          capacity + regainedAlong capacity refillPerSec first rest := by
      rw [Run.total, next_eq_left, takes, lookup, Option.bind_none, available_none, sub_self]
      exact congrArg _ (total_draining full.le positive.le first rest)
    have bound := bounded (⟨first.1, first.2, capacity⟩ :: draining capacity refillPerSec first rest)
      (by rw [List.map_cons, draining_times]; rfl)
      (List.forall_mem_cons.mpr ⟨full, draining_positive first rest⟩)
    rw [drains] at bound
    exact (add_le_add_iff_left capacity).mp bound
  · exact bounded_of_regained full.le positive.le first rest

theorem bounded_two_checks : Bounded 1 1 (0, 0) [(1000, 1000)] :=
  (bounded_iff 1 1 one_pos one_pos (0, 0) [(1000, 1000)]).mpr (by decide +kernel)

/-- Two callers are a second apart and take turns. -/
theorem skewed_clocks_admit_more : ¬ ∀ (capacity refillPerSec : ℚ) (first : Int × Int)
    (rest : List (Int × Int)), 0 < capacity → 0 < refillPerSec →
      Bounded capacity refillPerSec first rest := by
  intro claim
  have bound := claim 1 1 (0, 0) [(1, 1000), (2, 0), (3, 1000)] one_pos one_pos
    [⟨0, 0, 1⟩, ⟨1, 1000, 1⟩, ⟨2, 0, 1⟩, ⟨3, 1000, 1⟩] rfl (by decide +kernel)
  exact absurd bound (by decide +kernel)

/-- A key expires only when its bucket would be full. -/
theorem capacity_le_expiry (positive : 0 < refillPerSec) :
    capacity ≤ refillPerSec * (expiry capacity refillPerSec : ℚ) / 1000 := by
  have bound := Int.le_ceil (capacity / refillPerSec * 1000)
  have scaled : capacity = refillPerSec * (capacity / refillPerSec * 1000) / 1000 := by
    field_simp
  rw [expiry]
  push_cast
  calc capacity = refillPerSec * (capacity / refillPerSec * 1000) / 1000 := scaled
    _ ≤ refillPerSec * (⌈capacity / refillPerSec * 1000⌉ + 1000 : ℚ) / 1000 := by
        gcongr
        linarith

variable (capacity) in
theorem regained_le_of_forward (positive : 0 < refillPerSec) (a b : Int × Int) (one : a.1 = a.2)
    (one' : b.1 = b.2) (forward : a.2 ≤ b.2) :
    regained capacity refillPerSec a b ≤ refillPerSec * ((b.2 - a.2 : Int) : ℚ) / 1000 := by
  have later : (0 : ℚ) ≤ ((b.2 - a.2 : Int) : ℚ) := by exact_mod_cast Int.sub_nonneg.mpr forward
  rw [regained]
  split
  · rename_i expired
    have waited : (expiry capacity refillPerSec : ℚ) ≤ ((b.2 - a.2 : Int) : ℚ) := by
      have gap : expiry capacity refillPerSec ≤ b.2 - a.2 := by omega
      exact_mod_cast gap
    calc capacity ≤ refillPerSec * (expiry capacity refillPerSec : ℚ) / 1000 :=
          capacity_le_expiry positive
      _ ≤ refillPerSec * ((b.2 - a.2 : Int) : ℚ) / 1000 := by gcongr
  · rw [max_eq_right later]
    exact (min_le_right _ _).trans (le_of_eq (by ring))

theorem regainedAlong_le (positive : 0 < refillPerSec) (first : Int × Int) (rest : List (Int × Int))
    (one : ∀ t ∈ first :: rest, t.1 = t.2)
    (forward : (first :: rest).Pairwise fun a b => a.2 ≤ b.2) :
    regainedAlong capacity refillPerSec first rest ≤
      refillPerSec * (((rest.map Prod.snd).foldl max first.2 - first.2 : Int) : ℚ) / 1000 := by
  induction rest generalizing first with
  | nil => simp [regainedAlong]
  | cons b rest ih =>
      rw [List.pairwise_cons] at forward
      rw [List.forall_mem_cons] at one
      have ordered := forward.1 b List.mem_cons_self
      have step := regained_le_of_forward capacity positive first b one.1
        (one.2 b List.mem_cons_self) ordered
      have later := ih b one.2 forward.2
      rw [regainedAlong, List.map_cons, List.foldl_cons, max_eq_right ordered]
      push_cast at step later ⊢
      calc regained capacity refillPerSec first b + regainedAlong capacity refillPerSec b rest
          ≤ refillPerSec * (b.2 - first.2) / 1000 +
              refillPerSec * (((rest.map Prod.snd).foldl max b.2 : Int) - b.2) / 1000 := by gcongr
        _ = refillPerSec * (((rest.map Prod.snd).foldl max b.2 : Int) - first.2) / 1000 := by ring

/-- With one clock that never goes backwards the bound holds. -/
theorem bounded_of_one_clock (full : 0 ≤ capacity) (positive : 0 < refillPerSec) (first : Int × Int)
    (rest : List (Int × Int)) (one : ∀ t ∈ first :: rest, t.1 = t.2)
    (forward : (first :: rest).Pairwise fun a b => a.2 ≤ b.2) :
    Bounded capacity refillPerSec first rest := by
  have least (l : List Int) (above : ∀ t ∈ l, first.2 ≤ t) : l.foldl min first.2 = first.2 := by
    induction l with
    | nil => rfl
    | cons t rest ih =>
        rw [List.forall_mem_cons] at above
        rw [List.foldl_cons, min_eq_left above.1, ih above.2]
  apply bounded_of_regained full positive.le
  rw [spread, least]
  · exact regainedAlong_le positive first rest one forward
  · intro t inside
    obtain ⟨b, present, rfl⟩ := List.mem_map.mp inside
    exact (List.pairwise_cons.mp forward).1 b present

/-! A key that expires gives the same decisions as one that never does. -/

/-- This is the script over a Redis that keeps its keys. -/
def executeForever (capacity refillPerSec : ℚ) (key : Option Bucket) (c : Check) :
    Decision × Option Bucket :=
  let (decision, bucket) := tokenBucket capacity refillPerSec key c.nowMs c.cost
  (decision, some bucket)

/-- The key holds the bucket of the other Redis, and expires in its time. -/
def Alike (capacity refillPerSec : ℚ) (key : Option Entry) (bucket : Option Bucket) : Prop :=
  key.map Entry.bucket = bucket ∧ ∀ entry ∈ key, min capacity 0 ≤ entry.bucket.tokens ∧
    entry.expiresAt = entry.bucket.ts + expiry capacity refillPerSec

/-- The check comes after the last one, on the clock of Redis. -/
def InOrder (key : Option Entry) (c : Check) : Prop :=
  c.redisTime = c.nowMs ∧ ∀ entry ∈ key, entry.bucket.ts ≤ c.nowMs

theorem available_ge (positive : 0 < refillPerSec) (bucket : Bucket) (nowMs : Int)
    (owes : min capacity 0 ≤ bucket.tokens) :
    min capacity 0 ≤ available capacity refillPerSec (some bucket) nowMs := by
  have more : (0 : ℚ) ≤ max 0 ((nowMs - bucket.ts : Int) : ℚ) / 1000 * refillPerSec := by positivity
  exact le_min (min_le_left _ _) (owes.trans (le_add_of_nonneg_right more))

/-- At its expiry a key holds as much as a missing one. -/
theorem available_expired (positive : 0 < refillPerSec) (bucket : Bucket) (nowMs : Int)
    (owes : min capacity 0 ≤ bucket.tokens) (ordered : bucket.ts ≤ nowMs)
    (expired : bucket.ts + expiry capacity refillPerSec ≤ nowMs) :
    available capacity refillPerSec (some bucket) nowMs = available capacity refillPerSec none nowMs := by
  have waited : (expiry capacity refillPerSec : ℚ) ≤ ((nowMs - bucket.ts : Int) : ℚ) := by
    have gap : expiry capacity refillPerSec ≤ nowMs - bucket.ts := by omega
    exact_mod_cast gap
  have later : (0 : ℚ) ≤ ((nowMs - bucket.ts : Int) : ℚ) := by
    exact_mod_cast Int.sub_nonneg.mpr ordered
  have refilled : capacity ≤ ((nowMs - bucket.ts : Int) : ℚ) / 1000 * refillPerSec := by
    calc capacity ≤ refillPerSec * (expiry capacity refillPerSec : ℚ) / 1000 :=
          capacity_le_expiry positive
      _ ≤ refillPerSec * ((nowMs - bucket.ts : Int) : ℚ) / 1000 := by gcongr
      _ = ((nowMs - bucket.ts : Int) : ℚ) / 1000 * refillPerSec := by ring
  have regains : (0 : ℚ) ≤ ((nowMs - bucket.ts : Int) : ℚ) / 1000 * refillPerSec := by positivity
  rw [available_none, available, Option.getD_some, max_eq_right later]
  apply min_eq_left
  -- A bucket without a capacity is full when it owes nothing more.
  rcases le_total capacity 0 with none | some
  · rw [min_eq_left none] at owes
    exact owes.trans (le_add_of_nonneg_right regains)
  · rw [min_eq_right some] at owes
    exact refilled.trans (le_add_of_nonneg_left owes)

/-- The script reads nothing of a key but the tokens that it has after the refill. -/
theorem tokenBucket_congr (found found' : Option Bucket) (nowMs : Int) (cost : ℚ)
    (same : available capacity refillPerSec found nowMs = available capacity refillPerSec found' nowMs) :
    tokenBucket capacity refillPerSec found nowMs cost =
      tokenBucket capacity refillPerSec found' nowMs cost := by
  rw [tokenBucket, tokenBucket, same]

theorem tokenBucket_ts (found : Option Bucket) (nowMs : Int) (cost : ℚ) :
    (tokenBucket capacity refillPerSec found nowMs cost).2.ts = nowMs := by
  rw [tokenBucket]
  split <;> rfl

theorem tokenBucket_owes (found : Option Bucket) (nowMs : Int) (cost : ℚ)
    (owes : min capacity 0 ≤ available capacity refillPerSec found nowMs) :
    min capacity 0 ≤ (tokenBucket capacity refillPerSec found nowMs cost).2.tokens := by
  rw [tokenBucket]
  split
  · rename_i enough
    exact (min_le_right _ _).trans (sub_nonneg.mpr enough)
  · exact owes

/-- Both Redis find as many tokens. -/
theorem available_alike (positive : 0 < refillPerSec) (key : Option Entry) (bucket : Option Bucket)
    (c : Check) (alike : Alike capacity refillPerSec key bucket) (ordered : InOrder key c) :
    available capacity refillPerSec (lookup c.redisTime key) c.nowMs =
        available capacity refillPerSec bucket c.nowMs ∧
      min capacity 0 ≤ available capacity refillPerSec bucket c.nowMs := by
  obtain ⟨rfl, holds⟩ := alike
  obtain ⟨clock, later⟩ := ordered
  cases key with
  | none =>
      refine ⟨rfl, ?_⟩
      rw [Option.map_none, available_none]
      exact min_le_left _ _
  | some entry =>
      obtain ⟨owes, expires⟩ := holds entry rfl
      refine ⟨?_, available_ge positive entry.bucket c.nowMs owes⟩
      rw [lookup, Option.bind_some, Option.map_some, clock]
      split
      · rename_i expired
        rw [expires] at expired
        exact (available_expired positive entry.bucket c.nowMs owes (later entry rfl) expired).symm
      · rfl

theorem execute_alike (positive : 0 < refillPerSec) (key : Option Entry) (bucket : Option Bucket)
    (c : Check) (alike : Alike capacity refillPerSec key bucket) (ordered : InOrder key c) :
    (execute capacity refillPerSec key c).1 = (executeForever capacity refillPerSec bucket c).1 ∧
      Alike capacity refillPerSec (execute capacity refillPerSec key c).2
        (executeForever capacity refillPerSec bucket c).2 := by
  obtain ⟨same, owes⟩ := available_alike positive key bucket c alike ordered
  have equal := tokenBucket_congr (lookup c.redisTime key) bucket c.nowMs c.cost same
  rw [execute_eq, equal]
  refine ⟨rfl, rfl, ?_⟩
  intro entry inside
  obtain rfl := (Option.some.inj inside).symm
  refine ⟨tokenBucket_owes bucket c.nowMs c.cost owes, ?_⟩
  rw [tokenBucket_ts, ordered.1]

/-- Checks in the order of their times are in order on each key that they leave. -/
theorem inOrder_run (checks : List Check) (clock : ∀ c ∈ checks, c.redisTime = c.nowMs)
    (ordered : checks.Pairwise fun a b => a.nowMs ≤ b.nowMs) (key : Option Entry)
    (before : ∀ entry ∈ key, ∀ c ∈ checks, entry.bucket.ts ≤ c.nowMs) :
    Run.Each (fun key c => (execute capacity refillPerSec key c).2) InOrder key checks := by
  induction checks generalizing key with
  | nil => trivial
  | cons c rest ih =>
      rw [List.pairwise_cons] at ordered
      rw [List.forall_mem_cons] at clock
      refine ⟨⟨clock.1, fun entry inside => before entry inside c List.mem_cons_self⟩, ?_⟩
      apply ih clock.2 ordered.2
      intro entry inside later follows
      change entry ∈ (execute capacity refillPerSec key c).2 at inside
      rw [execute_eq] at inside
      obtain rfl := (Option.some.inj inside).symm
      change (tokenBucket capacity refillPerSec (lookup c.redisTime key) c.nowMs c.cost).2.ts ≤ later.nowMs
      rw [tokenBucket_ts]
      exact ordered.1 later follows

end Kortex.RateLimit
