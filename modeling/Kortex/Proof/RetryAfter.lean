import Kortex.Library.JsonRoundTrip
import Kortex.Proof.RateLimit

/-
This file proves when the delay of a refused request is long enough.
-/

namespace Kortex.RateLimit

/-! The script counts in milliseconds and the header in seconds. -/

/-- This is the number of the header for a bucket that has a token in so many seconds. -/
def headerSeconds (seconds : ℚ) : Int := max 1 (⌈seconds * 1000⌉ / 1000)

/-- A time that is nearly a whole number of seconds is rounded up. -/
theorem headerSeconds_of_near (seconds : ℚ) (near : ⌈seconds⌉ - seconds < 1 / 1000) :
    seconds ≤ headerSeconds seconds := by
  have rounded : ⌈seconds⌉ * 1000 ≤ ⌈seconds * 1000⌉ := by
    rw [Int.le_ceil_iff]
    push_cast
    linarith
  have whole : ⌈seconds⌉ ≤ ⌈seconds * 1000⌉ / 1000 := by omega
  calc seconds ≤ (⌈seconds⌉ : ℚ) := Int.le_ceil seconds
    _ ≤ headerSeconds seconds := by exact_mod_cast whole.trans (le_max_right _ _)

/-- Any other time is rounded down. -/
theorem headerSeconds_of_far (seconds : ℚ) (long : 1 < seconds)
    (far : 1 / 1000 ≤ ⌈seconds⌉ - seconds) : headerSeconds seconds = ⌊seconds⌋ := by
  have below : ⌈seconds * 1000⌉ < ⌈seconds⌉ * 1000 := by
    have close := Int.ceil_lt_add_one (seconds * 1000)
    have bound : (⌈seconds * 1000⌉ : ℚ) < ⌈seconds⌉ * 1000 := by linarith
    exact_mod_cast bound
  have above : ⌊seconds⌋ * 1000 ≤ ⌈seconds * 1000⌉ := by
    have floor := Int.floor_le seconds
    have bound : (⌊seconds⌋ * 1000 : ℚ) ≤ ⌈seconds * 1000⌉ := by
      linarith [Int.le_ceil (seconds * 1000)]
    exact_mod_cast bound
  have next := Int.ceil_le_floor_add_one seconds
  have one : 1 ≤ ⌊seconds⌋ := Int.le_floor.mpr (by exact_mod_cast long.le)
  rw [headerSeconds]
  omega

theorem le_headerSeconds_iff (seconds : ℚ) :
    seconds ≤ headerSeconds seconds ↔ seconds ≤ 1 ∨ ⌈seconds⌉ - seconds < 1 / 1000 := by
  constructor
  · intro enough
    by_contra missed
    obtain ⟨long, far⟩ := not_or.mp missed
    rw [headerSeconds_of_far seconds (not_le.mp long) (not_lt.mp far)] at enough
    have whole : (⌈seconds⌉ : ℚ) ≤ seconds := by
      have same := Int.ceil_le.mpr enough
      exact (Int.cast_le.mpr same).trans (Int.floor_le seconds)
    linarith [not_lt.mp far]
  · rintro (short | near)
    · exact short.trans (by exact_mod_cast le_max_left _ _)
    · exact headerSeconds_of_near seconds near

/-! The client reads the number of the header back. -/

theorem ofNat_ne_nil (n : Nat) : Str.ofNat n ≠ [] := by
  by_cases zero : n = 0
  · subst zero
    decide
  · obtain ⟨c, digits, text, _⟩ := Json.ofNat_digits n zero
    rw [text]
    exact List.cons_ne_nil c digits

theorem retryDelay_retryAfter (floatOf : FloatOf) (decision : Decision) (attempt : Nat)
    (backoff jitter : ℚ) : retryDelay floatOf (some (retryAfter decision)) attempt backoff jitter =
      (max 1 (decision.retryAfterMs / 1000) : Int) := by
  obtain ⟨n, whole⟩ := Int.eq_ofNat_of_zero_le
    (zero_le_one.trans (le_max_left 1 (decision.retryAfterMs / 1000)))
  have header : retryAfter decision = Str.ofNat n := by
    rw [retryAfter, whole]
    rfl
  rw [header, whole, retryDelay, if_neg (ofNat_ne_nil n), floatOf.ofNat, Option.elim_some]
  exact_mod_cast max_eq_right (Nat.cast_nonneg n)

section Wait

variable (capacity refillPerSec : ℚ) (key : Option Entry) (redisTime nowMs : Int)

/-- These are the seconds until the bucket of a key has a token. -/
def secondsToToken : ℚ :=
  (1 - available capacity refillPerSec (lookup redisTime key) nowMs) / refillPerSec

/-- This is a check with the cost of a request. -/
def ask : Decision × Option Entry := execute capacity refillPerSec key ⟨redisTime, nowMs, 1⟩

/-- A client that waits as long as its SDK tells it to, or longer, gets its next request through. -/
def WaitSuffices (floatOf : FloatOf) (attempt : Nat) (backoff jitter : ℚ) : Prop :=
  let (decision, left) := ask capacity refillPerSec key redisTime nowMs
  ∀ waited : Int,
    1000 * retryDelay floatOf (some (retryAfter decision)) attempt backoff jitter ≤ waited →
      (ask capacity refillPerSec left (redisTime + waited) (nowMs + waited)).1.allowed = true

variable {capacity refillPerSec key redisTime nowMs}

theorem ask_allowed_iff : (ask capacity refillPerSec key redisTime nowMs).1.allowed = true ↔
    1 ≤ available capacity refillPerSec (lookup redisTime key) nowMs := by
  rw [ask, execute_eq, tokenBucket]
  split
  · rename_i enough
    exact iff_of_true rfl enough
  · rename_i missing
    exact iff_of_false Bool.false_ne_true missing

/-- A refusal tells how long the bucket needs, and takes nothing. -/
theorem ask_refused
    (refused : (ask capacity refillPerSec key redisTime nowMs).1.allowed = false) :
    ask capacity refillPerSec key redisTime nowMs =
      (⟨false, ⌈secondsToToken capacity refillPerSec key redisTime nowMs * 1000⌉⟩,
        left capacity refillPerSec (available capacity refillPerSec (lookup redisTime key) nowMs)
          (redisTime, nowMs)) := by
  have missing : ¬ 1 ≤ available capacity refillPerSec (lookup redisTime key) nowMs := by
    rw [← ask_allowed_iff, refused]
    exact Bool.false_ne_true
  rw [ask, execute_eq, tokenBucket, if_neg missing]
  rfl

/-- After the refusal a request gets through when the key has expired or the time is over. -/
theorem ask_left_iff (one : 1 ≤ capacity) (positive : 0 < refillPerSec) (waited : Int)
    (later : 0 ≤ waited) (tokens : ℚ) :
    (ask capacity refillPerSec (left capacity refillPerSec tokens (redisTime, nowMs))
        (redisTime + waited) (nowMs + waited)).1.allowed = true ↔
      expiry capacity refillPerSec ≤ waited ∨ 1000 * ((1 - tokens) / refillPerSec) ≤ waited := by
  have elapsed : nowMs + waited - nowMs = waited := by omega
  have forward : (0 : ℚ) ≤ (waited : ℚ) := by exact_mod_cast later
  rw [ask_allowed_iff, lookup_left]
  by_cases expired : expiry capacity refillPerSec ≤ waited
  · rw [if_pos (by simpa using expired), available_none]
    exact iff_of_true one (Or.inl expired)
  · rw [if_neg (by simpa using expired), available, Option.getD_some]
    dsimp only
    rw [elapsed, max_eq_right forward, le_min_iff, or_iff_right expired, and_iff_right one,
      ← mul_div_assoc, div_le_iff₀ positive]
    constructor
    · intro refilled
      linarith
    · intro refilled
      linarith

theorem waitSuffices_iff_later (floatOf : FloatOf) (one : 1 ≤ capacity) (positive : 0 < refillPerSec)
    (refused : (ask capacity refillPerSec key redisTime nowMs).1.allowed = false) (attempt : Nat)
    (backoff jitter : ℚ) :
    WaitSuffices capacity refillPerSec key redisTime nowMs floatOf attempt backoff jitter ↔
      ∀ waited : Int,
        1000 * headerSeconds (secondsToToken capacity refillPerSec key redisTime nowMs) ≤ waited →
          expiry capacity refillPerSec ≤ waited ∨
            1000 * secondsToToken capacity refillPerSec key redisTime nowMs ≤ waited := by
  rw [WaitSuffices, ask_refused refused]
  dsimp only
  rw [retryDelay_retryAfter]
  apply forall_congr'
  intro waited
  have least : 1 ≤ headerSeconds (secondsToToken capacity refillPerSec key redisTime nowMs) :=
    le_max_left _ _
  constructor
  · intro admits enough
    rw [secondsToToken, ← ask_left_iff one positive waited (by omega)]
    exact admits (by exact_mod_cast enough)
  · intro finished enough
    have enough' : 1000 * headerSeconds (secondsToToken capacity refillPerSec key redisTime nowMs) ≤
        waited := by
      exact_mod_cast enough
    rw [ask_left_iff one positive waited (by omega)]
    exact finished enough'

/-- The shortest wait decides. -/
theorem finished_iff (expiresAfter : Int) (seconds : ℚ) :
    (∀ waited : Int, 1000 * headerSeconds seconds ≤ waited →
      expiresAfter ≤ waited ∨ 1000 * seconds ≤ waited) ↔
        seconds ≤ headerSeconds seconds ∨ expiresAfter ≤ 1000 * headerSeconds seconds := by
  constructor
  · intro finished
    rcases finished _ le_rfl with expired | enough
    · exact Or.inr expired
    · push_cast at enough
      exact Or.inl (by linarith)
  · rintro (enough | expired) waited long
    · right
      have long' : (1000 : ℚ) * headerSeconds seconds ≤ waited := by exact_mod_cast long
      linarith
    · exact Or.inl (expired.trans long)

/-- A client that was refused and waits for as long as its SDK tells it to gets through exactly when the
bucket has a token within a second, or just before a whole second, or when the key has expired by then. -/
theorem waitSuffices_iff (floatOf : FloatOf) (capacity refillPerSec : ℚ) (one : 1 ≤ capacity)
    (positive : 0 < refillPerSec) (key : Option Entry) (redisTime nowMs : Int)
    (refused : (ask capacity refillPerSec key redisTime nowMs).1.allowed = false) (attempt : Nat)
    (backoff jitter : ℚ) :
    WaitSuffices capacity refillPerSec key redisTime nowMs floatOf attempt backoff jitter ↔
      secondsToToken capacity refillPerSec key redisTime nowMs ≤ 1 ∨
      ⌈secondsToToken capacity refillPerSec key redisTime nowMs⌉ -
        secondsToToken capacity refillPerSec key redisTime nowMs < 1 / 1000 ∨
      expiry capacity refillPerSec ≤ 1000 * ⌊secondsToToken capacity refillPerSec key redisTime nowMs⌋ := by
  rw [waitSuffices_iff_later floatOf one positive refused, finished_iff, le_headerSeconds_iff, ← or_assoc]
  apply or_congr_right'
  intro missed
  obtain ⟨long, far⟩ := not_or.mp missed
  rw [headerSeconds_of_far _ (not_le.mp long) (not_lt.mp far)]

end Wait

/-- This reads the digits of a number, and nothing else. -/
def readDigits (text : Str) : Option ℚ :=
  if text ≠ [] ∧ text.all Char.isDigit then some (Json.digitsValue text) else none

theorem readDigits_ofNat (n : Nat) : readDigits (Str.ofNat n) = some (n : ℚ) := by
  by_cases zero : n = 0
  · subst zero
    decide +kernel
  · obtain ⟨c, digits, text, _, allDigits, value⟩ := Json.ofNat_digits n zero
    rw [text, readDigits, if_pos ⟨List.cons_ne_nil c digits, List.all_eq_true.mpr allDigits⟩, value]

def digitsFloat : FloatOf := ⟨readDigits, readDigits_ofNat⟩

/-- The key of one request a minute holds half a token. -/
def halfToken : Option Entry := some ⟨⟨1 / 2, 0⟩, 61000⟩

theorem waitSuffices_halfToken : WaitSuffices 1 (1 / 60) halfToken 0 0 digitsFloat 1 1 0 :=
  (waitSuffices_iff digitsFloat 1 (1 / 60) le_rfl (by norm_num) halfToken 0 0 (by decide +kernel) 1 1 0).mpr
    (by decide +kernel)

/-- The bucket has a token after a second and a half, and the header says one. -/
theorem retry_after_too_short : ¬ ∀ (floatOf : FloatOf) (capacity refillPerSec : ℚ) (key : Option Entry)
    (redisTime nowMs : Int) (attempt : Nat) (backoff jitter : ℚ), 1 ≤ capacity → 0 < refillPerSec →
      (ask capacity refillPerSec key redisTime nowMs).1.allowed = false →
        WaitSuffices capacity refillPerSec key redisTime nowMs floatOf attempt backoff jitter := by
  intro claim
  have waits := claim digitsFloat 40 (2 / 3) (some ⟨⟨0, 0⟩, 61000⟩) 0 0 1 1 0 (by norm_num) (by norm_num)
    (by decide +kernel) 1000 (by decide +kernel)
  exact absurd waits (by decide +kernel)

end Kortex.RateLimit
