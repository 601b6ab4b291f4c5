import Kortex.Library.Text
import Mathlib.Data.Rat.Floor

/-
This file models `rate_limit.py`, the middleware that asks it, and the delay of the SDK. The numbers are
rational numbers.
-/

namespace Kortex.RateLimit

/-- These are the fields of the hash of a key. The time is in milliseconds. -/
structure Bucket where
  tokens : ℚ
  ts : Int
deriving DecidableEq

/-- A key of Redis comes with the time at which it expires. -/
structure Entry where
  bucket : Bucket
  expiresAt : Int

/-- This is `RateLimitDecision`. -/
structure Decision where
  allowed : Bool
  retryAfterMs : Int
deriving DecidableEq

section Script

variable (capacity refillPerSec : ℚ)

/-- These are the tokens after the refill. A key that is missing gets a full bucket. -/
def available (found : Option Bucket) (nowMs : Int) : ℚ :=
  let bucket := found.getD ⟨capacity, nowMs⟩
  let elapsed : ℚ := max 0 ((nowMs - bucket.ts : Int) : ℚ) / 1000
  min capacity (bucket.tokens + elapsed * refillPerSec)

/-- This is the argument of `PEXPIRE`. -/
def expiry : Int := ⌈capacity / refillPerSec * 1000⌉ + 1000

/-- This is the script of the token bucket, with the hash that it writes. -/
def tokenBucket (found : Option Bucket) (nowMs : Int) (cost : ℚ) : Decision × Bucket :=
  let tokens := available capacity refillPerSec found nowMs
  if cost ≤ tokens then (⟨true, 0⟩, ⟨tokens - cost, nowMs⟩)
  else (⟨false, ⌈(cost - tokens) / refillPerSec * 1000⌉⟩, ⟨tokens, nowMs⟩)

/-- Redis runs the script at a time of its own clock. -/
structure Check where
  redisTime : Int
  nowMs : Int
  cost : ℚ

/-- Redis drops a key whose time has come. -/
def lookup (redisTime : Int) (key : Option Entry) : Option Bucket :=
  key.bind fun entry => if entry.expiresAt ≤ redisTime then none else some entry.bucket

/-- Redis executes the script on a key. -/
def execute (key : Option Entry) (c : Check) : Decision × Option Entry :=
  let (decision, bucket) := tokenBucket capacity refillPerSec (lookup c.redisTime key) c.nowMs c.cost
  (decision, some ⟨bucket, c.redisTime + expiry capacity refillPerSec⟩)

end Script

/-- This is `RateLimiter.check` for a key. -/
def check (capacity windowSeconds : Int) (redisTime nowMs : Int) (key : Option Entry)
    (cost : Int := 1) : Decision × Option Entry :=
  execute capacity (capacity / (max windowSeconds 1 : Int)) key ⟨redisTime, nowMs, cost⟩

/-- This is the header `Retry-After` of a refusal. -/
def retryAfter (decision : Decision) : Str := Str.ofInt (max 1 (decision.retryAfterMs / 1000))

/-! The middleware keeps one bucket for each caller and kind of request. -/

inductive BucketName where
  | read
  | write
  | recall

def BucketName.value : BucketName → Str
  | .read => "read"
  | .write => "write"
  | .recall => "recall"

/-- These are the settings of the limits. -/
structure Limits where
  readPerMin : Int := 600
  writePerMin : Int := 120
  recallPerMin : Int := 30

def Limits.capacity (limits : Limits) : BucketName → Int
  | .read => limits.readPerMin
  | .write => limits.writePerMin
  | .recall => limits.recallPerMin

/-- This is `_bucket_for_path_method`. -/
def bucketForPathMethod (path method : Str) : Option BucketName :=
  if Str.startsWith path "/livez" ∨ Str.startsWith path "/readyz" ∨ path = "/metrics".toList then none
  else if path = "/v1/search/recall".toList then some .recall
  else if method = "GET".toList ∨ method = "HEAD".toList then some .read
  else some .write

/-- The request goes on, or is refused with a header and the detail of its problem. -/
inductive Response where
  | next
  | tooManyRequests (retryAfter detail : Str)

/-- This is `dispatch` for a caller with its `_extract_key_id`. Without Redis every request goes on. -/
def dispatch (limits : Limits) (redis : Bool) (redisTime nowMs : Int) (path method : Str)
    (keyId : Option Str) (keys : Str → Option Entry) : Response × (Str → Option Entry) :=
  match bucketForPathMethod path method, keyId with
  | some bucket, some keyId =>
      if redis then
        let key := "rl:" ++ bucket.value ++ ":" ++ keyId
        let (decision, entry) := check (limits.capacity bucket) 60 redisTime nowMs (keys key)
        (if decision.allowed then .next
          else .tooManyRequests (retryAfter decision)
            ("rate limit exceeded for bucket " ++ bucket.value), Function.update keys key entry)
      else (.next, keys)
  | _, _ => (.next, keys)

/-- This is `float(text)`, which reads an integer without a sign. -/
structure FloatOf where
  float : Str → Option ℚ
  ofNat : ∀ n : Nat, float (Str.ofNat n) = some (n : ℚ)

/-- This is `retry_delay` for a response with its header, in seconds; the jitter is one of the numbers
that `random.random()` gives. -/
def retryDelay (floatOf : FloatOf) (header : Option Str) (attempt : Nat) (backoff jitter : ℚ) : ℚ :=
  let guessed := backoff * 2 ^ (attempt - 1) * (1 / 2 + jitter)
  match header with
  | none => guessed
  | some header =>
      if header = [] then guessed
      else (floatOf.float header).elim guessed fun seconds => max 0 seconds

example : bucketForPathMethod "/v1/memories".toList "PATCH".toList = some .write := rfl

end Kortex.RateLimit
