import Kortex.Library.Text
import Kortex.Model.Idempotency

/-
This file models the requests that share one cache key of `IdempotencyMiddleware`, with the clock of
Redis and one command to Redis at a time.
-/

namespace Kortex.Idempotency.Race

/-- The clock counts microseconds. -/
def second : Nat := 1000000

/-- This is `_CACHE_TTL_SECONDS`. -/
def cacheTtl : Nat := 24 * 3600 * second

/-- This is `_INFLIGHT_TTL_SECONDS`. -/
def inflightTtl : Nat := 60 * second

/-- A handler answers with a body in bytes; a header may stand in its answer more than once. -/
structure Answer where
  status : Nat
  body : List UInt8
  mediaType : Option Str
  headers : List (Str × Str)
deriving DecidableEq

def Answer.success (answer : Answer) : Prop := 200 ≤ answer.status ∧ answer.status < 300

instance (answer : Answer) : Decidable answer.success := inferInstanceAs (Decidable (_ ∧ _))

/-- The payload holds the body as a text and the headers as a dictionary. -/
def Answer.cached (answer : Answer) : Response :=
  { status := answer.status, body := Utf8.decode answer.body
    mediaType := answer.mediaType, headers := Dict.ofPairs answer.headers }

/-- A replayed response has the text of the payload as its body. -/
def replayed (response : Response) : Answer :=
  { status := response.status, body := Utf8.encode response.body
    mediaType := response.mediaType, headers := response.headers }

/-- This is the text that a completed request caches. -/
def Answer.text (answer : Answer) : Str := Json.dumps {} (payload answer.cached)

/-- Redis holds a text until it expires; the request that wrote it is recorded beside it. -/
structure Entry where
  text : Str
  producer : Nat
  expiresAt : Nat
deriving DecidableEq

/-- A request stands between two of its commands to Redis. The request that finds a corrupted entry
drops it in its first or in its second lookup. -/
inductive Phase where
  | idle
  | missed
  | blocked
  | corrupted (again : Bool)
  | running
  | completed (answer : Answer)
  | failed
  | done
deriving DecidableEq

/-- The request holds the reservation, or has held it and still writes to Redis. -/
def Phase.inFlight : Phase → Prop
  | running | completed _ | failed => True
  | _ => False

instance (phase : Phase) : Decidable phase.inFlight := by
  cases phase <;> unfold Phase.inFlight <;> infer_instance

structure Completion where
  id : Nat
  answer : Answer
deriving DecidableEq

/-- A request has removed an entry that was not expired. -/
structure Removal where
  id : Nat
  producer : Nat
deriving DecidableEq

structure State where
  now : Nat
  cache : Option Entry
  phase : Nat → Phase
  completions : List Completion
  replays : List Completion
  removals : List Removal

/-- The handler of a request responds, raises, or breaks off the body of a successful response. -/
inductive Event where
  | pass (duration : Nat)
  | dispatch (id : Nat)
  | discard (id : Nat)
  | reserve (id : Nat)
  | recheck (id : Nat)
  | respond (id : Nat) (answer : Answer)
  | crash (id : Nat)
  | breakOff (id : Nat)
  | finish (id : Nat)

namespace State

def setPhase (s : State) (id : Nat) (phase : Phase) : State :=
  { s with phase := Function.update s.phase id phase }

/-- This is `GET`, which does not see an expired entry. -/
def get (s : State) : Option Entry := s.cache.filter fun entry => decide (s.now < entry.expiresAt)

/-- This is `SET` with a time to live. -/
def set (s : State) (id : Nat) (text : Str) (ttl : Nat) : State :=
  { s with cache := some ⟨text, id, s.now + ttl⟩ }

/-- This is `DELETE`. -/
def delete (s : State) (id : Nat) : State :=
  { s with cache := none, removals := s.removals ++ s.get.toList.map fun entry => ⟨id, entry.producer⟩ }

end State

inductive Lookup where
  | nothing
  | replay (answer : Answer)
  | corrupted

/-- This is `_try_replay` up to its `DELETE`. -/
def tryReplay (s : State) : Lookup :=
  match s.get with
  | none => .nothing
  | some entry =>
      if entry.text = [] ∨ entry.text = inflightSentinel then .nothing
      else match (Json.loads .finite entry.text).bind readPayload with
        | some response => .replay (replayed response)
        | none => .corrupted

/-- The lookup ends the request with a replay, or sends it on to the given phase. -/
def lookup (s : State) (id : Nat) (again : Bool) (next : Phase) : State :=
  match tryReplay s with
  | .nothing => s.setPhase id next
  | .replay answer => { s.setPhase id .done with replays := s.replays ++ [⟨id, answer⟩] }
  | .corrupted => s.setPhase id (.corrupted again)

/-- These are the steps of `dispatch`, each with at most one command to Redis. -/
def step (s : State) : Event → State
  | .pass duration => { s with now := s.now + duration }
  | .dispatch id =>
      match s.phase id with
      | .idle => lookup s id false .missed
      | _ => s
  | .discard id =>
      match s.phase id with
      | .corrupted again => (s.delete id).setPhase id (if again then .done else .missed)
      | _ => s
  | .reserve id =>
      match s.phase id with
      | .missed =>
          if s.get.isSome then s.setPhase id .blocked
          else (s.set id inflightSentinel inflightTtl).setPhase id .running
      | _ => s
  | .recheck id =>
      match s.phase id with
      | .blocked => lookup s id true .done
      | _ => s
  | .respond id answer =>
      match s.phase id with
      | .running =>
          if answer.success then
            { s.setPhase id (.completed answer) with completions := s.completions ++ [⟨id, answer⟩] }
          else s.setPhase id .failed
      | _ => s
  | .crash id =>
      match s.phase id with
      | .running => s.setPhase id .failed
      | _ => s
  | .breakOff id =>
      match s.phase id with
      | .running => s.setPhase id .done
      | _ => s
  | .finish id =>
      match s.phase id with
      | .completed answer => (s.set id answer.text cacheTtl).setPhase id .done
      | .failed => (s.delete id).setPhase id .done
      | _ => s

def start : State := ⟨0, none, fun _ => .idle, [], [], []⟩

end Kortex.Idempotency.Race
