import Kortex.Library.Dates
import Mathlib.Logic.Function.Basic

/-
This file models `quota.py`: the counters in Redis and the calls that are in flight.
-/

namespace Kortex.DailyQuota

/-- A counter may have a time at which it expires. -/
structure Counter where
  value : Nat
  expiresAt : Option Instant := none

/-- These are the arguments of `check_daily_quota`. -/
structure Check where
  bucket : Str
  orgId : Nat
  limit : Int
deriving DecidableEq

/-- This is the key of a counter on the day of a time. -/
def key (bucket : Str) (orgId : Nat) (now : Instant) : Str :=
  "quota:".toList ++ bucket ++ ':' :: Str.ofNat orgId ++ ':' :: now.compactDate

/-- This is the time that a counter gets. -/
def dayAndSlack : Int := (86400 + 3600) * 1000000

/-- Redis executes a command and answers, or the answer is lost, or Redis is not reached. -/
inductive Reply where
  | answered
  | lost
  | unreached
deriving DecidableEq

/-- A call waits for INCR or for EXPIRE, or it has returned. The count is what INCR gave it. -/
inductive Phase where
  | increments
  | expires (count : Nat)
  | returned (within : Bool) (count : Option Nat)
deriving DecidableEq

/-- A call has read the clock. -/
structure Call where
  check : Check
  now : Instant
  phase : Phase
deriving DecidableEq

def Call.key (c : Call) : Str := DailyQuota.key c.check.bucket c.check.orgId c.now

/-- The clock is that of Redis. -/
structure State where
  time : Instant := 0
  counters : Str → Option Counter := fun _ => none
  calls : List Call := []

/-- A call reads its own clock; it may have no client. -/
inductive Event where
  | elapse (duration : Nat)
  | call (check : Check) (now : Instant) (client : Bool)
  | incr (index : Nat) (reply : Reply)
  | expire (index : Nat) (reply : Reply)

namespace State

variable (s : State)

/-- Redis drops a counter whose time has come. -/
def lookup (key : Str) : Option Counter :=
  (s.counters key).filter fun counter => counter.expiresAt.all fun at_ => decide (s.time < at_)

/-- This is `check_daily_quota` up to the INCR. -/
def begin_ (check : Check) (now : Instant) (client : Bool) : State :=
  let phase := if check.limit ≤ 0 ∨ client = false then .returned true none else .increments
  { s with calls := s.calls ++ [⟨check, now, phase⟩] }

/-- This is the command INCR, which keeps the time of the counter. -/
def increment (key : Str) : Counter :=
  match s.lookup key with
  | none => { value := 1 }
  | some counter => { counter with value := counter.value + 1 }

/-- This is what follows the answer of the INCR. -/
def counted (limit : Int) (count : Nat) : Phase :=
  if count = 1 then .expires count else .returned (decide ((count : Int) ≤ limit)) (some count)

def setPhase (index : Nat) (c : Call) (phase : Phase) : State :=
  { s with calls := s.calls.set index { c with phase := phase } }

def setCounter (key : Str) (counter : Option Counter) : State :=
  { s with counters := Function.update s.counters key counter }

def incr (index : Nat) (c : Call) (reply : Reply) : State :=
  let counter := s.increment c.key
  match reply with
  | .answered => (s.setCounter c.key (some counter)).setPhase index c (counted c.check.limit counter.value)
  | .lost => (s.setCounter c.key (some counter)).setPhase index c (.returned true none)
  | .unreached => s.setPhase index c (.returned true none)

/-- This is the command EXPIRE, which finds no counter that is gone. -/
def withExpiry (key : Str) : State :=
  s.setCounter key ((s.lookup key).map fun counter =>
    { counter with expiresAt := some (s.time + dayAndSlack) })

def expire (index : Nat) (c : Call) (count : Nat) (reply : Reply) : State :=
  match reply with
  | .answered => (s.withExpiry c.key).setPhase index c
      (.returned (decide ((count : Int) ≤ c.check.limit)) (some count))
  | .lost => (s.withExpiry c.key).setPhase index c (.returned true (some count))
  | .unreached => s.setPhase index c (.returned true (some count))

end State

def step (s : State) : Event → State
  | .elapse duration => { s with time := s.time + duration }
  | .call check now client => s.begin_ check now client
  | .incr index reply =>
      match s.calls[index]? with
      | some ⟨check, now, .increments⟩ => s.incr index ⟨check, now, .increments⟩ reply
      | _ => s
  | .expire index reply =>
      match s.calls[index]? with
      | some ⟨check, now, .expires count⟩ => s.expire index ⟨check, now, .expires count⟩ count reply
      | _ => s

end Kortex.DailyQuota
