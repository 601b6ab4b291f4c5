import Kortex.Model.Environment

/-
This file models `trust_policy.py` and `review_policy.py`.
-/

namespace Kortex

/-- This is `trust_for_source`. -/
def trustForSource : MemorySource → Trust
  | .manual => .high
  | .message | .derived => .medium
  | .toolOutput | .document => .low

namespace TrustPolicy

open Regex

variable (u : Unicode)

/-- This is `\b(first|second|...)\b` with `re.IGNORECASE`. -/
def oneOf (words : List String) : Regex :=
  seqs [u.boundary, alts (words.map fun w => word w.toList), u.boundary]

/-- This is `[^.\n]{0,n}`. -/
def gap (n : Nat) (lazily : Bool) : Regex :=
  many (.set fun c => c != '.' && c != '\n') 0 (some n) lazily

/-- These are the patterns with their names. -/
def patterns : List (Str × Regex) :=
  [("override_instructions",
      seqs [oneOf u ["ignore", "disregard", "forget", "override"], gap 40 true,
        oneOf u ["previous", "prior", "earlier", "above", "all"], gap 20 true, u.boundary,
        alts (["instruction", "prompt", "rule", "direction", "context"].map fun w => word w.toList),
        optional (word ['s']), u.boundary]),
    ("role_reassignment",
      seqs [oneOf u ["you are", "act as", "pretend to be", "from now on you"], gap 30 false,
        oneOf u ["now", "instead", "actually", "a different"]]),
    ("system_prompt_probe",
      seqs [oneOf u ["reveal", "print", "repeat", "show", "output", "dump"], gap 30 false,
        oneOf u ["system prompt", "initial instructions", "your instructions"]]),
    ("exfiltration",
      seqs [oneOf u ["send", "post", "upload", "forward", "exfiltrate"], gap 40 false,
        oneOf u ["to", "at"], gap 20 false,
        alt (seqs [word "http", optional (word ['s']), word "://"]) (word ['@'])]),
    ("concealment",
      seqs [oneOf u ["do not", "don't", "never"], gap 20 false,
        oneOf u ["tell", "inform", "mention", "reveal", "show"], gap 20 false, u.boundary,
        optional (word "the "), alts (["user", "human", "operator"].map fun w => word w.toList),
        u.boundary])]

end TrustPolicy

structure InjectionVerdict where
  suspicious : Bool
  patterns : List Str := []

def InjectionVerdict.reason (verdict : InjectionVerdict) : Str := Str.join ", " verdict.patterns

/-- This is `scan_for_injection`. -/
def scanForInjection (u : Unicode) (text : Str) : InjectionVerdict :=
  if text = [] then { suspicious := false }
  else
    let hits := ((TrustPolicy.patterns u).filter fun p => p.2.search text).map Prod.fst
    { suspicious := !hits.isEmpty, patterns := hits }

/-- This is `should_quarantine`. -/
def shouldQuarantine (u : Unicode) (trust : Trust) (text : Str) : InjectionVerdict :=
  if trust ≠ .low then { suspicious := false } else scanForInjection u text

/-- This is `trusts_allowed_for`, where nothing stands for all levels. -/
def trustsAllowedFor : Sensitivity → Option (List Trust)
  | .confidential | .secret => some [.high, .medium]
  | _ => none

structure ReviewDecision where
  status : ReviewStatus
  reason : Str := []
deriving DecidableEq

def ReviewDecision.held (decision : ReviewDecision) : Bool := decision.status = .pending

/-- This is `decide_review`. -/
def decideReview (twoDecimals : PyFloat → Str) (mode : ReviewMode) (confidence : Option PyFloat)
    (threshold : PyFloat) (suspiciousReason : Str) : ReviewDecision :=
  if suspiciousReason ≠ [] then ⟨.pending, suspiciousReason⟩
  else if mode = .all then ⟨.pending, "project reviews every write"⟩
  else match confidence with
    | some c =>
        if mode = .lowConfidence ∧ c.lt threshold = true then
          ⟨.pending, "confidence " ++ twoDecimals c ++ " below the " ++ twoDecimals threshold ++
            " threshold"⟩
        else { status := .approved }
    | none => { status := .approved }

end Kortex
