import Kortex.Model.ConflictTask

/-
This file models how the conflict judge reads the payload of a model, with the exceptions of Python.
-/

namespace Kortex.ConflictJudge

/-- These are the exceptions of `float`, `str` and a loop over a value. -/
inductive PyError where
  | typeError
  | valueError
  | overflowError
deriving DecidableEq

/-- These are the texts and the roundings of the conversions `float` and `str`. -/
structure Conversions where
  /-- This is the nearest float to an integer that is not too large for one. -/
  ofInt : Int → PyFloat
  number : ∀ n, ofInt n ≠ .nan
  /-- This is `float(text)`, where `none` stands for its `ValueError`. -/
  ofText : Str → Option PyFloat
  text : Json → Str

/-- An integer from here on is rounded to a power of two that no float reaches. -/
def overflowBound : Nat := 2 ^ 1024 - 2 ^ 970

/-- An integer of more digits has no `str`. -/
def maxStrDigits : Nat := 4300

mutual
/-- Somewhere in the value is an integer that has no `str`. -/
def hasLongInt : Json → Bool
  | .int n => decide (10 ^ maxStrDigits ≤ n.natAbs)
  | .arr items => hasLongIntItems items
  | .obj members => hasLongIntMembers members
  | _ => false

def hasLongIntItems : List Json → Bool
  | [] => false
  | item :: rest => hasLongInt item || hasLongIntItems rest

def hasLongIntMembers : JsonDict → Bool
  | [] => false
  | (_, value) :: rest => hasLongInt value || hasLongIntMembers rest
end

/-- This is `bool(value)`. -/
def truthy : Json → Bool
  | .null => false
  | .bool b => b
  | .int n => n != 0
  | .float x => decide (x.rank ≠ some (0, 0))
  | .str s => !s.isEmpty
  | .arr items => !items.isEmpty
  | .obj members => !members.isEmpty

/-- This is `float(value)`. -/
def toFloat (c : Conversions) : Json → Except PyError PyFloat
  | .bool b => .ok (if b then onePointZero else Retrieval.zeroPointZero)
  | .int n => if overflowBound ≤ n.natAbs then .error .overflowError else .ok (c.ofInt n)
  | .float x => .ok x
  | .str s => (c.ofText s).elim (.error .valueError) .ok
  | _ => .error .typeError

/-- This is `str(value)`. -/
def toStr (c : Conversions) : Json → Except PyError Str
  | .str s => .ok s
  | value => if hasLongInt value then .error .valueError else .ok (c.text value)

/-- This is the loop over `(payload or {}).get("verdicts") or []`: a text gives its characters and an
object its keys. -/
def rowsOf (payload : Option JsonDict) : Except PyError (List Json) :=
  let verdicts := (payload.bind fun members => Dict.get? members "verdicts".toList).getD .null
  if truthy verdicts then
    match verdicts with
    | .arr items => .ok items
    | .str s => .ok (s.map fun char => .str [char])
    | .obj members => .ok (members.map fun member => .str member.1)
    | _ => .error .typeError
  else .ok []

/-- This is `ConflictVerdict` with its reason. -/
structure ReasonedVerdict extends ConflictVerdict where
  reason : Str

variable (c : Conversions) (existing : List ConflictCandidate) (minConfidence : PyFloat)

/-- This is `float(raw.get("confidence", 0.0))`; a `TypeError` or a `ValueError` is caught. -/
def confidenceOf (members : JsonDict) : Except PyError (Option PyFloat) :=
  match toFloat c ((Dict.get? members "confidence".toList).getD (.float Retrieval.zeroPointZero)) with
  | .ok confidence => .ok (some confidence)
  | .error .overflowError => .error .overflowError
  | .error _ => .ok none

/-- This is one round of the loop, which skips a malformed row. -/
def readRow : Json → Except PyError (Option ReasonedVerdict)
  | .obj members =>
      match relationOf (Dict.get? members "relation".toList),
        candidateAt existing (Dict.get? members "index".toList) with
      | some relation, some candidate => do
          let confidence ← confidenceOf c members
          match confidence with
          | none => return none
          | some confidence =>
              if confidence.lt minConfidence then return none
              else
                let reason ← toStr c ((Dict.get? members "reason".toList).getD (.str []))
                return some ⟨⟨candidate.memoryId, relation, clamp confidence⟩, reason.take 200⟩
      | _, _ => return none
  | _ => return none

/-- This is the loop over the rows. -/
def readRows : List Json → Except PyError (List ReasonedVerdict)
  | [] => return []
  | raw :: rest => do
      let verdict ← readRow c existing minConfidence raw
      let verdicts ← readRows rest
      return verdict.toList ++ verdicts

/-- This is `_parse`. -/
def parse_ (payload : Option JsonDict) : Except PyError (List ReasonedVerdict) := do
  let rows ← rowsOf payload
  readRows c existing minConfidence rows

end Kortex.ConflictJudge
