import Kortex.Model.JudgeOutput

/-
This file models `parse_response` of `voyage.py`, with the exceptions of Python.
-/

namespace Kortex.Voyage

open ConflictJudge (PyError toFloat)

/-- These are the conversions `float` and `int`. -/
structure Conversions extends ConflictJudge.Conversions where
  /-- This is `int(x)` of a finite float. -/
  truncate : FloatText → Int
  /-- This is `int(text)`, where `none` stands for its `ValueError`. -/
  intOfText : Str → Option Int

/-- These are the exceptions of a look into a row. -/
inductive RowError where
  | keyError
  | python (e : PyError)
deriving DecidableEq

/-- This is what an `EmbeddingError` says. -/
inductive EmbeddingError where
  | noDataArray (keys : List Str)
  | unusableIndex (cause : RowError)
  | wrongCount (expected got : Nat)

/-- These are the exceptions that leave the function. -/
inductive Raised where
  | embeddingError (e : EmbeddingError)
  | escaped (e : RowError)

/-- This is `row[name]`. -/
def field (name : Str) : Json → Except RowError Json
  | .obj members => (Dict.get? members name).elim (.error .keyError) .ok
  | _ => .error (.python .typeError)

variable (c : Conversions)

/-- This is `int(value)`. -/
def toInt : Json → Except PyError Int
  | .bool b => .ok (if b then 1 else 0)
  | .int n => .ok n
  | .float .nan => .error .valueError
  | .float (.inf _) => .error .overflowError
  | .float (.finite x) => .ok (c.truncate x)
  | .str s => (c.intOfText s).elim (.error .valueError) .ok
  | _ => .error .typeError

/-- This is `int(r["index"])`. -/
def indexOf (row : Json) : Except RowError Int := do
  let value ← field "index" row
  (toInt c value).mapError .python

/-- A loop over a text reads its characters, and a loop over an object its keys. -/
def iterate : Json → Except PyError (List Json)
  | .arr items => .ok items
  | .str s => .ok (s.map fun char => .str [char])
  | .obj members => .ok (members.map fun member => .str member.1)
  | _ => .error .typeError

/-- This is `[float(x) for x in row["embedding"]]`. -/
def vectorOf (row : Json) : Except RowError (List PyFloat) := do
  let value ← field "embedding" row
  let items ← (iterate value).mapError .python
  (items.mapM (toFloat c.toConversions)).mapError .python

/-- This is `sorted(rows, key=...)` with the keys that were read. -/
def ordered (indices : List Int) (rows : List Json) : List Json :=
  ((indices.zip rows).insertionSort (fun a b => a.1 ≤ b.1)).map Prod.snd

/-- This is `parse_response`. -/
def parseResponse (payload : JsonDict) (expected : Nat) : Except Raised (List (List PyFloat)) :=
  match Dict.get? payload "data" with
  | some (.arr rows) =>
      match rows.mapM (indexOf c) with
      | .error (.python .overflowError) => .error (.escaped (.python .overflowError))
      | .error cause => .error (.embeddingError (.unusableIndex cause))
      | .ok indices =>
          match (ordered indices rows).mapM (vectorOf c) with
          | .error e => .error (.escaped e)
          | .ok vectors =>
              if vectors.length ≠ expected then
                .error (.embeddingError (.wrongCount expected vectors.length))
              else .ok vectors
  | _ =>
      .error (.embeddingError (.noDataArray
        ((payload.map Prod.fst).insertionSort fun s t => Str.le s t = true)))

end Kortex.Voyage
