import Kortex.Model.Harnesses

/-
This file models how `llm/bedrock.py` finds an object in the answer of a model: `extract_json`.
-/

namespace Kortex.Bedrock

open Harnesses (Decoder maxDigits)

def fence : Str := "```"

/-- This is the text up to the next fence, or all of it. -/
def beforeFence : Str → Str
  | [] => []
  | c :: rest => if Str.startsWith (c :: rest) fence then [] else c :: beforeFence rest

def removePrefix (word s : Str) : Str := if Str.startsWith s word then s.drop word.length else s

/-- This is `candidate[start : end + 1]` from the first opening to the last closing brace. -/
def braced (candidate : Str) : Option Str :=
  match (candidate.dropWhile (· != '{')).rdropWhile (· != '}') with
  | [] => none
  | part => some part

/-- This is `json.loads`, where `some none` stands for a `JSONDecodeError` and `none` for the error of an
integer with too many digits, which is no `JSONDecodeError`. -/
def decode (decoder : Decoder) (s : Str) : Option (Option Json) :=
  if Json.overlong decoder.round maxDigits s then none else some (Json.loads decoder.round s)

/-- This is `parsed if isinstance(parsed, dict) else None`. -/
def asDict : Json → Option JsonDict
  | .obj members => some members
  | _ => none

/-- This is the end of `extract_json`: the whole candidate decodes, or what stands between its braces. -/
def recover (decoder : Decoder) (candidate : Str) : Option (Option JsonDict) :=
  match decode decoder candidate with
  | none => none
  | some (some parsed) => some (asDict parsed)
  | some none =>
      match braced candidate with
      | none => some none
      | some part => (decode decoder part).map fun parsed => parsed.bind asDict

/-- This is `extract_json`, where `none` stands for the error that it lets through. -/
def extractJson (decoder : Decoder) (text : Str) : Option (Option JsonDict) :=
  if text = [] then some none
  else
    let candidate := Str.strip text
    if Str.startsWith candidate fence then
      recover decoder (Str.strip (removePrefix "json" (beforeFence (candidate.drop 3))))
    else recover decoder candidate

end Kortex.Bedrock
