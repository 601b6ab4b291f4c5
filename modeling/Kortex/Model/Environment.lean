import Kortex.Library.Json
import Kortex.Library.JsonDecode
import Kortex.Library.Regex
import Kortex.Model.Types

/-
This file gives the settings and library functions that the code reads, and models `dedup.py`.
-/

namespace Kortex

/-- A finding of the PII scan is recorded, replaced, or raises the sensitivity. -/
inductive PiiPolicy where
  | tag
  | redact
  | escalate
deriving DecidableEq

/-- These are the settings with their defaults. -/
structure Settings where
  jwtAccessTtlSeconds : Int := 3600
  jwtRefreshTtlSeconds : Int := 60 * 60 * 24 * 30
  apiKeyPrefixLength : Nat := 8
  apiKeySecretLength : Nat := 43
  retrievalMaxHops : Nat := 3
  retrievalMaxCandidates : Nat := 200
  retrievalTopKVector : Nat := 50
  retrievalTopKBm25 : Nat := 50
  retrievalRrfK : Nat := 60
  conflictDetection : Bool := true
  conflictSimilarityThreshold : PyFloat := zeroPointEightTwo
  conflictMaxCandidates : Nat := 5
  conflictBatchSize : Nat := 32
  dedupOnWrite : Bool := true
  piiDetection : Bool := true
  piiPolicy : PiiPolicy := .tag
  trustFiltering : Bool := true
  reviewConfidenceThreshold : PyFloat := zeroPointFive
  injectionQuarantine : Bool := true
  embedderModel : List Char := "BAAI/bge-large-en-v1.5".toList
  embedderBatchSize : Nat := 64
  embedMaxAttempts : Nat := 5
  embedRetryBaseSeconds : Nat := 60

end Kortex

namespace Kortex

structure Environment where
  settings : Settings
  /-- This is the SHA-256 of the UTF-8 bytes in hexadecimal digits. -/
  sha256 : Str → Str
  /-- This is `unicodedata.normalize("NFKC", text)`. -/
  nfkc : Str → Str
  unicode : Unicode
  /-- This is the format specification `.2f`. -/
  twoDecimals : PyFloat → Str
  /-- The embedder may fail. -/
  embed : Str → Option (List PyFloat)
  embedderModelId : Str
  /-- This is the spelling of an address in an INET column, which may refuse it. -/
  inet : Str → Option Str
  /-- This is `repr` of a value that `json.loads` returned. -/
  repr : Json → Str

/-- This is `re.sub(r"\s+", " ", text)`; the flag says that the text before ended in whitespace. -/
def collapseFrom : Bool → Str → Str
  | _, [] => []
  | inSpace, c :: rest =>
      if Str.isSpace c then (if inSpace then collapseFrom true rest else ' ' :: collapseFrom true rest)
      else c :: collapseFrom false rest

def collapse (s : Str) : Str := collapseFrom false s

def fieldSeparator : Char := Char.ofNat 0x1f

variable (env : Environment)

/-- This is `normalize_content`. -/
def normalizeContent (text : Str) : Str := Str.strip (collapse (env.nfkc text))

/-- This is `content_hash`. -/
def contentHash (title body : Str) : Str :=
  env.sha256 (normalizeContent env title ++ [fieldSeparator] ++ normalizeContent env body)

/-- This environment is right for ASCII text, over the given hash function. -/
def Environment.ascii (sha256 : Str → Str) : Environment where
  settings := {}
  sha256 := sha256
  nfkc text := text
  unicode := Unicode.ascii
  twoDecimals x := x.text
  embed _ := none
  embedderModelId := "none"
  inet address := some address
  repr value := Json.dumps {} value

end Kortex
