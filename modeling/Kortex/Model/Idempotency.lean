import Kortex.Library.JsonRoundTrip
import Kortex.Model.Environment

/-
This file models `IdempotencyMiddleware` over a Redis cache, with the requests interleaved.
-/

namespace Kortex

/-- This is `s.split(c, 1)` when the separator occurs. -/
def splitOnce (c : Char) (s : Str) : Option (Str × Str) :=
  if c ∈ s then some (s.takeWhile (· != c), (s.dropWhile (· != c)).drop 1) else none

/-- This is `parse_api_key`: the text `kx_<prefix>_<secret>` with the configured lengths. -/
def parseApiKey (settings : Settings) (plaintext : Str) : Option (Str × Str) := do
  let (mark, rest) ← splitOnce '_' plaintext
  let (start, secret) ← splitOnce '_' rest
  if mark = "kx".toList ∧ start.length = settings.apiKeyPrefixLength ∧
      secret.length = settings.apiKeySecretLength then some (start, secret) else none

namespace Idempotency

/-- A request has its target, the headers that are read and its body. -/
structure Request where
  method : Str
  path : Str
  query : Str
  xApiKey : Option Str
  authorization : Option Str
  idempotencyKey : Option Str
  body : List UInt8
deriving DecidableEq

structure Response where
  status : Nat
  body : Str
  mediaType : Option Str
  headers : Dict Str Str
deriving DecidableEq

/-- Header values are Latin-1, where only ASCII letters have an ASCII lower case. -/
def lower (s : Str) : Str := s.map Str.asciiLower

/-- This is `authz.split(" ", 1)[1]`. -/
def bearerToken (authorization : Str) : Str := ((splitOnce ' ' authorization).map Prod.snd).getD []

def isBearer (authorization : Str) : Bool := Str.startsWith (lower authorization) "bearer "

/-- The principal of a request is resolved from one of these, or from nothing. -/
inductive Credential where
  | apiKey (plaintext : Str)
  | jwt (token : Str)
  | anonymous
deriving DecidableEq

/-- This is the choice of `authenticated_principal`. -/
def credential (r : Request) : Credential :=
  let authorization := r.authorization.getD []
  let apiKey := match r.xApiKey with
    | none => if Str.startsWith (lower authorization) "bearer kx_" then bearerToken authorization else []
    | some key => key
  if apiKey ≠ [] then .apiKey apiKey
  else if isBearer authorization then .jwt (bearerToken authorization)
  else .anonymous

/-- This is `_principal_token`. -/
def principalToken (settings : Settings) (r : Request) : Str :=
  let rawKey := r.xApiKey.getD []
  if rawKey ≠ [] then
    match parseApiKey settings rawKey with
    | some parsed => "k:" ++ parsed.1
    | none => "k:" ++ rawKey.take 12
  else
    let authz := r.authorization.getD []
    if isBearer authz then "j:" ++ (bearerToken authz).take 12 else "anon"

/-- The cache key names the request by this text before the hash of its body. -/
def shortName (settings : Settings) (r : Request) : Str :=
  principalToken settings r ++ ":" ++ r.method ++ ":" ++ r.path ++ ":" ++ r.idempotencyKey.getD []

/-- This is `cache_key`; the parameter is the SHA-256 of a body in hexadecimal digits. -/
def cacheKey (settings : Settings) (sha256 : List UInt8 → Str) (r : Request) : Str :=
  "idem:" ++ shortName settings r ++ ":" ++ (sha256 r.body).take 16

/-- Only a mutating request with a key of at most 200 characters is guarded. -/
def guarded (r : Request) : Bool :=
  (r.method == "POST".toList || r.method == "PATCH".toList || r.method == "PUT".toList ||
    r.method == "DELETE".toList) &&
    (r.idempotencyKey.getD []) != [] && decide ((r.idempotencyKey.getD []).length ≤ 200)

def inflightSentinel : Str := Char.ofNat 0 :: "inflight"

/-- The payload leaves out the headers that belong to one transfer. -/
def payload (response : Response) : Json :=
  .obj [("status", .int response.status), ("body", .str response.body),
    ("media_type", response.mediaType.elim .null .str),
    ("headers", .obj ((response.headers.filter fun h =>
      lower h.1 ≠ "content-length".toList && lower h.1 ≠ "transfer-encoding".toList).map
        fun h => (h.1, .str h.2)))]

/-- The headers of a payload are a dictionary of strings. -/
def readHeaders : List (Str × Json) → Option (Dict Str Str)
  | [] => some []
  | (name, .str value) :: rest => (readHeaders rest).map fun headers => (name, value) :: headers
  | _ => none

/-- This is the replayed response of a payload; a payload of another shape is corrupted. -/
def readPayload (blob : Json) : Option Response :=
  match blob with
  | .obj members => do
      let .str body ← Dict.get? members "body".toList | none
      let .int status ← Dict.get? members "status".toList | none
      let mediaType := match Dict.get? members "media_type".toList with
        | some (.str (c :: s)) => c :: s
        | _ => "application/json".toList
      let headers ← match Dict.get? members "headers".toList with
        | some (.obj headers) => readHeaders headers
        | _ => some []
      return { status := status.toNat, body := body, mediaType := some mediaType
               headers := Dict.set headers "Idempotent-Replay".toList "true".toList }
  | _ => none

/-- Redis holds a text for each key; the request that wrote it is recorded beside it. -/
structure Entry where
  text : Str
  producer : Request

/-- A guarded request looks up its key, reserves it, and runs or finds the key taken. -/
inductive Phase where
  | idle
  | missed (request : Request)
  | blocked (request : Request)
  | running (request : Request)
  | done

/-- A replay records the request, the producer of the cached text and the response. -/
structure Replay where
  request : Request
  producer : Request
  response : Response

structure State where
  cache : Str → Option Entry
  phase : Nat → Phase
  replays : List Replay

/-- Every command to Redis may fail; the flags say whether it went through. -/
inductive Event where
  | dispatch (id : Nat) (request : Request) (getOk deleteOk : Bool)
  | reserve (id : Nat) (setOk : Bool)
  | recheck (id : Nat) (getOk deleteOk : Bool)
  | respond (id : Nat) (response : Response) (redisOk : Bool)
  | crash (id : Nat) (deleteOk : Bool)
  | expire (key : Str)

namespace State

def setPhase (s : State) (id : Nat) (phase : Phase) : State :=
  { s with phase := Function.update s.phase id phase }

def setCache (s : State) (key : Str) (entry : Option Entry) : State :=
  { s with cache := Function.update s.cache key entry }

end State

section

variable (settings : Settings) (sha256 : List UInt8 → Str)

/-- This is `_try_replay`: a lookup that returns the replay, or drops a corrupted entry. -/
def tryReplay (s : State) (request : Request) (getOk deleteOk : Bool) : State × Option Replay :=
  let key := cacheKey settings sha256 request
  if !getOk then (s, none)
  else match s.cache key with
    | none => (s, none)
    | some entry =>
        if entry.text = [] ∨ entry.text = inflightSentinel then (s, none)
        else match (Json.loads .finite entry.text).bind readPayload with
          | some response => (s, some ⟨request, entry.producer, response⟩)
          | none => (if deleteOk then s.setCache key none else s, none)

/-- The lookup ends the request with a replay, or sends it on to the given phase. -/
def lookup (s : State) (id : Nat) (request : Request) (getOk deleteOk : Bool) (next : Phase) :
    State :=
  match tryReplay settings sha256 s request getOk deleteOk with
  | (s, some replay) => { s.setPhase id .done with replays := s.replays ++ [replay] }
  | (s, none) => s.setPhase id next

/-- These are the steps of `dispatch` between the commands to Redis. -/
def step (s : State) : Event → State
  | .dispatch id request getOk deleteOk =>
      match s.phase id with
      | .idle =>
          if guarded request then lookup settings sha256 s id request getOk deleteOk (.missed request)
          else s.setPhase id .done
      | _ => s
  | .reserve id setOk =>
      match s.phase id with
      | .missed request =>
          let key := cacheKey settings sha256 request
          if !setOk then s.setPhase id (.running request)
          else match s.cache key with
            | none => (s.setCache key (some ⟨inflightSentinel, request⟩)).setPhase id (.running request)
            | some _ => s.setPhase id (.blocked request)
      | _ => s
  | .recheck id getOk deleteOk =>
      match s.phase id with
      | .blocked request => lookup settings sha256 s id request getOk deleteOk .done
      | _ => s
  | .respond id response redisOk =>
      match s.phase id with
      | .running request =>
          let key := cacheKey settings sha256 request
          let text := Json.dumps {} (payload response)
          let s := if !redisOk then s
            else if 200 ≤ response.status ∧ response.status < 300 then
              s.setCache key (some ⟨text, request⟩)
            else s.setCache key none
          s.setPhase id .done
      | _ => s
  | .crash id deleteOk =>
      match s.phase id with
      | .running request =>
          (if deleteOk then s.setCache (cacheKey settings sha256 request) none else s).setPhase id .done
      | _ => s
  | .expire key => s.setCache key none

end

def start : State := ⟨fun _ => none, fun _ => .idle, []⟩

def Event.request? : Event → Option Request
  | dispatch _ request _ _ => some request
  | _ => none

end Idempotency
end Kortex
