import Kortex.Model.MemoryLinks
import Kortex.Model.MemoryTool
import Kortex.Model.Signup

/-
This file models the calls of the Python SDK that change something: the headers and the retries of the
client, `IdempotencyMiddleware` and the handlers of the server.
-/

namespace Kortex

namespace SdkClient

/-- These are the calls that change something. A memory is remembered with `force`. -/
inductive Call where
  | remember (payload : CreateMemoryInput) (embedInline : Bool)
  | memoryTool (scope : ScopeFilter) (sensitivity : Sensitivity) (command : JsonDict)
      (edits : MemoryTool.commandOf (Dict.get? command "command".toList) ∈
        [some MemoryTool.Command.insert, some .strReplace])
  | update (publicId : Uuid) (patch : MemoryPatch)
  | register (email orgName : Str)
  | bulk (action : Str) (publicIds : List Uuid)

/-- These are the method and the path of the `Request` of a call. -/
def Call.target : Call → Str × Str
  | .remember _ _ => ("POST", "/v1/memories")
  | .memoryTool _ _ _ _ => ("POST", "/v1/memory-tool")
  | .update publicId _ => ("PATCH", "/v1/memories/" ++ publicId.str)
  | .register _ _ => ("POST", "/v1/auth/register")
  | .bulk _ _ => ("POST", "/v1/memories/bulk")

/-- This is `build_headers`; the third parameter is `KORTEX_API_KEY`. -/
def buildHeaders (apiKey token environmentKey : Option Str) (userAgent : Str) : Dict Str Str :=
  let headers : Dict Str Str := [("User-Agent", userAgent), ("Accept", "application/json")]
  match Audit.orElse apiKey (Audit.orElse environmentKey none) with
  | some key => Dict.set headers "X-API-Key".toList key
  | none => match Audit.orElse token none with
      | some token => Dict.set headers "Authorization".toList ("Bearer " ++ token)
      | none => headers

/-- This is `set_token`. -/
def setToken (headers : Dict Str Str) (token : Str) : Dict Str Str :=
  Dict.set (headers.filter fun h => h.1 ≠ "X-API-Key".toList) "Authorization".toList ("Bearer " ++ token)

/-- A client gets its headers when it is made, and changes them with each login. -/
inductive Built : Dict Str Str → Prop
  | init (apiKey token environmentKey : Option Str) (userAgent : Str) :
      Built (buildHeaders apiKey token environmentKey userAgent)
  | setToken (headers : Dict Str Str) (token : Str) (built : Built headers) :
      Built (setToken headers token)

structure Client where
  headers : Dict Str Str
  built : Built headers
  maxRetries : Int := 3

/-- A server finds a header by its name in lower case. -/
def header (headers : Dict Str Str) (name : Str) : Option Str :=
  (headers.find? fun h => Idempotency.lower h.1 == name).map Prod.snd

/-- The query and the body of a request encode the arguments of its call. -/
structure Encoding where
  query : Call → Str
  body : Call → List UInt8

/-- This is the request that `_send` sends in every attempt, as the middleware reads it. -/
def httpRequest (encoding : Encoding) (client : Client) (call : Call) : Idempotency.Request where
  method := call.target.1
  path := call.target.2
  query := encoding.query call
  xApiKey := header client.headers "x-api-key".toList
  authorization := header client.headers "authorization".toList
  idempotencyKey := header client.headers "idempotency-key".toList
  body := encoding.body call

/-- The functions of the server, and the principal of the client's credential. -/
structure Deployment where
  env : Environment
  /-- This is `str.lower`. -/
  lower : Str → Str
  /-- The column of the emails compares them without regard to case. -/
  fold : Str → Str
  bodySha256 : List UInt8 → Str
  principal : Principal

/-- What one execution of a request finds outside its arguments, and how the server answers it. -/
structure Execution where
  context : CallContext
  hex : Str := []
  reply : Idempotency.Response

variable (d : Deployment)

def backend (scope : ScopeFilter) (sensitivity : Sensitivity) : MemoryTool.Backend :=
  ⟨d.env, d.principal, scope, sensitivity⟩

/-- A handler that returns commits, and an exception rolls back. -/
def commit {α : Type} (s : Store) (result : Except ServiceError (α × Session)) : Store :=
  { s with db := (MemoryService.afterCall ⟨s.db, {}⟩ result).db }

/-- This is the handler of a call, with the session of its request. -/
def handle (call : Call) (s : Store) (e : Execution) : Store :=
  match call with
  | .remember payload embedInline =>
      commit s (MemoryService.write d.env d.principal e.context ⟨s.db, {}⟩ payload embedInline true)
  | .memoryTool scope sensitivity command _ =>
      commit s (MemoryTool.execute (backend d scope sensitivity) e.context ⟨s.db, {}⟩ command)
  | .update publicId patch =>
      commit s (MemoryService.update d.principal e.context ⟨s.db, {}⟩ publicId patch)
  | .register email orgName =>
      match SignupService.register d.env d.lower d.fold e.context e.hex s email orgName with
      | .ok s => s
      | .error _ => s
  | .bulk action publicIds =>
      commit s (MemoryService.bulkApply d.env d.principal e.context action ⟨s.db, {}⟩ publicIds)

/-- The server has its tables and the Redis of the middleware. -/
structure Server where
  store : Store
  cache : Idempotency.State := Idempotency.start

/-- This is the middleware around a handler, while Redis is available. -/
def process (call : Call) (request : Idempotency.Request) (id : Nat) (s : Server) (e : Execution) :
    Server :=
  let step := Idempotency.step d.env.settings d.bodySha256
  let cache := step s.cache (.dispatch id request true true)
  if Idempotency.guarded request then
    let cache := step cache (.reserve id true)
    match cache.phase id with
    | .running _ => ⟨handle d call s.store e, step cache (.respond id e.reply true)⟩
    | _ => { s with cache := step cache (.recheck id true true) }
  else ⟨handle d call s.store e, cache⟩

/-- An attempt reaches the server or not, and ends with a status or a transport error, whatever the
server has done. -/
structure Attempt where
  execution : Option Execution
  status : Option Nat

def retryStatuses : List Nat := [429, 500, 502, 503, 504]

/-- This is `should_retry`. -/
def shouldRetry (status : Option Nat) (attempt : Nat) (maxRetries : Int) : Bool :=
  if maxRetries < attempt then false else status.all fun status => decide (status ∈ retryStatuses)

variable (encoding : Encoding) (client : Client) (call : Call) (attempts : Nat → Attempt)

/-- One attempt at a call; the attempts have their numbers as ids. -/
def arrive (s : Server) (n : Nat) : Server :=
  match (attempts n).execution with
  | none => s
  | some e => process d call (httpRequest encoding client call) n s e

/-- This is the loop of `_send`, which ends with the status of its last attempt. -/
def sendLoop : Nat → Nat → Server → Option (Server × Option Nat)
  | 0, _, _ => none
  | fuel + 1, n, s =>
      let s := arrive d encoding client call attempts s n
      if shouldRetry (attempts n).status n client.maxRetries then sendLoop fuel (n + 1) s
      else some (s, (attempts n).status)

/-- This is `_send`, which makes one attempt more than it may retry at most. -/
def send (s : Server) : Option (Server × Option Nat) :=
  sendLoop d encoding client call attempts (client.maxRetries.toNat + 1) 1 s

end SdkClient
end Kortex
